import ApiDoc.Proofs.Component.Properties
import ApiDoc.Proofs.Component.Required

/-!
# Schemas of models

The schema of a model with a table has a property for each visible column, each relation that
has a target and each computed attribute that has an accessor.  Of things with one name an
attribute comes before a relation, a relation before a column, and a later one of a kind before
an earlier one.  Columns that are never null and attributes with a declared type are required,
whatever gives the property of their name in the end.
-/

namespace ApiDoc

/-- An attribute is always there if its accessor declares a type that is never null. -/
theorem ComputedAttribute.isRequired_iff {a : ComputedAttribute} :
    a.isRequired = true ↔ ∃ accessor ∈ a.accessor,
      (∃ type ∈ accessor.returnType, type ≠ "") ∧ accessor.nullable = false := by
  cases haccessor : a.accessor with
  | none => simp [isRequired, haccessor]
  | some accessor =>
      cases htype : accessor.returnType with
      | none => simp [isRequired, returnType?, haccessor, htype]
      | some type => simp [isRequired, returnType?, haccessor, htype, Option.filter]

namespace Model

variable {m : Model} {columns : List Column} {name : String}

theorem mem_visible_iff {c : Column} : c ∈ m.visible columns ↔ c ∈ columns ∧ c.name ∉ m.hidden := by
  rw [visible, List.mem_filter]
  simp

/-- A visible column, a relation with a target or an attribute with an accessor has the name. -/
def Has (m : Model) (columns : List Column) (name : String) : Prop :=
  (∃ c ∈ columns, c.name ∉ m.hidden ∧ c.name = name) ∨
    (∃ r ∈ m.relations, r.target.isSome ∧ r.name = name) ∨
    ∃ a ∈ m.computed, a.accessor.isSome ∧ a.name = name

/-- A visible column that is never null has the name, or an attribute with a declared type that
is never null. -/
def Requires (m : Model) (columns : List Column) (name : String) : Prop :=
  (∃ c ∈ columns, c.name ∉ m.hidden ∧ c.nullable = false ∧ c.name = name) ∨
    ∃ a ∈ m.computed, (∃ accessor ∈ a.accessor,
      (∃ type ∈ accessor.returnType, type ≠ "") ∧ accessor.nullable = false) ∧ a.name = name

theorem isSome_part?_iff : (m.part? columns name).isSome ↔ m.Has columns name := by
  have hattribute : (m.attribute? name).isSome ↔
      ∃ a ∈ m.computed, a.accessor.isSome ∧ a.name = name := by
    simp [attribute?, List.find?_isSome]
  have hrelation : (m.relation? name).isSome ↔
      ∃ r ∈ m.relations, r.target.isSome ∧ r.name = name := by
    simp [relation?, List.find?_isSome]
  have hcolumn : (m.column? columns name).isSome ↔
      ∃ c ∈ columns, c.name ∉ m.hidden ∧ c.name = name := by
    simp [column?, List.find?_isSome, mem_visible_iff, and_assoc]
  rw [part?, Option.isSome_or, Option.isSome_or, Option.isSome_map, Option.isSome_map,
    Option.isSome_map, Bool.or_eq_true, Bool.or_eq_true, hattribute, hrelation, hcolumn, or_rotate,
    or_left_comm, Has]

theorem mem_requiredNames_iff : name ∈ m.requiredNames columns ↔ m.Requires columns name := by
  simp [requiredNames, Requires, mem_visible_iff, ComputedAttribute.isRequired_iff, and_assoc]

/-- The schema shows what the model has, with the last of each kind that has a name, and an
attribute before a relation before a column. -/
structure Shows (now : Moment) (m : Model) (columns : List Column) (s : Schema) : Prop where
  object : s.type = some "object"
  names : ∀ name, name ∈ Dict.keys (s.properties.getD []) ↔ m.Has columns name
  ofAttributes : ∀ name, ∀ a ∈ m.attribute? name,
    Dict.find? (s.properties.getD []) name = a.schema? now
  ofRelations : ∀ name, m.attribute? name = none → ∀ r ∈ m.relation? name,
    Dict.find? (s.properties.getD []) name = r.schema?
  ofColumns : ∀ name, m.attribute? name = none → m.relation? name = none →
    ∀ c ∈ m.column? columns name,
      Dict.find? (s.properties.getD []) name = some (c.schema now)
  required : ∀ name, name ∈ s.required.getD [] ↔ m.Requires columns name

/-- What the schema of a model with a table is made of: each property has the schema of the part
that gives it. -/
theorem exists_schema?_eq_some (now : Moment) (hcolumns : m.columns = some columns) :
    ∃ s, m.schema? now = some s ∧ s.type = some "object" ∧
      Dict.Increasing (s.properties.getD []) ∧
      (∀ name, Dict.find? (s.properties.getD []) name =
        (m.part? columns name).bind (Part.schema? now)) ∧
      s.required.getD [] = m.requiredNames columns := by
  rw [schema?, hcolumns, Option.map_some]
  exact ⟨_, rfl, rfl, Dict.increasing_ofList _, m.find?_entries now columns, getD_required _⟩

/-- A model with a table has a schema, which shows what the model has; its properties have
increasing names, so each name stands once. -/
theorem exists_schema?_shows (now : Moment) (hcolumns : m.columns = some columns) :
    ∃ s, m.schema? now = some s ∧ Dict.Increasing (s.properties.getD []) ∧
      m.Shows now columns s := by
  obtain ⟨s, hs, hobject, hincreasing, hfind, hrequired⟩ := exists_schema?_eq_some now hcolumns
  refine ⟨s, hs, hincreasing, hobject, ?_, ?_, ?_, ?_, ?_⟩
  · intro name
    rw [← isSome_part?_iff, Dict.mem_keys_iff, hfind]
    cases hpart : m.part? columns name with
    | none => rfl
    | some part => exact iff_of_true (isSome_schema?_of_part? now hpart) rfl
  · intro name a ha
    rw [hfind, part?, Option.mem_def.mp ha]
    rfl
  · intro name hattribute r hr
    rw [hfind, part?, hattribute, Option.mem_def.mp hr]
    rfl
  · intro name hattribute hrelation c hc
    rw [hfind, part?, hattribute, hrelation, Option.mem_def.mp hc]
    rfl
  · intro name
    rw [hrequired]
    exact mem_requiredNames_iff

/-- An attribute, a relation and two columns of one name, and a hidden column. -/
theorem exists_schema?_shows_pet :
    let columns : List Column :=
      [{ name := "owner", type := "bigint" }, { name := "owner", type := "text", nullable := true },
        { name := "secret", type := "string" }]
    let m : Model :=
      { name := "Pet", columns := some columns, hidden := ["secret"]
        relations := [{ name := "owner", target := some "Owner" }, { name := "home" }]
        computed := [{ name := "owner", accessor := some { returnType := some "Person" } }] }
    m.columns = some columns ∧ ∃ s, m.schema? ⟨"", ""⟩ = some s ∧
      Dict.keys (s.properties.getD []) = ["owner"] ∧
      (Dict.find? (s.properties.getD []) "owner").bind Schema.reference =
        some "#/components/schemas/Person" ∧
      s.required = some ["owner", "owner"] ∧ m.Shows ⟨"", ""⟩ columns s := by
  intro columns m
  have hcolumns : m.columns = some columns := rfl
  obtain ⟨s, hs, -, hshows⟩ := exists_schema?_shows ⟨"", ""⟩ hcolumns
  obtain ⟨made, hmade, hkeys, hreference, hrequired⟩ : ∃ s, m.schema? ⟨"", ""⟩ = some s ∧
      Dict.keys (s.properties.getD []) = ["owner"] ∧
      (Dict.find? (s.properties.getD []) "owner").bind Schema.reference =
        some "#/components/schemas/Person" ∧ s.required = some ["owner", "owner"] := by
    decide +kernel
  obtain rfl := Option.some.inj (hs.symm.trans hmade)
  exact ⟨hcolumns, s, hs, hkeys, hreference, hrequired, hshows⟩

end Model

end ApiDoc
