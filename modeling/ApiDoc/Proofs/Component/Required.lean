import ApiDoc.Proofs.Component.Catalog

/-!
# Required names of components

What a component requires is always one of its properties.  A name is required twice
exactly if the entities give it twice: a model by two columns, two computed attributes, or
one of each, a class by listing a field again.
-/

namespace ApiDoc

/-- An attribute that is always there has an accessor, and so a schema. -/
theorem ComputedAttribute.isSome_schema?_of_isRequired (now : Moment) {a : ComputedAttribute}
    (h : a.isRequired = true) : (a.schema? now).isSome := by
  cases haccessor : a.accessor with
  | none => simp [isRequired, haccessor] at h
  | some accessor => simp [schema?, haccessor]

/-- The field for the required names is left out if there are none. -/
theorem getD_required (names : List String) :
    (if names.isEmpty then none else some names).getD [] = names := by
  cases names with
  | nil => rfl
  | cons name rest => rfl

namespace Model

variable {m : Model} {columns : List Column}

/-- The columns and computed attributes that are always there have names of their own. -/
structure RequiresOnce (m : Model) (columns : List Column) : Prop where
  ofColumns : ((m.visible columns).filter fun c => !c.nullable).Pairwise fun c d =>
    c.name ≠ d.name
  ofAttributes : (m.computed.filter ComputedAttribute.isRequired).Pairwise fun a b =>
    a.name ≠ b.name
  apart : ∀ c ∈ m.visible columns, c.nullable = false → ∀ a ∈ m.computed,
    a.isRequired = true → c.name ≠ a.name

theorem nodup_requiredNames_iff :
    (m.requiredNames columns).Nodup ↔ m.RequiresOnce columns := by
  rw [requiredNames, List.nodup_append]
  constructor
  · rintro ⟨hcolumns, hattributes, hapart⟩
    refine ⟨List.pairwise_map.mp hcolumns, List.pairwise_map.mp hattributes, ?_⟩
    intro c hc hnullable a ha hrequired
    apply hapart
    · exact List.mem_map_of_mem (List.mem_filter.mpr ⟨hc, by simp [hnullable]⟩)
    · exact List.mem_map_of_mem (List.mem_filter.mpr ⟨ha, hrequired⟩)
  · rintro ⟨hcolumns, hattributes, hapart⟩
    refine ⟨List.pairwise_map.mpr hcolumns, List.pairwise_map.mpr hattributes, ?_⟩
    intro first hfirst second hsecond
    obtain ⟨c, hc, rfl⟩ := List.mem_map.mp hfirst
    obtain ⟨a, ha, rfl⟩ := List.mem_map.mp hsecond
    obtain ⟨hc, hnullable⟩ := List.mem_filter.mp hc
    obtain ⟨ha, hrequired⟩ := List.mem_filter.mp ha
    exact hapart c hc (by simpa using hnullable) a ha hrequired

/-- Whatever is always there is an entry. -/
theorem mem_keys_entries_of_mem_requiredNames (now : Moment) {name : String}
    (h : name ∈ m.requiredNames columns) : name ∈ Dict.keys (m.entries now columns) := by
  rw [entries, Dict.keys, List.map_append, List.map_append]
  rcases List.mem_append.mp h with hcolumn | hattribute
  · obtain ⟨c, hc, rfl⟩ := List.mem_map.mp hcolumn
    apply List.mem_append_left
    apply List.mem_append_left
    rw [List.map_map]
    exact List.mem_map_of_mem (List.mem_of_mem_filter hc)
  · obtain ⟨a, ha, rfl⟩ := List.mem_map.mp hattribute
    obtain ⟨ha, hrequired⟩ := List.mem_filter.mp ha
    apply List.mem_append_right
    rw [← Dict.keys, Dict.keys_filterMap]
    exact List.mem_map_of_mem (List.mem_filter.mpr
      ⟨ha, ComputedAttribute.isSome_schema?_of_isRequired now hrequired⟩)

theorem required_schema? {now : Moment} {s : Schema} (h : m.schema? now = some s) :
    (∀ name ∈ s.required.getD [], name ∈ Dict.keys (s.properties.getD [])) ∧
      ((s.required.getD []).Nodup ↔ ∀ columns ∈ m.columns, m.RequiresOnce columns) := by
  obtain ⟨columns, hcolumns, rfl⟩ := Option.map_eq_some_iff.mp h
  simp only [getD_required, Option.getD_some, hcolumns, Option.mem_some_iff, forall_eq']
  refine ⟨?_, nodup_requiredNames_iff⟩
  intro name hname
  exact Dict.mem_keys_ofList_iff.mpr (mem_keys_entries_of_mem_requiredNames now hname)

end Model

namespace SchemaClass

/-- The names that a tag lists as required. -/
def listedNames (entries : List (String × Json)) : List String :=
  (((Dict.find? entries "required").bind Json.asArr?).getD []).filterMap Json.asStr?

theorem requiredNames_eq_filter (entries : List (String × Json)) (properties : Dict Schema) :
    requiredNames entries properties = (listedNames entries).filter (Dict.has properties) := by
  rw [requiredNames, listedNames]
  cases Dict.find? entries "required" with
  | none => rfl
  | some value => cases value <;> rfl

/-- The comment of the class lists no field twice. -/
def RequiresOnce (c : SchemaClass) : Prop :=
  ∀ comment, CommentProperties.read c.comment "Schema" = .ok comment →
    ∀ f ∈ c.fields, (listedNames comment.entries).count f.name ≤ 1

theorem nodup_filter_iff {names : List String} {p : String → Bool} :
    (names.filter p).Nodup ↔ ∀ name, p name = true → names.count name ≤ 1 := by
  rw [List.nodup_iff_count_le_one]
  constructor
  · intro hcount name hname
    rw [← List.count_filter hname]
    exact hcount name
  · intro hcount name
    by_cases hname : p name = true
    · rw [List.count_filter hname]
      exact hcount name hname
    · have hnot : name ∉ names.filter p := fun hmem => hname (List.mem_filter.mp hmem).2
      rw [List.count_eq_zero_of_not_mem hnot]
      exact Nat.zero_le 1

theorem required_schema {now : Moment} {builders : Builders} {c : SchemaClass} {s : Schema}
    (h : c.schema now builders = .ok s) :
    (∀ name ∈ s.required.getD [], name ∈ Dict.keys (s.properties.getD [])) ∧
      ((s.required.getD []).Nodup ↔ c.RequiresOnce) := by
  obtain ⟨comment, hcomment, h⟩ := bind_eq_ok_iff.mp h
  obtain ⟨made, hmade, h⟩ := bind_eq_ok_iff.mp h
  obtain rfl := Except.ok.inj h
  have hnames : Dict.keys made = c.fields.map (·.name) := by
    refine map_eq_of_mapM (fun f hf entry hentry => ?_) hmade
    obtain ⟨shape, -, hentry⟩ := bind_eq_ok_iff.mp hentry
    rw [← Except.ok.inj hentry]
  have hfield : ∀ name, Dict.has (Dict.ofList made) name = true ↔
      ∃ f ∈ c.fields, f.name = name := by
    intro name
    rw [Dict.has, ← Dict.mem_keys_iff, Dict.mem_keys_ofList_iff, hnames, List.mem_map]
  simp only [getD_required, Option.getD_some, requiredNames_eq_filter]
  constructor
  · intro name hname
    exact Dict.mem_keys_iff.mpr (List.mem_filter.mp hname).2
  · rw [nodup_filter_iff]
    constructor
    · intro honce other hother f hf
      obtain rfl := Except.ok.inj (hcomment.symm.trans hother)
      exact honce f.name ((hfield f.name).mpr ⟨f, hf, rfl⟩)
    · intro honce name hname
      obtain ⟨f, hf, rfl⟩ := (hfield name).mp hname
      exact honce comment hcomment f hf

end SchemaClass

namespace Giver

/-- No name is required twice. -/
def RequiresOnce : Giver → Prop
  | .ofClass c => c.RequiresOnce
  | .ofModel m => ∀ columns ∈ m.columns, m.RequiresOnce columns

theorem required_schema? {now : Moment} {builders : Builders} {g : Giver} {s : Schema}
    (h : g.schema? now builders = some s) :
    (∀ name ∈ s.required.getD [], name ∈ Dict.keys (s.properties.getD [])) ∧
      ((s.required.getD []).Nodup ↔ g.RequiresOnce) := by
  cases g with
  | ofClass c => exact SchemaClass.required_schema (eq_ok_of_toOption h)
  | ofModel m => exact Model.required_schema? h

end Giver

namespace Entities

/-- Nothing that gives a component requires a name twice. -/
def RequiresOnce (e : Entities) : Prop :=
  ∀ name, ∀ g ∈ e.giver? name, g.RequiresOnce

/-- The required names of a component are names of its properties; no component repeats
one, exactly if nothing that gives a component does. -/
theorem required_schemas_iff {e : Entities} {now : Moment} {builders : Builders}
    {schemas : Dict Schema} (h : e.schemas now builders = .ok schemas) :
    (∀ entry ∈ schemas, ∀ name ∈ entry.2.required.getD [],
        name ∈ Dict.keys (entry.2.properties.getD [])) ∧
      ((∀ entry ∈ schemas, (entry.2.required.getD []).Nodup) ↔ e.RequiresOnce) := by
  constructor
  · rintro ⟨name, s⟩ hentry
    have hthere := Dict.find?_of_mem (increasing_schemas h) hentry
    rw [find?_schemas h] at hthere
    obtain ⟨g, -, hs⟩ := Option.bind_eq_some_iff.mp hthere
    exact (Giver.required_schema? hs).1
  · refine forall_mem_schemas_iff h (q := fun _ s => (s.required.getD []).Nodup)
      (r := fun _ g => g.RequiresOnce) ?_
    intro name g _ s hs
    exact (Giver.required_schema? hs).2

/-- A model with a nullable and a hidden column beside its attribute, and a class that takes
the place of another model, lists a name that is no field twice, and wraps a model by a builder
of its own. -/
theorem required_schemas_pets :
    let e : Entities :=
      { models :=
          [{ name := "Pet"
             columns := some [{ name := "id", type := "bigint" },
               { name := "label", type := "string", nullable := true },
               { name := "secret", type := "string" }]
             hidden := ["secret"]
             computed := [{ name := "label", accessor := some { returnType := some "string" } }] },
            { name := "Tag", columns := some [] }]
        classes :=
          [{ name := "Tag", comment := some "@Schema(required: [ghost, name, ghost])"
             fields :=
               [{ name := "name" },
                 { name := "pet", comment := some "@Property(ref: W(Pet))" }] }] }
    let builders := Builders.register {} "W" (.wrapping "item")
    ∃ schemas, e.schemas ⟨"", ""⟩ builders = .ok schemas ∧
      (Dict.find? schemas "Pet").bind Schema.required = some ["id", "label"] ∧
      (Dict.find? schemas "Tag").bind Schema.required = some ["name"] ∧
      e.RequiresOnce ∧
      ∀ entry ∈ schemas, ∀ name ∈ entry.2.required.getD [],
        name ∈ Dict.keys (entry.2.properties.getD []) := by
  intro e builders
  obtain ⟨schemas, hschemas, hpet, htag, honce⟩ : ∃ schemas,
      e.schemas ⟨"", ""⟩ builders = .ok schemas ∧
      (Dict.find? schemas "Pet").bind Schema.required = some ["id", "label"] ∧
      (Dict.find? schemas "Tag").bind Schema.required = some ["name"] ∧
      ∀ entry ∈ schemas, (entry.2.required.getD []).Nodup := by
    decide +kernel
  obtain ⟨hkeys, hiff⟩ := required_schemas_iff hschemas
  exact ⟨schemas, hschemas, hpet, htag, hiff.mp honce, hkeys⟩

/-- A computed attribute that takes the place of a column is required twice. -/
theorem not_required_once_user :
    let e : Entities :=
      { models :=
          [{ name := "User"
             columns := some [{ name := "email", type := "string" }]
             computed :=
               [{ name := "email", accessor := some { returnType := some "string" } }] }] }
    ∃ schemas, e.schemas ⟨"", ""⟩ {} = .ok schemas ∧
      (Dict.find? schemas "User").bind Schema.required = some ["email", "email"] ∧
      ¬ ∀ entry ∈ schemas, (entry.2.required.getD []).Nodup := by
  decide +kernel

end Entities

end ApiDoc
