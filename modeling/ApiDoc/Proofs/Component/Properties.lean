import ApiDoc.Proofs.Component.Catalog

/-!
# Where the properties of components come from

A property of a model is made from the last computed attribute of its name that has an
accessor, else from the last relation that has a target, else from the last visible column.
A property of a class is made from its last field of that name.
-/

namespace ApiDoc

theorem ComputedAttribute.isSome_schema? (now : Moment) (a : ComputedAttribute) :
    (a.schema? now).isSome = a.accessor.isSome :=
  Option.isSome_map

theorem Relation.isSome_schema? (r : Relation) : r.schema?.isSome = r.target.isSome :=
  Option.isSome_map

namespace Model

/-- What gives a property of a model. -/
inductive Part
  | column (c : Column)
  | relation (r : Relation)
  | computed (a : ComputedAttribute)

/-- The schema of a part; a relation or an attribute may have none. -/
def Part.schema? (now : Moment) : Part → Option Schema
  | .column c => some (c.schema now)
  | .relation r => r.schema?
  | .computed a => a.schema? now

/-- The computed attribute of a name: the last one that has an accessor. -/
def attribute? (m : Model) (name : String) : Option ComputedAttribute :=
  m.computed.reverse.find? fun a => a.accessor.isSome && a.name = name

/-- The relation of a name: the last one that has a target. -/
def relation? (m : Model) (name : String) : Option Relation :=
  m.relations.reverse.find? fun r => r.target.isSome && r.name = name

/-- The last visible column of a name. -/
def column? (m : Model) (columns : List Column) (name : String) : Option Column :=
  (m.visible columns).reverse.find? fun c => c.name = name

/-- The part that gives a property: an attribute before a relation before a column. -/
def part? (m : Model) (columns : List Column) (name : String) : Option Part :=
  ((m.attribute? name).map .computed).or
    (((m.relation? name).map .relation).or ((m.column? columns name).map .column))

variable {m : Model} {columns : List Column} {name : String}

theorem isSome_schema?_of_attribute? (now : Moment) {a : ComputedAttribute}
    (h : m.attribute? name = some a) : (a.schema? now).isSome := by
  rw [attribute?] at h
  have hfound := List.find?_some h
  rw [ComputedAttribute.isSome_schema?]
  exact (Bool.and_eq_true_iff.mp hfound).1

theorem isSome_schema?_of_relation? {r : Relation} (h : m.relation? name = some r) :
    r.schema?.isSome := by
  rw [relation?] at h
  have hfound := List.find?_some h
  rw [Relation.isSome_schema?]
  exact (Bool.and_eq_true_iff.mp hfound).1

/-- Each property has the schema of the part that gives it. -/
theorem find?_entries (now : Moment) (m : Model) (columns : List Column) (name : String) :
    Dict.find? (Dict.ofList (m.entries now columns)) name =
      (m.part? columns name).bind (Part.schema? now) := by
  have hattributes : Dict.find? (m.computed.reverse.filterMap fun a =>
      (a.schema? now).map fun s => (a.name, s)) name =
        (m.attribute? name).bind (ComputedAttribute.schema? now) := by
    simpa only [ComputedAttribute.isSome_schema?, attribute?] using
      Dict.find?_filterMap ComputedAttribute.name (ComputedAttribute.schema? now)
        m.computed.reverse name
  have hrelations : Dict.find? (m.relations.reverse.filterMap fun r =>
      r.schema?.map fun s => (r.name, s)) name = (m.relation? name).bind Relation.schema? := by
    simpa only [Relation.isSome_schema?, relation?] using
      Dict.find?_filterMap Relation.name Relation.schema? m.relations.reverse name
  have hcolumns : Dict.find? ((m.visible columns).reverse.map fun c => (c.name, c.schema now))
      name = (m.column? columns name).map (Column.schema now) :=
    Dict.find?_map Column.name (Column.schema now) (m.visible columns).reverse name
  -- The last entry of a name counts, so backwards the attributes are met first.
  rw [Dict.find?_ofList_reverse, entries, List.reverse_append, List.reverse_append,
    ← List.filterMap_reverse, ← List.filterMap_reverse, ← List.map_reverse, Dict.find?_append,
    Dict.find?_append, hattributes, hrelations, hcolumns, part?]
  cases hattribute : m.attribute? name with
  | some a =>
      obtain ⟨s, hs⟩ := Option.isSome_iff_exists.mp (isSome_schema?_of_attribute? now hattribute)
      simp [Part.schema?, hs]
  | none =>
      cases hrelation : m.relation? name with
      | some r =>
          obtain ⟨s, hs⟩ := Option.isSome_iff_exists.mp (isSome_schema?_of_relation? hrelation)
          simp [Part.schema?, hs]
      | none =>
          cases m.column? columns name with
          | some c => rfl
          | none => rfl

theorem part?_eq_some {part : Part} (h : m.part? columns name = some part) :
    (∃ a, m.attribute? name = some a ∧ part = .computed a) ∨
      (∃ r, m.relation? name = some r ∧ part = .relation r) ∨
      ∃ c, m.column? columns name = some c ∧ part = .column c := by
  rw [part?] at h
  rcases Option.or_eq_some_iff.mp h with hattribute | ⟨-, h⟩
  · obtain ⟨a, ha, rfl⟩ := Option.map_eq_some_iff.mp hattribute
    exact .inl ⟨a, ha, rfl⟩
  · rcases Option.or_eq_some_iff.mp h with hrelation | ⟨-, hcolumn⟩
    · obtain ⟨r, hr, rfl⟩ := Option.map_eq_some_iff.mp hrelation
      exact .inr (.inl ⟨r, hr, rfl⟩)
    · obtain ⟨c, hc, rfl⟩ := Option.map_eq_some_iff.mp hcolumn
      exact .inr (.inr ⟨c, hc, rfl⟩)

/-- What gives a property has a schema. -/
theorem isSome_schema?_of_part? (now : Moment) {part : Part}
    (h : m.part? columns name = some part) : (part.schema? now).isSome := by
  rcases part?_eq_some h with ⟨a, ha, rfl⟩ | ⟨r, hr, rfl⟩ | ⟨c, -, rfl⟩
  · exact isSome_schema?_of_attribute? now ha
  · exact isSome_schema?_of_relation? hr
  · rfl

end Model

namespace SchemaClass

/-- The last field of a name. -/
def field? (c : SchemaClass) (name : String) : Option ClassField :=
  c.fields.reverse.find? fun f => f.name = name

variable {now : Moment} {builders : Builders} {c : SchemaClass}

/-- The schema of a class is an object with the properties that its fields give, each with a
schema, and some required names. -/
theorem schema_eq_ok {s : Schema} (h : c.schema now builders = .ok s) :
    ∃ (properties : Dict Schema) (required : Option (List String)),
      s = { Schema.object with properties := some properties, required } ∧
      properties.Increasing ∧
      (∀ name, Dict.find? properties name =
        (c.field? name).bind fun f => (f.schema now builders c.name).toOption) ∧
      ∀ name, ∀ f ∈ c.field? name, (f.schema now builders c.name).toOption.isSome := by
  obtain ⟨comment, -, h⟩ := bind_eq_ok_iff.mp h
  obtain ⟨made, hmade, h⟩ := bind_eq_ok_iff.mp h
  obtain rfl := Except.ok.inj h
  refine ⟨Dict.ofList made, _, rfl, Dict.increasing_ofList made, ?_, ?_⟩
  · intro name
    rw [Dict.find?_ofList_reverse, find?_reverse_of_mapM hmade, field?]
  · intro name f hf
    obtain ⟨entry, hentry⟩ := exists_of_mapM hmade (mem_of_find?_reverse hf)
    obtain ⟨t, ht, -⟩ := bind_eq_ok_iff.mp hentry
    rw [ht]
    rfl

end SchemaClass

end ApiDoc
