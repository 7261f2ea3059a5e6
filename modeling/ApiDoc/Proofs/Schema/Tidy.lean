import ApiDoc.Proofs.Json.Members
import ApiDoc.Schema.Codec
import ApiDoc.Schema.Collapse

/-!
# Tidy schemas

A schema is tidy if nothing in it can make its object repeat a key: the values it holds
repeat none, properties and extensions stand in order, and no extension has the name of
a field, in the schema and in all schemas inside it.  A tidy schema is written without
repeated keys, and finishing its element slots keeps it tidy.
-/

namespace ApiDoc

/-- The schemas of the elements, in either form. -/
def Items.schemas {α : Type} : Items α → List α
  | .list slots => slots
  | .single item => [item]

namespace Schema

open Json (Extends Fields)

/-- A property of a schema and of all schemas inside it. -/
inductive All (p : Schema → Prop) : Schema → Prop
  | intro {s : Schema} (here : p s)
      (inProperties : ∀ properties ∈ s.properties, ∀ entry ∈ properties, All p entry.2)
      (inItems : ∀ items ∈ s.items, ∀ item ∈ items.schemas, All p item) : All p s

/-- The names of the fields, as they are written. -/
def fieldNames : List String :=
  ["$ref", "type", "format", "description", "nullable", "enum", "default", "example", "minimum",
    "maximum", "minLength", "maxLength", "minItems", "maxItems", "properties", "items",
    "required"]

/-- The fields that are written. -/
def fields (s : Schema) : List (String × Json) :=
  Json.optionalMember "$ref" .str s.reference ++
    Json.optionalMember "type" .str s.type ++
    Json.optionalMember "format" .str s.format ++
    Json.optionalMember "description" .str s.description ++
    Json.optionalMember "nullable" .bool s.nullable ++
    Json.optionalMember "enum" .arr s.enum ++
    Json.optionalMember "default" id s.default ++
    Json.optionalMember "example" id s.sample ++
    Json.optionalMember "minimum" id s.minimum ++
    Json.optionalMember "maximum" id s.maximum ++
    Json.optionalMember "minLength" .ofNat s.minLength ++
    Json.optionalMember "maxLength" .ofNat s.maxLength ++
    Json.optionalMember "minItems" .ofNat s.minItems ++
    Json.optionalMember "maxItems" .ofNat s.maxItems ++
    propertiesMember s.properties ++
    itemsMember s.items ++
    Json.optionalMember "required" (fun names => .arr (names.map .str)) s.required

theorem toJson_eq_obj (s : Schema) : s.toJson = .obj (s.fields ++ s.extensions) := by
  cases s
  rfl

/-- The values that a schema holds as they are. -/
def values (s : Schema) : List Json :=
  s.enum.getD [] ++ s.default.toList ++ s.sample.toList ++ s.minimum.toList ++
    s.maximum.toList

theorem forall_mem_values {p : Json → Prop} {s : Schema} :
    (∀ j ∈ s.values, p j) ↔
      (∀ js ∈ s.enum, ∀ j ∈ js, p j) ∧ (∀ j ∈ s.default, p j) ∧ (∀ j ∈ s.sample, p j) ∧
        (∀ j ∈ s.minimum, p j) ∧ ∀ j ∈ s.maximum, p j := by
  have henum : (∀ j ∈ s.enum.getD [], p j) ↔ ∀ js ∈ s.enum, ∀ j ∈ js, p j := by
    cases s.enum <;> simp
  simp only [values, List.forall_mem_append, henum, Option.mem_toList, Option.mem_def, and_assoc]

/-- Nothing in this schema itself can repeat a key. -/
structure TidyHere (s : Schema) : Prop where
  values : ∀ j ∈ s.values, j.Distinct
  properties : ∀ properties ∈ s.properties, Dict.Increasing properties
  extensions : Extends fieldNames s.extensions

/-- Nothing in the schema can repeat a key. -/
def Tidy (s : Schema) : Prop :=
  s.All TidyHere

namespace Tidy

variable {s t : Schema}

theorem here (h : s.Tidy) : s.TidyHere := by
  cases h with
  | intro here _ _ => exact here

theorem inProperties (h : s.Tidy) :
    ∀ properties ∈ s.properties, ∀ entry ∈ properties, Tidy entry.2 := by
  cases h with
  | intro _ inProperties _ => exact inProperties

theorem inItems (h : s.Tidy) : ∀ items ∈ s.items, ∀ item ∈ items.schemas, item.Tidy := by
  cases h with
  | intro _ _ inItems => exact inItems

/-- A schema with other texts, bounds on lengths, or required names. -/
theorem congr (h : s.Tidy) (hvalues : t.values = s.values)
    (hproperties : t.properties = s.properties) (hitems : t.items = s.items)
    (hextensions : t.extensions = s.extensions) : t.Tidy := by
  refine .intro ⟨?_, ?_, ?_⟩ ?_ ?_
  · exact hvalues ▸ h.here.values
  · exact hproperties ▸ h.here.properties
  · exact hextensions ▸ h.here.extensions
  · exact hproperties ▸ h.inProperties
  · exact hitems ▸ h.inItems

theorem withValues (h : s.Tidy) (hvalues : ∀ j ∈ t.values, j.Distinct)
    (hproperties : t.properties = s.properties) (hitems : t.items = s.items)
    (hextensions : t.extensions = s.extensions) : t.Tidy := by
  refine .intro ⟨hvalues, ?_, ?_⟩ ?_ ?_
  · exact hproperties ▸ h.here.properties
  · exact hextensions ▸ h.here.extensions
  · exact hproperties ▸ h.inProperties
  · exact hitems ▸ h.inItems

theorem withProperties (h : s.Tidy) {properties : Dict Schema}
    (hincreasing : properties.Increasing) (hproperties : ∀ entry ∈ properties, entry.2.Tidy) :
    Tidy { s with properties := some properties } := by
  refine .intro ⟨h.here.values, ?_, h.here.extensions⟩ ?_ h.inItems
  · rintro _ ⟨⟩
    exact hincreasing
  · rintro _ ⟨⟩
    exact hproperties

theorem withItems (h : s.Tidy) {items : Items Schema} (hitems : ∀ item ∈ items.schemas, item.Tidy) :
    Tidy { s with items := some items } := by
  refine .intro ⟨h.here.values, h.here.properties, h.here.extensions⟩ h.inProperties ?_
  rintro _ ⟨⟩
  exact hitems

end Tidy

/-- A schema without properties, elements and extensions. -/
theorem tidy_leaf {s : Schema} (hvalues : ∀ j ∈ s.values, j.Distinct)
    (hproperties : s.properties = none) (hitems : s.items = none)
    (hextensions : s.extensions = []) : s.Tidy := by
  refine .intro ⟨hvalues, ?_, ?_⟩ ?_ ?_
  · simp [hproperties]
  · rw [hextensions]
    exact Json.extends_nil _
  · simp [hproperties]
  · simp [hitems]

theorem tidy_empty : Tidy {} :=
  tidy_leaf (by simp [values]) rfl rfl rfl

theorem tidy_typed (type : String) : (typed type).Tidy :=
  tidy_empty.congr rfl rfl rfl rfl

theorem tidy_ref (name : String) : (ref name).Tidy :=
  tidy_empty.congr rfl rfl rfl rfl

theorem tidy_arrayOf {item : Schema} (h : item.Tidy) : (arrayOf item).Tidy :=
  (tidy_typed "array").withItems (List.forall_mem_singleton.mpr h)

theorem tidy_object : object.Tidy :=
  (tidy_typed "object").withProperties List.Pairwise.nil (by simp)

/-! ## Tidy schemas are written without repeated keys -/

theorem propertyMembers_eq_map (properties : List (String × Schema)) :
    propertyMembers properties = properties.map fun entry => (entry.1, entry.2.toJson) := by
  induction properties with
  | nil => rfl
  | cons entry rest ih =>
      rw [propertyMembers, ih]
      rfl

theorem slotItems_eq_map (slots : List Schema) : slotItems slots = slots.map toJson := by
  induction slots with
  | nil => rfl
  | cons slot rest ih =>
      rw [slotItems, ih]
      rfl

theorem fields_propertiesMember {properties : Option (List (String × Schema))}
    (hincreasing : ∀ ps ∈ properties, Dict.Increasing ps)
    (h : ∀ ps ∈ properties, ∀ entry ∈ ps, entry.2.toJson.Distinct) :
    Fields ["properties"] (propertiesMember properties) := by
  cases properties with
  | none => exact .absent
  | some ps =>
      rw [propertiesMember, propertyMembers_eq_map]
      exact .member (Json.distinct_ofDict (hincreasing ps rfl).nodup_keys (h ps rfl))

theorem fields_itemsMember {items : Option (Items Schema)}
    (h : ∀ i ∈ items, ∀ item ∈ i.schemas, item.toJson.Distinct) :
    Fields ["items"] (itemsMember items) := by
  cases items with
  | none => exact .absent
  | some items =>
      cases items with
      | list slots =>
          rw [itemsMember, slotItems_eq_map]
          refine .member (.arr fun j hj => ?_)
          obtain ⟨slot, hslot, rfl⟩ := List.mem_map.mp hj
          exact h _ rfl slot hslot
      | single item =>
          rw [itemsMember]
          exact .member (h _ rfl item List.mem_cons_self)

/-- The fields of a schema, when nothing inside it repeats a key. -/
theorem fields_fields {s : Schema} (hvalues : ∀ j ∈ s.values, j.Distinct)
    (hproperties : Fields ["properties"] (propertiesMember s.properties))
    (hitems : Fields ["items"] (itemsMember s.items)) : Fields fieldNames s.fields := by
  obtain ⟨henum, hdefault, hsample, hminimum, hmaximum⟩ := forall_mem_values.mp hvalues
  unfold fields fieldNames
  simp only [List.append_assoc]
  exact .cons (.optional fun _ _ => .str) <|
    .cons (.optional fun _ _ => .str) <|
    .cons (.optional fun _ _ => .str) <|
    .cons (.optional fun _ _ => .str) <|
    .cons (.optional fun _ _ => .bool) <|
    .cons (.optional fun js hjs => .arr (henum js hjs)) <|
    .cons (.optional hdefault) <|
    .cons (.optional hsample) <|
    .cons (.optional hminimum) <|
    .cons (.optional hmaximum) <|
    .cons (.optional fun _ _ => .num) <|
    .cons (.optional fun _ _ => .num) <|
    .cons (.optional fun _ _ => .num) <|
    .cons (.optional fun _ _ => .num) <|
    .cons hproperties <|
    .cons hitems <|
    .optional fun names _ => Json.distinct_texts names

theorem Tidy.distinct_toJson {s : Schema} (h : s.Tidy) : s.toJson.Distinct := by
  induction h with
  | @intro s here _ _ ihProperties ihItems =>
      rw [toJson_eq_obj]
      exact (fields_fields here.values (fields_propertiesMember here.properties ihProperties)
        (fields_itemsMember ihItems)).distinct_obj_extends (by decide) here.extensions

theorem Tidy.fields {s : Schema} (h : s.Tidy) : Fields fieldNames s.fields :=
  fields_fields h.here.values
    (fields_propertiesMember h.here.properties fun ps hps entry hentry =>
      (h.inProperties ps hps entry hentry).distinct_toJson)
    (fields_itemsMember fun items hitems item hitem =>
      (h.inItems items hitems item hitem).distinct_toJson)

/-- No extension of a schema, or of a schema inside it, has the key of a written field. -/
def AllUnshared (s : Schema) : Prop :=
  s.All fun s => Unshared s.fields s.extensions

theorem Tidy.allUnshared {s : Schema} (h : s.Tidy) : s.AllUnshared := by
  induction h with
  | @intro s here inProperties inItems ihProperties ihItems =>
      have hs : s.Tidy := .intro here inProperties inItems
      exact .intro (hs.fields.unshared here.extensions) ihProperties ihItems

/-! ## Finished element slots -/

theorem collapse_eq (s : Schema) :
    s.collapse =
      { s with properties := collapseProperties s.properties, items := collapseItems s.items } := by
  cases s
  rfl

theorem collapseAll_eq_mapValues (properties : Dict Schema) :
    collapseAll properties = Dict.mapValues collapse properties := by
  induction properties with
  | nil => rfl
  | cons entry rest ih =>
      rw [collapseAll, ih]
      rfl

/-- Finished properties are tidy, if each of them is. -/
theorem tidy_collapseProperties {properties : Option (List (String × Schema))}
    (hincreasing : ∀ ps ∈ properties, Dict.Increasing ps)
    (h : ∀ ps ∈ properties, ∀ entry ∈ ps, entry.2.collapse.Tidy) :
    ∀ ps ∈ collapseProperties properties,
      Dict.Increasing ps ∧ ∀ entry ∈ ps, entry.2.Tidy := by
  cases properties with
  | none => simp [collapseProperties]
  | some properties =>
      rintro _ ⟨⟩
      rw [collapseAll_eq_mapValues]
      refine ⟨(hincreasing properties rfl).mapValues collapse, ?_⟩
      intro entry hentry
      obtain ⟨old, hold, rfl⟩ := List.mem_map.mp hentry
      exact h properties rfl old hold

theorem Tidy.collapse {s : Schema} (h : s.Tidy) : s.collapse.Tidy := by
  induction h with
  | @intro s here _ _ ihProperties ihItems =>
      have hproperties := tidy_collapseProperties here.properties ihProperties
      rw [collapse_eq]
      refine .intro ⟨here.values, fun ps hps => (hproperties ps hps).1, here.extensions⟩
        (fun ps hps => (hproperties ps hps).2) ?_
      intro items hitems
      change collapseItems s.items = some items at hitems
      cases hs : s.items with
      | none =>
          rw [hs] at hitems
          cases hitems
      | some old =>
          rw [hs] at hitems
          cases old with
          | single item =>
              obtain rfl := Option.some.inj hitems
              exact List.forall_mem_singleton.mpr (ihItems _ hs item List.mem_cons_self)
          | list slots =>
              cases slots with
              | nil =>
                  obtain rfl := Option.some.inj hitems
                  exact List.forall_mem_singleton.mpr (tidy_typed "string")
              | cons slot rest =>
                  obtain rfl := Option.some.inj hitems
                  exact List.forall_mem_singleton.mpr (ihItems _ hs slot List.mem_cons_self)

end Schema

end ApiDoc
