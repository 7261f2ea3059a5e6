import ApiDoc.Proofs.Builder
import ApiDoc.Proofs.Component.Properties
import ApiDoc.Proofs.Schema.Tidy

/-!
# Elements of arrays in components

Relations, references to lists and array fields give their arrays a schema for the elements.
Three ways to an array give none: a column of an array type, a computed attribute of a native
array type, and elements of a field that are arrays themselves.  Pages bring none of these:
where all builders make pages, a component holds an array without elements, outside the
properties that are given raw, exactly if one of its properties is made in one of these ways.
-/

namespace ApiDoc

namespace Schema

/-- An array has a schema for its elements. -/
def HasElements (s : Schema) : Prop :=
  s.type = some "array" → s.item?.isSome = true

/-- Every array in the schema has elements. -/
def Filled (s : Schema) : Prop :=
  s.All HasElements

/-- A property of a schema and of all schemas inside it, except inside some of its
properties. -/
structure AllOutside (skip : String → Prop) (p : Schema → Prop) (s : Schema) : Prop where
  here : p s
  inProperties : ∀ properties ∈ s.properties, ∀ entry ∈ properties, ¬ skip entry.1 →
    entry.2.All p
  inItems : ∀ items ∈ s.items, ∀ item ∈ items.schemas, item.All p

theorem all_iff {p : Schema → Prop} {s : Schema} :
    s.All p ↔ p s ∧ (∀ properties ∈ s.properties, ∀ entry ∈ properties, entry.2.All p) ∧
      ∀ items ∈ s.items, ∀ item ∈ items.schemas, item.All p := by
  constructor
  · intro h
    cases h with
    | intro here inProperties inItems => exact ⟨here, inProperties, inItems⟩
  · rintro ⟨here, inProperties, inItems⟩
    exact .intro here inProperties inItems

/-- Only type, properties and elements count. -/
theorem filled_congr {s t : Schema} (htype : s.type = t.type)
    (hproperties : s.properties = t.properties) (hitems : s.items = t.items) :
    s.Filled ↔ t.Filled := by
  rw [Filled, Filled, all_iff, all_iff, HasElements, HasElements, item?, item?, htype,
    hproperties, hitems]

/-- A schema without properties and elements must not be an array. -/
theorem filled_leaf_iff {s : Schema} (hproperties : s.properties = none)
    (hitems : s.items = none) : s.Filled ↔ s.type ≠ some "array" := by
  rw [Filled, all_iff, HasElements, item?, hproperties, hitems]
  simp

theorem hasElements_object {s : Schema} (h : s.type = some "object") : s.HasElements := by
  intro harray
  exact absurd (Option.some.inj (h.symm.trans harray)) (by decide)

theorem filled_typed_iff (type : String) : (typed type).Filled ↔ type ≠ "array" := by
  rw [filled_leaf_iff rfl rfl]
  simp [typed]

theorem filled_ref (name : String) : (ref name).Filled :=
  (filled_leaf_iff rfl rfl).mpr (by simp [ref])

theorem filled_arrayOf {item : Schema} (h : item.Filled) : (arrayOf item).Filled := by
  refine .intro (fun _ => rfl) (fun _ hnone => nomatch hnone) ?_
  rintro items ⟨⟩
  exact List.forall_mem_singleton.mpr h

end Schema

open Schema (Filled)

/-! ## Models -/

namespace Model.Part

/-- A part whose schema is an array without elements: a column of an array type, or an
attribute of a native array type. -/
def IsBare : Part → Prop
  | .column c => (TypeName.column c.type).type = "array"
  | .relation _ => False
  | .computed a => ∃ name ∈ a.returnType?, TypeName.isNative name ∧
      TypeName.native name = "array"

instance : DecidablePred IsBare
  | .column c => inferInstanceAs (Decidable ((TypeName.column c.type).type = "array"))
  | .relation _ => inferInstanceAs (Decidable False)
  | .computed a => inferInstanceAs (Decidable (∃ name ∈ a.returnType?, _))

theorem filled_relation {r : Relation} {s : Schema} (h : r.schema? = some s) : s.Filled := by
  obtain ⟨target, -, rfl⟩ := Option.map_eq_some_iff.mp h
  dsimp only
  split
  · exact Schema.filled_ref _
  · exact Schema.filled_arrayOf (Schema.filled_ref _)

theorem filled_computed_iff {now : Moment} {a : ComputedAttribute} {s : Schema}
    (h : a.schema? now = some s) : s.Filled ↔ ¬ IsBare (.computed a) := by
  obtain ⟨accessor, -, rfl⟩ := Option.map_eq_some_iff.mp h
  rw [IsBare]
  cases a.returnType? with
  | none =>
      dsimp only
      rw [Schema.filled_leaf_iff rfl rfl]
      simp
  | some name =>
      dsimp only
      by_cases hnative : TypeName.isNative name = true
      · rw [if_pos hnative, Schema.filled_leaf_iff rfl rfl]
        simp [hnative]
      · rw [if_neg hnative]
        simp [hnative, Schema.filled_ref]

/-- Any other part has a schema whose arrays have elements. -/
theorem filled_schema?_iff {now : Moment} {part : Part} {s : Schema}
    (h : part.schema? now = some s) : s.Filled ↔ ¬ part.IsBare := by
  cases part with
  | column c =>
      obtain rfl := Option.some.inj h
      rw [Schema.filled_leaf_iff rfl rfl, IsBare]
      simp [Column.schema]
  | relation r => exact iff_of_true (filled_relation h) id
  | computed a => exact filled_computed_iff h

end Model.Part

theorem Model.not_isBare_of_part? {m : Model} {columns : List Column} {name : String}
    {part : Part} (hvisible : ∀ c ∈ m.visible columns, ¬ Part.IsBare (.column c))
    (hcomputed : ∀ a ∈ m.computed, ¬ Part.IsBare (.computed a))
    (h : m.part? columns name = some part) : ¬ part.IsBare := by
  rcases part?_eq_some h with ⟨a, ha, rfl⟩ | ⟨r, -, rfl⟩ | ⟨c, hc, rfl⟩
  · exact hcomputed a (mem_of_find?_reverse ha)
  · exact id
  · exact hvisible c (mem_of_find?_reverse hc)

/-! ## Pages and references -/

namespace PageKind

theorem filled_sampled {type : String} (value : Json) (h : type ≠ "array") :
    (sampled type value).Filled :=
  (Schema.filled_leaf_iff rfl rfl).mpr fun heq => h (Option.some.inj heq)

theorem filled_simpleProperties (url model : String) :
    ∀ entry ∈ simpleProperties url model, entry.2.Filled := by
  have hnumber : ∀ n, (number n).Filled := fun n => filled_sampled _ (by decide)
  have hlink : ∀ address, (link address).Filled := fun address => filled_sampled _ (by decide)
  simp [simpleProperties, hnumber, hlink, Schema.filled_arrayOf (Schema.filled_ref model)]

theorem filled_lengthProperties (url : String) :
    ∀ entry ∈ lengthProperties url, entry.2.Filled := by
  have hnumber : ∀ n, (number n).Filled := fun n => filled_sampled _ (by decide)
  have hlink : ∀ address, (link address).Filled := fun address => filled_sampled _ (by decide)
  simp [lengthProperties, hnumber, hlink]

/-- A page is an object whose properties have elements where they need them. -/
theorem exists_schema_eq (kind : PageKind) (host model uri : String) :
    ∃ (properties : Dict Schema) (required : Option (List String)),
      kind.schema host model uri =
        { type := some "object", properties := some properties, required } ∧
      ∀ entry ∈ properties, entry.2.Filled := by
  cases kind with
  | simple => exact ⟨_, _, rfl, filled_simpleProperties _ model⟩
  | lengthAware =>
      exact ⟨_, _, rfl, Dict.forall_mem_insertAll (filled_simpleProperties _ model)
        (filled_lengthProperties _)⟩

end PageKind

/-- A reference asks for what a builder gives. -/
def Reference.isCall : Reference → Bool
  | .call _ _ => true
  | .list _ => false
  | .plain => false

/-- What a reference asks for: what a builder gives, a list, or nothing but a name. -/
theorem Reference.structured_eq_ok {builders : Builders} {reference uri : String}
    {found : Option Schema} (h : structured builders reference uri = .ok found) :
    (∃ code model builder, parse reference = .call code model ∧
        builders.find? code = some builder ∧
        found = some (builder (Schema.refPath model) uri)) ∨
      (∃ model, parse reference = .list model ∧ found = some (.arrayOf (.ref model))) ∨
      parse reference = .plain ∧ found = none := by
  rw [structured] at h
  split at h
  · next code model hparse =>
      split at h
      · next builder hfind =>
          exact .inl ⟨code, model, builder, hparse, hfind, (Except.ok.inj h).symm⟩
      · cases h
  · next model hparse => exact .inr (.inl ⟨model, hparse, (Except.ok.inj h).symm⟩)
  · next hparse => exact .inr (.inr ⟨hparse, (Except.ok.inj h).symm⟩)

/-! ## Fields of classes -/

namespace ClassField

/-- The comment of the field gives its schema as it is. -/
def IsRaw (f : ClassField) : Prop :=
  ∃ comment ∈ (CommentProperties.read f.comment "Property").toOption,
    (Dict.find? comment.entries "raw").isSome

instance (f : ClassField) : Decidable f.IsRaw :=
  inferInstanceAs (Decidable (∃ comment ∈ _, _))

/-- The type of the field: the one that its tag gives, else that of its hint. -/
def givenType (f : ClassField) (entries : List (String × Json)) : String :=
  ((Dict.find? entries "type").bind Json.asStr?).getD f.hintType

/-- The text that the tag refers to. -/
def givenReference? (entries : List (String × Json)) : Option String :=
  (Dict.find? entries "ref").bind Json.asStr?

/-- The elements of the field are arrays without elements: the field is an array of arrays,
and no list or name that it refers to takes the place of its elements. -/
def IsBare (f : ClassField) : Prop :=
  ∃ comment ∈ (CommentProperties.read f.comment "Property").toOption,
    (Dict.find? comment.entries "raw").isNone ∧
      (f.givenType comment.entries = "array" ∧ elementType comment.entries = "array") ∧
      ∀ reference ∈ givenReference? comment.entries, (Reference.parse reference).isCall

instance (f : ClassField) : Decidable f.IsBare :=
  inferInstanceAs (Decidable (∃ comment ∈ _, _))

variable {now : Moment} {builders : Builders} {owner : String} {f : ClassField}

theorem type_overlay (f : ClassField) (entries : List (String × Json)) (summary : String) :
    (overlay entries (f.base summary)).type = some (f.givenType entries) :=
  Option.or_some

/-- The schema of a field before its reference is followed. -/
def start (now : Moment) (f : ClassField) (comment : CommentProperties) : Schema :=
  withElements now comment.entries (overlay comment.entries (f.base comment.summary))

theorem start_eq (now : Moment) (f : ClassField) (comment : CommentProperties) :
    (start now f comment).type = some (f.givenType comment.entries) ∧
      (start now f comment).properties = none ∧
      (start now f comment).items =
        if f.givenType comment.entries = "array" then
          some (.single (.typed (elementType comment.entries)))
        else none := by
  have htype := type_overlay f comment.entries comment.summary
  have hkind : (overlay comment.entries (f.base comment.summary)).isType "array" = true ↔
      f.givenType comment.entries = "array" := by
    rw [Schema.isType, htype, beq_iff_eq, Option.some.injEq]
  rw [start, withElements]
  by_cases harray : f.givenType comment.entries = "array"
  · rw [if_pos (hkind.mpr harray), if_pos harray]
    exact ⟨htype, rfl, rfl⟩
  · rw [if_neg (mt hkind.mp harray), if_neg harray]
    exact ⟨htype, rfl, rfl⟩

/-- The elements of a field before its reference is followed. -/
theorem filled_items_start_iff (now : Moment) (f : ClassField) (comment : CommentProperties) :
    (∀ items ∈ (start now f comment).items, ∀ item ∈ items.schemas, item.Filled) ↔
      ¬ (f.givenType comment.entries = "array" ∧ elementType comment.entries = "array") := by
  obtain ⟨-, -, hitems⟩ := start_eq now f comment
  rw [hitems]
  by_cases harray : f.givenType comment.entries = "array"
  · simp [harray, Items.schemas, Schema.filled_typed_iff]
  · simp [harray]

theorem filled_start_iff (now : Moment) (f : ClassField) (comment : CommentProperties) :
    (start now f comment).Filled ↔
      ¬ (f.givenType comment.entries = "array" ∧ elementType comment.entries = "array") := by
  obtain ⟨htype, hproperties, hitems⟩ := start_eq now f comment
  have hhere : (start now f comment).HasElements := by
    intro harray
    rw [htype, Option.some.injEq] at harray
    rw [Schema.item?, hitems, if_pos harray]
    rfl
  rw [Filled, Schema.all_iff, ← filled_items_start_iff now f comment]
  simp [hhere, hproperties, Filled]

/-- A page keeps the elements that stood in the field. -/
theorem withShape_page (properties : Dict Schema) (required : Option (List String))
    (s : Schema) :
    withShape { type := some "object", properties := some properties, required } s =
      { s with type := some "object", properties := some properties, required,
               sample := none } := by
  rw [withShape, if_neg (by simp [Schema.isType])]

/-- A list gives its own elements. -/
theorem withShape_list (item s : Schema) :
    withShape (.arrayOf item) s =
      { s with type := some "array", items := some (.single item), sample := none } := by
  rw [withShape, if_pos (by simp [Schema.isType, Schema.arrayOf]), Schema.arrayOf]

theorem filled_withShape_page_iff {s : Schema} {properties : Dict Schema}
    {required : Option (List String)} (hproperties : ∀ entry ∈ properties, entry.2.Filled) :
    (withShape { type := some "object", properties := some properties, required } s).Filled ↔
      ∀ items ∈ s.items, ∀ item ∈ items.schemas, item.Filled := by
  rw [withShape_page, Filled, Schema.all_iff]
  constructor
  · rintro ⟨-, -, hitems⟩
    exact hitems
  · intro hitems
    refine ⟨Schema.hasElements_object rfl, ?_, hitems⟩
    rintro made ⟨⟩
    exact hproperties

theorem filled_withShape_list {s : Schema} (model : String) (hproperties : s.properties = none) :
    (withShape (.arrayOf (.ref model)) s).Filled := by
  have hlist : Schema.Filled (.arrayOf (.ref model)) :=
    Schema.filled_arrayOf (Schema.filled_ref model)
  rw [withShape_list]
  refine (Schema.filled_congr ?_ ?_ ?_).mpr hlist
  · rfl
  · exact hproperties
  · rfl

/-- An example changes nothing but the example. -/
theorem exists_withExample_eq (now : Moment) (s : Schema) :
    ∃ sample, withExample now s = { s with sample } := by
  rw [withExample]
  split
  · exact ⟨s.sample, by cases s; rfl⟩
  · split
    · exact ⟨s.sample, by cases s; rfl⟩
    · exact ⟨_, rfl⟩

theorem filled_withExample_iff {s : Schema} : (withExample now s).Filled ↔ s.Filled := by
  obtain ⟨sample, heq⟩ := exists_withExample_eq now s
  rw [heq]
  exact Schema.filled_congr rfl rfl rfl

theorem IsRaw.not_isBare (h : f.IsRaw) : ¬ f.IsBare := by
  rintro ⟨comment, hcomment, hnone, -⟩
  obtain ⟨other, hother, hsome⟩ := h
  obtain rfl := Option.mem_unique hcomment hother
  rw [Option.isNone_iff_eq_none.mp hnone] at hsome
  cases hsome

/-- Whether the elements of a field are arrays without elements stands in its one comment. -/
theorem isBare_iff {comment : CommentProperties}
    (hcomment : CommentProperties.read f.comment "Property" = .ok comment)
    (hraw : Dict.find? comment.entries "raw" = none) :
    f.IsBare ↔ (f.givenType comment.entries = "array" ∧ elementType comment.entries = "array") ∧
      ∀ reference ∈ givenReference? comment.entries, (Reference.parse reference).isCall := by
  simp [IsBare, hcomment, hraw, Except.toOption]

/-- How a field with this comment gets its schema: from itself alone, with the shape of what a
builder gives or of a list that it refers to, or as a mere reference. -/
inductive Made (now : Moment) (builders : Builders) (owner : String) (f : ClassField)
    (comment : CommentProperties) : Schema → Prop
  | own (hnone : givenReference? comment.entries = none) :
      Made now builders owner f comment (withExample now (start now f comment))
  | call {reference code model : String} {builder : Builder}
      (hreference : givenReference? comment.entries = some reference)
      (hparse : Reference.parse reference = .call code model)
      (hfind : builders.find? code = some builder) :
      Made now builders owner f comment (withExample now
        (withShape (builder (Schema.refPath model) owner) (start now f comment)))
  | list {reference model : String}
      (hreference : givenReference? comment.entries = some reference)
      (hparse : Reference.parse reference = .list model) :
      Made now builders owner f comment
        (withExample now (withShape (.arrayOf (.ref model)) (start now f comment)))
  | ref {reference : String}
      (hreference : givenReference? comment.entries = some reference)
      (hparse : Reference.parse reference = .plain) :
      Made now builders owner f comment (.ref (Reference.trimmed reference))

theorem exists_made {s : Schema} (h : f.schema now builders owner = .ok s) (hnot : ¬ f.IsRaw) :
    ∃ comment, CommentProperties.read f.comment "Property" = .ok comment ∧
      Dict.find? comment.entries "raw" = none ∧ Made now builders owner f comment s := by
  obtain ⟨comment, hcomment, h⟩ := bind_eq_ok_iff.mp h
  have hraw : Dict.find? comment.entries "raw" = none := by
    rw [← Option.not_isSome_iff_eq_none]
    intro hsome
    exact hnot ⟨comment, by rw [hcomment]; rfl, hsome⟩
  refine ⟨comment, hcomment, hraw, ?_⟩
  dsimp only at h
  rw [hraw] at h
  dsimp only at h
  rw [← start, ← givenReference?] at h
  cases hreference : givenReference? comment.entries with
  | none =>
      rw [hreference] at h
      obtain rfl := Except.ok.inj h
      exact .own hreference
  | some reference =>
      rw [hreference] at h
      obtain ⟨found, hfound, h⟩ := bind_eq_ok_iff.mp h
      obtain ⟨code, model, builder, hparse, hfind, rfl⟩ | ⟨model, hparse, rfl⟩ |
          ⟨hparse, rfl⟩ :=
        Reference.structured_eq_ok hfound
      · obtain rfl := Except.ok.inj h
        exact .call hreference hparse hfind
      · obtain rfl := Except.ok.inj h
        exact .list hreference hparse
      · obtain rfl := Except.ok.inj h
        exact .ref hreference hparse

/-- A field that is not given raw has elements in its arrays, unless its elements are arrays
without any. -/
theorem filled_schema_iff {s : Schema} (hpages : builders.MakePages)
    (h : f.schema now builders owner = .ok s) (hnot : ¬ f.IsRaw) :
    s.Filled ↔ ¬ f.IsBare := by
  obtain ⟨comment, hcomment, hraw, hmade⟩ := exists_made h hnot
  obtain ⟨-, hproperties, -⟩ := start_eq now f comment
  rw [isBare_iff hcomment hraw]
  cases hmade with
  | own hnone =>
      rw [filled_withExample_iff, filled_start_iff]
      simp [hnone]
  | call hreference hparse hfind =>
      -- A page changes the type and the properties; the elements of the field stay.
      obtain ⟨kind, host, rfl⟩ := hpages.of_find? hfind
      obtain ⟨properties, required, hshape, hfilled⟩ :=
        kind.exists_schema_eq host (Schema.refPath _) owner
      rw [hshape, filled_withExample_iff, filled_withShape_page_iff hfilled,
        filled_items_start_iff]
      simp [hreference, hparse, Reference.isCall]
  | list hreference hparse =>
      -- A list brings elements of its own.
      refine iff_of_true ?_ (by simp [hreference, hparse, Reference.isCall])
      exact filled_withExample_iff.mpr (filled_withShape_list _ hproperties)
  | ref hreference hparse =>
      exact iff_of_true (Schema.filled_ref _) (by simp [hreference, hparse, Reference.isCall])

end ClassField

/-! ## Components -/

namespace Giver

/-- A property that the comment of its field gives as it is. -/
def IsRaw : Giver → String → Prop
  | .ofClass c, property => ∃ f ∈ c.field? property, f.IsRaw
  | .ofModel _, _ => False

/-- A property that is made with an array without elements. -/
def IsBare : Giver → String → Prop
  | .ofClass c, property => ∃ f ∈ c.field? property, f.IsBare
  | .ofModel m, property => ∃ columns ∈ m.columns, ∃ part ∈ m.part? columns property, part.IsBare

variable {now : Moment} {builders : Builders}

/-- An object with properties has elements where they are needed, if the properties have. -/
theorem allOutside_object_iff {skip : String → Prop} {properties : Dict Schema}
    {required : Option (List String)} :
    Schema.AllOutside skip Schema.HasElements
        { Schema.object with properties := some properties, required } ↔
      ∀ entry ∈ properties, ¬ skip entry.1 → entry.2.Filled := by
  constructor
  · intro h
    exact h.inProperties properties rfl
  · intro h
    refine ⟨Schema.hasElements_object rfl, ?_, ?_⟩
    · rintro made ⟨⟩
      exact h
    · rintro items ⟨⟩

/-- A field of a class makes its property so, unless the property is given raw. -/
theorem filled_field_iff {c : SchemaClass} {property : String} {f : ClassField} {s : Schema}
    (hpages : builders.MakePages) (hf : f ∈ c.field? property)
    (h : f.schema now builders c.name = .ok s) :
    (¬ IsRaw (.ofClass c) property → s.Filled) ↔ ¬ f.IsBare := by
  have hproperty : IsRaw (.ofClass c) property ↔ f.IsRaw := by
    simp [IsRaw, Option.mem_def.mp hf]
  rw [hproperty]
  by_cases hraw : f.IsRaw
  · exact iff_of_true (absurd hraw) hraw.not_isBare
  · rw [← ClassField.filled_schema_iff hpages h hraw, imp_iff_right hraw]

theorem allOutside_schema?_iff {g : Giver} {s : Schema} (hpages : builders.MakePages)
    (h : g.schema? now builders = some s) :
    s.AllOutside g.IsRaw Schema.HasElements ↔ ∀ property, ¬ g.IsBare property := by
  cases g with
  | ofClass c =>
      obtain ⟨properties, required, rfl, hincreasing, hfind, hmade⟩ :=
        SchemaClass.schema_eq_ok (eq_ok_of_toOption h)
      have hfields := Dict.forall_mem_iff_givers hincreasing.nodup_keys hfind hmade
        (q := fun property t => ¬ IsRaw (.ofClass c) property → t.Filled)
        (r := fun _ f => ¬ f.IsBare)
        fun property f hf t ht => filled_field_iff hpages hf (eq_ok_of_toOption ht)
      rw [allOutside_object_iff, hfields]
      simp [IsBare]
  | ofModel m =>
      obtain ⟨columns, hcolumns, rfl⟩ := Option.map_eq_some_iff.mp h
      have hparts := Dict.forall_mem_iff_givers
        (Dict.increasing_ofList (m.entries now columns)).nodup_keys
        (m.find?_entries now columns)
        (fun _ _ hpart => Model.isSome_schema?_of_part? now hpart)
        (q := fun _ t => t.Filled) (r := fun _ part => ¬ part.IsBare)
        fun _ _ _ _ ht => Model.Part.filled_schema?_iff ht
      rw [allOutside_object_iff]
      simp only [IsRaw, not_false_eq_true, forall_const]
      rw [hparts]
      simp [IsBare, hcolumns]

end Giver

namespace Entities

/-- If no field, no visible column and no computed attribute makes an array without elements,
no component does. -/
theorem not_isBare_of_forall {e : Entities}
    (hclasses : ∀ c ∈ e.classes, ∀ f ∈ c.fields, ¬ f.IsBare)
    (hmodels : ∀ m ∈ e.models, ∀ columns ∈ m.columns,
      (∀ c ∈ m.visible columns, ¬ Model.Part.IsBare (.column c)) ∧
        ∀ a ∈ m.computed, ¬ Model.Part.IsBare (.computed a)) :
    ∀ name, ∀ g ∈ e.giver? name, ∀ property, ¬ g.IsBare property := by
  intro name g hg property hbare
  rcases Option.or_eq_some_iff.mp hg with hclass | ⟨-, hmodel⟩
  · obtain ⟨c, hc, rfl⟩ := Option.map_eq_some_iff.mp hclass
    obtain ⟨f, hf, hbare⟩ := hbare
    exact hclasses c (mem_of_find?_reverse hc) f (mem_of_find?_reverse hf) hbare
  · obtain ⟨m, hm, rfl⟩ := Option.map_eq_some_iff.mp hmodel
    obtain ⟨columns, hcolumns, part, hpart, hbare⟩ := hbare
    obtain ⟨hvisible, hcomputed⟩ := hmodels m (mem_of_find?_reverse hm) columns hcolumns
    exact Model.not_isBare_of_part? hvisible hcomputed hpart hbare

/-- A property of a component that the comment of its field gives as it is. -/
def IsRaw (e : Entities) (name property : String) : Prop :=
  ∃ g ∈ e.giver? name, g.IsRaw property

/-- Where all builders make pages, every array in every component has a schema for its
elements, outside the properties that are given raw, exactly if nothing that gives a component
makes a property with an array without elements. -/
theorem elements_schemas_iff {e : Entities} {now : Moment} {builders : Builders}
    {schemas : Dict Schema} (hpages : builders.MakePages)
    (h : e.schemas now builders = .ok schemas) :
    (∀ entry ∈ schemas, entry.2.AllOutside (e.IsRaw entry.1) Schema.HasElements) ↔
      ∀ name, ∀ g ∈ e.giver? name, ∀ property, ¬ g.IsBare property := by
  refine forall_mem_schemas_iff h
    (q := fun name s => s.AllOutside (e.IsRaw name) Schema.HasElements)
    (r := fun _ g => ∀ property, ¬ g.IsBare property) ?_
  intro name g hg s hs
  have hraw : e.IsRaw name = g.IsRaw := by
    funext property
    simp [IsRaw, Option.mem_def.mp hg]
  rw [hraw]
  exact Giver.allOutside_schema?_iff hpages hs

/-- A hidden column of an array type, a relation to many, and fields that are an array, a list,
a page and a raw array. -/
theorem elements_schemas_pets :
    let e : Entities :=
      { models :=
          [{ name := "Pet"
             columns :=
               some [{ name := "id", type := "bigint" }, { name := "marks", type := "array" }]
             hidden := ["marks"]
             relations := [{ name := "owners", target := some "Owner", cardinality := .many }]
             computed := [{ name := "label", accessor := some { returnType := some "string" } }] }]
        classes :=
          [{ name := "Shelf"
             fields :=
               [{ name := "labels", typeHint := some "array" },
                 { name := "pets", typeHint := some "array"
                   comment := some "@Property(arrayOf: array, ref: Pet[])" },
                 { name := "page", comment := some "@Property(ref: P(Pet))" },
                 { name := "free"
                   comment := some "@Property(raw: \x7b\"type\": \"array\"\x7d)" }] }] }
    let builders := Builders.register {} "P" (PageKind.simple.schema "")
    builders.MakePages ∧ ∃ schemas, e.schemas ⟨"", ""⟩ builders = .ok schemas ∧
      Dict.keys schemas = ["Pet", "Shelf"] ∧
      ∀ entry ∈ schemas, entry.2.AllOutside (e.IsRaw entry.1) Schema.HasElements := by
  intro e builders
  have hpages : builders.MakePages := Builders.makePages_empty.register "P" .simple ""
  obtain ⟨schemas, hschemas, hkeys⟩ : ∃ schemas, e.schemas ⟨"", ""⟩ builders = .ok schemas ∧
      Dict.keys schemas = ["Pet", "Shelf"] := by
    decide +kernel
  refine ⟨hpages, schemas, hschemas, hkeys, (elements_schemas_iff hpages hschemas).mpr ?_⟩
  apply not_isBare_of_forall
  · decide +kernel
  · decide +kernel

/-- A column of an array type has no schema for its elements. -/
theorem not_elements_post :
    let e : Entities :=
      { models := [{ name := "Post", columns := some [{ name := "tags", type := "array" }] }] }
    ∃ schemas, e.schemas ⟨"", ""⟩ {} = .ok schemas ∧
      ¬ ∀ entry ∈ schemas, entry.2.AllOutside (e.IsRaw entry.1) Schema.HasElements := by
  intro e
  have hraw : ∀ name property, ¬ e.IsRaw name property := by
    rintro name property ⟨g, hg, hraw⟩
    cases g with
    | ofClass c => simp [giver?, class?, e] at hg
    | ofModel m => exact hraw
  obtain ⟨schemas, hschemas, entry, hentry, properties, hproperties, property, hproperty, htype,
      hitem⟩ : ∃ schemas, e.schemas ⟨"", ""⟩ {} = .ok schemas ∧
      ∃ entry ∈ schemas, ∃ properties ∈ entry.2.properties, ∃ property ∈ properties,
        property.2.type = some "array" ∧ property.2.item?.isSome = false := by
    decide +kernel
  refine ⟨schemas, hschemas, fun hall => ?_⟩
  have hfilled : property.2.Filled :=
    (hall entry hentry).inProperties properties hproperties property hproperty (hraw _ _)
  obtain ⟨hhere, -, -⟩ := Schema.all_iff.mp hfilled
  rw [hhere htype] at hitem
  cases hitem

end Entities

end ApiDoc
