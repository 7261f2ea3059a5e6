import ApiDoc.Proofs.Component.Elements

/-!
# Shapes of fields

The schema of a field is a reference, or it has a type; an array has elements, and only an
object has properties.  One combination gives elements to something that is no array: a field
of an array type that refers to a page becomes the object of the page, and keeps the elements
that it had as an array.
-/

namespace ApiDoc

namespace Schema

/-- Either a reference or a schema with a type, which has elements if it is an array, and
properties only if it is an object. -/
structure Shaped (s : Schema) : Prop where
  oneKind : Xor (s.reference.isSome = true) (s.type.isSome = true)
  elements : s.type = some "array" → s.items.isSome = true
  properties : s.properties.isSome = true → s.type = some "object"

/-- Only an array has elements. -/
def Elementary (s : Schema) : Prop :=
  s.items.isSome = true → s.type = some "array"

theorem shaped_of_type {s : Schema} {type : String} (hreference : s.reference = none)
    (htype : s.type = some type) (helements : type = "array" → s.items.isSome = true)
    (hproperties : s.properties.isSome = true → type = "object") : s.Shaped where
  oneKind := by simp [Xor, hreference, htype]
  elements := by simpa [htype] using helements
  properties := by simpa [htype] using hproperties

theorem shaped_ref (name : String) : (ref name).Shaped where
  oneKind := by simp [Xor, ref]
  elements := by simp [ref]
  properties := by simp [ref]

theorem elementary_ref (name : String) : (ref name).Elementary := by
  simp [Elementary, ref]

end Schema

namespace ClassField

variable {now : Moment} {builders : Builders} {owner : String} {f : ClassField}

/-- The type of the field is an array, and its tag refers to a page. -/
def IsPagedArray (f : ClassField) : Prop :=
  ∃ comment ∈ (CommentProperties.read f.comment "Property").toOption,
    f.givenType comment.entries = "array" ∧
      ∃ reference ∈ givenReference? comment.entries, (Reference.parse reference).isCall

instance (f : ClassField) : Decidable f.IsPagedArray :=
  inferInstanceAs (Decidable (∃ comment ∈ _, _))

theorem isPagedArray_iff {comment : CommentProperties}
    (hcomment : CommentProperties.read f.comment "Property" = .ok comment) :
    f.IsPagedArray ↔ f.givenType comment.entries = "array" ∧
      ∃ reference ∈ givenReference? comment.entries, (Reference.parse reference).isCall := by
  simp [IsPagedArray, hcomment, Except.toOption]

/-! ## The steps of a field -/

theorem shaped_withExample_iff {s : Schema} : (withExample now s).Shaped ↔ s.Shaped := by
  obtain ⟨sample, heq⟩ := exists_withExample_eq now s
  rw [heq]
  exact ⟨fun h => ⟨h.oneKind, h.elements, h.properties⟩,
    fun h => ⟨h.oneKind, h.elements, h.properties⟩⟩

theorem elementary_withExample_iff {s : Schema} :
    (withExample now s).Elementary ↔ s.Elementary := by
  obtain ⟨sample, heq⟩ := exists_withExample_eq now s
  rw [heq]
  rfl

theorem reference_start (now : Moment) (f : ClassField) (comment : CommentProperties) :
    (start now f comment).reference = none := by
  rw [start, withElements]
  split <;> rfl

theorem shaped_start (now : Moment) (f : ClassField) (comment : CommentProperties) :
    (start now f comment).Shaped := by
  obtain ⟨htype, hproperties, hitems⟩ := start_eq now f comment
  refine Schema.shaped_of_type (reference_start now f comment) htype ?_ ?_
  · intro harray
    rw [hitems, if_pos harray]
    rfl
  · simp [hproperties]

theorem elementary_start (now : Moment) (f : ClassField) (comment : CommentProperties) :
    (start now f comment).Elementary := by
  obtain ⟨htype, -, hitems⟩ := start_eq now f comment
  intro hsome
  rw [hitems] at hsome
  by_cases harray : f.givenType comment.entries = "array"
  · rw [htype, harray]
  · rw [if_neg harray] at hsome
    cases hsome

/-- With a page a field is an object, so it must have had no elements. -/
theorem shaped_withShape_page {s : Schema} (hreference : s.reference = none)
    (properties : Dict Schema) (required : Option (List String)) :
    let paged := withShape { type := some "object", properties := some properties, required } s
    paged.Shaped ∧ (paged.Elementary ↔ s.items = none) := by
  rw [withShape_page]
  constructor
  · refine Schema.shaped_of_type hreference rfl ?_ ?_
    · exact fun harray => absurd harray (by decide)
    · exact fun _ => rfl
  · simp [Schema.Elementary]

theorem shaped_withShape_list {s : Schema} (model : String) (hreference : s.reference = none)
    (hproperties : s.properties = none) :
    let listed := withShape (.arrayOf (.ref model)) s
    listed.Shaped ∧ listed.Elementary := by
  rw [withShape_list]
  constructor
  · refine Schema.shaped_of_type hreference rfl ?_ ?_
    · exact fun _ => rfl
    · simp [hproperties]
  · exact fun _ => rfl

/-! ## Fields -/

/-- Where all builders make pages, a field that is not given raw has the shape that its type
asks for, except that an array that refers to a page keeps its elements as an object. -/
theorem shaped_schema_iff {s : Schema} (hpages : builders.MakePages)
    (h : f.schema now builders owner = .ok s) (hnot : ¬ f.IsRaw) :
    s.Shaped ∧ (s.Elementary ↔ ¬ f.IsPagedArray) := by
  obtain ⟨comment, hcomment, -, hmade⟩ := exists_made h hnot
  obtain ⟨-, hproperties, hitems⟩ := start_eq now f comment
  have hreference := reference_start now f comment
  rw [isPagedArray_iff hcomment]
  cases hmade with
  | own hnone =>
      rw [shaped_withExample_iff, elementary_withExample_iff]
      refine ⟨shaped_start now f comment, iff_of_true (elementary_start now f comment) ?_⟩
      simp [hnone]
  | call href hparse hfind =>
      obtain ⟨kind, host, rfl⟩ := hpages.of_find? hfind
      obtain ⟨properties, required, hshape, -⟩ :=
        kind.exists_schema_eq host (Schema.refPath _) owner
      obtain ⟨hshaped, hiff⟩ := shaped_withShape_page hreference properties required
      rw [hshape, shaped_withExample_iff, elementary_withExample_iff]
      refine ⟨hshaped, hiff.trans ?_⟩
      rw [hitems]
      simp [href, hparse, Reference.isCall]
  | list href hparse =>
      obtain ⟨hshaped, helementary⟩ := shaped_withShape_list _ hreference hproperties
      rw [shaped_withExample_iff, elementary_withExample_iff]
      refine ⟨hshaped, iff_of_true helementary ?_⟩
      simp [href, hparse, Reference.isCall]
  | ref href hparse =>
      refine ⟨Schema.shaped_ref _, iff_of_true (Schema.elementary_ref _) ?_⟩
      simp [href, hparse, Reference.isCall]

/-- An array that the tag makes an object before it refers to a page. -/
theorem shaped_schema_pets :
    let f : ClassField :=
      { name := "pets", typeHint := some "array"
        comment := some "@Property(type: object, arrayOf: integer, nullable: true, ref: P(Pet))" }
    let builders := Builders.register {} "P" (PageKind.lengthAware.schema "")
    builders.MakePages ∧ ∃ s, f.schema ⟨"", ""⟩ builders "Shelf" = .ok s ∧
      s.type = some "object" ∧ ¬ f.IsRaw ∧ s.Shaped ∧ s.Elementary := by
  intro f builders
  have hpages : builders.MakePages := Builders.makePages_empty.register "P" .lengthAware ""
  obtain ⟨s, hs, htype⟩ : ∃ s, f.schema ⟨"", ""⟩ builders "Shelf" = .ok s ∧
      s.type = some "object" := by
    decide +kernel
  have hnot : ¬ f.IsRaw := by
    decide +kernel
  obtain ⟨hshaped, hiff⟩ := shaped_schema_iff hpages hs hnot
  exact ⟨hpages, s, hs, htype, hnot, hshaped, hiff.mpr (by decide +kernel)⟩

/-- An array that refers to a page is an object with elements. -/
theorem not_elementary_schema_page :
    let f : ClassField := { name := "pets", comment := some "@Property(type: array, ref: P(Pet))" }
    let builders := Builders.register {} "P" (PageKind.lengthAware.schema "")
    builders.MakePages ∧ ∃ s, f.schema ⟨"", ""⟩ builders "Shelf" = .ok s ∧ ¬ f.IsRaw ∧
      s.type = some "object" ∧ s.items.isSome = true := by
  intro f builders
  have hpages : builders.MakePages := Builders.makePages_empty.register "P" .lengthAware ""
  exact ⟨hpages, by decide +kernel⟩

end ClassField

end ApiDoc
