import ApiDoc.Proofs.Json.Strings
import ApiDoc.Proofs.Scalar
import ApiDoc.Proofs.Scalar.Numeral

/-!
# Texts read for a schema type

A text that is read for a schema type becomes a value of that type, or stays as it is.
There are two exceptions: for an integer a fraction is read as well, and for an object
whatever JSON is there.
-/

namespace ApiDoc.Scalar

variable {raw type : String}

/-- The types of schemas. -/
def schemaTypes : List String :=
  ["integer", "number", "boolean", "array", "object", "string"]

/-- A value is of the type for which a text is read, or is the text. -/
def TypedOrRaw (raw type : String) (value : Json) : Prop :=
  value.hasType type = true ∨ value = .str raw

/-- For a number, what looks like one is read. -/
theorem coerce_of_numeric (h : type = "integer" ∨ type = "number") :
    coerce raw type = ((number? (Text.trim raw.toList)).map Json.num).getD (.str raw) := by
  cases hread : number? (Text.trim raw.toList) with
  | some v =>
      have hguess := guess_eq_num hread
      rcases h with rfl | rfl <;> simp only [coerce, hguess] <;> rfl
  | none =>
      have hguess : ∀ v, guess raw ≠ .num v := by
        intro v
        rw [guess, hread]
        dsimp only
        split <;> exact Json.noConfusion
      rcases h with rfl | rfl <;> simp only [coerce] <;> rfl

theorem typedOrRaw_number : TypedOrRaw raw "number" (coerce raw "number") := by
  rw [coerce_of_numeric (.inr rfl)]
  cases number? (Text.trim raw.toList) with
  | none => exact .inr rfl
  | some v => cases v <;> exact .inl rfl

/-- For an integer, a fraction is read as a number that is none. -/
theorem typedOrRaw_integer_iff :
    TypedOrRaw raw "integer" (coerce raw "integer") ↔
      ¬ ∃ f : Fraction, f.text = Text.trim raw.toList ∧ f.value.isFinite = true := by
  rw [coerce_of_numeric (.inl rfl)]
  have hfraction : (∃ f : Fraction, f.text = Text.trim raw.toList ∧ f.value.isFinite = true) ↔
      ∃ x, number? (Text.trim raw.toList) = some (.float x) := by
    simp only [number?_eq_float_iff]
    constructor
    · rintro ⟨f, htext, hfinite⟩
      exact ⟨f.value, f, htext, hfinite, rfl⟩
    · rintro ⟨-, f, htext, hfinite, rfl⟩
      exact ⟨f, htext, hfinite⟩
  rw [hfraction]
  cases number? (Text.trim raw.toList) with
  | none => exact iff_of_true (.inr rfl) (by simp)
  | some v =>
      cases v with
      | int i => exact iff_of_true (.inl rfl) (by simp)
      | float x => exact iff_of_false (by rintro (h | h) <;> cases h) (by simp)

theorem typedOrRaw_boolean : TypedOrRaw raw "boolean" (coerce raw "boolean") := by
  simp only [coerce]
  split
  case h_5 => exact .inr rfl
  all_goals exact .inl rfl

/-- For an array, a text that is no JSON array is cut at its commas. -/
theorem typedOrRaw_array : TypedOrRaw raw "array" (coerce raw "array") := by
  simp only [coerce]
  split <;> exact .inl rfl

theorem typedOrRaw_string : TypedOrRaw raw "string" (coerce raw "string") :=
  .inr rfl

/-- For an object, JSON of every type is read. -/
theorem typedOrRaw_object_iff :
    TypedOrRaw raw "object" (coerce raw "object") ↔
      ¬ ∃ j, Json.read? raw.toList = some j ∧ j.hasType "object" = false := by
  have hcoerce : coerce raw "object" = (Json.read? raw.toList).getD (.str raw) := rfl
  rw [hcoerce]
  cases hread : Json.read? raw.toList with
  | none => exact iff_of_true (.inr rfl) (by simp)
  | some j =>
      have hne : j ≠ .str raw := by
        rintro rfl
        exact absurd (Json.length_lt_of_read?_str hread) (Nat.lt_irrefl _)
      simp [TypedOrRaw, hne]

/-- A text that is read for a schema type becomes a value of that type or stays as it is, unless
it is a fraction that is read for an integer or JSON of another type that is read for an object. -/
theorem typedOrRaw_coerce_iff (raw : String) {type : String} (h : type ∈ schemaTypes) :
    TypedOrRaw raw type (coerce raw type) ↔
      ¬ (type = "integer" ∧
          ∃ f : Fraction, f.text = Text.trim raw.toList ∧ f.value.isFinite = true) ∧
        ¬ (type = "object" ∧
          ∃ j, Json.read? raw.toList = some j ∧ j.hasType "object" = false) := by
  simp only [schemaTypes, List.mem_cons, List.not_mem_nil, or_false] at h
  rcases h with rfl | rfl | rfl | rfl | rfl | rfl
  · simpa using typedOrRaw_integer_iff
  · simpa using typedOrRaw_number
  · simpa using typedOrRaw_boolean
  · simpa using typedOrRaw_array
  · simpa using typedOrRaw_object_iff
  · simpa using typedOrRaw_string

theorem typedOrRaw_coerce_decimal :
    "integer" ∈ schemaTypes ∧ TypedOrRaw " -7" "integer" (coerce " -7" "integer") := by
  have hpoint : '.' ∉ Text.trim " -7".toList := by decide
  refine ⟨by decide, (typedOrRaw_coerce_iff " -7" (by decide)).mpr ⟨?_, by decide⟩⟩
  rintro ⟨-, f, htext, -⟩
  exact hpoint (htext ▸ f.point_mem_text)

/-- A fraction is read for an integer, and becomes neither an integer nor the text. -/
theorem not_typedOrRaw_coerce_fraction : ¬ TypedOrRaw "2.5" "integer" (coerce "2.5" "integer") := by
  rw [typedOrRaw_integer_iff, not_not]
  exact ⟨⟨false, ['2'], ['5'], by decide, List.all_eq_true.mp (by decide)⟩, by decide,
    by decide +kernel⟩

end ApiDoc.Scalar
