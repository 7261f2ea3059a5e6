import ApiDoc.Proofs.Binary64.Numeral
import ApiDoc.Scalar

/-!
# Texts that look like numbers

A numeral is decimal digits, a fraction decimal digits with one point, either perhaps with
a minus in front.  A text looks like a number only if it is a numeral or a fraction; a
numeral does if 64 bits hold it, and a fraction if a binary number does.
-/

namespace ApiDoc.Scalar

open Binary64 (isNumeralChar signed)

/-- Digits, perhaps with a minus in front. -/
def withSign (negative : Bool) (digits : List Char) : List Char :=
  if negative then '-' :: digits else digits

/-- A decimal numeral of any length. -/
structure Numeral where
  negative : Bool
  digits : List Char
  ne_nil : digits ≠ []
  isDigit : ∀ c ∈ digits, c.isDigit = true

/-- A decimal numeral with a point, which may be its first or its last character. -/
structure Fraction where
  negative : Bool
  whole : List Char
  decimals : List Char
  ne_nil : whole ++ decimals ≠ []
  isDigit : ∀ c ∈ whole ++ decimals, c.isDigit = true

namespace Numeral

def text (n : Numeral) : List Char :=
  withSign n.negative n.digits

def value (n : Numeral) : Int :=
  signed n.negative (Text.digitsValue n.digits)

end Numeral

namespace Fraction

def text (f : Fraction) : List Char :=
  withSign f.negative (f.whole ++ '.' :: f.decimals)

/-- The binary number closest to a fraction; one that is too large is infinite. -/
def value (f : Fraction) : Binary64 :=
  .ofDecimal f.negative (Text.digitsValue (f.whole ++ f.decimals)) (-(f.decimals.length : Int))

end Fraction

/-! ## Signs -/

section Sign

variable {digits : List Char} {negative : Bool}

theorem not_mem_withSign {c : Char} (h : ∀ d ∈ digits, isNumeralChar d = true) (hsign : c ≠ '-')
    (hc : isNumeralChar c = false) : c ∉ withSign negative digits := by
  have hdigits : c ∉ digits := fun hmem => Bool.noConfusion ((h c hmem).symm.trans hc)
  rw [withSign]
  split
  · exact List.not_mem_cons_of_ne_of_not_mem hsign hdigits
  · exact hdigits

theorem intValue_withSign (h : ∀ c ∈ digits, isNumeralChar c = true) :
    intValue (withSign negative digits) = signed negative (Text.digitsValue digits) := by
  cases negative with
  | true => rfl
  | false =>
      rw [withSign, if_neg Bool.false_ne_true]
      unfold intValue
      split
      · exact absurd (h '-' List.mem_cons_self) (by decide)
      · rfl

theorem ofNumeral?_withSign (h : ∀ c ∈ digits, isNumeralChar c = true) :
    Binary64.ofNumeral? (withSign negative digits) = Binary64.ofUnsigned? negative digits := by
  cases negative with
  | true => rfl
  | false =>
      rw [withSign, if_neg Bool.false_ne_true, Binary64.ofNumeral?,
        Binary64.takeSign_of_isNumeralChar h]

theorem malformed_eq_false_iff :
    (digits.isEmpty || !digits.all fun c => c.isDigit || c = '.') = false ↔
      digits ≠ [] ∧ ∀ c ∈ digits, isNumeralChar c = true := by
  rw [Bool.or_eq_false_iff, List.isEmpty_eq_false_iff, Bool.not_eq_false', List.all_eq_true]
  rfl

/-- Digits and points are read as a fraction if there is a point, and else as a whole number. -/
theorem number?_withSign (hne : digits ≠ []) (h : ∀ c ∈ digits, isNumeralChar c = true) :
    number? (withSign negative digits) =
      if '.' ∈ digits then
        match Binary64.ofUnsigned? negative digits with
        | some x => if x.isFinite then some (.float x) else none
        | none => none
      else
        let i := signed negative (Text.digitsValue digits)
        if inWord i then some (.int i) else none := by
  have hshape := malformed_eq_false_iff.mpr ⟨hne, h⟩
  rw [← intValue_withSign h, ← ofNumeral?_withSign h]
  unfold number?
  dsimp only
  cases negative with
  | true =>
      simp only [withSign, if_true, hshape, List.contains_iff_mem]
      rfl
  | false =>
      simp only [withSign, Bool.false_eq_true, if_false]
      split
      · exact absurd (h '-' List.mem_cons_self) (by decide)
      · simp only [hshape, List.contains_iff_mem]
        rfl

end Sign

/-! ## Reading -/

theorem Numeral.isNumeralChar_of_mem (n : Numeral) : ∀ c ∈ n.digits, isNumeralChar c = true :=
  fun c hc => Binary64.isNumeralChar_of_isDigit (n.isDigit c hc)

theorem Fraction.isNumeralChar_of_mem (f : Fraction) :
    ∀ c ∈ f.whole ++ '.' :: f.decimals, isNumeralChar c = true := by
  have hdigit := f.isDigit
  rw [List.forall_mem_append] at hdigit ⊢
  rw [List.forall_mem_cons]
  exact ⟨fun c hc => Binary64.isNumeralChar_of_isDigit (hdigit.1 c hc), by decide,
    fun c hc => Binary64.isNumeralChar_of_isDigit (hdigit.2 c hc)⟩

/-- A numeral looks like the number that it denotes, if that has 64 bits. -/
theorem Numeral.number?_text (n : Numeral) :
    number? n.text = if inWord n.value then some (.int n.value) else none := by
  have hpoint : '.' ∉ n.digits := fun hmem => absurd (n.isDigit '.' hmem) (by decide)
  rw [text, number?_withSign n.ne_nil n.isNumeralChar_of_mem, if_neg hpoint]
  rfl

/-- A fraction looks like the closest binary number, if that is finite. -/
theorem Fraction.number?_text (f : Fraction) :
    number? f.text = if f.value.isFinite then some (.float f.value) else none := by
  have hdigit := List.forall_mem_append.mp f.isDigit
  have hchars := (List.forall_mem_append.mp f.isNumeralChar_of_mem).2
  have hread : Binary64.ofUnsigned? f.negative (f.whole ++ '.' :: f.decimals) = some f.value :=
    (Binary64.ofUnsigned?_point_eq_some_iff hdigit.1 (List.forall_mem_cons.mp hchars).2).mpr
      ⟨f.ne_nil, hdigit.2, rfl⟩
  rw [text, number?_withSign (by simp) f.isNumeralChar_of_mem, if_pos (by simp), hread]

/-! ## Guessing -/

theorem guess_eq_num {raw : String} {v : Number} (h : number? (Text.trim raw.toList) = some v) :
    guess raw = .num v := by
  rw [guess, h]

/-- A text that looks like no number is itself, unless it is a truth value. -/
theorem guess_eq_str {raw : String} (h : number? (Text.trim raw.toList) = none)
    (htrue : Text.trim raw.toList ≠ "true".toList)
    (hfalse : Text.trim raw.toList ≠ "false".toList) :
    guess raw = .str (String.ofList (Text.trim raw.toList)) := by
  rw [guess, h]
  dsimp only
  split
  · next heq => exact absurd (String.ofList_inj.mp heq) htrue
  · next heq => exact absurd (String.ofList_inj.mp heq) hfalse
  · rfl

namespace Numeral

variable (n : Numeral)

theorem isTight_text : Text.IsTight n.text := by
  have hdigits : ∀ c ∈ n.digits, Text.isBlank c = false := fun c hc =>
    Binary64.isBlank_of_isNumeralChar (n.isNumeralChar_of_mem c hc)
  rw [text, withSign]
  split
  · exact .of_forall (List.cons_ne_nil _ _) (List.forall_mem_cons.mpr ⟨by decide, hdigits⟩)
  · exact .of_forall n.ne_nil hdigits

theorem not_mem_text {c : Char} (hsign : c ≠ '-') (hc : isNumeralChar c = false) : c ∉ n.text :=
  not_mem_withSign n.isNumeralChar_of_mem hsign hc

/-- A numeral is guessed to be a number if 64 bits hold it, and else a text. -/
theorem guess_text :
    guess (String.ofList n.text) =
      if inWord n.value then .num (.int n.value) else .str (String.ofList n.text) := by
  have htrim : Text.trim (String.ofList n.text).toList = n.text := by
    rw [String.toList_ofList, n.isTight_text.trim_eq]
  split
  · next hword =>
      apply guess_eq_num
      rw [htrim, n.number?_text, if_pos hword]
  · next hword =>
      have hletter : 'e' ∉ n.text := n.not_mem_text (by decide) (by decide)
      have hnumber : number? n.text = none := by rw [n.number?_text, if_neg hword]
      rw [← htrim] at hletter hnumber
      rw [guess_eq_str hnumber, htrim]
      · exact fun heq => hletter (heq ▸ by decide)
      · exact fun heq => hletter (heq ▸ by decide)

end Numeral

theorem Fraction.point_mem_text (f : Fraction) : '.' ∈ f.text := by
  rw [text, withSign]
  split <;> simp

section Inversion

variable {text : List Char} {v : Number}

theorem isDigit_of_ne {c : Char} (h : isNumeralChar c = true) (hne : c ≠ '.') :
    c.isDigit = true := by
  rw [isNumeralChar, Bool.or_eq_true, decide_eq_true_iff] at h
  exact h.resolve_right hne

/-- What looks like a number has digits and points only, behind its sign. -/
theorem exists_withSign (h : number? text = some v) :
    ∃ negative digits, withSign negative digits = text ∧ digits ≠ [] ∧
      ∀ c ∈ digits, isNumeralChar c = true := by
  unfold number? at h
  split at h
  · next rest =>
      have hshape := (Option.ite_none_left_eq_some.mp h).1
      exact ⟨true, rest, rfl, malformed_eq_false_iff.mp (Bool.eq_false_iff.mpr hshape)⟩
  · have hshape := (Option.ite_none_left_eq_some.mp h).1
    exact ⟨false, text, rfl, malformed_eq_false_iff.mp (Bool.eq_false_iff.mpr hshape)⟩

/-- A text with another character is no number. -/
theorem number?_of_mem {c : Char} (h : c ∈ text) (hsign : c ≠ '-') (hc : isNumeralChar c = false) :
    number? text = none := by
  rw [Option.eq_none_iff_forall_ne_some]
  intro v hv
  obtain ⟨negative, digits, rfl, -, hchars⟩ := exists_withSign hv
  exact not_mem_withSign hchars hsign hc h

/-- Only numerals and fractions look like numbers. -/
theorem exists_of_number?_eq_some (h : number? text = some v) :
    (∃ n : Numeral, n.text = text) ∨ ∃ f : Fraction, f.text = text := by
  obtain ⟨negative, digits, rfl, hne, hchars⟩ := exists_withSign h
  rw [number?_withSign hne hchars] at h
  by_cases hpoint : '.' ∈ digits
  · -- What stands in front of the first point are the digits of the whole part.
    rw [if_pos hpoint] at h
    obtain ⟨whole, rest, rfl, hfirst⟩ := List.eq_append_cons_of_mem hpoint
    have hwhole : ∀ c ∈ whole, c.isDigit = true := fun c hc =>
      isDigit_of_ne (hchars c (List.mem_append_left _ hc)) fun heq => hfirst (heq ▸ hc)
    cases hread : Binary64.ofUnsigned? negative (whole ++ '.' :: rest) with
    | none =>
        rw [hread] at h
        cases h
    | some x =>
        have hrest : ∀ c ∈ rest, isNumeralChar c = true :=
          fun c hc => hchars c (List.mem_append_right _ (List.mem_cons_of_mem _ hc))
        obtain ⟨hdigit, hdecimals, -⟩ :=
          (Binary64.ofUnsigned?_point_eq_some_iff hwhole hrest).mp hread
        exact .inr ⟨⟨negative, whole, rest, hdigit, List.forall_mem_append.mpr ⟨hwhole, hdecimals⟩⟩,
          rfl⟩
  · have hdigits : ∀ c ∈ digits, c.isDigit = true := fun c hc =>
      isDigit_of_ne (hchars c hc) fun heq => hpoint (heq ▸ hc)
    exact .inl ⟨⟨negative, digits, hne, hdigits⟩, rfl⟩

theorem number?_eq_int_iff {i : Int} :
    number? text = some (.int i) ↔
      ∃ n : Numeral, n.text = text ∧ inWord i = true ∧ n.value = i := by
  constructor
  · intro h
    rcases exists_of_number?_eq_some h with ⟨n, rfl⟩ | ⟨f, rfl⟩
    · rw [n.number?_text, Option.ite_none_right_eq_some, Option.some.injEq, Number.int.injEq] at h
      exact ⟨n, rfl, h.2 ▸ h.1, h.2⟩
    · rw [f.number?_text] at h
      split at h <;> cases h
  · rintro ⟨n, rfl, hword, rfl⟩
    rw [n.number?_text, if_pos hword]

theorem number?_eq_float_iff {x : Binary64} :
    number? text = some (.float x) ↔
      ∃ f : Fraction, f.text = text ∧ x.isFinite = true ∧ f.value = x := by
  constructor
  · intro h
    rcases exists_of_number?_eq_some h with ⟨n, rfl⟩ | ⟨f, rfl⟩
    · rw [n.number?_text] at h
      split at h <;> cases h
    · rw [f.number?_text, Option.ite_none_right_eq_some, Option.some.injEq,
        Number.float.injEq] at h
      exact ⟨f, rfl, h.2 ▸ h.1, h.2⟩
  · rintro ⟨f, rfl, hfinite, rfl⟩
    rw [f.number?_text, if_pos hfinite]

end Inversion

end ApiDoc.Scalar
