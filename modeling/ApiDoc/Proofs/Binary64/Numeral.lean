import ApiDoc.Binary64.Numeral
import ApiDoc.Proofs.Binary64.Rounding
import ApiDoc.Proofs.Text

/-!
# Reading decimal numerals

A text of digits is read as the binary number closest to the whole number that they
denote.  With points among the digits it is read only if there is one point, and a digit
beside it.
-/

namespace ApiDoc.Binary64

/-- A digit or a point. -/
def isNumeralChar (c : Char) : Bool :=
  c.isDigit || c = '.'

section Chars

variable {c : Char}

theorem isNumeralChar_of_isDigit (h : c.isDigit = true) : isNumeralChar c = true := by
  rw [isNumeralChar, h, Bool.true_or]

theorem ne_of_isNumeralChar {d : Char} (hc : isNumeralChar c = true)
    (hd : isNumeralChar d = false) : c ≠ d := by
  rintro rfl
  exact Bool.noConfusion (hc.symm.trans hd)

theorem isBlank_of_isNumeralChar (h : isNumeralChar c = true) : Text.isBlank c = false :=
  Text.isBlank_eq_false_of (by decide +kernel) h

/-- Digits and points are no letters. -/
theorem toLower_of_isNumeralChar (h : isNumeralChar c = true) : c.toLower = c := by
  rw [isNumeralChar, Bool.or_eq_true, decide_eq_true_iff] at h
  rcases h with hdigit | rfl
  · delta Char.isDigit at hdigit
    simp only [Bool.and_eq_true, decide_eq_true_iff, ge_iff_le, UInt32.le_iff_toNat_le] at hdigit
    refine dif_neg fun hupper => ?_
    simp only [ge_iff_le, UInt32.le_iff_toNat_le] at hupper
    have hnine : '9'.val.toNat < 'A'.val.toNat := by decide
    omega
  · rfl

end Chars

/-! ## Numerals without a sign -/

section Unsigned

variable {c : Char} {cs whole rest : List Char} {x : Binary64}

/-- No text of digits and points is a name with a letter in it. -/
theorem map_toLower_ne (h : ∀ c ∈ cs, isNumeralChar c = true) (name : List Char) (hmem : c ∈ name)
    (hc : isNumeralChar c = false) :
    String.ofList (cs.map Char.toLower) ≠ String.ofList name := by
  intro heq
  rw [String.ofList_inj] at heq
  rw [← heq, List.mem_map] at hmem
  obtain ⟨d, hd, rfl⟩ := hmem
  rw [toLower_of_isNumeralChar (h d hd)] at hc
  exact Bool.noConfusion ((h d hd).symm.trans hc)

theorem exponentValue?_nil : exponentValue? [] = some 0 := rfl

theorem exponentValue?_cons (h : isNumeralChar c = true) : exponentValue? (c :: cs) = none := by
  have hlower : c ≠ 'e' := ne_of_isNumeralChar h (by decide)
  have hupper : c ≠ 'E' := ne_of_isNumeralChar h (by decide)
  rw [exponentValue?]
  simp [hlower, hupper]

/-- Digits, perhaps with points behind them, are read place by place. -/
theorem ofUnsigned?_append (negative : Bool) (hwhole : ∀ c ∈ whole, c.isDigit = true)
    (hrest : ∀ c ∈ rest, isNumeralChar c = true) (hpoint : ∀ c ∈ rest.head?, c = '.') :
    ofUnsigned? negative (whole ++ rest) =
      if whole.isEmpty && (rest.tail.takeWhile Char.isDigit).isEmpty then none
      else (exponentValue? (rest.tail.dropWhile Char.isDigit)).map fun exponent =>
        ofDecimal negative (Text.digitsValue (whole ++ rest.tail.takeWhile Char.isDigit))
          (exponent - (rest.tail.takeWhile Char.isDigit).length) := by
  have hchars : ∀ c ∈ whole ++ rest, isNumeralChar c = true := by
    intro c hc
    rcases List.mem_append.mp hc with hmem | hmem
    · exact isNumeralChar_of_isDigit (hwhole c hmem)
    · exact hrest c hmem
  have hnames : ¬ ((decide (String.ofList ((whole ++ rest).map Char.toLower) = "inf") ||
      decide (String.ofList ((whole ++ rest).map Char.toLower) = "infinity")) = true) := by
    rw [Bool.or_eq_true, decide_eq_true_iff, decide_eq_true_iff, not_or]
    exact ⟨map_toLower_ne (c := 'i') hchars "inf".toList (by decide) (by decide),
      map_toLower_ne (c := 'i') hchars "infinity".toList (by decide) (by decide)⟩
  have hnan : String.ofList ((whole ++ rest).map Char.toLower) ≠ "nan" :=
    map_toLower_ne (c := 'n') hchars "nan".toList (by decide) (by decide)
  have htake : (whole ++ rest).takeWhile Char.isDigit = whole ++ rest.takeWhile Char.isDigit :=
    List.takeWhile_append_of_pos hwhole
  have hdrop : (whole ++ rest).dropWhile Char.isDigit = rest.dropWhile Char.isDigit :=
    List.dropWhile_append_of_pos hwhole
  rw [ofUnsigned?]
  dsimp only
  rw [if_neg hnames, if_neg hnan, htake, hdrop]
  cases rest with
  | nil => rw [List.takeWhile_nil, List.dropWhile_nil, List.append_nil]; rfl
  | cons c more =>
      obtain rfl : c = '.' := hpoint c rfl
      rw [List.takeWhile_cons_of_neg (by decide), List.dropWhile_cons_of_neg (by decide),
        List.append_nil]
      rfl

/-- Digits are read as the whole number that they denote. -/
theorem ofUnsigned?_of_isDigit (negative : Bool) (hne : whole ≠ [])
    (h : ∀ c ∈ whole, c.isDigit = true) :
    ofUnsigned? negative whole = some (ofDecimal negative (Text.digitsValue whole) 0) := by
  rw [← List.append_nil whole, ofUnsigned?_append negative h (List.forall_mem_nil _) (by simp)]
  simp [hne, exponentValue?_nil]

/-- Behind a point there are digits only. -/
theorem ofUnsigned?_point_eq_some_iff {negative : Bool} (hwhole : ∀ c ∈ whole, c.isDigit = true)
    (hrest : ∀ c ∈ rest, isNumeralChar c = true) :
    ofUnsigned? negative (whole ++ '.' :: rest) = some x ↔
      whole ++ rest ≠ [] ∧ (∀ c ∈ rest, c.isDigit = true) ∧
        ofDecimal negative (Text.digitsValue (whole ++ rest)) (-(rest.length : Int)) = x := by
  have hchars : ∀ c ∈ '.' :: rest, isNumeralChar c = true :=
    List.forall_mem_cons.mpr ⟨by decide, hrest⟩
  rw [ofUnsigned?_append negative hwhole hchars (by simp), List.tail_cons]
  by_cases hdigits : ∀ c ∈ rest, c.isDigit = true
  · have htake : rest.takeWhile Char.isDigit = rest := List.takeWhile_eq_self_iff.mpr hdigits
    have hdrop : rest.dropWhile Char.isDigit = [] := List.dropWhile_eq_nil_iff.mpr hdigits
    rw [htake, hdrop, exponentValue?_nil, Option.map_some, Int.zero_sub]
    simpa [Option.ite_none_left_eq_some] using fun _ _ => hdigits
  · have hdrop : rest.dropWhile Char.isDigit ≠ [] := mt List.dropWhile_eq_nil_iff.mp hdigits
    obtain ⟨c, more, hmore⟩ := List.exists_cons_of_ne_nil hdrop
    have hc : isNumeralChar c = true :=
      hrest c ((List.dropWhile_suffix _).subset (hmore ▸ List.mem_cons_self))
    rw [hmore, exponentValue?_cons hc, Option.map_none, ite_self]
    exact iff_of_false (by simp) fun h => hdigits h.2.1

end Unsigned

/-! ## Signs -/

/-- Only a minus is a sign among digits and points. -/
theorem takeSign_of_isNumeralChar {cs : List Char} (h : ∀ c ∈ cs, isNumeralChar c = true) :
    takeSign cs = (false, cs) := by
  unfold takeSign
  split
  · exact absurd (h '-' List.mem_cons_self) (by decide)
  · exact absurd (h '+' List.mem_cons_self) (by decide)
  · rfl

/-- Without an exponent, the guard against large powers of ten only answers what rounding
would. -/
theorem ofDecimal_zero (negative : Bool) (n : Nat) :
    ofDecimal negative n 0 = nearest negative n 1 := by
  by_cases hn : n = 0
  · subst hn
    rfl
  · have hscale : ¬ ((((n.log2 + 1) * 4 / 13 + 1 : Nat) : Int) + 0 < -330) := by omega
    rw [ofDecimal, if_neg (by simpa using hn)]
    by_cases hlarge : ((n.log2 * 3 / 10 : Nat) : Int) + 0 > 310
    · have hover : greatestExponent < (n.log2 : Int) - 52 := by
        rw [greatestExponent]
        omega
      rw [if_pos hlarge, nearest_one hn, settled_of_gt _ _ hover]
    · rw [if_neg hlarge, if_neg hscale, if_pos (le_refl 0)]
      exact congrArg (nearest negative · 1) (Nat.mul_one n)

end ApiDoc.Binary64
