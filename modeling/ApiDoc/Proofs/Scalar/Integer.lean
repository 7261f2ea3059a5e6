import ApiDoc.Proofs.Scalar.Numeral

/-!
# Texts that look like whole numbers

The decimal text of a whole number is a numeral that denotes it.  White space around the text
plays no part, so the number is guessed again if 64 bits hold it.  Conversely, a text for which
a whole number is guessed is a numeral with white space around it; leading zeros and a minus
before zero are allowed, a point is not.
-/

namespace ApiDoc.Scalar

namespace Numeral

/-- The numeral of a whole number, without leading zeros. -/
def ofInt (i : Int) : Numeral where
  negative := decide (i < 0)
  digits := Nat.toDigits 10 i.natAbs
  ne_nil := Nat.toDigits_ne_nil
  isDigit _ hc := Nat.isDigit_of_mem_toDigits (by decide) (by decide) hc

theorem text_ofInt (i : Int) : (ofInt i).text = (toString i).toList := by
  rw [Int.toString_eq_repr, text, ofInt, withSign]
  cases i with
  | ofNat n => exact Nat.toList_repr.symm
  | negSucc n =>
      rw [if_pos (decide_eq_true (Int.negSucc_lt_zero n)), Int.repr, String.toList_append,
        Nat.toList_repr]
      rfl

theorem value_ofInt (i : Int) : (ofInt i).value = i := by
  rw [value, ofInt]
  dsimp only
  rw [Text.digitsValue_toDigits, Binary64.signed]
  split
  · next hneg =>
      have hlt : i < 0 := of_decide_eq_true hneg
      omega
  · next hpos =>
      have hle : ¬ i < 0 := of_decide_eq_false (Bool.eq_false_iff.mpr hpos)
      omega

end Numeral

theorem guess_eq_num_iff {raw : String} {v : Number} :
    guess raw = .num v ↔ number? (Text.trim raw.toList) = some v := by
  refine ⟨fun h => ?_, guess_eq_num⟩
  rw [guess] at h
  split at h
  · next w hw => rw [hw, Json.num.inj h]
  · split at h <;> cases h

/-- A whole number is guessed for the numerals that denote it, if 64 bits hold it. -/
theorem guess_eq_int_iff {raw : String} {i : Int} :
    guess raw = .num (.int i) ↔
      inWord i = true ∧ ∃ n : Numeral, n.text = Text.trim raw.toList ∧ n.value = i := by
  rw [guess_eq_num_iff, number?_eq_int_iff]
  constructor
  · rintro ⟨n, htext, hword, hvalue⟩
    exact ⟨hword, n, htext, hvalue⟩
  · rintro ⟨hword, n, htext, hvalue⟩
    exact ⟨n, htext, hword, hvalue⟩

/-- Each whole number of 64 bits is guessed for its decimal text, whatever white space stands
around it; and a text for which a whole number is guessed is, without the white space around it,
a numeral that denotes this number, which 64 bits hold. -/
theorem guess_whole_numbers :
    (∀ (i : Int) (front tail : String), inWord i = true →
        Text.allBlank front.toList = true → Text.allBlank tail.toList = true →
        guess (front ++ toString i ++ tail) = .num (.int i)) ∧
      ∀ (raw : String) (i : Int), guess raw = .num (.int i) ↔
        inWord i = true ∧ ∃ n : Numeral, n.text = Text.trim raw.toList ∧ n.value = i := by
  refine ⟨fun i front tail hword hfront htail => ?_, fun raw i => guess_eq_int_iff⟩
  refine guess_eq_int_iff.mpr ⟨hword, .ofInt i, ?_, Numeral.value_ofInt i⟩
  have htight := (Numeral.ofInt i).isTight_text
  rw [Numeral.text_ofInt] at htight ⊢
  rw [String.toList_append, String.toList_append, List.append_assoc,
    Text.trim_of_blank_append (List.all_eq_true.mp hfront),
    Text.trim_append_of_blank (List.all_eq_true.mp htail), htight.trim_eq]

/-- The least number of 64 bits, and a minus and zeros that its decimal text does not have. -/
theorem guess_whole_numbers_limits :
    guess ("\t " ++ toString (-9223372036854775808 : Int) ++ "\n") =
        .num (.int (-9223372036854775808)) ∧
      guess " -007 " = .num (.int (-7)) := by
  refine ⟨guess_whole_numbers.1 _ _ _ (by decide) (by decide) (by decide), ?_⟩
  refine (guess_whole_numbers.2 " -007 " (-7)).mpr ⟨by decide, ?_⟩
  exact ⟨⟨true, ['0', '0', '7'], by decide, List.all_eq_true.mp (by decide)⟩, by decide, by decide⟩

end ApiDoc.Scalar
