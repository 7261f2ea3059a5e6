import ApiDoc.Proofs.Scalar.Numeral
import ApiDoc.Rule.Reader
import Mathlib.Data.String.Basic

/-!
# Enforced bounds

A bound that is enforced refuses what is on its wrong side.  Numerals are compared as
binary numbers: a bound between two numerals that become one binary number cannot tell
them apart.  A numeral that has more than 64 bits is compared as a text.
-/

namespace ApiDoc

open Scalar (Numeral inWord)

/-- Whether a value is on the side of a bound to which the bound keeps it. -/
def BoundSide.Holds {α : Type} [LE α] (side : BoundSide) (bound value : α) : Prop :=
  match side with
  | .min => bound ≤ value
  | .max => value ≤ bound

instance {α : Type} [LE α] [DecidableLE α] (side : BoundSide) (bound value : α) :
    Decidable (side.Holds bound value) :=
  match side with
  | .min => inferInstanceAs (Decidable (bound ≤ value))
  | .max => inferInstanceAs (Decidable (value ≤ bound))

namespace Bound

/-- An enforced bound asks for its side in the order in which a value is compared with it. -/
theorem accepts_iff {α : Type} [LinearOrder α] {bound : Bound} {text : String} {value limit : α}
    (henforced : bound.enforced = true)
    (h : bound.ordering? text = some (compare value limit)) :
    bound.accepts text = true ↔ bound.side.Holds limit value := by
  rw [accepts, henforced, h]
  cases bound.side with
  | min => simp [BoundSide.Holds, compare_lt_iff_lt]
  | max => simp [BoundSide.Holds, compare_gt_iff_gt]

/-- A numeral is read as the bound that it denotes, and enforced where it is marked so. -/
theorem read_enforced (side : BoundSide) (b : Numeral) :
    read side (b.text ++ ":fail".toList) = ⟨side, String.ofList b.text, true⟩ := by
  have hcolon : ':' ∉ b.text := b.not_mem_text (by decide) (by decide)
  have hpieces : Text.splitOn ':' (b.text ++ ":fail".toList) = [b.text, "fail".toList] := by
    calc Text.splitOn ':' (b.text ++ ':' :: "fail".toList)
      _ = Text.splitOn ':' b.text ++ Text.splitOn ':' "fail".toList :=
        Text.splitOn_append_cons _ _ _
      _ = [b.text, "fail".toList] := by rw [Text.splitOn_of_not_mem hcolon]; rfl
  rw [read, hpieces, List.map_cons, b.isTight_text.trim_eq]
  rfl

section Numerals

variable {bound : Bound} {v b : Numeral}

/-- A numeral of 64 bits is compared with a numeral as a binary number. -/
theorem ordering?_of_inWord (hvalue : bound.value = String.ofList b.text)
    (hword : inWord v.value = true) :
    bound.ordering? (String.ofList v.text) =
      some (compare (Binary64.ofInt v.value).units (Binary64.ofInt b.value).units) := by
  have hread : Binary64.ofNumeral? b.text =
      some (.nearest b.negative (Text.digitsValue b.digits) 1) := by
    rw [Numeral.text, Scalar.ofNumeral?_withSign b.isNumeralChar_of_mem,
      Binary64.ofUnsigned?_of_isDigit _ b.ne_nil b.isDigit, Binary64.ofDecimal_zero]
  rw [ordering?, v.guess_text, if_pos hword, hvalue, String.toList_ofList,
    b.isTight_text.trim_eq, hread]
  have hcanonical := (Binary64.nearest_spec b.negative (Text.digitsValue b.digits)).1
  exact (Binary64.compare?_eq (Binary64.canonical_ofInt v.value) hcanonical).trans
    (by rw [Binary64.units_nearest]; rfl)

/-- A longer numeral is compared as a text. -/
theorem ordering?_of_not_inWord (hword : ¬ inWord v.value = true) :
    bound.ordering? (String.ofList v.text) =
      some (compare (String.ofList v.text) bound.value) := by
  rw [ordering?, v.guess_text, if_neg hword]

/-- Binary numbers keep the sides of whole numbers, up to those that become one number. -/
theorem holds_units_iff {side : BoundSide} {i j : Int} :
    side.Holds (Binary64.ofInt j).units (Binary64.ofInt i).units ↔
      side.Holds j i ∨ Binary64.ofInt i = Binary64.ofInt j := by
  cases side with
  | min =>
      rw [BoundSide.Holds, BoundSide.Holds, Binary64.units_ofInt_le_iff, eq_comm]
  | max => exact Binary64.units_ofInt_le_iff

theorem holds_refl (side : BoundSide) (i : Int) : side.Holds i i := by
  cases side <;> exact Int.le_refl i

/-- An enforced bound keeps numerals of 64 bits to its side, but for those that become the
same binary number as the bound, and longer numerals in the order of texts.  Numerals below
`2 ^ 53` in size are kept to it exactly. -/
theorem accepts_numeral_iff (side : BoundSide) (v b : Numeral) :
    ((read side (b.text ++ ":fail".toList)).accepts (String.ofList v.text) = true ↔
      if inWord v.value then
        side.Holds b.value v.value ∨ Binary64.ofInt v.value = Binary64.ofInt b.value
      else side.Holds (String.ofList b.text) (String.ofList v.text)) ∧
    (v.value.natAbs < 2 ^ 53 →
      ((read side (b.text ++ ":fail".toList)).accepts (String.ofList v.text) = true ↔
        side.Holds b.value v.value)) := by
  have haccepts : (read side (b.text ++ ":fail".toList)).accepts (String.ofList v.text) = true ↔
      if inWord v.value then
        side.Holds b.value v.value ∨ Binary64.ofInt v.value = Binary64.ofInt b.value
      else side.Holds (String.ofList b.text) (String.ofList v.text) := by
    rw [read_enforced]
    split
    · next hword => rw [accepts_iff rfl (ordering?_of_inWord rfl hword), holds_units_iff]
    · next hword => rw [accepts_iff rfl (ordering?_of_not_inWord hword)]
  refine ⟨haccepts, fun hsmall => ?_⟩
  have hword : inWord v.value = true := by
    have hlarge : 2 ^ 53 ≤ Nat.pow 2 63 := by decide
    rw [inWord, Bool.and_eq_true, decide_eq_true_iff, decide_eq_true_iff]
    omega
  rw [haccepts, if_pos hword, or_iff_left_of_imp]
  intro hsame
  rw [Binary64.eq_of_ofInt_eq hsmall hsame]
  exact holds_refl side b.value

/-- The bound `2 ^ 53 + 1` is no binary number, and lets `2 ^ 53` pass. -/
theorem not_forall_accepts_iff_holds :
    ¬ ∀ (side : BoundSide) (v b : Numeral),
      (read side (b.text ++ ":fail".toList)).accepts (String.ofList v.text) = true ↔
        side.Holds b.value v.value := by
  intro h
  have hbelow := h .min
    ⟨false, "9007199254740992".toList, by decide, List.all_eq_true.mp (by decide)⟩
    ⟨false, "9007199254740993".toList, by decide, List.all_eq_true.mp (by decide)⟩
  have haccepted :
      (read .min "9007199254740993:fail".toList).accepts "9007199254740992" = true := by
    decide +kernel
  exact absurd (hbelow.mp haccepted) (by decide +kernel)

end Numerals

end Bound

end ApiDoc
