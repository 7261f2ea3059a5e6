import ApiDoc.Text.Nesting
import Mathlib.Data.List.Infix

/-!
# Balanced parentheses

A text is balanced when it closes the strings and the parentheses it opens, and no others.  The
parenthesis behind a balanced text is the one that closes the parenthesis in front of it.
-/

namespace ApiDoc.Text

/-- What is open at some place of a text: a string, and parentheses outside of strings. -/
structure Parens where
  quoting : Quoting
  depth : Int
deriving DecidableEq, Repr, Inhabited

namespace Parens

/-- Nothing is open. -/
def start : Parens :=
  ⟨.outside, 0⟩

/-- What is open after one more character. -/
def next (s : Parens) (c : Char) : Parens where
  quoting := s.quoting.next c
  depth :=
    if s.quoting ≠ .outside then s.depth
    else if c = '(' then s.depth + 1
    else if c = ')' then s.depth - 1
    else s.depth

/-- What is open after one more text. -/
def run (s : Parens) (text : List Char) : Parens :=
  text.foldl next s

@[simp] theorem run_nil (s : Parens) : s.run [] = s := rfl

@[simp] theorem run_cons (s : Parens) (c : Char) (cs : List Char) :
    s.run (c :: cs) = (s.next c).run cs := rfl

end Parens

/-- Strings and parentheses are closed at the end of the text, and no parenthesis is closed that
was not opened. -/
structure IsBalanced (text : List Char) : Prop where
  run : Parens.start.run text = .start
  depth_nonneg : ∀ front, front <+: text → 0 ≤ (Parens.start.run front).depth

theorem isBalanced_iff {text : List Char} :
    IsBalanced text ↔ Parens.start.run text = .start ∧
      ∀ front ∈ text.inits, 0 ≤ (Parens.start.run front).depth := by
  simp only [List.mem_inits]
  exact ⟨fun h => ⟨h.run, h.depth_nonneg⟩, fun ⟨hrun, hdepth⟩ => ⟨hrun, hdepth⟩⟩

instance : DecidablePred IsBalanced := fun _ => decidable_of_iff' _ isBalanced_iff

/-- The search goes on behind a character after which the first parenthesis is still open. -/
theorem closing?_cons {s : Parens} {c : Char} (h : 0 ≤ s.depth) (hnext : 0 ≤ (s.next c).depth)
    (cs : List Char) :
    closing? s.quoting (s.depth.toNat + 1) (c :: cs) =
      (closing? (s.next c).quoting ((s.next c).depth.toNat + 1) cs).map
        fun (inner, rest) => (c :: inner, rest) := by
  obtain ⟨q, depth⟩ := s
  unfold Parens.next at hnext ⊢
  rw [closing?]
  dsimp only at h hnext ⊢
  split
  · rfl
  · split
    · next hopen =>
        have hdepth : (depth + 1).toNat = depth.toNat + 1 := by omega
        rw [hdepth]
    · split
      · next hq hopen hclose =>
          rw [if_neg hq, if_neg hopen, if_pos hclose] at hnext
          have hdepth : (depth - 1).toNat + 1 = depth.toNat + 1 - 1 := by omega
          rw [if_neg (by omega), hdepth]
      · rfl

/-- The search goes on behind a text in which the first parenthesis stays open. -/
theorem closing?_append {s : Parens} {text : List Char}
    (h : ∀ front, front <+: text → 0 ≤ (s.run front).depth) (more : List Char) :
    closing? s.quoting (s.depth.toNat + 1) (text ++ more) =
      (closing? (s.run text).quoting ((s.run text).depth.toNat + 1) more).map
        fun (inner, rest) => (text ++ inner, rest) := by
  induction text generalizing s with
  | nil => exact Option.map_id.symm ▸ rfl
  | cons c cs ih =>
      have hstart : 0 ≤ s.depth := h [] (List.nil_prefix)
      have hnext : 0 ≤ (s.next c).depth := h [c] ⟨cs, rfl⟩
      have hrest : ∀ front, front <+: cs → 0 ≤ ((s.next c).run front).depth := fun front hfront =>
        h (c :: front) (List.cons_prefix_cons.mpr ⟨rfl, hfront⟩)
      rw [List.cons_append, closing?_cons hstart hnext, ih hrest, Option.map_map]
      rfl

namespace IsBalanced

variable {body front : List Char}

/-- Behind a balanced text the parenthesis in front of it is closed. -/
theorem closing?_concat (h : IsBalanced body) (rest : List Char) :
    closing? .outside 1 (body ++ ')' :: rest) = some (body, rest) := by
  have hskip := closing?_append h.depth_nonneg (')' :: rest)
  rw [h.run] at hskip
  refine hskip.trans ?_
  have hclose : closing? .outside 1 (')' :: rest) = some ([], rest) := rfl
  exact (congrArg _ hclose).trans (by simp)

/-- Inside of a balanced text it stays open. -/
theorem closing?_eq_none (h : IsBalanced body) (hfront : front <+: body) :
    closing? .outside 1 front = none := by
  have hskip := closing?_append (s := Parens.start)
    (fun start hstart => h.depth_nonneg start (hstart.trans hfront)) []
  rw [List.append_nil] at hskip
  exact hskip.trans rfl

end IsBalanced

end ApiDoc.Text
