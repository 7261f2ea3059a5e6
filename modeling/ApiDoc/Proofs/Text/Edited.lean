import ApiDoc.Proofs.Text

/-!
# Texts with some parts replaced

Marks are replaced from the left, and where no mark starts the characters stay.  More
generally a text is edited by swapping some of its parts.  Such edits make no slash, no
colon behind a slash and no mark that was not there, if the new parts bring none along.
-/

namespace ApiDoc.Text

/-- What starts with a character that a text does not have stands behind it. -/
theorem isInfix_of_append {c : Char} {cs front rest : List Char} (h : c ∉ front)
    (hin : c :: cs <:+: front ++ rest) : c :: cs <:+: rest := by
  rcases List.infix_append_iff.mp hin with hfront | hrest | ⟨start, tail, heq, hstart, htail⟩
  · exact absurd (hfront.subset List.mem_cons_self) h
  · exact hrest
  · cases start with
    | nil =>
        rw [heq]
        exact htail.isInfix
    | cons d start =>
        obtain ⟨rfl, -⟩ := List.cons.inj heq
        exact absurd (hstart.subset List.mem_cons_self) h

/-! ## Marks -/

/-- A text becomes another one when its marks are replaced from the left. -/
inductive Replaced (mark new : List Char) : List Char → List Char → Prop
  | nil : Replaced mark new [] []
  | found {rest made : List Char} (next : Replaced mark new rest made) :
      Replaced mark new (mark ++ rest) (new ++ made)
  | kept {c : Char} {rest made : List Char} (nowhere : ¬ mark <+: c :: rest)
      (next : Replaced mark new rest made) : Replaced mark new (c :: rest) (c :: made)

theorem replaced_replace {mark : List Char} (hmark : mark ≠ []) (new : List Char) {fuel : Nat}
    {cs : List Char} (hfuel : cs.length ≤ fuel) :
    Replaced mark new cs (replace mark new fuel cs) := by
  induction fuel generalizing cs with
  | zero =>
      obtain rfl := List.length_eq_zero_iff.mp (Nat.le_zero.mp hfuel)
      exact .nil
  | succ fuel ih =>
      cases cs with
      | nil => exact .nil
      | cons c cs =>
          rw [replace]
          cases hdrop : dropHead? mark (c :: cs) with
          | none =>
              refine .kept ?_ (ih (by simpa using hfuel))
              rintro ⟨rest, hrest⟩
              rw [dropHead?_eq_some_iff.mpr hrest.symm] at hdrop
              cases hdrop
          | some rest =>
              have hsplit := dropHead?_eq_some_iff.mp hdrop
              have hlength := congrArg List.length hsplit
              have hpositive := List.length_pos_of_ne_nil hmark
              rw [List.length_append] at hlength
              rw [hsplit]
              exact .found (ih (by omega))

theorem replaced_replaceAll {mark : List Char} (hmark : mark ≠ []) (new cs : List Char) :
    Replaced mark new cs (replaceAll mark new cs) :=
  replaced_replace hmark new (Nat.le_refl _)

/-- A mark is left before a brace, only if there were two of them. -/
theorem Replaced.isInfix_marks {cs ds : List Char} (h : Replaced ['?', '\x7d'] ['\x7d'] cs ds)
    (hin : ['?', '\x7d'] <:+: ds) : ['?', '?', '\x7d'] <:+: cs := by
  induction h with
  | nil => simp at hin
  | found next ih =>
      apply List.infix_append_of_infix_right
      exact ih (isInfix_of_append (by simp) hin)
  | @kept c rest made nowhere next ih =>
      rw [List.infix_cons_iff] at hin
      rcases hin with hstart | hin
      · -- The brace stood behind the mark already, or a mark before it was left out.
        obtain ⟨rfl, hbrace⟩ := List.cons_prefix_cons.mp hstart
        apply List.IsPrefix.isInfix
        cases next with
        | nil => simp at hbrace
        | found next => exact ⟨_, rfl⟩
        | kept _ next =>
            obtain ⟨rfl, -⟩ := List.cons_prefix_cons.mp hbrace
            exact absurd ⟨_, rfl⟩ nowhere
      · exact List.infix_cons (ih hin)

/-! ## Edits -/

/-- A text becomes another one when some of its parts are swapped. -/
inductive Edited (swaps : List Char → List Char → Prop) : List Char → List Char → Prop
  | nil : Edited swaps [] []
  | keep (c : Char) {rest made : List Char} (next : Edited swaps rest made) :
      Edited swaps (c :: rest) (c :: made)
  | swap {old new rest made : List Char} (here : swaps old new) (next : Edited swaps rest made) :
      Edited swaps (old ++ rest) (new ++ made)

namespace Edited

variable {swaps : List Char → List Char → Prop} {cs ds : List Char}

theorem append_left (h : Edited swaps cs ds) (front : List Char) :
    Edited swaps (front ++ cs) (front ++ ds) := by
  induction front with
  | nil => exact h
  | cons c front ih => exact .keep c ih

theorem refl (cs : List Char) : Edited swaps cs cs := by
  have h : Edited swaps (cs ++ []) (cs ++ []) := append_left .nil cs
  rwa [List.append_nil] at h

end Edited

theorem Replaced.edited {mark new cs ds : List Char} (h : Replaced mark new cs ds) :
    Edited (fun old other => old = mark ∧ other = new) cs ds := by
  induction h with
  | nil => exact .nil
  | found next ih => exact .swap ⟨rfl, rfl⟩ ih
  | kept nowhere next ih => exact .keep _ ih

/-- Swaps that keep the segments of a path: nothing that starts with a slash goes away, and
no slash and no colon in front comes. -/
def KeepSegments (swaps : List Char → List Char → Prop) : Prop :=
  ∀ old new, swaps old new →
    (∃ c rest, old = c :: rest ∧ c ≠ '/') ∧ (∃ c rest, new = c :: rest ∧ c ≠ ':') ∧ '/' ∉ new

namespace Edited

variable {swaps : List Char → List Char → Prop} {cs ds : List Char}

theorem head?_eq_slash (hswaps : KeepSegments swaps) (h : Edited swaps cs ds)
    (hslash : cs.head? = some '/') : ds.head? = some '/' := by
  cases h with
  | nil => exact hslash
  | keep c next => exact hslash
  | swap here next =>
      obtain ⟨⟨c, rest, rfl, hc⟩, -, -⟩ := hswaps _ _ here
      exact absurd (Option.some.inj hslash) hc

/-- An edited text starts with a character other than a slash only if the text did. -/
theorem exists_first (hswaps : KeepSegments swaps) (h : Edited swaps cs ds) {c : Char}
    (hc : c ≠ '/') (hstart : [c] <+: ds) : ∃ d, d ≠ '/' ∧ [d] <+: cs := by
  cases h with
  | nil => simp at hstart
  | keep first next =>
      obtain ⟨rfl, -⟩ := List.cons_prefix_cons.mp hstart
      exact ⟨c, hc, _, rfl⟩
  | swap here next =>
      obtain ⟨⟨d, rest, rfl, hd⟩, -, -⟩ := hswaps _ _ here
      exact ⟨d, hd, _, rfl⟩

/-- No swap makes a colon in front, so it was kept, and what follows it starts as before. -/
theorem exists_behind_colon (hswaps : KeepSegments swaps) (h : Edited swaps cs ds) {c : Char}
    (hc : c ≠ '/') (hstart : [':', c] <+: ds) : ∃ d, d ≠ '/' ∧ [':', d] <+: cs := by
  cases h with
  | nil => simp at hstart
  | keep first next =>
      obtain ⟨rfl, hbehind⟩ := List.cons_prefix_cons.mp hstart
      obtain ⟨d, hd, hold⟩ := next.exists_first hswaps hc hbehind
      exact ⟨d, hd, List.cons_prefix_cons.mpr ⟨rfl, hold⟩⟩
  | swap here next =>
      obtain ⟨-, ⟨d, rest, rfl, hd⟩, -⟩ := hswaps _ _ here
      exact absurd (List.cons_prefix_cons.mp hstart).1.symm hd

/-- A character other than a slash stands behind a slash and a colon only where one stood. -/
theorem exists_isInfix_colon (hswaps : KeepSegments swaps) (h : Edited swaps cs ds)
    (hin : ∃ c, c ≠ '/' ∧ ['/', ':', c] <:+: ds) : ∃ c, c ≠ '/' ∧ ['/', ':', c] <:+: cs := by
  obtain ⟨c, hc, hin⟩ := hin
  induction h with
  | nil => simp at hin
  | keep first next ih =>
      rw [List.infix_cons_iff] at hin
      rcases hin with hstart | hin
      · obtain ⟨rfl, hcolon⟩ := List.cons_prefix_cons.mp hstart
        obtain ⟨d, hd, hold⟩ := next.exists_behind_colon hswaps hc hcolon
        exact ⟨d, hd, (List.cons_prefix_cons.mpr ⟨rfl, hold⟩).isInfix⟩
      · obtain ⟨d, hd, hold⟩ := ih hin
        exact ⟨d, hd, List.infix_cons hold⟩
  | swap here next ih =>
      obtain ⟨-, -, hslash⟩ := hswaps _ _ here
      obtain ⟨d, hd, hold⟩ := ih (isInfix_of_append hslash hin)
      exact ⟨d, hd, List.infix_append_of_infix_right hold⟩

/-- A mark stands before a brace only where one stood, if no swap brings a mark, or a brace
in front. -/
theorem isInfix_marks
    (hswaps : ∀ old new, swaps old new →
      (∃ c rest, new = c :: rest ∧ c ≠ '\x7d') ∧ '?' ∉ new)
    (h : Edited swaps cs ds) (hin : ['?', '\x7d'] <:+: ds) : ['?', '\x7d'] <:+: cs := by
  induction h with
  | nil => simp at hin
  | keep first next ih =>
      rw [List.infix_cons_iff] at hin
      rcases hin with hstart | hin
      · obtain ⟨rfl, hbrace⟩ := List.cons_prefix_cons.mp hstart
        apply List.IsPrefix.isInfix
        cases next with
        | nil => simp at hbrace
        | keep second next =>
            obtain ⟨rfl, -⟩ := List.cons_prefix_cons.mp hbrace
            exact ⟨_, rfl⟩
        | swap here next =>
            obtain ⟨⟨d, tail, rfl, hd⟩, -⟩ := hswaps _ _ here
            exact absurd (List.cons_prefix_cons.mp hbrace).1.symm hd
      · exact List.infix_cons (ih hin)
  | swap here next ih =>
      obtain ⟨-, hmark⟩ := hswaps _ _ here
      exact List.infix_append_of_infix_right (ih (isInfix_of_append hmark hin))

end Edited

end ApiDoc.Text
