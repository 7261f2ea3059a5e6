import ApiDoc.Proofs.Text
import ApiDoc.DocComment.Block

/-!
# Styles of comments

A comment can be written as a block, as line comments of two kinds, or without any marks.  A line
that does not look like a mark itself is what is left of it in every style.
-/

namespace ApiDoc.DocBlock

open Text (IsTight)

/-! ## Lines without marks -/

/-- A line from which no mark of a comment is taken. -/
structure IsClean (line : List Char) : Prop where
  trim_eq : Text.trim line = line
  newline_not_mem : '\n' ∉ line
  not_opening : ∀ mark ∈ ["*", "/*", "//!", "///"], ¬ mark.toList <+: line
  not_closing : ¬ "*/".toList <:+ line

instance : DecidablePred IsClean := fun line =>
  decidable_of_iff
    (Text.trim line = line ∧ '\n' ∉ line ∧
      (∀ mark ∈ ["*", "/*", "//!", "///"], ¬ mark.toList <+: line) ∧ ¬ "*/".toList <:+ line)
    ⟨fun h => ⟨h.1, h.2.1, h.2.2.1, h.2.2.2⟩,
      fun h => ⟨h.trim_eq, h.newline_not_mem, h.not_opening, h.not_closing⟩⟩

/-- A line of prose does not start like a tag. -/
structure IsProse (line : List Char) : Prop extends IsClean line where
  not_tag : ¬ ['@'] <+: line

instance : DecidablePred IsProse := fun line =>
  decidable_of_iff (IsClean line ∧ ¬ ['@'] <+: line)
    ⟨fun h => ⟨h.1, h.2⟩, fun h => ⟨h.toIsClean, h.not_tag⟩⟩

namespace IsClean

variable {line name : List Char}

theorem nil : IsClean [] := by
  decide

theorem isTight (h : IsClean line) (hne : line ≠ []) : IsTight line :=
  Text.isTight_of_trim_eq h.trim_eq hne

theorem trimStart_eq (h : IsClean line) : Text.trimStart line = line := by
  by_cases hne : line = []
  · rw [hne]
    rfl
  · exact (h.isTight hne).trimStart_eq

theorem trimEnd_eq (h : IsClean line) : Text.trimEnd line = line := by
  by_cases hne : line = []
  · rw [hne]
    rfl
  · exact (h.isTight hne).trimEnd_eq

theorem dropOpening_eq (h : IsClean line) : dropOpening line = line := by
  have hblock : ¬ "/**".toList <+: line := fun hprefix =>
    h.not_opening "/*" (by simp) (List.IsPrefix.trans (by decide) hprefix)
  have hnone : (["/**".toList, "/*".toList, "//!".toList, "///".toList].findSome?
      fun mark => Text.dropHead? mark line) = none := by
    simp only [List.findSome?_eq_none_iff, List.forall_mem_cons]
    exact ⟨Text.dropHead?_eq_none hblock, Text.dropHead?_eq_none (h.not_opening "/*" (by simp)),
      Text.dropHead?_eq_none (h.not_opening "//!" (by simp)),
      Text.dropHead?_eq_none (h.not_opening "///" (by simp)), List.forall_mem_nil _⟩
  rw [dropOpening]
  exact congrArg (Option.getD · line) hnone

end IsClean

/-- A line as it stands behind a mark: a space is in front of it, if there is anything. -/
def spaced (line : List Char) : List Char :=
  if line = [] then [] else ' ' :: line

section Strip

variable {mark raw line opened : List Char}

theorem IsClean.not_space (h : IsClean line) : ¬ [' '] <+: line := by
  rintro ⟨rest, rfl⟩
  obtain ⟨c, cs, heq, hc⟩ := (h.isTight (by simp)).first
  obtain rfl : ' ' = c := (List.cons.inj heq).1
  exact absurd hc (by decide)

theorem isTight_append_spaced (hmark : IsTight mark) (h : IsClean line) :
    IsTight (mark ++ spaced line) := by
  unfold spaced
  split
  · rwa [List.append_nil]
  · next hne =>
      have happend := hmark.append [' '] (h.isTight hne)
      rwa [List.append_assoc] at happend

theorem trimStart_spaced (h : IsClean line) : Text.trimStart (spaced line) = line := by
  unfold spaced
  split
  · next heq => rw [heq]; rfl
  · exact (List.dropWhile_cons_of_pos (by decide)).trans h.trimStart_eq

theorem dropHead?_spaced (line : List Char) :
    (Text.dropHead? [' '] (spaced line)).getD (spaced line) = line := by
  unfold spaced
  split
  · next heq => rw [heq]; rfl
  · rfl

theorem IsClean.isLine (h : IsClean line) : Text.IsLine line where
  newline_not_mem := h.newline_not_mem
  not_return := by
    intro hlast
    have hne : line ≠ [] := by
      rintro rfl
      cases hlast
    obtain ⟨front, c, rfl, hc⟩ := (h.isTight hne).last
    rw [List.getLast?_concat] at hlast
    rw [Option.some.inj hlast] at hc
    exact absurd hc (by decide)

theorem isLine_spaced (h : IsClean line) : Text.IsLine (spaced line) := by
  unfold spaced
  split
  · exact IsClean.nil.isLine
  · have hspace : Text.IsLine [' '] := ⟨by decide, by decide⟩
    exact hspace.append h.isLine

theorem isLine_indent (n : Nat) : Text.IsLine (List.replicate n ' ') where
  newline_not_mem := fun hmem => absurd (List.eq_of_mem_replicate hmem) (by decide)
  not_return := fun hlast =>
    absurd (List.eq_of_mem_replicate (List.mem_of_getLast? hlast)) (by decide)

theorem not_closing_spaced (h : IsClean line) : ¬ "*/".toList <:+ spaced line := by
  unfold spaced
  split
  · decide
  · intro hsuffix
    rcases List.suffix_cons_iff.mp hsuffix with heq | hline
    · exact absurd (List.cons.inj heq).1 (by decide)
    · exact h.not_closing hline

theorem not_closing_star_spaced (h : IsClean line) : ¬ "*/".toList <:+ '*' :: spaced line := by
  intro hsuffix
  rcases List.suffix_cons_iff.mp hsuffix with heq | hline
  · unfold spaced at heq
    split at heq
    · exact absurd heq (by decide)
    · exact absurd (List.cons.inj (List.cons.inj heq).2).1 (by decide)
  · exact not_closing_spaced h hline

/-- What is left when no star stands in front of the line. -/
theorem stripMarks_of_trimStart (h : IsClean line)
    (hopened : dropOpening (Text.trim raw) = opened) (hclosing : ¬ "*/".toList <:+ opened)
    (hstart : Text.trimStart opened = line) : stripMarks raw = line := by
  have hend : Text.dropTail? ['*', '/'] opened = none := Text.dropTail?_eq_none hclosing
  have hstar : Text.dropHead? ['*'] line = none :=
    Text.dropHead?_eq_none (h.not_opening "*" (by simp))
  rw [stripMarks, hopened, hend]
  dsimp only [Option.getD_none]
  rw [hstart, hstar]
  dsimp only [Option.getD_none]
  rw [Text.dropHead?_eq_none h.not_space]
  exact h.trimEnd_eq

theorem stripMarks_bare (h : IsClean line) : stripMarks line = line := by
  have hopened : dropOpening (Text.trim line) = line := by
    rw [h.trim_eq, h.dropOpening_eq]
  exact stripMarks_of_trimStart h hopened h.not_closing h.trimStart_eq

/-- The mark of a line comment is one of those a comment may start with. -/
theorem stripMarks_mark (hmark : IsTight mark)
    (hopening : ∀ rest, dropOpening (mark ++ rest) = rest) (h : IsClean line) :
    stripMarks (mark ++ spaced line) = line := by
  have hopened : dropOpening (Text.trim (mark ++ spaced line)) = spaced line := by
    rw [(isTight_append_spaced hmark h).trim_eq, hopening]
  exact stripMarks_of_trimStart h hopened (not_closing_spaced h) (trimStart_spaced h)

theorem stripMarks_star (h : IsClean line) : stripMarks (' ' :: '*' :: spaced line) = line := by
  have htight : IsTight ('*' :: spaced line) :=
    isTight_append_spaced (.of_all (by decide) (by decide) : IsTight ['*']) h
  have htrim : Text.trim (' ' :: '*' :: spaced line) = '*' :: spaced line :=
    (Text.trim_cons_of_isBlank (by decide) _).trans htight.trim_eq
  have hopened : dropOpening ('*' :: spaced line) = '*' :: spaced line := rfl
  have hend : Text.dropTail? ['*', '/'] ('*' :: spaced line) = none :=
    Text.dropTail?_eq_none (not_closing_star_spaced h)
  have hstar : Text.dropHead? ['*'] ('*' :: spaced line) = some (spaced line) := rfl
  rw [stripMarks, htrim, hopened, hend]
  dsimp only [Option.getD_none]
  rw [htight.trimStart_eq, hstar]
  dsimp only [Option.getD_some]
  rw [dropHead?_spaced]
  exact h.trimEnd_eq

theorem stripMarks_indent (n : Nat) (raw : List Char) :
    stripMarks (List.replicate n ' ' ++ raw) = stripMarks raw := by
  rw [stripMarks, Text.trim_indent, ← stripMarks]

end Strip

/-! ## Styles -/

/-- A way to write a comment. -/
inductive Style
  | block
  | slashes
  | bangs
  | bare
deriving DecidableEq, Repr

namespace Style

/-- The lines of a comment with the marks around them. -/
def marked : Style → List (List Char) → List (List Char)
  | block, lines =>
      "/**".toList :: lines.map (fun line => ' ' :: '*' :: spaced line) ++ [" */".toList]
  | slashes, lines => lines.map fun line => "///".toList ++ spaced line
  | bangs, lines => lines.map fun line => "//!".toList ++ spaced line
  | bare, lines => lines

/-- The text of a comment whose lines are indented by some spaces. -/
def render (style : Style) (indent : Nat) (lines : List (List Char)) : String :=
  String.ofList (Text.join ['\n'] ((style.marked lines).map (List.replicate indent ' ' ++ ·)))

/-- What is left of the lines when the marks are taken away: a block has an empty line in front
of them and behind them. -/
def unmarked : Style → List (List Char) → List (List Char)
  | block, lines => [] :: lines ++ [[]]
  | _, lines => lines

variable {lines : List (List Char)}

theorem map_stripMarks_marked (h : ∀ line ∈ lines, IsClean line) (style : Style) :
    (style.marked lines).map stripMarks = style.unmarked lines := by
  have hmap : ∀ {wrap : List Char → List Char},
      (∀ line, IsClean line → stripMarks (wrap line) = line) →
        (lines.map wrap).map stripMarks = lines := by
    intro wrap hwrap
    rw [List.map_map]
    exact (List.map_congr_left fun line hline => hwrap line (h line hline)).trans
      (List.map_id lines)
  cases style with
  | block =>
      rw [marked, unmarked, List.map_append, List.map_cons, hmap fun line => stripMarks_star]
      rfl
  | slashes =>
      exact hmap fun line =>
        stripMarks_mark (.of_all (by decide) (by decide)) fun rest => rfl
  | bangs =>
      exact hmap fun line =>
        stripMarks_mark (.of_all (by decide) (by decide)) fun rest => rfl
  | bare =>
      exact (congrArg _ (List.map_id lines).symm).trans (hmap fun line => stripMarks_bare)

theorem isLine_of_mem_marked (h : ∀ line ∈ lines, IsClean line) (style : Style)
    {line : List Char} (hline : line ∈ style.marked lines) : Text.IsLine line := by
  have hmap : ∀ {mark : List Char}, Text.IsLine mark →
      ∀ line ∈ lines.map fun line => mark ++ spaced line, Text.IsLine line := by
    intro mark hmark line hline
    obtain ⟨plain, hplain, rfl⟩ := List.mem_map.mp hline
    exact hmark.append (isLine_spaced (h plain hplain))
  have hliteral : ∀ mark ∈ ["/**", " *", " */", "///", "//!"], Text.IsLine mark.toList := by
    intro mark hmark
    constructor
    · revert mark
      decide
    · revert mark
      decide
  cases style with
  | block =>
      rcases List.mem_append.mp hline with hline | hline
      · rcases List.mem_cons.mp hline with rfl | hline
        · exact hliteral "/**" (by simp)
        · exact hmap (hliteral " *" (by simp)) line hline
      · obtain rfl := List.mem_singleton.mp hline
        exact hliteral " */" (by simp)
  | slashes => exact hmap (hliteral "///" (by simp)) line hline
  | bangs => exact hmap (hliteral "//!" (by simp)) line hline
  | bare => exact (h line hline).isLine

/-- The text of a comment, line by line without marks, has lost an empty last line at most. -/
theorem map_stripMarks_lines (style : Style) (indent : Nat) (h : ∀ line ∈ lines, IsClean line) :
    (Text.lines (style.render indent lines).toList).map stripMarks = style.unmarked lines ∨
      style.unmarked lines =
        (Text.lines (style.render indent lines).toList).map stripMarks ++ [[]] := by
  have hstrip : ((style.marked lines).map (List.replicate indent ' ' ++ ·)).map stripMarks =
      style.unmarked lines := by
    rw [List.map_map, ← style.map_stripMarks_marked h]
    exact List.map_congr_left fun line _ => stripMarks_indent indent line
  have hlines : ∀ line ∈ (style.marked lines).map (List.replicate indent ' ' ++ ·),
      Text.IsLine line := by
    intro line hline
    obtain ⟨plain, hplain, rfl⟩ := List.mem_map.mp hline
    exact (isLine_indent indent).append (style.isLine_of_mem_marked h hplain)
  rw [render, String.toList_ofList]
  generalize (style.marked lines).map (List.replicate indent ' ' ++ ·) = written at hstrip hlines
  obtain rfl | ⟨front, last, rfl⟩ := List.eq_nil_or_concat written
  · exact .inl hstrip
  · rw [List.concat_eq_append] at hstrip hlines ⊢
    rw [Text.lines_join hlines, ← hstrip]
    split
    · next hempty =>
        refine .inr ?_
        rw [hempty, List.map_append]
        rfl
    · exact .inl rfl

end Style

end ApiDoc.DocBlock
