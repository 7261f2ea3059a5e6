import ApiDoc.Proofs.Text.Parentheses
import ApiDoc.Proofs.DocComment.Styles

/-!
# Comments as they are written

A comment is written as lines of prose, separated into paragraphs by empty lines, and tags, whose
bodies may go on over several lines.  Whatever the style, the comment is read back: the scan goes
over the prose, then over the lines of one tag after the other, and a body stays open up to the
parenthesis behind its last line.
-/

namespace ApiDoc.DocBlock

open Text (IsBalanced IsTight)

/-! ## Tags -/

theorem isBlank_of_isAlphanumeric {c : Char} (h : Text.isAlphanumeric c = true) :
    Text.isBlank c = false :=
  Text.isBlank_eq_false_of (by decide +kernel) h

theorem not_mem_name {name : List Char} {c : Char} (hc : Text.isAlphanumeric c = false)
    (h : ∀ c ∈ name, Text.isAlphanumeric c = true) : c ∉ name := by
  intro hmem
  rw [h c hmem] at hc
  cases hc

theorem isTight_at_name {name : List Char} (h : ∀ c ∈ name, Text.isAlphanumeric c = true) :
    IsTight ('@' :: name) :=
  .of_forall (List.cons_ne_nil '@' name) (List.forall_mem_cons.mpr
    ⟨by decide, fun c hc => isBlank_of_isAlphanumeric (h c hc)⟩)

theorem isNameChar_of_isAlphanumeric {c : Char} (h : Text.isAlphanumeric c = true) :
    isNameChar c = true := by
  simp [isNameChar, h]

/-- The lines of a body, with a parenthesis behind the last one. -/
def closeLast : List (List Char) → List (List Char)
  | [] => [[')']]
  | [last] => [last ++ [')']]
  | line :: next :: rest => line :: closeLast (next :: rest)

theorem closeLast_ne_nil (lines : List (List Char)) : closeLast lines ≠ [] := by
  match lines with
  | [] => exact List.cons_ne_nil _ _
  | [last] => exact List.cons_ne_nil _ _
  | line :: next :: rest => exact List.cons_ne_nil _ _

theorem exists_getLast?_closeLast (lines : List (List Char)) :
    ∃ last, (closeLast lines).getLast? = some (last ++ [')']) := by
  induction lines using closeLast.induct with
  | case1 => exact ⟨[], rfl⟩
  | case2 last => exact ⟨last, rfl⟩
  | case3 line next rest ih =>
      obtain ⟨last, hlast⟩ := ih
      refine ⟨last, ?_⟩
      rw [closeLast, List.getLast?_cons, hlast]
      rfl

namespace IsClean

variable {line name : List Char}

/-- A parenthesis behind a line is no mark. -/
theorem concat_parenthesis (h : IsClean line) : IsClean (line ++ [')']) where
  trim_eq := (Text.trim_concat (by decide) line).trans (by rw [h.trimStart_eq])
  newline_not_mem := by
    rw [List.mem_append]
    exact not_or.mpr ⟨h.newline_not_mem, by decide⟩
  not_opening := by
    intro mark hmark hprefix
    rcases List.prefix_concat_iff.mp hprefix with heq | hline
    · have hmem : ')' ∈ mark.toList := heq ▸ List.mem_append_right line List.mem_cons_self
      have hnone : ∀ mark ∈ ["*", "/*", "//!", "///"], ')' ∉ mark.toList := by decide
      exact hnone mark hmark hmem
    · exact h.not_opening mark hmark hline
  not_closing := by
    rintro ⟨front, hfront⟩
    have hlast : front ++ ['*'] ++ ['/'] = line ++ [')'] := by
      rw [← hfront, List.append_assoc]
      rfl
    exact absurd (List.append_inj_right' hlast rfl) (by decide)

theorem not_opening_at (rest : List Char) :
    ∀ mark ∈ ["*", "/*", "//!", "///"], ¬ mark.toList <+: '@' :: rest := by
  have hhead : ∀ mark ∈ ["*", "/*", "//!", "///"], mark.toList.head? ≠ some '@' ∧
      mark.toList ≠ [] := by
    decide
  rintro mark hmark ⟨more, hmore⟩
  obtain ⟨hne, hcons⟩ := hhead mark hmark
  obtain ⟨c, cs, hchars⟩ := List.exists_cons_of_ne_nil hcons
  rw [hchars] at hmore hne
  exact hne (congrArg some (List.cons.inj hmore).1)

/-- The name of a tag, behind the at sign. -/
theorem at_name (h : ∀ c ∈ name, Text.isAlphanumeric c = true) : IsClean ('@' :: name) where
  trim_eq := (isTight_at_name h).trim_eq
  newline_not_mem := by
    rw [List.mem_cons]
    exact not_or.mpr ⟨by decide, not_mem_name (by decide) h⟩
  not_opening := not_opening_at name
  not_closing := by
    intro hsuffix
    have hmem : '/' ∈ '@' :: name := hsuffix.subset (by decide)
    exact not_mem_name (by decide) h ((List.mem_cons.mp hmem).resolve_left (by decide))

/-- The first line of a body, behind the name of the tag and a parenthesis. -/
theorem at_name_append (hname : ∀ c ∈ name, Text.isAlphanumeric c = true) (h : IsClean line) :
    IsClean ('@' :: name ++ '(' :: line) where
  trim_eq := by
    refine IsTight.trim_eq ?_
    by_cases hne : line = []
    · rw [hne]
      exact .enclosed (by decide) (by decide) name
    · have htight := (isTight_at_name hname).append ['('] (h.isTight hne)
      rwa [List.append_assoc] at htight
  newline_not_mem := by
    rw [List.mem_append, List.mem_cons, List.mem_cons]
    have hnone : '\n' ∉ name := not_mem_name (by decide) hname
    rintro ((hat | hmem) | hparen | hmem)
    · exact absurd hat (by decide)
    · exact hnone hmem
    · exact absurd hparen (by decide)
    · exact h.newline_not_mem hmem
  not_opening := not_opening_at (name ++ '(' :: line)
  not_closing := by
    intro hsuffix
    have hparen : '(' :: line <:+ '@' :: name ++ '(' :: line := List.suffix_append _ _
    rcases List.suffix_or_suffix_of_suffix hsuffix hparen with hline | hshort
    · rcases List.suffix_cons_iff.mp hline with heq | hline
      · exact absurd (List.cons.inj heq).1 (by decide)
      · exact h.not_closing hline
    · have hmem : '(' ∈ "*/".toList := hshort.subset List.mem_cons_self
      exact absurd hmem (by decide)

end IsClean

theorem forall_mem_closeLast {lines : List (List Char)} (h : ∀ line ∈ lines, IsClean line) :
    ∀ line ∈ closeLast lines, IsClean line := by
  induction lines using closeLast.induct with
  | case1 => exact List.forall_mem_singleton.mpr IsClean.nil.concat_parenthesis
  | case2 last =>
      exact List.forall_mem_singleton.mpr (h last List.mem_cons_self).concat_parenthesis
  | case3 line next rest ih =>
      obtain ⟨hline, hothers⟩ := List.forall_mem_cons.mp h
      exact List.forall_mem_cons.mpr ⟨hline, ih hothers⟩

/-- A tag as it is written, with the lines of its body. -/
structure WrittenTag where
  name : List Char
  body : Option (List (List Char))
  name_ne_nil : name ≠ []
  isAlphanumeric_of_mem : ∀ c ∈ name, Text.isAlphanumeric c = true
  isClean_of_mem : ∀ lines ∈ body, ∀ line ∈ lines, IsClean line
  isBalanced : ∀ lines ∈ body, IsBalanced (Text.join ['\n'] lines)

namespace WrittenTag

/-- The lines of a tag: the body stands in parentheses behind the name. -/
def lines (t : WrittenTag) : List (List Char) :=
  match t.body with
  | none => ['@' :: t.name]
  | some body => (closeLast body).modifyHead ('@' :: t.name ++ '(' :: ·)

/-- What a tag says. -/
def tag (t : WrittenTag) : Tag where
  name := String.ofList t.name
  body := t.body.map fun body => String.ofList (Text.join ['\n'] body)

theorem isClean_of_mem_lines (t : WrittenTag) {line : List Char} (h : line ∈ t.lines) :
    IsClean line := by
  unfold lines at h
  cases hbody : t.body with
  | none =>
      rw [hbody] at h
      obtain rfl := List.mem_singleton.mp h
      exact .at_name t.isAlphanumeric_of_mem
  | some body =>
      obtain ⟨first, others, hlines⟩ := List.exists_cons_of_ne_nil (closeLast_ne_nil body)
      have hclean : ∀ line ∈ first :: others, IsClean line :=
        hlines ▸ forall_mem_closeLast (t.isClean_of_mem body hbody)
      obtain ⟨hfirst, hothers⟩ := List.forall_mem_cons.mp hclean
      rw [hbody] at h
      dsimp only at h
      rw [hlines, List.modifyHead_cons] at h
      rcases List.mem_cons.mp h with rfl | hmem
      · exact .at_name_append t.isAlphanumeric_of_mem hfirst
      · exact hothers line hmem

/-- The last line of a tag is not empty. -/
theorem exists_getLast?_lines (t : WrittenTag) :
    ∃ last, t.lines.getLast? = some last ∧ last ≠ [] := by
  unfold lines
  cases t.body with
  | none => exact ⟨_, rfl, List.cons_ne_nil _ _⟩
  | some body =>
      obtain ⟨last, hlast⟩ := exists_getLast?_closeLast body
      obtain ⟨first, others, hlines⟩ := List.exists_cons_of_ne_nil (closeLast_ne_nil body)
      rw [hlines] at hlast
      dsimp only
      rw [hlines, List.modifyHead_cons]
      cases others with
      | nil => exact ⟨_, rfl, List.cons_ne_nil _ _⟩
      | cons second more =>
          rw [List.getLast?_cons_cons] at hlast ⊢
          exact ⟨_, hlast, List.append_ne_nil_of_right_ne_nil last (List.cons_ne_nil _ _)⟩

end WrittenTag

section Scanning

variable {name : List Char} {tagName : String} {front body : List Char} {s : Scan}

theorem continueBody_concat (h : IsBalanced body) :
    s.continueBody tagName (body ++ [')']) =
      { s with tags := ⟨tagName, some (String.ofList body)⟩ :: s.tags, pending := none } := by
  rw [Scan.continueBody, h.closing?_concat]

theorem continueBody_of_isPrefix (h : IsBalanced body) (hfront : front <+: body) :
    s.continueBody tagName front = { s with pending := some (tagName, front) } := by
  rw [Scan.continueBody, h.closing?_eq_none hfront]

theorem readLine_pending (line : List Char) :
    Scan.readLine { s with pending := some (tagName, front) } line =
      s.continueBody tagName (front ++ '\n' :: line) := by
  rw [Scan.readLine]
  dsimp only
  unfold Scan.continueBody
  split <;> rfl

/-- The lines of a body are put together until the parenthesis behind the last one. -/
theorem foldl_readLine_closeLast (front : List Char) {lines others : List (List Char)}
    {first : List Char} (h : IsBalanced (front ++ Text.join ['\n'] lines))
    (hlines : closeLast lines = first :: others) :
    others.foldl Scan.readLine (s.continueBody tagName (front ++ first)) =
      { s with
        tags := ⟨tagName, some (String.ofList (front ++ Text.join ['\n'] lines))⟩ :: s.tags,
        pending := none } := by
  induction lines using closeLast.induct generalizing front first others with
  | case1 =>
      obtain ⟨rfl, rfl⟩ := List.cons.inj hlines
      rw [Text.join, List.append_nil] at h ⊢
      exact continueBody_concat h
  | case2 last =>
      obtain ⟨rfl, rfl⟩ := List.cons.inj hlines
      rw [← List.append_assoc]
      exact continueBody_concat h
  | case3 line next rest ih =>
      obtain ⟨rfl, rfl⟩ := List.cons.inj hlines
      obtain ⟨second, more, hmore⟩ := List.exists_cons_of_ne_nil (closeLast_ne_nil (next :: rest))
      have htext : front ++ Text.join ['\n'] (line :: next :: rest) =
          front ++ line ++ ['\n'] ++ Text.join ['\n'] (next :: rest) := by
        simp [Text.join_cons_of_ne_nil]
      rw [htext] at h ⊢
      have hopen : front ++ line <+: front ++ line ++ ['\n'] ++ Text.join ['\n'] (next :: rest) :=
        ⟨'\n' :: Text.join ['\n'] (next :: rest), by simp⟩
      have hrest := ih _ h hmore
      have hshift : front ++ line ++ ['\n'] ++ second = front ++ line ++ '\n' :: second :=
        List.append_assoc _ _ _
      rw [hshift] at hrest
      rw [continueBody_of_isPrefix h hopen, hmore, List.foldl_cons, readLine_pending, hrest]

theorem ofList_ne_empty (hne : name ≠ []) : String.ofList name ≠ "" := by
  rw [← String.ofList_nil]
  exact fun heq => hne (String.ofList_injective heq)

/-- Behind the at sign, a name alone is a tag without a body. -/
theorem readTag_name (hne : name ≠ []) (h : ∀ c ∈ name, Text.isAlphanumeric c = true) :
    s.readTag name =
      { s with tags := ⟨String.ofList name, none⟩ :: s.tags, seenTag := true } := by
  have hchars : ∀ c ∈ name, isNameChar c = true := fun c hc => isNameChar_of_isAlphanumeric (h c hc)
  have htake : name.takeWhile isNameChar = name := List.takeWhile_eq_self_iff.mpr hchars
  have hdrop : name.dropWhile isNameChar = [] := List.dropWhile_eq_nil_iff.mpr hchars
  rw [Scan.readTag, htake, hdrop]
  exact if_neg (ofList_ne_empty hne)

/-- A parenthesis behind the name opens a body. -/
theorem readTag_body (hne : name ≠ []) (h : ∀ c ∈ name, Text.isAlphanumeric c = true)
    (rest : List Char) :
    s.readTag (name ++ '(' :: rest) =
      { s with seenTag := true }.continueBody (String.ofList name) rest := by
  have hchars : ∀ c ∈ name, isNameChar c = true := fun c hc => isNameChar_of_isAlphanumeric (h c hc)
  have htake : (name ++ '(' :: rest).takeWhile isNameChar = name :=
    (List.takeWhile_append_of_pos hchars).trans (List.append_nil name)
  have hdrop : (name ++ '(' :: rest).dropWhile isNameChar = '(' :: rest :=
    List.dropWhile_append_of_pos hchars
  rw [Scan.readTag, htake, hdrop]
  exact if_neg (ofList_ne_empty hne)

/-- Reading the lines of a tag adds what it says. -/
theorem foldl_readLine_tag (t : WrittenTag) (hpending : s.pending = none) :
    t.lines.foldl Scan.readLine s = { s with tags := t.tag :: s.tags, seenTag := true } := by
  obtain ⟨prose, made, pending, seen⟩ := s
  obtain rfl : pending = none := hpending
  have hread : ∀ rest, Scan.readLine ⟨prose, made, none, seen⟩ ('@' :: rest) =
      Scan.readTag ⟨prose, made, none, seen⟩ rest := fun rest => rfl
  unfold WrittenTag.lines WrittenTag.tag
  cases hbody : t.body with
  | none =>
      exact (hread t.name).trans (readTag_name t.name_ne_nil t.isAlphanumeric_of_mem)
  | some body =>
      obtain ⟨first, others, hlines⟩ := List.exists_cons_of_ne_nil (closeLast_ne_nil body)
      dsimp only
      rw [hlines, List.modifyHead_cons, List.foldl_cons, List.cons_append, hread,
        readTag_body t.name_ne_nil t.isAlphanumeric_of_mem]
      exact foldl_readLine_closeLast [] (t.isBalanced body hbody) hlines

theorem foldl_readLine_tags (prose : List (List Char)) (tags : List WrittenTag) (made : List Tag)
    (seen : Bool) :
    (tags.flatMap WrittenTag.lines).foldl Scan.readLine ⟨prose, made, none, seen⟩ =
      ⟨prose, (tags.map WrittenTag.tag).reverse ++ made, none, seen || !tags.isEmpty⟩ := by
  induction tags generalizing made seen with
  | nil => simp
  | cons t tags ih =>
      rw [List.flatMap_cons, List.foldl_append, foldl_readLine_tag t rfl, ih]
      simp

theorem readLine_prose {line : List Char} (h : IsProse line) (prose : List (List Char)) :
    Scan.readLine ⟨prose, [], none, false⟩ line = ⟨line :: prose, [], none, false⟩ := by
  rw [Scan.readLine]
  dsimp only
  split
  · next rest htag =>
      rw [h.trimStart_eq] at htag
      exact absurd ⟨rest, htag.symm⟩ h.not_tag
  · rfl

theorem foldl_readLine_prose {lines : List (List Char)} (h : ∀ line ∈ lines, IsProse line)
    (prose : List (List Char)) :
    lines.foldl Scan.readLine ⟨prose, [], none, false⟩ =
      ⟨lines.reverse ++ prose, [], none, false⟩ := by
  induction lines generalizing prose with
  | nil => rfl
  | cons line rest ih =>
      obtain ⟨hline, hrest⟩ := List.forall_mem_cons.mp h
      rw [List.foldl_cons, readLine_prose hline, ih hrest, List.reverse_cons, List.append_assoc]
      rfl

end Scanning

/-! ## Paragraphs -/

theorem IsClean.allBlank_iff {line : List Char} (h : IsClean line) :
    Text.allBlank line = true ↔ line = [] := by
  constructor
  · intro hblank
    by_contra hne
    obtain ⟨c, rest, rfl, hc⟩ := (h.isTight hne).first
    rw [Text.allBlank, List.all_cons, hc] at hblank
    cases hblank
  · rintro rfl
    rfl

theorem paragraphsFrom_eq {lines : List (List Char)} (h : ∀ line ∈ lines, IsClean line)
    (current : List (List Char)) :
    paragraphsFrom current lines =
      ((lines.splitOn []).modifyHead (current.reverse ++ ·)).filter (· ≠ []) := by
  induction lines generalizing current with
  | nil => cases current with
    | nil => rfl
    | cons line rest => simp [paragraphsFrom]
  | cons line rest ih =>
      obtain ⟨hline, hrest⟩ := List.forall_mem_cons.mp h
      obtain ⟨first, others, hpieces⟩ := List.exists_cons_of_ne_nil (List.splitOn_ne_nil [] rest)
      rw [paragraphsFrom, List.splitOn_cons_eq_if_modifyHead]
      by_cases hempty : line = []
      · subst hempty
        have hsep : (([] : List Char) == []) = true := rfl
        rw [if_pos (hline.allBlank_iff.mpr rfl), if_pos hsep, ih hrest, hpieces]
        cases current with
        | nil => simp
        | cons last more => simp
      · have hsep : ¬ (line == []) = true := by simpa using hempty
        rw [if_neg fun hblank => hempty (hline.allBlank_iff.mp hblank), if_neg hsep,
          hline.trim_eq, ih hrest, hpieces]
        simp

theorem paragraphs_eq {lines : List (List Char)} (h : ∀ line ∈ lines, IsClean line) :
    paragraphs lines = (lines.splitOn []).filter (· ≠ []) := by
  rw [paragraphs, paragraphsFrom_eq h]
  exact congrArg _ (congrFun List.modifyHead_id _)

/-- Empty lines at the ends belong to no paragraph. -/
theorem paragraphs_cons_nil (lines : List (List Char)) :
    paragraphs ([] :: lines) = paragraphs lines :=
  rfl

theorem paragraphsFrom_concat_nil (current lines : List (List Char)) :
    paragraphsFrom current (lines ++ [[]]) = paragraphsFrom current lines := by
  induction lines generalizing current with
  | nil => cases current with
    | nil => rfl
    | cons line rest => rfl
  | cons line rest ih =>
      rw [List.cons_append, paragraphsFrom, paragraphsFrom, ih, ih]

theorem paragraphs_concat_nil (lines : List (List Char)) :
    paragraphs (lines ++ [[]]) = paragraphs lines :=
  paragraphsFrom_concat_nil [] lines

/-- What a scan has read. -/
def Scan.block (s : Scan) : DocBlock where
  summary := summaryOf s.prose.reverse
  description := descriptionOf s.prose.reverse
  tags := s.allTags

theorem parse_eq_block (raw : String) :
    parse raw = (((Text.lines raw.toList).map stripMarks).foldl Scan.readLine {}).block :=
  rfl

/-- An empty line says nothing, outside of a body. -/
theorem block_readLine_nil {s : Scan} (h : s.pending = none) : (s.readLine []).block = s.block := by
  obtain ⟨prose, made, pending, seen⟩ := s
  obtain rfl : pending = none := h
  cases seen with
  | true => rfl
  | false =>
      have hread : Scan.readLine ⟨prose, made, none, false⟩ [] = ⟨[] :: prose, made, none, false⟩ :=
        rfl
      rw [hread, Scan.block, Scan.block, List.reverse_cons, summaryOf, summaryOf, descriptionOf,
        descriptionOf, paragraphs_concat_nil]
      rfl

/-! ## Comments -/

/-- A comment as it is written. -/
structure WrittenComment where
  prose : List (List Char)
  tags : List WrittenTag
  isProse_of_mem : ∀ line ∈ prose, IsProse line

namespace WrittenComment

/-- The lines of a comment, without marks. -/
def lines (c : WrittenComment) : List (List Char) :=
  c.prose ++ c.tags.flatMap WrittenTag.lines

/-- The paragraphs of the prose: what stands between empty lines. -/
def paragraphs (c : WrittenComment) : List (List (List Char)) :=
  (c.prose.splitOn []).filter (· ≠ [])

/-- What a comment says. -/
def block (c : WrittenComment) : DocBlock where
  summary := String.ofList (Text.join [' '] (c.paragraphs.headD []))
  description :=
    String.ofList (Text.join ['\n', '\n'] (c.paragraphs.tail.map (Text.join ['\n'])))
  tags := c.tags.map WrittenTag.tag

variable (c : WrittenComment)

theorem isClean_of_mem_lines {line : List Char} (h : line ∈ c.lines) : IsClean line := by
  rcases List.mem_append.mp h with hprose | htags
  · exact (c.isProse_of_mem line hprose).toIsClean
  · obtain ⟨t, -, hline⟩ := List.mem_flatMap.mp htags
    exact t.isClean_of_mem_lines hline

theorem paragraphs_prose : DocBlock.paragraphs c.prose = c.paragraphs :=
  paragraphs_eq fun line hline => (c.isProse_of_mem line hline).toIsClean

theorem foldl_readLine (front : List (List Char)) :
    c.lines.foldl Scan.readLine ⟨front, [], none, false⟩ =
      ⟨c.prose.reverse ++ front, (c.tags.map WrittenTag.tag).reverse, none, !c.tags.isEmpty⟩ := by
  rw [lines, List.foldl_append, foldl_readLine_prose c.isProse_of_mem, foldl_readLine_tags,
    List.append_nil, Bool.false_or]

/-- Reading the prose and the tags gives the comment. -/
theorem block_eq (front : List (List Char)) {seen : Bool}
    (h : DocBlock.paragraphs (front.reverse ++ c.prose) = DocBlock.paragraphs c.prose) :
    Scan.block ⟨c.prose.reverse ++ front, (c.tags.map WrittenTag.tag).reverse, none, seen⟩ =
      c.block := by
  rw [Scan.block]
  dsimp only
  rw [List.reverse_append, List.reverse_reverse, summaryOf, descriptionOf, h, paragraphs_prose,
    Scan.allTags, List.reverse_reverse, List.drop_one, block]
  cases c.paragraphs with
  | nil => rfl
  | cons first others => rfl

/-- The empty lines that a block leaves say nothing. -/
theorem block_foldl_unmarked (style : Style) :
    ((style.unmarked c.lines).foldl Scan.readLine {}).block = c.block := by
  have hplain : (c.lines.foldl Scan.readLine {}).block = c.block := by
    rw [c.foldl_readLine []]
    exact c.block_eq [] rfl
  cases style with
  | block =>
      have hlead : ([] :: c.lines).foldl Scan.readLine {} =
          ⟨c.prose.reverse ++ [[]], (c.tags.map WrittenTag.tag).reverse, none, !c.tags.isEmpty⟩ :=
        c.foldl_readLine [[]]
      rw [Style.unmarked, List.foldl_append, hlead]
      exact (block_readLine_nil rfl).trans (c.block_eq [[]] (paragraphs_cons_nil c.prose))
  | slashes => exact hplain
  | bangs => exact hplain
  | bare => exact hplain

/-- No body is open in front of an empty last line. -/
theorem pending_of_unmarked {style : Style} {front : List (List Char)}
    (h : style.unmarked c.lines = front ++ [[]]) :
    (front.foldl Scan.readLine {}).pending = none := by
  have hplain : c.lines = front ++ [[]] → (front.foldl Scan.readLine {}).pending = none := by
    intro hlines
    obtain htags | ⟨tags, t, htags⟩ := List.eq_nil_or_concat c.tags
    · have hprose : c.prose = front ++ [[]] := by
        rw [← hlines, lines, htags, List.flatMap_nil, List.append_nil]
      obtain ⟨hfront, -⟩ := List.forall_mem_append.mp (hprose ▸ c.isProse_of_mem)
      exact congrArg Scan.pending (foldl_readLine_prose hfront [])
    · obtain ⟨last, hlast, hne⟩ := t.exists_getLast?_lines
      have hend := congrArg List.getLast? hlines
      rw [lines, htags, List.concat_eq_append, List.flatMap_append, List.flatMap_singleton,
        ← List.append_assoc, List.getLast?_append, hlast, List.getLast?_concat] at hend
      exact absurd (Option.some.inj hend) hne
  cases style with
  | block =>
      have hfront : [] :: c.lines = front := List.append_inj_left' h rfl
      rw [← hfront]
      exact congrArg Scan.pending (c.foldl_readLine [[]])
  | slashes => exact hplain h
  | bangs => exact hplain h
  | bare => exact hplain h

/-- The style of a comment does not matter: the first paragraph is the summary, the others are
the description, and the tags follow in their order with the lines of their bodies. -/
theorem parse_render (style : Style) (indent : Nat) :
    parse (style.render indent c.lines) = c.block := by
  rw [parse_eq_block]
  obtain heq | heq := style.map_stripMarks_lines indent fun line => c.isClean_of_mem_lines
  · rw [heq]
    exact c.block_foldl_unmarked style
  · have hpending := c.pending_of_unmarked heq
    have hblock := c.block_foldl_unmarked style
    rw [heq, List.foldl_append] at hblock
    exact (block_readLine_nil hpending).symm.trans hblock

/-- An indented block with a parenthesis in a string, and a tag without a body. -/
theorem parse_render_response :
    parse
        " /**\n  * Show pet\n  *\n  * @Response(code: 404,\n  * a: \")\")\n  * @deprecated\n  */" =
      { summary := "Show pet"
        description := ""
        tags := [⟨"Response", some "code: 404,\na: \")\""⟩, ⟨"deprecated", none⟩] } := by
  obtain ⟨c, hrender, hblock⟩ : ∃ c : WrittenComment, Style.block.render 1 c.lines =
      " /**\n  * Show pet\n  *\n  * @Response(code: 404,\n  * a: \")\")\n  * @deprecated\n  */" ∧
      c.block =
        { summary := "Show pet"
          description := ""
          tags := [⟨"Response", some "code: 404,\na: \")\""⟩, ⟨"deprecated", none⟩] } := by
    refine ⟨{
      prose := ["Show pet".toList, []]
      tags := [
        { name := "Response".toList
          body := some ["code: 404,".toList, "a: \")\"".toList]
          name_ne_nil := by decide
          isAlphanumeric_of_mem := List.all_eq_true.mp (by decide)
          isClean_of_mem := by decide
          isBalanced := by decide },
        { name := "deprecated".toList
          body := none
          name_ne_nil := by decide
          isAlphanumeric_of_mem := List.all_eq_true.mp (by decide)
          isClean_of_mem := by decide
          isBalanced := by decide }]
      isProse_of_mem := by decide }, ?_, ?_⟩
    · decide +kernel
    · decide +kernel
  rw [← hrender, c.parse_render .block 1, hblock]

end WrittenComment

end ApiDoc.DocBlock
