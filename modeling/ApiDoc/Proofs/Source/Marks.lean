import ApiDoc.Proofs.Source.TextLiteral
import ApiDoc.Source.FieldMarks

/-!
# The parts of a list of marks

The marks of a field are found in the text of a list, which is cut at every comma.  A comma
between two trees is one of those, so each stretch of trees between commas is cut for itself.
A stretch without further commas is one part; what follows a comma inside it is cut off.
-/

namespace ApiDoc.Source

namespace Tree

/-- A comma between trees. -/
def isComma : Tree → Bool
  | mark c _ => c = ','
  | _ => false

/-- What is written between a tree and the next one. -/
def gap (tree : Tree) : List Char :=
  if tree.isJoint then [] else [' ']

theorem eq_of_mem_gap {tree : Tree} {c : Char} (h : c ∈ tree.gap) : c = ' ' := by
  unfold gap at h
  split at h
  · cases h
  · exact List.mem_singleton.mp h

theorem isBlank_of_mem_gap {tree : Tree} {c : Char} (h : c ∈ tree.gap) : Text.isBlank c = true :=
  eq_of_mem_gap h ▸ rfl

theorem textAll_singleton (tree : Tree) : textAll [tree] = tree.text := by
  simp [textAll]

theorem textAll_cons_cons (tree next : Tree) (rest : List Tree) :
    textAll (tree :: next :: rest) = tree.text ++ tree.gap ++ textAll (next :: rest) := by
  simp [textAll, gap]

/-- Only blanks are written between trees that are put behind each other. -/
theorem exists_textAll_cons (tree : Tree) (rest : List Tree) :
    ∃ blanks, (∀ c ∈ blanks, Text.isBlank c = true) ∧
      textAll (tree :: rest) = tree.text ++ blanks ++ textAll rest := by
  cases rest with
  | nil => exact ⟨[], List.forall_mem_nil _, by simp [textAll]⟩
  | cons next rest =>
      exact ⟨tree.gap, fun _ => isBlank_of_mem_gap, textAll_cons_cons tree next rest⟩

theorem exists_textAll_append_cons (front : List Tree) (tree : Tree) (rest : List Tree) :
    ∃ blanks, (∀ c ∈ blanks, Text.isBlank c = true) ∧
      textAll (front ++ tree :: rest) = textAll front ++ blanks ++ textAll (tree :: rest) := by
  induction front with
  | nil => exact ⟨[], List.forall_mem_nil _, by simp [textAll]⟩
  | cons first front ih =>
      cases front with
      | nil =>
          refine ⟨first.gap, fun _ => isBlank_of_mem_gap, ?_⟩
          rw [List.singleton_append, textAll_cons_cons, textAll_singleton]
      | cons second front =>
          obtain ⟨blanks, hblanks, htext⟩ := ih
          refine ⟨blanks, hblanks, ?_⟩
          rw [List.cons_append, List.cons_append, textAll_cons_cons, ← List.cons_append, htext,
            textAll_cons_cons]
          simp only [List.append_assoc]

end Tree

namespace FieldMarks

open Source.Tree (isComma textAll gap)

/-! ## Commas between trees -/

theorem parts_append_comma (front : List Tree) (joint : Bool) (rest : List Tree) :
    parts (front ++ .mark ',' joint :: rest) = parts front ++ parts rest := by
  obtain ⟨before, hbefore, hfront⟩ :=
    Tree.exists_textAll_append_cons front (.mark ',' joint) rest
  obtain ⟨after, hafter, hrest⟩ := Tree.exists_textAll_cons (.mark ',' joint) rest
  have htext : textAll (front ++ .mark ',' joint :: rest) =
      (textAll front ++ before) ++ ',' :: (after ++ textAll rest) := by
    rw [hfront, hrest, Tree.text]
    rfl
  have hleft : (Text.splitOn ',' (textAll front ++ before)).map Text.trim = parts front :=
    Text.map_trim_splitOn_of_blank (List.forall_mem_nil _) hbefore (by decide) _
  have hright : (Text.splitOn ',' (after ++ textAll rest)).map Text.trim = parts rest := by
    rw [← List.append_nil (after ++ textAll rest)]
    exact Text.map_trim_splitOn_of_blank hafter (List.forall_mem_nil _) (by decide) _
  rw [parts, htext, Text.splitOn_append_cons, List.map_append, hleft, hright]

/-- The parts of a list are those of the stretches between its commas. -/
theorem parts_eq_flatMap (trees : List Tree) :
    parts trees = (trees.splitOnP isComma).flatMap parts := by
  -- In front stand the trees since the last comma.
  have hall : ∀ front : List Tree, (∀ tree ∈ front, isComma tree = false) →
      parts (front ++ trees) = ((front ++ trees).splitOnP isComma).flatMap parts := by
    induction trees with
    | nil =>
        intro front hfront
        rw [List.append_nil, List.splitOnP_eq_singleton hfront, List.flatMap_singleton]
    | cons tree rest ih =>
        intro front hfront
        by_cases htree : isComma tree = true
        · obtain ⟨joint, rfl⟩ : ∃ joint, tree = .mark ',' joint := by
            cases tree with
            | mark c joint => exact ⟨joint, by rw [of_decide_eq_true htree]⟩
            | _ => cases htree
          have hrest := ih [] (List.forall_mem_nil _)
          rw [List.nil_append] at hrest
          rw [parts_append_comma, List.splitOnP_append_cons front rest htree,
            List.splitOnP_eq_singleton hfront, List.flatMap_append, List.flatMap_singleton, hrest]
        · have hmore := ih (front ++ [tree]) (by
            simpa [or_imp, forall_and] using ⟨hfront, Bool.eq_false_iff.mpr htree⟩)
          simpa using hmore
  exact hall [] (List.forall_mem_nil _)

/-! ## One stretch -/

/-- The part in front of the first comma inside a stretch. -/
def lead (trees : List Tree) : List Char :=
  Text.trim ((textAll trees).takeWhile (· ≠ ','))

/-- The parts behind the first comma inside a stretch. -/
def cutOff (trees : List Tree) : List (List Char) :=
  (parts trees).tail

theorem parts_eq_cons (trees : List Tree) : parts trees = lead trees :: cutOff trees := by
  obtain ⟨more, hmore⟩ := Text.exists_splitOn_eq_cons ',' (textAll trees)
  rw [cutOff, parts, hmore]
  rfl

theorem lead_word {name : String} (hname : Text.IsTight name.toList) (hcomma : ',' ∉ name.toList) :
    lead [.word name] = name.toList := by
  rw [lead, Tree.textAll_singleton, Tree.text, Text.takeWhile_ne_of_not_mem hcomma,
    hname.trim_eq]

/-- A word that is followed by something is the start of its part. -/
theorem lead_word_cons {name : String} (hname : Text.IsTight name.toList)
    (hcomma : ',' ∉ name.toList) {next : Tree} {rest : List Tree} {c : Char} {cs : List Char}
    (htext : textAll (next :: rest) = c :: cs) (hblank : Text.isBlank c = false) (hc : c ≠ ',') :
    lead (.word name :: next :: rest) =
      name.toList ++ ' ' :: c :: Text.trimEnd (cs.takeWhile (· ≠ ',')) := by
  have htake : (textAll (.word name :: next :: rest)).takeWhile (· ≠ ',') =
      (name.toList ++ [' ']) ++ c :: cs.takeWhile (· ≠ ',') := by
    rw [Tree.textAll_cons_cons, htext, Tree.text, List.append_assoc,
      Text.takeWhile_ne_append hcomma]
    simp [gap, Tree.isJoint, hc]
  obtain ⟨first, more, hfirst, hfirstBlank⟩ := hname.first
  rw [lead, htake, hfirst, List.cons_append, List.cons_append,
    Text.trim_cons_of_not_isBlank hfirstBlank, ← List.cons_append, ← List.cons_append,
    Text.trimEnd_append_cons hblank]
  simp

/-! ## Taking marks into account -/

/-- The name that a part gives. -/
def newName? (part : List Char) : Option (List Char) :=
  if Text.startsWith "rename".toList part && !Text.startsWith "rename_all".toList part then
    quotedValue? part
  else none

/-- The parts that hide a field. -/
def hidingParts : List (List Char) :=
  ["skip".toList, "skip_serializing".toList, "flatten".toList]

/-- The field is not written, or not as a field. -/
def isHidden (marks : FieldMarks) : Bool :=
  marks.isSkipped || marks.isFlattened

theorem not_mem_hidingParts_of_rename {part : List Char}
    (h : (Text.startsWith "rename".toList part && !Text.startsWith "rename_all".toList part) =
      true) : part ∉ hidingParts := by
  intro hmem
  have hnone : ∀ part ∈ hidingParts, Text.startsWith "rename".toList part = false := by decide
  rw [hnone part hmem] at h
  cases h

theorem renamed_addMark (marks : FieldMarks) (part : List Char) :
    (marks.addMark part).renamed = ((newName? part).map String.ofList).or marks.renamed := by
  unfold addMark newName?
  split
  · rfl
  · split
    · rfl
    · split <;> rfl

theorem isHidden_addMark (marks : FieldMarks) (part : List Char) :
    (marks.addMark part).isHidden = (marks.isHidden || decide (part ∈ hidingParts)) := by
  have hmem : part ∈ hidingParts ↔
      (part = "skip".toList ∨ part = "skip_serializing".toList) ∨ part = "flatten".toList := by
    rw [hidingParts, List.mem_cons, List.mem_cons, List.mem_singleton, or_assoc]
  unfold addMark
  split
  · next hrename =>
      rw [decide_eq_false (not_mem_hidingParts_of_rename hrename), Bool.or_false]
      rfl
  · split
    · next hskip =>
        rw [Bool.or_eq_true, decide_eq_true_iff, decide_eq_true_iff] at hskip
        rw [decide_eq_true (hmem.mpr (.inl hskip)), Bool.or_true]
        rfl
    · next hskip =>
        rw [Bool.or_eq_true, decide_eq_true_iff, decide_eq_true_iff] at hskip
        split
        · next hflatten =>
            rw [decide_eq_true (hmem.mpr (.inr hflatten)), Bool.or_true]
            exact Bool.or_true _
        · next hflatten =>
            rw [decide_eq_false (mt hmem.mp (not_or.mpr ⟨hskip, hflatten⟩)), Bool.or_false]

/-- The last name that is given counts. -/
theorem renamed_foldl (parts : List (List Char)) (marks : FieldMarks) :
    (parts.foldl addMark marks).renamed =
      ((parts.filterMap newName?).getLast?.map String.ofList).or marks.renamed := by
  induction parts generalizing marks with
  | nil => rfl
  | cons part parts ih =>
      rw [List.foldl_cons, ih, renamed_addMark, ← Option.or_assoc, List.filterMap_cons]
      cases newName? part with
      | none => rw [Option.map_none, Option.or_none]
      | some name => cases parts.filterMap newName? <;> simp [List.getLast?_cons]

theorem isHidden_foldl (parts : List (List Char)) (marks : FieldMarks) :
    (parts.foldl addMark marks).isHidden =
      (marks.isHidden || parts.any (fun part => decide (part ∈ hidingParts))) := by
  induction parts generalizing marks with
  | nil => simp
  | cons part parts ih => rw [List.foldl_cons, ih, isHidden_addMark, List.any_cons, Bool.or_assoc]

/-! ## Texts with a name -/

/-- The first quotes are searched behind the first equals sign. -/
theorem quotedValue?_append_cons {front mark : List Char} (hfront : '=' ∉ front)
    (hmark : '"' ∉ mark) (inside : List Char) :
    quotedValue? (front ++ '=' :: (mark ++ '"' :: inside)) =
      (Text.cutFirst? '"' inside).map (·.1) := by
  rw [quotedValue?, Text.cutFirst?_append_cons hfront]
  dsimp only [Option.bind_eq_bind, Option.bind_some]
  rw [Text.cutFirst?_append_cons hmark, Option.bind_some, Option.map_eq_bind]
  rfl

/-- What is taken for the value of a literal in a text that is cut at commas. -/
def taken? (literal : TextLiteral) : Option (List Char) :=
  if ',' ∈ literal.seen then none else some literal.seen

/-- What is read as the name from a part with a text literal behind the first equals sign.
The part ends in front of the first comma, also of one in the literal. -/
theorem quotedValue?_of_isRead {literal : TextLiteral} (h : literal.IsRead) (front : List Char)
    {blanks : List Char} (hfront : '=' ∉ front) (hblanks : ∀ c ∈ blanks, c = ' ')
    (rest : List Char) :
    quotedValue? (front ++ '=' :: Text.trimEnd
      ((blanks ++ literal.written.toList ++ rest).takeWhile (· ≠ ','))) = taken? literal := by
  obtain ⟨mark, more, hwritten, hmark⟩ := h.exists_written
  have hbefore : ∀ c ∈ blanks ++ mark, c ≠ ',' ∧ c ≠ '"' := fun c hc =>
    (List.mem_append.mp hc).elim (fun hmem => hblanks c hmem ▸ by decide) (hmark c)
  have hcomma : ',' ∉ blanks ++ mark ++ ['"'] := by
    simpa using fun hmem => (hbefore ',' hmem).1 rfl
  have htake : (blanks ++ literal.written.toList ++ rest).takeWhile (· ≠ ',') =
      (blanks ++ mark) ++ '"' :: (literal.seen ++ '"' :: (more ++ rest)).takeWhile (· ≠ ',') := by
    have htext : blanks ++ literal.written.toList ++ rest =
        (blanks ++ mark ++ ['"']) ++ (literal.seen ++ '"' :: (more ++ rest)) := by
      rw [hwritten]
      simp only [List.append_assoc, List.cons_append, List.nil_append]
    rw [htext, Text.takeWhile_ne_append hcomma, List.append_assoc (blanks ++ mark),
      List.singleton_append]
  rw [htake, Text.trimEnd_append_cons (by decide),
    quotedValue?_append_cons hfront fun hmem => (hbefore '"' hmem).2 rfl, taken?]
  split
  -- The second quote is behind the comma, and is cut off with it.
  · next hseen =>
      obtain ⟨inside, after, heq, hinside⟩ := List.eq_append_cons_of_mem hseen
      have hopen : '"' ∉ Text.trimEnd inside := fun hmem =>
        literal.quote_not_mem_seen
          (heq ▸ List.mem_append_left _ ((Text.isPrefix_trimEnd inside).subset hmem))
      rw [heq, List.append_assoc, List.cons_append, Text.takeWhile_ne_append_cons hinside,
        Text.cutFirst?_of_not_mem hopen, Option.map_none]
  · next hseen =>
      rw [Text.takeWhile_ne_append hseen, List.takeWhile_cons_of_pos rfl,
        Text.trimEnd_append_cons (by decide),
        Text.cutFirst?_append_cons literal.quote_not_mem_seen, Option.map_some]

/-! ## All lists -/

/-- The list of marks in an attribute. -/
def list? : Attribute → Option (List Tree)
  | ⟨some "serde", .list trees⟩ => some trees
  | _ => none

/-- The stretches of trees between the commas of all lists. -/
def stretches (attributes : List Attribute) : List (List Tree) :=
  (attributes.filterMap list?).flatMap (List.splitOnP isComma)

theorem ofAttributes_eq (attributes : List Attribute) :
    ofAttributes attributes = ((stretches attributes).flatMap parts).foldl addMark {} := by
  rw [stretches, List.flatMap_assoc, ← List.flatMap_congr fun trees _ => parts_eq_flatMap trees]
  refine congrArg (List.foldl addMark {}) ?_
  induction attributes with
  | nil => rfl
  | cons a attributes ih =>
      rw [List.flatMap_cons, ih, List.filterMap_cons]
      split
      · rfl
      · simp [list?]

end FieldMarks

end ApiDoc.Source
