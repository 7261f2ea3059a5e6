import ApiDoc.Proofs.Source.Marks
import ApiDoc.Source.Entities

/-!
# The names of fields

The marks of a field say under which name it is written, and whether it is written at all.
They are read here from the trees of a list, where a text is one tree whatever is in it.  A
schema class reads them from the text of the list instead, and shows the fields that are
written, under the right names, exactly if the last name in the text is the right one.  Where
names stand only in front of commas, this means that no comma or escape in a text misleads.
-/

namespace ApiDoc.Source

/-- The words of the marks of a field. -/
def fieldWords : List String :=
  ["alias", "borrow", "bound", "default", "deserialize_with", "flatten", "getter", "rename",
    "serialize_with", "skip", "skip_deserializing", "skip_serializing", "skip_serializing_if",
    "with"]

/-- What one mark says. -/
inductive Mark
  | flag (word : String)
  | text (word : String) (literal : TextLiteral)
  /-- Texts under keys. -/
  | table (word : String) (entries : Dict TextLiteral)
deriving DecidableEq, Repr, Inhabited

namespace Mark

/-- Texts under keys, with commas between them. -/
def entries? : List Tree → Option (Dict TextLiteral)
  | [] => some []
  | [.word key, .mark '=' _, .literal written (.text value)] => some [(key, ⟨written, value⟩)]
  | .word key :: .mark '=' _ :: .literal written (.text value) :: .mark ',' _ :: rest =>
      (entries? rest).map ((key, ⟨written, value⟩) :: ·)
  | _ => none

/-- The mark that is written by a stretch of trees. -/
def ofTrees? : List Tree → Option Mark
  | .word word :: rest =>
      if word ∈ fieldWords then
        match rest with
        | [] => some (.flag word)
        | [.mark '=' _, .literal written (.text value)] => some (.text word ⟨written, value⟩)
        | [.group .round inner] => (entries? inner).map (.table word)
        | _ => none
      else none
  | _ => none

/-- The field is not written, or not as a field. -/
def hides : Mark → Bool
  | flag word => ["skip", "skip_serializing", "flatten"].contains word
  | _ => false

/-- The name under which the field is written. -/
def rename? : Mark → Option TextLiteral
  | flag _ => none
  | text word literal => if word = "rename" then some literal else none
  | table word entries => if word = "rename" then Dict.find? entries "serialize" else none

/-- The literal that is read as a name: a new name, or the first one of a table of them. -/
def read? : Mark → Option TextLiteral
  | flag _ => none
  | text word literal => if word = "rename" then some literal else none
  | table word entries => if word = "rename" then entries.head?.map (·.2) else none

/-- A table of new names starts with one for writing or for reading. -/
def IsNaming : Mark → Prop
  | table word entries =>
      word = "rename" → ∀ entry ∈ entries.head?, entry.1 ∈ ["serialize", "deserialize"]
  | _ => True

instance : (mark : Mark) → Decidable mark.IsNaming
  | flag _ => .isTrue trivial
  | text .. => .isTrue trivial
  | table word entries => inferInstanceAs
      (Decidable (word = "rename" → ∀ entry ∈ entries.head?, entry.1 ∈ _))

/-- The name for writing comes before one for reading. -/
def IsOrdered : Mark → Prop
  | table word entries => word = "rename" → ∀ entry ∈ entries.head?, entry.1 = "serialize"
  | _ => True

instance : (mark : Mark) → Decidable mark.IsOrdered
  | flag _ => .isTrue trivial
  | text .. => .isTrue trivial
  | table word entries => inferInstanceAs
      (Decidable (word = "rename" → ∀ entry ∈ entries.head?, entry.1 = "serialize"))

variable {trees : List Tree} {mark : Mark}

/-- A table that starts with the name for writing is read as what it says. -/
theorem IsOrdered.read?_eq (h : mark.IsOrdered) : mark.read? = mark.rename? := by
  cases mark with
  | flag => rfl
  | text => rfl
  | table word entries =>
      rw [read?, rename?]
      split
      · next hword =>
          cases entries with
          | nil => rfl
          | cons entry entries =>
              obtain ⟨key, literal⟩ := entry
              obtain rfl : key = "serialize" := h hword _ rfl
              exact (if_pos rfl).symm
      · rfl

theorem exists_of_entries?_cons {entries : Dict TextLiteral} {key : String}
    {literal : TextLiteral} (h : entries? trees = some ((key, literal) :: entries)) :
    ∃ joint rest, trees =
      .word key :: .mark '=' joint :: .literal literal.written (.text literal.value) :: rest := by
  unfold entries? at h
  split at h
  · cases h
  · next joint written value =>
      obtain ⟨heq, -⟩ := List.cons.inj (Option.some.inj h)
      cases heq
      exact ⟨joint, [], rfl⟩
  · next joint written value _ rest =>
      obtain ⟨_, _, heq⟩ := Option.map_eq_some_iff.mp h
      cases heq
      exact ⟨joint, _, rfl⟩
  · cases h

theorem eq_nil_of_entries?_nil (h : entries? trees = some []) : trees = [] := by
  unfold entries? at h
  split at h
  · rfl
  · cases h
  · obtain ⟨_, _, heq⟩ := Option.map_eq_some_iff.mp h
    cases heq
  · cases h

/-- A mark starts with its word. -/
theorem exists_of_ofTrees? (h : ofTrees? trees = some mark) :
    ∃ word ∈ fieldWords,
      (trees = [.word word] ∧ mark = .flag word) ∨
      (∃ joint literal, trees = [.word word, .mark '=' joint,
        .literal literal.written (.text literal.value)] ∧ mark = .text word literal) ∨
      (∃ inner entries, trees = [.word word, .group .round inner] ∧
        entries? inner = some entries ∧ mark = .table word entries) := by
  unfold ofTrees? at h
  split at h
  · next word rest =>
      split at h
      · next hword =>
          refine ⟨word, hword, ?_⟩
          split at h
          · exact .inl ⟨rfl, (Option.some.inj h).symm⟩
          · next joint written value =>
              exact .inr (.inl ⟨joint, ⟨written, value⟩, rfl, (Option.some.inj h).symm⟩)
          · next inner =>
              obtain ⟨entries, hentries, heq⟩ := Option.map_eq_some_iff.mp h
              exact .inr (.inr ⟨inner, entries, rfl, hentries, heq.symm⟩)
          · cases h
      · cases h
  · cases h

/-! ## Words -/

theorem isTight_of_mem_fieldWords {word : String} (h : word ∈ fieldWords) :
    Text.IsTight word.toList := by
  have hall : ∀ word ∈ fieldWords,
      word.toList ≠ [] ∧ word.toList.all (!Text.isBlank ·) = true := by decide
  exact .of_all (hall word h).1 (hall word h).2

theorem comma_not_mem_of_mem_fieldWords {word : String} (h : word ∈ fieldWords) :
    ',' ∉ word.toList := by
  have hall : ∀ word ∈ fieldWords, ',' ∉ word.toList := by decide
  exact hall word h

theorem newName?_cons_of_ne {c : Char} (h : c ≠ 'r') (cs : List Char) :
    FieldMarks.newName? (c :: cs) = none := by
  have hhead : Text.startsWith "rename".toList (c :: cs) = false := by
    change (Text.dropHead? ('r' :: "ename".toList) (c :: cs)).isSome = false
    rw [Text.dropHead?, if_neg h.symm]
    rfl
  rw [FieldMarks.newName?, hhead]
  rfl

/-- No name is read from a part with another word at its start. -/
theorem newName?_word_append {word : String} (h : word ∈ fieldWords) (hword : word ≠ "rename")
    (rest : List Char) : FieldMarks.newName? (word.toList ++ rest) = none := by
  have hall : ∀ word ∈ fieldWords, word ≠ "rename" → word.toList.head? ≠ some 'r' := by decide
  obtain ⟨c, cs, hcs, -⟩ := (isTight_of_mem_fieldWords h).first
  rw [hcs, List.cons_append]
  exact newName?_cons_of_ne (fun heq => hall word h hword (by rw [hcs, heq]; rfl)) _

theorem newName?_rename_blank (rest : List Char) :
    FieldMarks.newName? ("rename".toList ++ ' ' :: rest) =
      FieldMarks.quotedValue? ("rename".toList ++ ' ' :: rest) :=
  rfl

/-! ## Reading one mark -/

section Lead

variable {word : String} (h : word ∈ fieldWords)

include h

theorem lead_flag : FieldMarks.lead [.word word] = word.toList :=
  FieldMarks.lead_word (isTight_of_mem_fieldWords h) (comma_not_mem_of_mem_fieldWords h)

theorem lead_text (joint : Bool) (literal : TextLiteral) :
    FieldMarks.lead
      [.word word, .mark '=' joint, .literal literal.written (.text literal.value)] =
        word.toList ++ ' ' :: '=' :: Text.trimEnd
          ((Tree.gap (.mark '=' joint) ++ literal.written.toList).takeWhile (· ≠ ',')) := by
  refine FieldMarks.lead_word_cons (isTight_of_mem_fieldWords h)
    (comma_not_mem_of_mem_fieldWords h) ?_ (by decide) (by decide)
  rw [Tree.textAll_cons_cons, Tree.textAll_singleton]
  rfl

theorem lead_table (inner : List Tree) :
    FieldMarks.lead [.word word, .group .round inner] =
      word.toList ++ ' ' :: '(' :: Text.trimEnd
        ((Tree.textAll inner ++ [')']).takeWhile (· ≠ ',')) := by
  refine FieldMarks.lead_word_cons (isTight_of_mem_fieldWords h)
    (comma_not_mem_of_mem_fieldWords h) ?_ (by decide) (by decide)
  rw [Tree.textAll_singleton]
  rfl

end Lead

theorem newName?_lead_table {key : String} (hkey : key ∈ ["serialize", "deserialize"])
    {literal : TextLiteral} (h : literal.IsRead) (joint : Bool) (rest : List Tree) :
    FieldMarks.newName? (FieldMarks.lead [.word "rename", .group .round
      (.word key :: .mark '=' joint ::
        .literal literal.written (.text literal.value) :: rest)]) =
      FieldMarks.taken? literal := by
  have hkeys : ∀ key ∈ ["serialize", "deserialize"], ',' ∉ key.toList ++ [' ', '='] ∧
      '=' ∉ "rename (".toList ++ key.toList ++ [' '] := by decide
  obtain ⟨hcomma, hfront⟩ := hkeys key hkey
  obtain ⟨blanks, -, hrest⟩ :=
    Tree.exists_textAll_cons (.literal literal.written (.text literal.value)) rest
  have hinner : (Tree.textAll (.word key :: .mark '=' joint ::
        .literal literal.written (.text literal.value) :: rest) ++ [')']).takeWhile (· ≠ ',') =
      (key.toList ++ [' ']) ++ '=' :: (Tree.gap (.mark '=' joint) ++ literal.written.toList ++
        (blanks ++ Tree.textAll rest ++ [')'])).takeWhile (· ≠ ',') := by
    have htext : Tree.textAll (.word key :: .mark '=' joint ::
          .literal literal.written (.text literal.value) :: rest) ++ [')'] =
        (key.toList ++ [' ', '=']) ++ (Tree.gap (.mark '=' joint) ++ literal.written.toList ++
          (blanks ++ Tree.textAll rest ++ [')'])) := by
      rw [Tree.textAll_cons_cons, Tree.textAll_cons_cons, hrest]
      simp [Tree.text, Tree.gap, Tree.isJoint]
    rw [htext, Text.takeWhile_ne_append hcomma]
    simp only [List.append_assoc, List.cons_append, List.nil_append]
  have hgap : ∀ c ∈ Tree.gap (.mark '=' joint), c = ' ' := fun _ => Tree.eq_of_mem_gap
  have hquoted := FieldMarks.quotedValue?_of_isRead h _ hfront hgap
    (blanks ++ Tree.textAll rest ++ [')'])
  rw [lead_table (by decide), hinner, newName?_rename_blank, Text.trimEnd_append_cons (by decide),
    ← hquoted]
  simp

/-- The name that is read from a mark is what is taken for the value of its literal. -/
theorem newName?_lead (h : ofTrees? trees = some mark)
    (hread : ∀ literal ∈ mark.read?, literal.IsRead) (hnaming : mark.IsNaming) :
    FieldMarks.newName? (FieldMarks.lead trees) = mark.read?.bind FieldMarks.taken? := by
  obtain ⟨word, hword, hcases⟩ := exists_of_ofTrees? h
  by_cases hrename : word = "rename"
  · subst hrename
    rcases hcases with ⟨rfl, rfl⟩ | ⟨joint, literal, rfl, rfl⟩ |
      ⟨inner, entries, rfl, hentries, rfl⟩
    · rw [lead_flag hword]
      rfl
    · have hliteral := hread literal rfl
      rw [lead_text hword, newName?_rename_blank, ← List.append_nil (Tree.gap _ ++ _)]
      exact FieldMarks.quotedValue?_of_isRead hliteral "rename ".toList (by decide)
        (fun _ => Tree.eq_of_mem_gap) []
    · cases entries with
      | nil =>
          rw [eq_nil_of_entries?_nil hentries]
          rfl
      | cons entry entries =>
          obtain ⟨key, literal⟩ := entry
          have hkey : key ∈ ["serialize", "deserialize"] := hnaming rfl _ rfl
          obtain ⟨joint, rest, rfl⟩ := exists_of_entries?_cons hentries
          exact newName?_lead_table hkey (hread literal rfl) joint rest
  · rcases hcases with ⟨rfl, rfl⟩ | ⟨joint, literal, rfl, rfl⟩ | ⟨inner, entries, rfl, -, rfl⟩
    · rw [lead_flag hword, ← List.append_nil word.toList, newName?_word_append hword hrename]
      rfl
    · rw [lead_text hword, newName?_word_append hword hrename, read?, if_neg hrename]
      rfl
    · rw [lead_table hword, newName?_word_append hword hrename, read?, if_neg hrename]
      rfl

/-- A part hides a field if the mark does. -/
theorem mem_hidingParts_lead_iff (h : ofTrees? trees = some mark) :
    FieldMarks.lead trees ∈ FieldMarks.hidingParts ↔ mark.hides = true := by
  have hblank : ∀ part ∈ FieldMarks.hidingParts, ' ' ∉ part := by decide
  obtain ⟨word, hword, ⟨rfl, rfl⟩ | ⟨joint, literal, rfl, rfl⟩ | ⟨inner, entries, rfl, -, rfl⟩⟩ :=
    exists_of_ofTrees? h
  · have hall : ∀ word ∈ fieldWords,
        word.toList ∈ FieldMarks.hidingParts ↔ (flag word).hides = true := by decide
    rw [lead_flag hword, hall word hword]
  · refine iff_of_false (fun hmem => hblank _ hmem ?_) Bool.false_ne_true
    rw [lead_text hword]
    exact List.mem_append_right _ List.mem_cons_self
  · refine iff_of_false (fun hmem => hblank _ hmem ?_) Bool.false_ne_true
    rw [lead_table hword]
    exact List.mem_append_right _ List.mem_cons_self

end Mark

/-! ## Names of one field -/

/-- A name without the sign of a raw name. -/
def withoutSign (name : String) : String :=
  ((Text.dropHead? ['r', '#'] name.toList).map String.ofList).getD name

theorem comma_not_mem_of_plainName? {cs name rest : List Char}
    (h : plainName? cs = some (name, rest)) : ',' ∉ name := by
  unfold plainName? at h
  split at h
  · next c cs =>
      split at h
      · next hc =>
          obtain ⟨rfl, -⟩ := Prod.mk.inj (Option.some.inj h)
          rw [List.mem_cons, not_or]
          refine ⟨?_, fun hmem => ?_⟩
          · rintro rfl
            exact absurd hc (by decide)
          · exact absurd (List.mem_takeWhile_imp hmem) (by decide)
      · cases h
  · cases h

theorem comma_not_mem_of_anyName? {cs name rest : List Char}
    (h : anyName? cs = some (name, rest)) : ',' ∉ name := by
  unfold anyName? at h
  split at h
  · split at h
    · next hplain =>
        split at h
        · cases h
        · obtain ⟨rfl, -⟩ := Prod.mk.inj (Option.some.inj h)
          simpa using comma_not_mem_of_plainName? hplain
    · cases h
  · exact comma_not_mem_of_plainName? h

namespace TextLiteral

variable {literal : TextLiteral}

/-- The value is taken from the literal exactly if it is plain. -/
theorem IsRead.taken?_eq_some_value_iff (h : literal.IsRead) :
    FieldMarks.taken? literal = some literal.value.toList ↔ literal.IsPlain := by
  rw [FieldMarks.taken?]
  split
  · next hcomma =>
      exact iff_of_false (fun heq => by cases heq) fun hplain =>
        hplain.no_comma (h.comma_mem hcomma)
  · next hcomma =>
      rw [Option.some_inj]
      exact ⟨fun heq => ⟨heq, heq ▸ hcomma⟩, fun hplain => hplain.seen_eq⟩

theorem comma_not_mem_of_taken? {cs : List Char} (h : FieldMarks.taken? literal = some cs) :
    ',' ∉ cs := by
  rw [FieldMarks.taken?] at h
  split at h
  · cases h
  · next hcomma => exact Option.some.inj h ▸ hcomma

/-- The last name that is taken is the last one that is given exactly if that one is plain:
when it is not taken, what is taken instead has no comma. -/
theorem lastTaken_eq_iff {literals : List TextLiteral}
    (hread : ∀ literal ∈ literals, literal.IsRead) {name : String} (hname : ',' ∉ name.toList) :
    ((literals.filterMap FieldMarks.taken?).getLast?.map String.ofList).getD name =
        (literals.getLast?.map (·.value)).getD (withoutSign name) ↔
      (∀ literal ∈ literals.getLast?, literal.IsPlain) ∧
        (literals = [] → withoutSign name = name) := by
  rcases List.eq_nil_or_concat literals with rfl | ⟨front, last, rfl⟩
  · simpa using eq_comm
  · rw [List.concat_eq_append] at hread ⊢
    have hlast := hread last (List.mem_append_right _ (List.mem_singleton_self last))
    have hplain : (∀ literal ∈ (front ++ [last]).getLast?, literal.IsPlain) ∧
        (front ++ [last] = [] → withoutSign name = name) ↔ last.IsPlain := by
      simp
    rw [hplain, ← hlast.taken?_eq_some_value_iff, List.getLast?_concat, Option.map_some,
      Option.getD_some, List.filterMap_append]
    cases htaken : FieldMarks.taken? last with
    | some cs =>
        rw [List.filterMap_cons_some htaken, List.filterMap_nil, List.getLast?_concat,
          Option.map_some, Option.getD_some, Option.some_inj, ← String.toList_inj,
          String.toList_ofList]
    | none =>
        have hcomma : ',' ∈ last.value.toList := by
          refine hlast.comma_mem ?_
          by_contra hseen
          rw [FieldMarks.taken?, if_neg hseen] at htaken
          cases htaken
        refine iff_of_false (fun heq => ?_) (fun heq => by cases heq)
        rw [List.filterMap_cons_none htaken, List.filterMap_nil, List.append_nil] at heq
        cases hbefore : (front.filterMap FieldMarks.taken?).getLast? with
        | none =>
            rw [hbefore, Option.map_none, Option.getD_none] at heq
            exact hname (heq ▸ hcomma)
        | some cs =>
            obtain ⟨literal, -, hliteral⟩ :=
              List.mem_filterMap.mp (List.mem_of_getLast? hbefore)
            rw [hbefore, Option.map_some, Option.getD_some] at heq
            rw [← heq, String.toList_ofList] at hcomma
            exact comma_not_mem_of_taken? hliteral hcomma

end TextLiteral

namespace Field

open FieldMarks (stretches cutOff hidingParts)

/-- What the marks of a field say. -/
def marks (f : Field) : List Mark :=
  (stretches f.attributes).filterMap Mark.ofTrees?

/-- The names that its marks give to a field. -/
def newNames (f : Field) : List TextLiteral :=
  f.marks.filterMap Mark.rename?

/-- The name under which a field is written: the last one that a mark gives, and without any
its own. -/
def serializedName? (f : Field) : Option String :=
  if f.marks.any Mark.hides then none
  else f.name.map fun name => (f.newNames.getLast?.map (·.value)).getD (withoutSign name)

/-- The names that are read from the text of its marks: from each of them the one in front of
its first comma, and those behind it. -/
def readNames (f : Field) : List (List Char) :=
  (stretches f.attributes).flatMap fun trees =>
    (((Mark.ofTrees? trees).bind Mark.read?).bind FieldMarks.taken?).toList ++
      (cutOff trees).filterMap FieldMarks.newName?

/-- The field has known marks only. -/
structure IsMarked (f : Field) : Prop where
  name_read : ∀ name ∈ f.name, anyName? name.toList = some (name.toList, [])
  marks_read : ∀ trees ∈ stretches f.attributes, trees = [] ∨ (Mark.ofTrees? trees).isSome
  naming : ∀ mark ∈ f.marks, mark.IsNaming
  names_read : ∀ mark ∈ f.marks, ∀ literal ∈ mark.read?, literal.IsRead

/-- The text of the marks says what they say: nothing behind a comma inside a mark hides the
field, and the last name that is read, or without any the own one, is the one under which the
field is written. -/
structure IsFaithful (f : Field) : Prop where
  shown : ∀ trees ∈ stretches f.attributes, ∀ part ∈ cutOff trees, part ∉ hidingParts
  named : ∀ name ∈ f.name, (f.readNames.getLast?.map String.ofList).getD name =
    (f.newNames.getLast?.map (·.value)).getD (withoutSign name)

/-- Names are read only where the marks give them: the name for writing comes first in its
table, and nothing behind a comma inside a mark is read as a name. -/
structure IsOrderly (f : Field) : Prop where
  ordered : ∀ mark ∈ f.marks, mark.IsOrdered
  cutOff_unnamed : ∀ trees ∈ stretches f.attributes, ∀ part ∈ cutOff trees,
    FieldMarks.newName? part = none

/-- The text of the marks does not mislead: nothing behind a comma inside a mark hides the
field, and the new name, or the own one, is written as it is. -/
structure IsPlain (f : Field) : Prop where
  shown : ∀ trees ∈ stretches f.attributes, ∀ part ∈ cutOff trees, part ∉ hidingParts
  literal : ∀ literal ∈ f.newNames.getLast?, literal.IsPlain
  name : f.newNames = [] → ∀ name ∈ f.name, withoutSign name = name

instance (f : Field) : Decidable f.IsMarked :=
  decidable_of_iff
    ((∀ name ∈ f.name, anyName? name.toList = some (name.toList, [])) ∧
      (∀ trees ∈ stretches f.attributes, trees.isEmpty ∨ (Mark.ofTrees? trees).isSome) ∧
      (∀ mark ∈ f.marks, mark.IsNaming) ∧
      ∀ mark ∈ f.marks, ∀ literal ∈ mark.read?, literal.IsRead)
    ⟨fun ⟨hname, hmarks, hnaming, hnames⟩ =>
      ⟨hname, fun trees hmem => (hmarks trees hmem).imp_left List.isEmpty_iff.mp, hnaming, hnames⟩,
    fun h => ⟨h.name_read, fun trees hmem =>
      (h.marks_read trees hmem).imp_left List.isEmpty_iff.mpr, h.naming, h.names_read⟩⟩

instance (f : Field) : Decidable f.IsFaithful :=
  decidable_of_iff
    ((∀ trees ∈ stretches f.attributes, ∀ part ∈ cutOff trees, part ∉ hidingParts) ∧
      ∀ name ∈ f.name, (f.readNames.getLast?.map String.ofList).getD name =
        (f.newNames.getLast?.map (·.value)).getD (withoutSign name))
    ⟨fun ⟨hshown, hnamed⟩ => ⟨hshown, hnamed⟩, fun h => ⟨h.shown, h.named⟩⟩

instance (f : Field) : Decidable f.IsOrderly :=
  decidable_of_iff
    ((∀ mark ∈ f.marks, mark.IsOrdered) ∧
      ∀ trees ∈ stretches f.attributes, ∀ part ∈ cutOff trees, FieldMarks.newName? part = none)
    ⟨fun ⟨hordered, hcutOff⟩ => ⟨hordered, hcutOff⟩, fun h => ⟨h.ordered, h.cutOff_unnamed⟩⟩

instance (f : Field) : Decidable f.IsPlain :=
  decidable_of_iff
    ((∀ trees ∈ stretches f.attributes, ∀ part ∈ cutOff trees, part ∉ hidingParts) ∧
      (∀ literal ∈ f.newNames.getLast?, literal.IsPlain) ∧
      (f.newNames = [] → ∀ name ∈ f.name, withoutSign name = name))
    ⟨fun ⟨hshown, hliteral, hname⟩ => ⟨hshown, hliteral, hname⟩,
    fun h => ⟨h.shown, h.literal, h.name⟩⟩

variable {f : Field}

/-- A part in front of a comma gives the name that is read from the mark. -/
theorem IsMarked.newName?_lead (h : f.IsMarked) {trees : List Tree}
    (hmem : trees ∈ stretches f.attributes) :
    FieldMarks.newName? (FieldMarks.lead trees) =
      ((Mark.ofTrees? trees).bind Mark.read?).bind FieldMarks.taken? := by
  rcases h.marks_read trees hmem with rfl | hsome
  · rfl
  · obtain ⟨mark, hmark⟩ := Option.isSome_iff_exists.mp hsome
    have hmarks : mark ∈ f.marks := List.mem_filterMap.mpr ⟨trees, hmem, hmark⟩
    rw [hmark, Option.bind_some]
    exact Mark.newName?_lead hmark (h.names_read mark hmarks) (h.naming mark hmarks)

theorem IsMarked.renamed_ofAttributes (h : f.IsMarked) :
    (FieldMarks.ofAttributes f.attributes).renamed =
      f.readNames.getLast?.map String.ofList := by
  have hparts : ∀ trees ∈ stretches f.attributes,
      (FieldMarks.parts trees).filterMap FieldMarks.newName? =
        (((Mark.ofTrees? trees).bind Mark.read?).bind FieldMarks.taken?).toList ++
          (cutOff trees).filterMap FieldMarks.newName? := by
    intro trees hmem
    rw [FieldMarks.parts_eq_cons, List.filterMap_cons, h.newName?_lead hmem]
    cases ((Mark.ofTrees? trees).bind Mark.read?).bind FieldMarks.taken? <;> rfl
  rw [FieldMarks.ofAttributes_eq, FieldMarks.renamed_foldl, List.filterMap_flatMap,
    List.flatMap_congr hparts, ← readNames]
  exact Option.or_none

/-- In an orderly field the names that are read are those that are taken for the given ones. -/
theorem IsOrderly.readNames_eq (h : f.IsOrderly) :
    f.readNames = f.newNames.filterMap FieldMarks.taken? := by
  have hread : ∀ trees ∈ stretches f.attributes,
      (((Mark.ofTrees? trees).bind Mark.read?).bind FieldMarks.taken?).toList ++
          (cutOff trees).filterMap FieldMarks.newName? =
        ((Mark.ofTrees? trees).bind fun mark => mark.rename?.bind FieldMarks.taken?).toList := by
    intro trees hmem
    rw [List.filterMap_eq_nil_iff.mpr (h.cutOff_unnamed trees hmem), List.append_nil]
    cases hmark : Mark.ofTrees? trees with
    | none => rfl
    | some mark =>
        have hmarks : mark ∈ f.marks := List.mem_filterMap.mpr ⟨trees, hmem, hmark⟩
        rw [Option.bind_some, Option.bind_some, (h.ordered mark hmarks).read?_eq]
  rw [readNames, List.flatMap_congr hread, newNames, marks, List.filterMap_filterMap,
    List.filterMap_filterMap, ← List.filterMap_eq_flatMap_toList]

theorem IsMarked.any_lead_iff (h : f.IsMarked) :
    (∃ trees ∈ stretches f.attributes, FieldMarks.lead trees ∈ hidingParts) ↔
      f.marks.any Mark.hides = true := by
  rw [List.any_eq_true]
  constructor
  · rintro ⟨trees, hmem, hlead⟩
    rcases h.marks_read trees hmem with rfl | hsome
    · exact absurd hlead (by decide)
    · obtain ⟨mark, hmark⟩ := Option.isSome_iff_exists.mp hsome
      exact ⟨mark, List.mem_filterMap.mpr ⟨trees, hmem, hmark⟩,
        (Mark.mem_hidingParts_lead_iff hmark).mp hlead⟩
  · rintro ⟨mark, hmark, hhides⟩
    obtain ⟨trees, hmem, htrees⟩ := List.mem_filterMap.mp hmark
    exact ⟨trees, hmem, (Mark.mem_hidingParts_lead_iff htrees).mpr hhides⟩

theorem IsMarked.isHidden_ofAttributes_iff (h : f.IsMarked) :
    (FieldMarks.ofAttributes f.attributes).isHidden = true ↔ f.marks.any Mark.hides = true ∨
      ∃ trees ∈ stretches f.attributes, ∃ part ∈ cutOff trees, part ∈ hidingParts := by
  rw [FieldMarks.ofAttributes_eq, FieldMarks.isHidden_foldl, ← h.any_lead_iff]
  have hnone : FieldMarks.isHidden {} = false := rfl
  simp only [hnone, Bool.false_or, List.any_eq_true, decide_eq_true_eq, List.mem_flatMap,
    FieldMarks.parts_eq_cons, List.mem_cons]
  constructor
  · rintro ⟨part, ⟨trees, hmem, rfl | hpart⟩, hhides⟩
    · exact .inl ⟨trees, hmem, hhides⟩
    · exact .inr ⟨trees, hmem, part, hpart, hhides⟩
  · rintro (⟨trees, hmem, hhides⟩ | ⟨trees, hmem, part, hpart, hhides⟩)
    · exact ⟨_, ⟨trees, hmem, .inl rfl⟩, hhides⟩
    · exact ⟨part, ⟨trees, hmem, .inr hpart⟩, hhides⟩

/-- The name of a field as a schema shows it. -/
theorem name_classField? (f : Field) :
    f.classField?.map (·.name) =
      if (FieldMarks.ofAttributes f.attributes).isHidden then none
      else f.name.map ((FieldMarks.ofAttributes f.attributes).renamed.getD ·) := by
  unfold classField? FieldMarks.isHidden
  cases f.name with
  | none => simp
  | some name =>
      dsimp only
      split <;> rfl

theorem forall_name_iff {p : String → Prop} {name : String} (hname : f.name = some name) :
    (∀ other ∈ f.name, p other) ↔ p name := by
  simp [hname]

/-- The text of marks of which none hides the field is faithful exactly if the field is shown
under the name under which it is written. -/
theorem IsMarked.isFaithful_iff (h : f.IsMarked) {name : String} (hname : f.name = some name)
    (hhides : ¬ f.marks.any Mark.hides = true) :
    f.IsFaithful ↔ (FieldMarks.ofAttributes f.attributes).isHidden = false ∧
      (FieldMarks.ofAttributes f.attributes).renamed.getD name =
        (f.newNames.getLast?.map (·.value)).getD (withoutSign name) := by
  have hshown : (FieldMarks.ofAttributes f.attributes).isHidden = false ↔
      ∀ trees ∈ stretches f.attributes, ∀ part ∈ cutOff trees, part ∉ hidingParts := by
    rw [← Bool.not_eq_true, h.isHidden_ofAttributes_iff, or_iff_right hhides]
    push Not
    rfl
  rw [hshown, h.renamed_ofAttributes]
  constructor
  · exact fun hfaithful => ⟨hfaithful.shown, hfaithful.named name hname⟩
  · exact fun ⟨hparts, hnamed⟩ => ⟨hparts, (forall_name_iff hname).mpr hnamed⟩

/-- The text of orderly marks is faithful exactly if no comma or escape in it misleads. -/
theorem IsMarked.isFaithful_iff_isPlain (h : f.IsMarked) (horderly : f.IsOrderly)
    {name : String} (hname : f.name = some name) : f.IsFaithful ↔ f.IsPlain := by
  have hread : ∀ literal ∈ f.newNames, literal.IsRead := by
    intro literal hliteral
    obtain ⟨mark, hmark, hrename⟩ := List.mem_filterMap.mp hliteral
    rw [← (horderly.ordered mark hmark).read?_eq] at hrename
    exact h.names_read mark hmark literal hrename
  have hlast := TextLiteral.lastTaken_eq_iff hread
    (comma_not_mem_of_anyName? (h.name_read name hname))
  rw [← horderly.readNames_eq] at hlast
  constructor
  · intro hfaithful
    obtain ⟨hliteral, hunsigned⟩ := hlast.mp (hfaithful.named name hname)
    exact ⟨hfaithful.shown, hliteral, fun hnil => (forall_name_iff hname).mpr (hunsigned hnil)⟩
  · intro hplain
    have hnamed := hlast.mpr ⟨hplain.literal, fun hnil => hplain.name hnil name hname⟩
    exact ⟨hplain.shown, (forall_name_iff hname).mpr hnamed⟩

theorem exists_name_of_isSome_serializedName? (f : Field)
    (h : f.serializedName?.isSome = true) : ∃ name, f.name = some name := by
  rw [serializedName?] at h
  split at h
  · cases h
  · rwa [Option.isSome_map, Option.isSome_iff_exists] at h

theorem IsMarked.name_classField?_iff (h : f.IsMarked) :
    f.classField?.map (·.name) = f.serializedName? ↔
      (f.serializedName?.isSome = true → f.IsFaithful) := by
  rw [name_classField?, serializedName?]
  by_cases hhides : f.marks.any Mark.hides = true
  · rw [if_pos hhides, if_pos (h.isHidden_ofAttributes_iff.mpr (.inl hhides))]
    simp
  · rw [if_neg hhides]
    cases hname : f.name with
    | none => simp
    | some name =>
        rw [h.isFaithful_iff hname hhides, Option.map_some, Option.map_some, Option.isSome_some]
        cases (FieldMarks.ofAttributes f.attributes).isHidden with
        | false => simp
        | true => simp

theorem IsMarked.classField?_eq_none (h : f.IsMarked) (hnone : f.serializedName? = none) :
    f.classField?.map (·.name) = none := by
  rw [name_classField?]
  rw [serializedName?] at hnone
  split at hnone
  · next hhides => exact if_pos (h.isHidden_ofAttributes_iff.mpr (.inl hhides))
  · rw [Option.map_eq_none_iff.mp hnone, Option.map_none, ite_self]

end Field

section Choices

variable {α β : Type} {f g : α → Option β} {xs : List α}

theorem length_filterMap_le (h : ∀ x ∈ xs, g x = none → f x = none) :
    (xs.filterMap f).length ≤ (xs.filterMap g).length := by
  rw [List.length_filterMap_eq_countP, List.length_filterMap_eq_countP]
  refine List.countP_mono_left fun x hx hsome => ?_
  cases hg : g x with
  | none =>
      rw [h x hx hg] at hsome
      cases hsome
  | some b => rfl

/-- Two choices from a list are equal exactly if they are equal element by element, when the
first leaves out what the second does. -/
theorem filterMap_eq_filterMap_iff (h : ∀ x ∈ xs, g x = none → f x = none) :
    xs.filterMap f = xs.filterMap g ↔ ∀ x ∈ xs, f x = g x := by
  refine ⟨fun heq => ?_, fun heq => List.filterMap_congr heq⟩
  induction xs with
  | nil => exact List.forall_mem_nil _
  | cons x xs ih =>
      have hxs : ∀ x ∈ xs, g x = none → f x = none := fun y hy =>
        h y (List.mem_cons_of_mem x hy)
      cases hg : g x with
      | none =>
          have hf := h x List.mem_cons_self hg
          rw [List.filterMap_cons_none hf, List.filterMap_cons_none hg] at heq
          exact List.forall_mem_cons.mpr ⟨hf.trans hg.symm, ih hxs heq⟩
      | some b =>
          rw [List.filterMap_cons_some hg] at heq
          cases hf : f x with
          | none =>
              -- The first choice is one element short from here on.
              have hshort := length_filterMap_le hxs
              rw [List.filterMap_cons_none hf] at heq
              rw [heq, List.length_cons] at hshort
              omega
          | some a =>
              rw [List.filterMap_cons_some hf] at heq
              obtain ⟨rfl, htail⟩ := List.cons.inj heq
              exact List.forall_mem_cons.mpr ⟨hf.trans hg.symm, ih hxs htail⟩

end Choices

/-- The fields of a schema class are the fields that are written, in their order and under the
names under which they are written, exactly if the text of their marks is faithful; where names
are read only where the marks give them, it is so exactly if no comma or escape in it
misleads. -/
theorem Struct.names_schemaClass_iff {s : Struct} (h : ∀ f ∈ s.fields, f.IsMarked) :
    (s.schemaClass.fields.map (·.name) = s.fields.filterMap Field.serializedName? ↔
      ∀ f ∈ s.fields, f.serializedName?.isSome = true → f.IsFaithful) ∧
      ∀ f ∈ s.fields, f.serializedName?.isSome = true → f.IsOrderly →
        (f.IsFaithful ↔ f.IsPlain) := by
  constructor
  · have hmap : s.schemaClass.fields.map (·.name) =
        s.fields.filterMap fun f => f.classField?.map (·.name) :=
      List.map_filterMap
    rw [hmap, filterMap_eq_filterMap_iff fun f hf => (h f hf).classField?_eq_none]
    exact forall₂_congr fun f hf => (h f hf).name_classField?_iff
  · intro f hf hsome horderly
    obtain ⟨name, hname⟩ := f.exists_name_of_isSome_serializedName? hsome
    exact (h f hf).isFaithful_iff_isPlain horderly hname

/-- A new name, a table with one name for both directions, and a field that is not written. -/
theorem Struct.names_schemaClass_pet :
    let text := "struct Pet \x7b #[serde(rename = \"id\")] key: u8, " ++
      "#[serde(rename(deserialize = \"tag\", serialize = \"tag\"))] label: u8, " ++
      "#[serde(skip)] secret: u8 \x7d"
    ∃ s ∈ struct? text.toList,
      (∀ f ∈ s.fields, f.IsMarked) ∧
      s.schemaClass.fields.map (·.name) = s.fields.filterMap Field.serializedName? ∧
      s.fields.filterMap Field.serializedName? = ["id", "tag"] ∧
      ∃ f ∈ s.fields, f.serializedName? = some "id" ∧ f.IsOrderly ∧ f.IsPlain := by
  intro text
  have hread : ∃ s ∈ struct? text.toList,
      (∀ f ∈ s.fields, f.IsMarked) ∧
      (∀ f ∈ s.fields, f.serializedName?.isSome = true → f.IsFaithful) ∧
      s.fields.filterMap Field.serializedName? = ["id", "tag"] ∧
      ∃ f ∈ s.fields, f.serializedName? = some "id" ∧ f.IsOrderly := by
    decide +kernel
  obtain ⟨s, hs, hmarked, hfaithful, hnames, f, hf, hname, horderly⟩ := hread
  obtain ⟨hiff, hplain⟩ := names_schemaClass_iff hmarked
  have hsome : f.serializedName?.isSome = true := by rw [hname]; rfl
  exact ⟨s, hs, hmarked, hiff.mpr hfaithful, hnames, f, hf, hname, horderly,
    (hplain f hf hsome horderly).mp (hfaithful f hf hsome)⟩

/-- A comma in a new name: the part ends in front of it, and no name is read from it. -/
theorem Struct.not_names_schemaClass_comma :
    ∃ s ∈ struct? "struct Pet \x7b #[serde(rename = \"first,last\")] name: String \x7d".toList,
      (∀ f ∈ s.fields, f.IsMarked) ∧
      s.fields.filterMap Field.serializedName? = ["first,last"] ∧
      s.schemaClass.fields.map (·.name) = ["name"] := by
  decide +kernel

end ApiDoc.Source
