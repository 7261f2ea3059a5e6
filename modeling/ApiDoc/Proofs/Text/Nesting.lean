import ApiDoc.Proofs.Text
import ApiDoc.Text.Nesting

/-!
# Texts that stay in one piece

`splitTop` cuts at the separators in front of which no string and no bracket is open.  A
`Scan` is what is open at some place of a text.  Texts that leave every scan as it was, and
that no scan cuts, are `Sealed`: put together with separators, they are the pieces that
`splitTop` gives back.
-/

namespace ApiDoc.Text

/-- What is open at some place of a text. -/
structure Scan where
  quoting : Quoting
  depth : Int
deriving DecidableEq, Repr, Inhabited

/-- A character that opens and closes nothing. -/
def IsNeutral (c : Char) : Prop :=
  c ≠ '"' ∧ isOpening c = false ∧ isClosing c = false

instance : DecidablePred IsNeutral := fun c =>
  inferInstanceAs (Decidable (c ≠ '"' ∧ isOpening c = false ∧ isClosing c = false))

/-- A class of characters opens and closes nothing if no quote and no bracket belongs to it. -/
theorem isNeutral_of {p : Char → Bool} {c : Char}
    (hnone : ['"', '[', '\x7b', '(', ']', '\x7d', ')'].any p = false) (h : p c = true) :
    IsNeutral c := by
  have hne : ∀ d ∈ ['"', '[', '\x7b', '(', ']', '\x7d', ')'], c ≠ d := by
    rintro d hd rfl
    exact List.any_eq_false.mp hnone c hd h
  simp only [List.forall_mem_cons] at hne
  obtain ⟨hquote, hbracket, hbrace, hparen, hbracket', hbrace', hparen', -⟩ := hne
  exact ⟨hquote, by simp [isOpening, hbracket, hbrace, hparen],
    by simp [isClosing, hbracket', hbrace', hparen']⟩

namespace Scan

/-- Nothing is open. -/
def start : Scan :=
  ⟨.outside, 0⟩

/-- What is open after one more character. -/
def next (s : Scan) (c : Char) : Scan :=
  ⟨s.quoting.next c, if s.quoting = .outside then depthAfter s.depth c else s.depth⟩

/-- What is open after one more text. -/
def run (s : Scan) (text : List Char) : Scan :=
  text.foldl next s

/-- The pieces of a text that stands at a scan. -/
def cut (sep : Char) (s : Scan) (text : List Char) : List (List Char) :=
  splitTopFrom sep s.quoting s.depth text

variable {sep c : Char} {s : Scan} {depth : Int} {text front rest : List Char}

@[simp] theorem run_nil (s : Scan) : s.run [] = s := rfl

@[simp] theorem run_cons (s : Scan) (c : Char) (cs : List Char) :
    s.run (c :: cs) = (s.next c).run cs := rfl

@[simp] theorem run_append (s : Scan) (front rest : List Char) :
    s.run (front ++ rest) = (s.run front).run rest :=
  List.foldl_append

theorem next_of_neutral (h : IsNeutral c) : next ⟨.outside, depth⟩ c = ⟨.outside, depth⟩ := by
  obtain ⟨hquote, hopening, hclosing⟩ := h
  simp [next, Quoting.next, depthAfter, hquote, hopening, hclosing]

/-- A separator is left out where nothing is open; every other character belongs to the
first piece of what follows. -/
theorem cut_cons (hsep : IsNeutral sep) (s : Scan) (c : Char) (cs : List Char) :
    cut sep s (c :: cs) =
      if s = start ∧ c = sep then [] :: splitTop sep cs
      else growFirst c (cut sep (s.next c) cs) := by
  obtain ⟨q, depth⟩ := s
  rw [cut, splitTopFrom]
  split
  · next hstring =>
      have hother : ¬ ((⟨q, depth⟩ : Scan) = start ∧ c = sep) := by
        rintro ⟨hstart, rfl⟩
        obtain ⟨rfl, -⟩ := Scan.mk.inj hstart
        simp [hsep.1] at hstring
      have hdepth : (next ⟨q, depth⟩ c).depth = depth := by
        by_cases hq : q = .outside
        · obtain rfl : c = '"' := by simpa [hq] using hstring
          exact if_pos hq
        · exact if_neg hq
      rw [if_neg hother, cut, hdepth]
      rfl
  · next houtside =>
      obtain ⟨rfl, hquote⟩ : q = .outside ∧ c ≠ '"' := by simpa using houtside
      have hnext : next ⟨.outside, depth⟩ c = ⟨.outside, depthAfter depth c⟩ := by
        simp [next, Quoting.next, hquote]
      split
      · next hbracket =>
          have hother : ¬ ((⟨.outside, depth⟩ : Scan) = start ∧ c = sep) := by
            rintro ⟨-, rfl⟩
            simp [hsep.2.1, hsep.2.2] at hbracket
          rw [if_neg hother, hnext]
          rfl
      · next hbracket =>
          have hneutral : IsNeutral c := ⟨hquote, by simpa using hbracket⟩
          rw [next_of_neutral hneutral]
          by_cases hcut : depth = 0 ∧ c = sep
          · rw [if_pos (by simpa using hcut), if_pos ⟨by rw [hcut.1]; rfl, hcut.2⟩, hcut.1]
            rfl
          · rw [if_neg (by simpa using hcut), if_neg (by simpa [start] using hcut)]
            rfl

theorem exists_cut (sep : Char) (s : Scan) (text : List Char) :
    ∃ first rest, cut sep s text = first :: rest :=
  List.exists_cons_of_ne_nil (splitTopFrom_ne_nil sep s.quoting s.depth text)

/-- No separator of the text stands where nothing is open. -/
def Whole (sep : Char) (s : Scan) : List Char → Prop
  | [] => True
  | c :: cs => ¬ (s = start ∧ c = sep) ∧ Whole sep (s.next c) cs

instance decidableWhole (sep : Char) :
    (s : Scan) → (text : List Char) → Decidable (Whole sep s text)
  | _, [] => .isTrue trivial
  | s, c :: cs =>
      have := decidableWhole sep (s.next c) cs
      inferInstanceAs (Decidable (¬ (s = start ∧ c = sep) ∧ Whole sep (s.next c) cs))

theorem whole_of_not_mem (h : sep ∉ text) : Whole sep s text := by
  induction text generalizing s with
  | nil => trivial
  | cons c cs ih =>
      have hc : c ≠ sep := fun heq => h (heq ▸ List.mem_cons_self)
      exact ⟨fun hcut => hc hcut.2, ih (List.not_mem_of_not_mem_cons h)⟩

theorem whole_append_iff :
    Whole sep s (front ++ rest) ↔ Whole sep s front ∧ Whole sep (s.run front) rest := by
  induction front generalizing s with
  | nil => simp [Whole]
  | cons c cs ih => rw [List.cons_append, Whole, Whole, ih, and_assoc, run_cons]

/-- A whole text goes to the first piece of what follows. -/
theorem cut_append (hsep : IsNeutral sep) (h : Whole sep s front) :
    cut sep s (front ++ rest) = front.foldr growFirst (cut sep (s.run front) rest) := by
  induction front generalizing s with
  | nil => rfl
  | cons c cs ih =>
      obtain ⟨hother, hcs⟩ := h
      rw [List.cons_append, cut_cons hsep, if_neg hother, ih hcs]
      rfl

/-- A separator where nothing is open cuts the text in two. -/
theorem cut_append_sep (hsep : IsNeutral sep) (h : s.run front = start) (rest : List Char) :
    cut sep s (front ++ sep :: rest) = cut sep s front ++ splitTop sep rest := by
  induction front generalizing s with
  | nil =>
      obtain rfl : s = start := h
      exact (cut_cons hsep start sep rest).trans (if_pos ⟨rfl, rfl⟩)
  | cons c cs ih =>
      rw [List.cons_append, cut_cons hsep, cut_cons hsep]
      split
      · next hcut =>
          obtain ⟨rfl, rfl⟩ := hcut
          have hnext : start.next c = start := next_of_neutral hsep
          rw [run_cons, hnext] at h
          exact congrArg ([] :: ·) (ih h)
      · obtain ⟨first, others, hpieces⟩ := exists_cut sep (s.next c) cs
        rw [ih h, hpieces]
        rfl

/-- A separator at the end of a text, with nothing open there, has an empty piece behind it. -/
theorem cut_concat (hsep : IsNeutral sep) (h : s.run text = start) :
    cut sep s (text ++ [sep]) = cut sep s text ++ [[]] :=
  cut_append_sep hsep h []

end Scan

theorem foldr_growFirst (front piece : List Char) (pieces : List (List Char)) :
    front.foldr growFirst (piece :: pieces) = (front ++ piece) :: pieces := by
  induction front with
  | nil => rfl
  | cons c cs ih => rw [List.foldr_cons, ih]; rfl

/-! ## Texts inside quotes -/

/-- A text that does not leave the string it stands in. -/
structure IsQuotable (text : List Char) : Prop where
  run : ∀ depth, Scan.run ⟨.inside, depth⟩ text = ⟨.inside, depth⟩
  whole : ∀ sep depth, Scan.Whole sep ⟨.inside, depth⟩ text

namespace IsQuotable

variable {c : Char} {text : List Char}

theorem nil : IsQuotable [] :=
  ⟨fun _ => rfl, fun _ _ => trivial⟩

theorem cons (h : IsQuotable text) (hescape : c ≠ '\\') (hquote : c ≠ '"') :
    IsQuotable (c :: text) := by
  have hnext : ∀ depth, Scan.next ⟨.inside, depth⟩ c = ⟨.inside, depth⟩ := by
    simp [Scan.next, Quoting.next, hescape, hquote]
  constructor
  · intro depth
    rw [Scan.run_cons, hnext, h.run]
  · intro sep depth
    rw [Scan.Whole, hnext]
    exact ⟨by simp [Scan.start], h.whole sep depth⟩

/-- Any character may stand behind a backslash. -/
theorem cons_escaped (h : IsQuotable text) (c : Char) : IsQuotable ('\\' :: c :: text) where
  run depth := h.run depth
  whole sep depth := ⟨by simp [Scan.start], by simp [Scan.start, Scan.next, Quoting.next],
    h.whole sep depth⟩

end IsQuotable

/-! ## Sealed texts -/

/-- With `least` brackets open or more, the text leaves the scan as it was, and is not cut. -/
structure Sealed (sep : Char) (least : Nat) (text : List Char) : Prop where
  run : ∀ depth : Nat, least ≤ depth → Scan.run ⟨.outside, depth⟩ text = ⟨.outside, depth⟩
  whole : ∀ depth : Nat, least ≤ depth → Scan.Whole sep ⟨.outside, depth⟩ text

namespace Sealed

variable {sep c : Char} {least more : Nat} {text front rest : List Char}

theorem nil : Sealed sep least [] :=
  ⟨fun _ _ => rfl, fun _ _ => trivial⟩

theorem mono (h : Sealed sep least text) (hle : least ≤ more) : Sealed sep more text :=
  ⟨fun depth hmore => h.run depth (Nat.le_trans hle hmore),
    fun depth hmore => h.whole depth (Nat.le_trans hle hmore)⟩

theorem append (hfront : Sealed sep least front) (hrest : Sealed sep least rest) :
    Sealed sep least (front ++ rest) where
  run depth hle := by rw [Scan.run_append, hfront.run depth hle, hrest.run depth hle]
  whole depth hle := by
    rw [Scan.whole_append_iff, hfront.run depth hle]
    exact ⟨hfront.whole depth hle, hrest.whole depth hle⟩

/-- A neutral character may stand anywhere, the separator only inside brackets. -/
theorem cons (hc : IsNeutral c) (hsep : c ≠ sep ∨ 1 ≤ least) (h : Sealed sep least text) :
    Sealed sep least (c :: text) where
  run depth hle := by rw [Scan.run_cons, Scan.next_of_neutral hc, h.run depth hle]
  whole depth hle := by
    rw [Scan.Whole, Scan.next_of_neutral hc]
    refine ⟨?_, h.whole depth hle⟩
    rintro ⟨hstart, rfl⟩
    have hdepth : (depth : Int) = 0 := (Scan.mk.inj hstart).2
    rcases hsep with hne | hone
    · exact hne rfl
    · omega

theorem of_neutral (h : ∀ c ∈ text, IsNeutral c) (hsep : sep ∉ text) : Sealed sep least text := by
  induction text with
  | nil => exact nil
  | cons c cs ih =>
      have hne : c ≠ sep := fun heq => hsep (heq ▸ List.mem_cons_self)
      have hcs : Sealed sep least cs :=
        ih (fun d hd => h d (List.mem_cons_of_mem c hd)) (List.not_mem_of_not_mem_cons hsep)
      exact hcs.cons (h c List.mem_cons_self) (.inl hne)

theorem join {between : List Char} {pieces : List (List Char)}
    (hbetween : Sealed sep least between) (h : ∀ piece ∈ pieces, Sealed sep least piece) :
    Sealed sep least (join between pieces) := by
  induction pieces with
  | nil => exact nil
  | cons piece others ih =>
      obtain ⟨hpiece, hothers⟩ := List.forall_mem_cons.mp h
      cases others with
      | nil => exact hpiece
      | cons second more =>
          rw [join_cons_of_ne_nil between piece (List.cons_ne_nil second more)]
          exact (hpiece.append hbetween).append (ih hothers)

/-- Brackets around a text leave one fewer to be open outside. -/
theorem bracketed (hsep : IsNeutral sep) (h : Sealed sep (least + 1) text) :
    Sealed sep least ('[' :: (text ++ [']'])) := by
  have hopen : ∀ depth : Nat,
      Scan.next ⟨.outside, depth⟩ '[' = ⟨.outside, (depth + 1 : Nat)⟩ := fun depth => rfl
  have hclose : ∀ depth : Nat,
      Scan.next ⟨.outside, (depth + 1 : Nat)⟩ ']' = ⟨.outside, depth⟩ := fun depth => by
    simp [Scan.next, Quoting.next, depthAfter, isOpening, isClosing]
  constructor
  · intro depth hle
    rw [Scan.run_cons, hopen, Scan.run_append, h.run _ (Nat.succ_le_succ hle), Scan.run_cons,
      hclose, Scan.run_nil]
  · intro depth hle
    rw [Scan.Whole, hopen, Scan.whole_append_iff, h.run _ (Nat.succ_le_succ hle)]
    refine ⟨?_, h.whole _ (Nat.succ_le_succ hle), ?_, trivial⟩
    · rintro ⟨-, rfl⟩
      exact absurd hsep (by decide)
    · rintro ⟨-, rfl⟩
      exact absurd hsep (by decide)

/-- Quotes keep the text between them in one piece. -/
theorem quoted (hsep : IsNeutral sep) (h : IsQuotable text) :
    Sealed sep least ('"' :: (text ++ ['"'])) := by
  have hopen : ∀ depth, Scan.next ⟨.outside, depth⟩ '"' = ⟨.inside, depth⟩ := fun depth => by
    simp [Scan.next, Quoting.next, depthAfter, isOpening, isClosing]
  have hclose : ∀ depth, Scan.next ⟨.inside, depth⟩ '"' = ⟨.outside, depth⟩ := fun depth => by
    simp [Scan.next, Quoting.next]
  constructor
  · intro depth _
    rw [Scan.run_cons, hopen, Scan.run_append, h.run, Scan.run_cons, hclose, Scan.run_nil]
  · intro depth _
    rw [Scan.Whole, hopen, Scan.whole_append_iff, h.run]
    exact ⟨fun ⟨_, heq⟩ => hsep.1 heq.symm, h.whole sep depth, fun ⟨_, heq⟩ => hsep.1 heq.symm,
      trivial⟩

end Sealed

/-! ## Whole texts between separators -/

/-- Nothing is open behind the text, and it is not cut. -/
structure IsWhole (sep : Char) (text : List Char) : Prop where
  run : Scan.start.run text = .start
  whole : Scan.Whole sep .start text

theorem Sealed.isWhole {sep : Char} {text : List Char} (h : Sealed sep 0 text) :
    IsWhole sep text :=
  ⟨h.run 0 (Nat.le_refl 0), h.whole 0 (Nat.le_refl 0)⟩

namespace IsWhole

variable {sep : Char} {text front rest : List Char}

theorem append (hfront : IsWhole sep front) (hrest : IsWhole sep rest) :
    IsWhole sep (front ++ rest) := by
  refine ⟨?_, Scan.whole_append_iff.mpr ⟨hfront.whole, ?_⟩⟩
  · rw [Scan.run_append, hfront.run, hrest.run]
  · rw [hfront.run]
    exact hrest.whole

theorem of_neutral (h : ∀ c ∈ text, IsNeutral c) (hsep : sep ∉ text) : IsWhole sep text :=
  (Sealed.of_neutral h hsep : Sealed sep 0 text).isWhole

theorem of_char {c : Char} (hc : IsNeutral c) (hne : c ≠ sep) : IsWhole sep [c] :=
  of_neutral (List.forall_mem_singleton.mpr hc) (by simpa using hne.symm)

end IsWhole

section Pieces

variable {sep : Char} {piece rest text : List Char} {pieces : List (List Char)}

theorem exists_splitTop (sep : Char) (text : List Char) :
    ∃ first rest, splitTop sep text = first :: rest ∧ text = join [sep] (first :: rest) := by
  obtain ⟨first, rest, hpieces⟩ := Scan.exists_cut sep .start text
  exact ⟨first, rest, hpieces, hpieces ▸ (join_splitTopFrom sep .outside 0 text).symm⟩

/-- A whole text goes to the first piece of what follows. -/
theorem splitTop_append (hsep : IsNeutral sep) (h : IsWhole sep piece) (rest : List Char) :
    splitTop sep (piece ++ rest) = piece.foldr growFirst (splitTop sep rest) := by
  have hcut : Scan.cut sep .start (piece ++ rest) =
      piece.foldr growFirst (Scan.cut sep (Scan.start.run piece) rest) :=
    Scan.cut_append hsep h.whole
  rw [h.run] at hcut
  exact hcut

theorem splitTop_of_isWhole (hsep : IsNeutral sep) (h : IsWhole sep piece) :
    splitTop sep piece = [piece] := by
  have hcut := splitTop_append hsep h []
  rw [List.append_nil] at hcut
  rw [hcut]
  exact (foldr_growFirst piece [] []).trans (by rw [List.append_nil])

/-- A whole text in front of a separator is a piece. -/
theorem splitTop_append_cons (hsep : IsNeutral sep) (h : IsWhole sep piece) (rest : List Char) :
    splitTop sep (piece ++ sep :: rest) = piece :: splitTop sep rest := by
  have hcons : splitTop sep (sep :: rest) = [] :: splitTop sep rest :=
    (Scan.cut_cons hsep .start sep rest).trans (if_pos ⟨rfl, rfl⟩)
  rw [splitTop_append hsep h, hcons, foldr_growFirst, List.append_nil]

/-- Whole texts with separators between neighbours are the pieces. -/
theorem splitTop_join_sep (hsep : IsNeutral sep) (hne : pieces ≠ [])
    (h : ∀ piece ∈ pieces, IsWhole sep piece) : splitTop sep (join [sep] pieces) = pieces := by
  induction pieces with
  | nil => exact absurd rfl hne
  | cons piece others ih =>
      obtain ⟨hpiece, hothers⟩ := List.forall_mem_cons.mp h
      cases others with
      | nil => exact splitTop_of_isWhole hsep hpiece
      | cons second more =>
          rw [join_cons_of_ne_nil _ _ (List.cons_ne_nil _ _), List.append_assoc,
            List.singleton_append, splitTop_append_cons hsep hpiece,
            ih (List.cons_ne_nil _ _) hothers]

/-- Sealed texts with a separator and a space between neighbours are the pieces. -/
theorem splitTop_join (hsep : IsNeutral sep) (hspace : sep ≠ ' ')
    (h : ∀ text ∈ piece :: pieces, Sealed sep 0 text) :
    splitTop sep (join [sep, ' '] (piece :: pieces)) = piece :: pieces.map (' ' :: ·) := by
  induction pieces generalizing piece with
  | nil => exact splitTop_of_isWhole hsep (h piece List.mem_cons_self).isWhole
  | cons second others ih =>
      obtain ⟨hpiece, hothers⟩ := List.forall_mem_cons.mp h
      obtain ⟨hsecond, hrest⟩ := List.forall_mem_cons.mp hothers
      have hblank : Sealed sep 0 (' ' :: second) :=
        hsecond.cons (by decide) (.inl (Ne.symm hspace))
      -- The space behind a separator belongs to the piece that follows.
      have hshift : ' ' :: join [sep, ' '] (second :: others) =
          join [sep, ' '] ((' ' :: second) :: others) := by
        cases others with
        | nil => rfl
        | cons third more => rfl
      have htail : splitTop sep (join [sep, ' '] ((' ' :: second) :: others)) =
          (' ' :: second) :: others.map (' ' :: ·) :=
        ih (List.forall_mem_cons.mpr ⟨hblank, hrest⟩)
      calc splitTop sep (join [sep, ' '] (piece :: second :: others))
        _ = splitTop sep (piece ++ sep :: ' ' :: join [sep, ' '] (second :: others)) := by
          rw [join_cons_of_ne_nil _ _ (List.cons_ne_nil _ _), List.append_assoc]
          rfl
        _ = piece :: splitTop sep (join [sep, ' '] ((' ' :: second) :: others)) := by
          rw [splitTop_append_cons hsep hpiece.isWhole, hshift]
        _ = piece :: (second :: others).map (' ' :: ·) := by
          rw [htail, List.map_cons]

/-- The separators and the spaces behind them are all that is lost. -/
theorem map_trim_splitTop_join (hsep : IsNeutral sep) (hspace : sep ≠ ' ') (hne : pieces ≠ [])
    (hsealed : ∀ text ∈ pieces, Sealed sep 0 text) (htight : ∀ text ∈ pieces, IsTight text) :
    (splitTop sep (join [sep, ' '] pieces)).map trim = pieces := by
  obtain ⟨first, others, rfl⟩ := List.exists_cons_of_ne_nil hne
  obtain ⟨hfirst, hothers⟩ := List.forall_mem_cons.mp htight
  have htrim : others.map (fun text => trim (' ' :: text)) = others := by
    refine (List.map_congr_left fun text htext => ?_).trans (List.map_id others)
    rw [trim_cons_of_isBlank (by decide), (hothers text htext).trim_eq]
    rfl
  rw [splitTop_join hsep hspace hsealed, List.map_cons, hfirst.trim_eq, List.map_map]
  exact congrArg (first :: ·) htrim

end Pieces

end ApiDoc.Text
