import ApiDoc.Text.Basic
import Mathlib.Data.List.DropRight

/-!
# Cutting texts

What is cut from either end of a text can be put back, and pieces and lines of a text
have no other characters.  Pieces and lines that were joined are cut again where they were
joined.
-/

namespace ApiDoc.Text

theorem dropHead?_eq_some_iff {head text rest : List Char} :
    dropHead? head text = some rest ↔ text = head ++ rest := by
  induction head generalizing text with
  | nil => simp [dropHead?]
  | cons h hs ih =>
      cases text with
      | nil => simp [dropHead?]
      | cons c cs =>
          by_cases hc : h = c
          · simp [dropHead?, hc, ih]
          · simp [dropHead?, hc, Ne.symm hc]

theorem dropTail?_eq_some_iff {tail text rest : List Char} :
    dropTail? tail text = some rest ↔ text = rest ++ tail := by
  rw [dropTail?, Option.map_eq_some_iff]
  constructor
  · rintro ⟨back, hback, rfl⟩
    have hrev := congrArg List.reverse (dropHead?_eq_some_iff.mp hback)
    simpa using hrev
  · rintro rfl
    exact ⟨rest.reverse, by simp [dropHead?_eq_some_iff], List.reverse_reverse rest⟩

theorem dropHead?_eq_none {head text : List Char} (h : ¬ head <+: text) :
    dropHead? head text = none := by
  refine Option.eq_none_iff_forall_ne_some.mpr fun rest hrest => h ?_
  exact ⟨rest, (dropHead?_eq_some_iff.mp hrest).symm⟩

theorem dropTail?_eq_none {tail text : List Char} (h : ¬ tail <:+ text) :
    dropTail? tail text = none := by
  refine Option.eq_none_iff_forall_ne_some.mpr fun rest hrest => h ?_
  exact ⟨rest, (dropTail?_eq_some_iff.mp hrest).symm⟩

theorem cutFirst?_append_cons {sep : Char} {front : List Char} (h : sep ∉ front)
    (rest : List Char) : cutFirst? sep (front ++ sep :: rest) = some (front, rest) := by
  induction front with
  | nil => exact if_pos rfl
  | cons c cs ih =>
      have hne : c ≠ sep := fun heq => h (heq ▸ List.mem_cons_self)
      rw [List.cons_append, cutFirst?, if_neg hne, ih (List.not_mem_of_not_mem_cons h)]
      rfl

theorem eq_of_cutFirst? {sep : Char} {cs front rest : List Char}
    (h : cutFirst? sep cs = some (front, rest)) : cs = front ++ sep :: rest := by
  induction cs generalizing front with
  | nil => cases h
  | cons c cs ih =>
      rw [cutFirst?] at h
      split at h
      · next hc =>
          obtain ⟨rfl, rfl⟩ := Prod.mk.inj (Option.some.inj h)
          rw [hc, List.nil_append]
      · obtain ⟨⟨before, after⟩, hcut, heq⟩ := Option.map_eq_some_iff.mp h
        obtain ⟨rfl, rfl⟩ := Prod.mk.inj heq
        rw [ih hcut, List.cons_append]

theorem cutFirst?_of_not_mem {sep : Char} {cs : List Char} (h : sep ∉ cs) :
    cutFirst? sep cs = none := by
  refine Option.eq_none_iff_forall_ne_some.mpr ?_
  rintro ⟨front, rest⟩ hcut
  rw [eq_of_cutFirst? hcut] at h
  exact h (List.mem_append_right _ List.mem_cons_self)

/-- What is added behind a text that is cut goes to the last part. -/
theorem cutFirst?_append {sep : Char} {cs front rest : List Char}
    (h : cutFirst? sep cs = some (front, rest)) (more : List Char) :
    cutFirst? sep (cs ++ more) = some (front, rest ++ more) := by
  induction cs generalizing front with
  | nil => cases h
  | cons c cs ih =>
      rw [cutFirst?] at h
      rw [List.cons_append, cutFirst?]
      by_cases hc : c = sep
      · rw [if_pos hc] at h ⊢
        obtain ⟨rfl, rfl⟩ := Prod.mk.inj (Option.some.inj h)
        rfl
      · rw [if_neg hc] at h ⊢
        obtain ⟨⟨before, after⟩, hcut, heq⟩ := Option.map_eq_some_iff.mp h
        obtain ⟨rfl, rfl⟩ := Prod.mk.inj heq
        rw [ih hcut]
        rfl

/-- What was cut is put together again. -/
theorem eq_of_cutLast? {mark cs front rest : List Char}
    (h : cutLast? mark cs = some (front, rest)) : cs = front ++ mark ++ rest := by
  induction cs generalizing front with
  | nil => cases h
  | cons c cs ih =>
      rw [cutLast?] at h
      split at h
      · next before after hcut =>
          obtain ⟨rfl, rfl⟩ := Prod.mk.inj (Option.some.inj h)
          rw [ih hcut]
          rfl
      · obtain ⟨after, hhead, heq⟩ := Option.map_eq_some_iff.mp h
        obtain ⟨rfl, rfl⟩ := Prod.mk.inj heq
        exact dropHead?_eq_some_iff.mp hhead

/-- What is added in front of a text that is cut goes to the first part. -/
theorem cutLast?_append {mark cs front rest : List Char}
    (h : cutLast? mark cs = some (front, rest)) (more : List Char) :
    cutLast? mark (more ++ cs) = some (more ++ front, rest) := by
  induction more with
  | nil => exact h
  | cons c more ih => rw [List.cons_append, cutLast?, ih]; rfl

theorem cutLast?_of_not_mem {c : Char} {mark cs : List Char} (hc : c ∈ mark) (h : c ∉ cs) :
    cutLast? mark cs = none := by
  refine Option.eq_none_iff_forall_ne_some.mpr ?_
  rintro ⟨front, rest⟩ hcut
  rw [eq_of_cutLast? hcut] at h
  exact h (List.mem_append_left _ (List.mem_append_right _ hc))

/-- The text after the last of some characters. -/
theorem afterLast_append_cons {p : Char → Bool} {c : Char} {rest : List Char} (hc : p c = true)
    (h : ∀ d ∈ rest, p d = false) (front : List Char) :
    afterLast p (front ++ c :: rest) = rest := by
  have hreverse : (front ++ c :: rest).reverse = rest.reverse ++ c :: front.reverse := by simp
  have hrest : ∀ d ∈ rest.reverse, (!p d) = true := fun d hd => by
    simp [h d (List.mem_reverse.mp hd)]
  rw [afterLast, hreverse, List.takeWhile_append_of_pos hrest,
    List.takeWhile_cons_of_neg (by simp [hc]), List.append_nil, List.reverse_reverse]

theorem afterLast_of_forall {p : Char → Bool} {cs : List Char} (h : ∀ d ∈ cs, p d = false) :
    afterLast p cs = cs := by
  have hall : cs.reverse.takeWhile (!p ·) = cs.reverse :=
    List.takeWhile_eq_self_iff.mpr fun d hd => by simp [h d (List.mem_reverse.mp hd)]
  rw [afterLast, hall, List.reverse_reverse]

/-- A text is cut in one way at the first occurrence of a character. -/
theorem append_cons_inj_of_not_mem {c : Char} {front other rest more : List Char}
    (hfront : c ∉ front) (hother : c ∉ other) (h : front ++ c :: rest = other ++ c :: more) :
    front = other ∧ rest = more := by
  induction front generalizing other with
  | nil =>
      cases other with
      | nil => exact ⟨rfl, List.tail_eq_of_cons_eq h⟩
      | cons d ds =>
          have hsame : c = d := List.head_eq_of_cons_eq h
          exact absurd (hsame ▸ List.mem_cons_self) hother
  | cons e es ih =>
      cases other with
      | nil =>
          have hsame : e = c := List.head_eq_of_cons_eq h
          exact absurd (hsame ▸ List.mem_cons_self) hfront
      | cons d ds =>
          obtain ⟨hsame, htail⟩ := List.cons.inj h
          obtain ⟨hrest, hmore⟩ := ih (List.not_mem_of_not_mem_cons hfront)
            (List.not_mem_of_not_mem_cons hother) htail
          exact ⟨by rw [hsame, hrest], hmore⟩

theorem splitOn_inj {sep : Char} {cs ds : List Char} (h : splitOn sep cs = splitOn sep ds) :
    cs = ds := by
  rw [← join_splitOn sep cs, h, join_splitOn sep ds]

theorem splitOn_eq (sep : Char) (cs : List Char) : splitOn sep cs = cs.splitOn sep := by
  induction cs with
  | nil => exact (List.splitOn_nil sep).symm
  | cons c cs ih =>
      obtain ⟨piece, pieces, hpieces⟩ := List.exists_cons_of_ne_nil (splitOn_ne_nil sep cs)
      rw [splitOn, List.splitOn_cons_eq_if_modifyHead, ← ih, hpieces]
      simp [growFirst]

theorem join_eq_intercalate (sep : List Char) (pieces : List (List Char)) :
    join sep pieces = sep.intercalate pieces := by
  induction pieces with
  | nil => rfl
  | cons piece others ih =>
      cases others with
      | nil => exact List.intercalate_singleton.symm
      | cons second more =>
          rw [join_cons_of_ne_nil sep piece (List.cons_ne_nil second more), ih,
            List.intercalate_cons_of_ne_nil (List.cons_ne_nil second more)]

/-- Pieces without the separator are cut as they were joined. -/
theorem splitOn_join {sep : Char} {pieces : List (List Char)} (hne : pieces ≠ [])
    (h : ∀ piece ∈ pieces, sep ∉ piece) : splitOn sep (join [sep] pieces) = pieces := by
  rw [splitOn_eq, join_eq_intercalate]
  exact List.splitOn_intercalate sep h hne

/-- A text without the separator is one piece. -/
theorem splitOn_of_not_mem {sep : Char} {cs : List Char} (h : sep ∉ cs) :
    splitOn sep cs = [cs] :=
  splitOn_join (List.cons_ne_nil cs []) (List.forall_mem_singleton.mpr h)

theorem splitOn_append_cons (sep : Char) (front rest : List Char) :
    splitOn sep (front ++ sep :: rest) = splitOn sep front ++ splitOn sep rest := by
  induction front with
  | nil => simp [splitOn]
  | cons c front ih =>
      rw [List.cons_append, splitOn, splitOn, ih]
      by_cases hc : c = sep
      · simp [hc]
      · rw [if_neg hc, if_neg hc]
        cases hpieces : splitOn sep front with
        | nil => exact absurd hpieces (splitOn_ne_nil sep front)
        | cons piece pieces => rfl

/-- Nothing stops in a text without the separator. -/
theorem takeWhile_ne_append {sep : Char} {front : List Char} (h : sep ∉ front)
    (rest : List Char) :
    (front ++ rest).takeWhile (· ≠ sep) = front ++ rest.takeWhile (· ≠ sep) :=
  List.takeWhile_append_of_pos fun _ hc => decide_eq_true fun heq => h (heq ▸ hc)

theorem takeWhile_ne_of_not_mem {sep : Char} {cs : List Char} (h : sep ∉ cs) :
    cs.takeWhile (· ≠ sep) = cs := by
  simpa using takeWhile_ne_append h []

theorem takeWhile_ne_append_cons {sep : Char} {front : List Char} (h : sep ∉ front)
    (rest : List Char) : (front ++ sep :: rest).takeWhile (· ≠ sep) = front := by
  rw [takeWhile_ne_append h, List.takeWhile_cons_of_neg (by simp), List.append_nil]

/-- The first piece ends in front of the first separator. -/
theorem exists_splitOn_eq_cons (sep : Char) (cs : List Char) :
    ∃ more, splitOn sep cs = cs.takeWhile (· ≠ sep) :: more := by
  by_cases hsep : sep ∈ cs
  · obtain ⟨front, rest, rfl, hfront⟩ := List.eq_append_cons_of_mem hsep
    refine ⟨splitOn sep rest, ?_⟩
    rw [splitOn_append_cons, splitOn_of_not_mem hfront, takeWhile_ne_append_cons hfront,
      List.singleton_append]
  · exact ⟨[], by rw [splitOn_of_not_mem hsep, takeWhile_ne_of_not_mem hsep]⟩

/-- What is added behind a text goes to the last piece. -/
theorem exists_splitOn_append {sep : Char} {tail : List Char} (h : sep ∉ tail)
    (cs : List Char) : ∃ front last, splitOn sep cs = front ++ [last] ∧
      splitOn sep (cs ++ tail) = front ++ [last ++ tail] := by
  induction cs with
  | nil => exact ⟨[], [], rfl, splitOn_of_not_mem h⟩
  | cons c cs ih =>
      obtain ⟨front, last, hcs, htail⟩ := ih
      rw [List.cons_append, splitOn, splitOn, hcs, htail]
      by_cases hc : c = sep
      · exact ⟨[] :: front, last, by rw [if_pos hc, List.cons_append],
          by rw [if_pos hc, List.cons_append]⟩
      · rw [if_neg hc, if_neg hc]
        cases front with
        | nil => exact ⟨[], c :: last, rfl, rfl⟩
        | cons piece front => exact ⟨(c :: piece) :: front, last, rfl, rfl⟩

theorem isInfix_join_of_mem {sep : Char} {piece : List Char} {pieces : List (List Char)}
    (h : piece ∈ pieces) : sep :: piece <:+: sep :: join [sep] pieces := by
  induction pieces with
  | nil => cases h
  | cons first rest ih =>
      cases rest with
      | nil =>
          obtain rfl := List.mem_singleton.mp h
          exact List.infix_refl _
      | cons second more =>
          rw [join_cons_of_ne_nil [sep] first (List.cons_ne_nil second more), List.append_assoc]
          rcases List.mem_cons.mp h with rfl | hmem
          · exact List.IsPrefix.isInfix (List.cons_prefix_cons.mpr ⟨rfl, List.prefix_append _ _⟩)
          · exact (ih hmem).trans
              ((List.suffix_append first _).isInfix.trans (List.suffix_cons sep _).isInfix)

theorem subset_of_mem_splitOn {sep : Char} {cs piece : List Char}
    (h : piece ∈ splitOn sep cs) : piece ⊆ cs := by
  rw [← join_splitOn sep cs]
  generalize splitOn sep cs = pieces at h
  induction pieces with
  | nil => cases h
  | cons first rest ih =>
      rcases List.mem_cons.mp h with rfl | hrest
      · cases rest with
        | nil => exact List.Subset.refl _
        | cons second more => simp [join]
      · rw [join_cons_of_ne_nil _ _ (List.ne_nil_of_mem hrest)]
        exact List.subset_append_of_subset_right _ (ih hrest)

/-- A line has no characters but those of the text. -/
theorem subset_of_mem_lines {cs line : List Char} (h : line ∈ lines cs) : line ⊆ cs := by
  have hcut : ∀ line ∈ (splitOn '\n' cs).dropLast.map fun line =>
      (dropTail? ['\r'] line).getD line, line ⊆ cs := by
    intro line hline
    obtain ⟨piece, hpiece, rfl⟩ := List.mem_map.mp hline
    have hsub := subset_of_mem_splitOn (List.dropLast_subset _ hpiece)
    cases htail : dropTail? ['\r'] piece with
    | none => exact hsub
    | some rest =>
        rw [dropTail?_eq_some_iff.mp htail] at hsub
        exact List.Subset.trans (List.subset_append_left _ _) hsub
  unfold lines at h
  dsimp only at h
  split at h
  · exact hcut line h
  · exact hcut line h
  · next last _ hlast =>
      rcases List.mem_append.mp h with hline | hline
      · exact hcut line hline
      · obtain rfl := List.mem_singleton.mp hline
        exact subset_of_mem_splitOn (List.mem_of_getLast? hlast)

/-- A line that a text gives back as it is. -/
structure IsLine (line : List Char) : Prop where
  newline_not_mem : '\n' ∉ line
  not_return : line.getLast? ≠ some '\r'

theorem IsLine.append {front rest : List Char} (hfront : IsLine front) (hrest : IsLine rest) :
    IsLine (front ++ rest) where
  newline_not_mem := by
    rw [List.mem_append]
    exact not_or.mpr ⟨hfront.newline_not_mem, hrest.newline_not_mem⟩
  not_return := by
    intro hlast
    rw [List.getLast?_append, Option.or_eq_some_iff] at hlast
    rcases hlast with hlast | ⟨-, hlast⟩
    · exact hrest.not_return hlast
    · exact hfront.not_return hlast

/-- Lines joined by line feeds are the lines of the text; only an empty last line is lost. -/
theorem lines_join {front : List (List Char)} {last : List Char}
    (h : ∀ line ∈ front ++ [last], IsLine line) :
    lines (join ['\n'] (front ++ [last])) = if last = [] then front else front ++ [last] := by
  obtain ⟨hfront, -⟩ := List.forall_mem_append.mp h
  have hreturn : front.map (fun line => (dropTail? ['\r'] line).getD line) = front := by
    refine (List.map_congr_left fun line hline => ?_).trans (List.map_id front)
    have hsuffix : ¬ ['\r'] <:+ line := fun hsuffix =>
      (hfront line hline).not_return (List.singleton_suffix_iff_getLast?_eq_some.mp hsuffix)
    rw [dropTail?_eq_none hsuffix]
    rfl
  rw [lines, splitOn_join (by simp) fun line hline => (h line hline).newline_not_mem,
    List.dropLast_concat, List.getLast?_concat, hreturn]
  cases last with
  | nil => rfl
  | cons c cs => rfl

/-- Behind a separator, joined pieces end as the last one of them does. -/
theorem getLast?_cons_join (sep : Char) (front : List (List Char)) (last : List Char) :
    (sep :: join [sep] (front ++ [last])).getLast? = (sep :: last).getLast? := by
  induction front with
  | nil => rfl
  | cons piece front ih =>
      have hsplit : sep :: join [sep] (piece :: (front ++ [last])) =
          (sep :: piece) ++ sep :: join [sep] (front ++ [last]) := by
        rw [join_cons_of_ne_nil [sep] piece (List.concat_ne_nil last front), List.append_assoc]
        rfl
      rw [List.cons_append, hsplit, List.getLast?_append, ih, List.getLast?_cons]
      rfl

theorem length_le_join {sep piece : List Char} {pieces : List (List Char)} (h : piece ∈ pieces) :
    piece.length ≤ (join sep pieces).length := by
  induction pieces with
  | nil => cases h
  | cons first rest ih =>
      cases rest with
      | nil =>
          obtain rfl := List.mem_singleton.mp h
          exact Nat.le_refl _
      | cons second more =>
          rw [join_cons_of_ne_nil sep first (List.cons_ne_nil second more), List.length_append,
            List.length_append]
          rcases List.mem_cons.mp h with rfl | hmem
          · omega
          · have hle := ih hmem
            omega

/-! ## Dropping from the ends -/

section Dropping

variable {p : Char → Bool} {c : Char} {text : List Char}

/-- Nothing is dropped from the front behind a character that stays. -/
theorem dropWhile_append_cons (h : p c = false) (front rest : List Char) :
    (front ++ c :: rest).dropWhile p = front.dropWhile p ++ c :: rest := by
  have hstop : (c :: rest).dropWhile p = c :: rest := List.dropWhile_cons_of_neg (by simp [h])
  rw [List.dropWhile_append, hstop]
  split
  · next hempty => rw [List.isEmpty_iff.mp hempty, List.nil_append]
  · rfl

/-- Nothing is dropped from the end in front of a character that stays. -/
theorem dropEndWhile_append_cons (h : p c = false) (front rest : List Char) :
    dropEndWhile p (front ++ c :: rest) = front ++ c :: dropEndWhile p rest := by
  have hreverse : (front ++ c :: rest).reverse = rest.reverse ++ c :: front.reverse := by simp
  rw [dropEndWhile, hreverse, dropWhile_append_cons h, dropEndWhile]
  simp

/-- Only what is added is dropped, if the text in front of it ends with a character that
stays. -/
theorem dropEndWhile_append (h : ∀ c ∈ text.getLast?, p c = false) (rest : List Char) :
    dropEndWhile p (text ++ rest) = text ++ dropEndWhile p rest := by
  rcases List.eq_nil_or_concat text with rfl | ⟨front, last, rfl⟩
  · rfl
  · have hlast : p last = false := h last (by simp)
    simpa using dropEndWhile_append_cons hlast front rest

theorem dropEndWhile_append_of_forall {tail : List Char} (h : ∀ c ∈ tail, p c = true)
    (text : List Char) : dropEndWhile p (text ++ tail) = dropEndWhile p text := by
  rw [dropEndWhile, List.reverse_append, List.dropWhile_append_of_pos, dropEndWhile]
  exact fun c hc => h c (List.mem_reverse.mp hc)

end Dropping

/-! ## White space -/

/-- The code points of white space. -/
def blankCodes : List Nat :=
  [9, 10, 11, 12, 13, 32, 0x85, 0xA0, 0x1680, 0x2000, 0x2001, 0x2002, 0x2003, 0x2004, 0x2005,
    0x2006, 0x2007, 0x2008, 0x2009, 0x200A, 0x2028, 0x2029, 0x202F, 0x205F, 0x3000]

theorem toNat_mem_blankCodes {c : Char} (h : isBlank c = true) : c.toNat ∈ blankCodes := by
  simp only [isBlank, Bool.or_eq_true, Bool.and_eq_true, decide_eq_true_eq, beq_iff_eq] at h
  simp only [blankCodes, List.mem_cons, List.not_mem_nil, or_false]
  omega

/-- A class of characters has no white space if it has none of these code points. -/
theorem isBlank_eq_false_of {p : Char → Bool} {c : Char}
    (hnone : ∀ code ∈ blankCodes, p (Char.ofNat code) = false) (h : p c = true) :
    isBlank c = false := by
  refine Bool.eq_false_iff.mpr fun hblank => ?_
  rw [← Char.ofNat_toNat c, hnone _ (toNat_mem_blankCodes hblank)] at h
  cases h

/-! ## Texts without white space at their ends -/

/-- A text that starts and ends with characters that are not white space. -/
structure IsTight (text : List Char) : Prop where
  first : ∃ c rest, text = c :: rest ∧ isBlank c = false
  last : ∃ front c, text = front ++ [c] ∧ isBlank c = false

namespace IsTight

variable {text front rest : List Char}

theorem ne_nil (h : IsTight text) : text ≠ [] := by
  obtain ⟨c, rest, rfl, -⟩ := h.first
  exact List.cons_ne_nil c rest

theorem trimStart_eq (h : IsTight text) : trimStart text = text := by
  obtain ⟨c, rest, rfl, hc⟩ := h.first
  exact List.dropWhile_cons_of_neg (by simp [hc])

theorem trimEnd_eq (h : IsTight text) : trimEnd text = text := by
  obtain ⟨front, c, rfl, hc⟩ := h.last
  rw [trimEnd, dropEndWhile, List.reverse_concat, List.dropWhile_cons_of_neg (by simp [hc]),
    ← List.reverse_concat, List.reverse_reverse]

theorem trim_eq (h : IsTight text) : trim text = text := by
  rw [trim, h.trimStart_eq, h.trimEnd_eq]

/-- Only the ends count. -/
theorem append (hfront : IsTight front) (middle : List Char) (hrest : IsTight rest) :
    IsTight (front ++ middle ++ rest) := by
  obtain ⟨c, cs, rfl, hc⟩ := hfront.first
  obtain ⟨ds, d, rfl, hd⟩ := hrest.last
  exact ⟨⟨c, _, rfl, hc⟩, ⟨_, d, (List.append_assoc _ ds [d]).symm, hd⟩⟩

theorem of_ends (hne : text ≠ []) (hfirst : ∀ c ∈ text.head?, isBlank c = false)
    (hlast : ∀ c ∈ text.getLast?, isBlank c = false) : IsTight text where
  first := by
    obtain ⟨c, rest, rfl⟩ := List.exists_cons_of_ne_nil hne
    exact ⟨c, rest, rfl, hfirst c rfl⟩
  last := by
    obtain ⟨front, c, rfl⟩ := (List.eq_nil_or_concat text).resolve_left hne
    exact ⟨front, c, List.concat_eq_append, hlast c (by simp)⟩

theorem of_forall (hne : text ≠ []) (h : ∀ c ∈ text, isBlank c = false) : IsTight text :=
  of_ends hne (fun c hc => h c (List.mem_of_mem_head? hc))
    fun c hc => h c (List.mem_of_getLast? hc)

theorem of_all (hne : text ≠ []) (h : text.all (!isBlank ·) = true) : IsTight text :=
  of_forall hne fun c hc => (Bool.not_eq_true' _).mp (List.all_eq_true.mp h c hc)

/-- What stands between two characters that are not white space. -/
theorem enclosed {c d : Char} (hc : isBlank c = false) (hd : isBlank d = false)
    (text : List Char) : IsTight (c :: (text ++ [d])) :=
  ⟨⟨c, _, rfl, hc⟩, ⟨c :: text, d, rfl, hd⟩⟩

theorem join {sep : List Char} {pieces : List (List Char)} (hne : pieces ≠ [])
    (h : ∀ piece ∈ pieces, IsTight piece) : IsTight (join sep pieces) := by
  induction pieces with
  | nil => exact absurd rfl hne
  | cons piece others ih =>
      obtain ⟨hpiece, hothers⟩ := List.forall_mem_cons.mp h
      cases others with
      | nil => exact hpiece
      | cons second more =>
          rw [join_cons_of_ne_nil sep piece (List.cons_ne_nil second more)]
          exact hpiece.append sep (ih (List.cons_ne_nil second more) hothers)

end IsTight

theorem eq_false_of_dropWhile_eq_cons {p : Char → Bool} {cs rest : List Char} {c : Char}
    (h : cs.dropWhile p = c :: rest) : p c = false := by
  have hhead := List.head?_dropWhile_not p cs
  rw [h] at hhead
  exact hhead

theorem eq_false_of_dropEndWhile_eq_concat {p : Char → Bool} {cs front : List Char} {c : Char}
    (h : dropEndWhile p cs = front ++ [c]) : p c = false := by
  have hback := congrArg List.reverse h
  rw [dropEndWhile, List.reverse_reverse, List.reverse_concat] at hback
  exact eq_false_of_dropWhile_eq_cons hback

theorem isPrefix_trimEnd (cs : List Char) : trimEnd cs <+: cs :=
  List.rdropWhile_prefix isBlank cs

/-- A trimmed text does not start with white space. -/
theorem isBlank_head_trim {cs rest : List Char} {c : Char} (h : trim cs = c :: rest) :
    isBlank c = false := by
  obtain ⟨more, hmore⟩ := isPrefix_trimEnd (trimStart cs)
  rw [← trim, h, List.cons_append] at hmore
  exact eq_false_of_dropWhile_eq_cons hmore.symm

/-- A trimmed text does not end with white space. -/
theorem isBlank_of_getLast?_trim {cs : List Char} {c : Char} (h : (trim cs).getLast? = some c) :
    isBlank c = false := by
  obtain ⟨front, hfront⟩ := List.getLast?_eq_some_iff.mp h
  exact eq_false_of_dropEndWhile_eq_concat hfront

theorem length_trim_le (cs : List Char) : (trim cs).length ≤ (trimStart cs).length :=
  (isPrefix_trimEnd _).length_le

theorem trimStart_trimStart (cs : List Char) : trimStart (trimStart cs) = trimStart cs :=
  List.dropWhile_idempotent ..

/-- Behind a text with another character at its end no white space is removed. -/
theorem trim_concat {c : Char} (h : isBlank c = false) (cs : List Char) :
    trim (cs ++ [c]) = trimStart cs ++ [c] := by
  have hstart : trimStart (cs ++ [c]) = trimStart cs ++ [c] := dropWhile_append_cons h cs []
  rw [trim, hstart, trimEnd, dropEndWhile, List.reverse_concat,
    List.dropWhile_cons_of_neg (by simp [h]), ← List.reverse_concat, List.reverse_reverse]

/-- White space that is added at the end counts for nothing. -/
theorem trim_append_of_blank {tail : List Char} (h : ∀ c ∈ tail, isBlank c = true)
    (text : List Char) : trim (text ++ tail) = trim text := by
  have hstart : trimStart (text ++ tail) =
      if (trimStart text).isEmpty then [] else trimStart text ++ tail := by
    rw [trimStart, List.dropWhile_append, List.dropWhile_eq_nil_iff.mpr h]
    rfl
  rw [trim, trim, hstart]
  split
  · next hempty => rw [List.isEmpty_iff.mp hempty]
  · exact dropEndWhile_append_of_forall h _

/-- White space that is added in front counts for nothing. -/
theorem trim_of_blank_append {front : List Char} (h : ∀ c ∈ front, isBlank c = true)
    (text : List Char) : trim (front ++ text) = trim text := by
  have hstart : trimStart (front ++ text) = trimStart text := List.dropWhile_append_of_pos h
  rw [trim, hstart, trim]

/-- White space is removed only behind the last other character. -/
theorem trimEnd_append_cons {c : Char} (h : isBlank c = false) (front rest : List Char) :
    trimEnd (front ++ c :: rest) = front ++ c :: trimEnd rest :=
  dropEndWhile_append_cons h front rest

theorem trim_append_cons {c : Char} {front : List Char} (hfront : IsTight front)
    (h : isBlank c = false) (rest : List Char) :
    trim (front ++ c :: rest) = front ++ c :: trimEnd rest := by
  obtain ⟨d, ds, rfl, hd⟩ := hfront.first
  have hstart : trimStart (d :: (ds ++ c :: rest)) = d :: (ds ++ c :: rest) :=
    List.dropWhile_cons_of_neg (by simp [hd])
  rw [List.cons_append, trim, hstart]
  exact trimEnd_append_cons h (d :: ds) rest

/-- A trimmed text is empty, or has other characters at both ends. -/
theorem isTight_of_trim_eq {text : List Char} (h : trim text = text) (hne : text ≠ []) :
    IsTight text := by
  apply IsTight.of_ends hne
  · intro c hc
    obtain ⟨rest, rfl⟩ := List.head?_eq_some_iff.mp hc
    exact isBlank_head_trim h
  · intro c hc
    rw [← h] at hc
    exact isBlank_of_getLast?_trim hc

theorem trim_cons_of_isBlank {c : Char} (h : isBlank c = true) (cs : List Char) :
    trim (c :: cs) = trim cs := by
  rw [trim, trimStart, List.dropWhile_cons_of_pos h]
  rfl

theorem trim_cons_of_not_isBlank {c : Char} (h : isBlank c = false) (cs : List Char) :
    trim (c :: cs) = trimEnd (c :: cs) := by
  rw [trim, trimStart, List.dropWhile_cons_of_neg (by simp [h])]

/-- Pieces that are trimmed do not show white space around the text. -/
theorem map_trim_splitOn_of_blank {sep : Char} {front tail : List Char}
    (hfront : ∀ c ∈ front, isBlank c = true) (htail : ∀ c ∈ tail, isBlank c = true)
    (hsep : isBlank sep = false) (cs : List Char) :
    (splitOn sep (front ++ cs ++ tail)).map trim = (splitOn sep cs).map trim := by
  have hne : ∀ {blanks : List Char}, (∀ c ∈ blanks, isBlank c = true) → sep ∉ blanks :=
    fun hblanks hmem => by simp [hblanks sep hmem] at hsep
  induction front with
  | nil =>
      obtain ⟨init, last, hcs, hadded⟩ := exists_splitOn_append (hne htail) cs
      rw [List.nil_append, hadded, hcs, List.map_append, List.map_append, List.map_singleton,
        List.map_singleton, trim_append_of_blank htail]
  | cons c front ih =>
      have hc : c ≠ sep := fun heq => hne hfront (heq ▸ List.mem_cons_self)
      rw [← ih fun d hd => hfront d (List.mem_cons_of_mem c hd), List.cons_append,
        List.cons_append, splitOn, if_neg hc]
      cases hpieces : splitOn sep (front ++ cs ++ tail) with
      | nil => exact absurd hpieces (splitOn_ne_nil _ _)
      | cons piece pieces =>
          rw [growFirst, List.map_cons, List.map_cons,
            trim_cons_of_isBlank (hfront c List.mem_cons_self)]

theorem trim_indent (n : Nat) (text : List Char) :
    trim (List.replicate n ' ' ++ text) = trim text := by
  refine trim_of_blank_append (fun c hc => ?_) text
  rw [List.eq_of_mem_replicate hc]
  decide

end ApiDoc.Text
