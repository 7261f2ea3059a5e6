import ApiDoc.Proofs.Text.Nesting

/-!
# Spacing at separators

A text is cut at its separators, the white space around the pieces is left out, and they are
put together again with one space behind each separator.  Brackets and strings stay as they
are, so the new text has the new pieces, and it is the old text exactly if that has this
spacing already.
-/

namespace ApiDoc.Text

variable {sep : Char} {text front rest piece first : List Char}
  {pieces : List (List Char)}

/-! ## White space and what is open -/

/-- White space opens and closes nothing. -/
theorem isNeutral_of_isBlank {c : Char} (h : isBlank c = true) : IsNeutral c :=
  isNeutral_of (by decide) h

theorem Scan.run_of_neutral (h : ∀ c ∈ text, IsNeutral c) : start.run text = start := by
  induction text with
  | nil => rfl
  | cons c cs ih =>
      obtain ⟨hc, hcs⟩ := List.forall_mem_cons.mp h
      have hnext : start.next c = start := next_of_neutral hc
      rw [run_cons, hnext, ih hcs]

theorem Scan.eq_start_of_next {s : Scan} {c : Char} (hc : IsNeutral c) (h : s.next c = .start) :
    s = .start := by
  obtain ⟨q, depth⟩ := s
  have hquoting : q.next c = .outside := congrArg Scan.quoting h
  cases q with
  | outside => rwa [next_of_neutral hc] at h
  | inside =>
      rw [Quoting.next, if_neg hc.1] at hquoting
      split at hquoting <;> cases hquoting
  | escaped => cases hquoting

theorem Scan.eq_start_of_run {s : Scan} (hneutral : ∀ c ∈ text, IsNeutral c)
    (h : s.run text = .start) : s = .start := by
  induction text generalizing s with
  | nil => exact h
  | cons c cs ih =>
      obtain ⟨hc, hcs⟩ := List.forall_mem_cons.mp hneutral
      exact eq_start_of_next hc (ih hcs h)

namespace IsWhole

theorem of_append_neutral (h : IsWhole sep (front ++ rest))
    (hneutral : ∀ c ∈ rest, IsNeutral c) : IsWhole sep front := by
  refine ⟨?_, (Scan.whole_append_iff.mp h.whole).1⟩
  have hrun := h.run
  rw [Scan.run_append] at hrun
  exact Scan.eq_start_of_run hneutral hrun

theorem of_neutral_append (h : IsWhole sep (front ++ rest))
    (hneutral : ∀ c ∈ front, IsNeutral c) : IsWhole sep rest := by
  have hfront : Scan.start.run front = .start := Scan.run_of_neutral hneutral
  have hrun := h.run
  have hwhole := (Scan.whole_append_iff.mp h.whole).2
  rw [Scan.run_append, hfront] at hrun
  rw [hfront] at hwhole
  exact ⟨hrun, hwhole⟩

theorem trimEnd (h : IsWhole sep text) : IsWhole sep (trimEnd text) := by
  have hcut : Text.trimEnd text ++ text.rtakeWhile isBlank = text :=
    List.rdropWhile_append_rtakeWhile
  rw [← hcut] at h
  exact h.of_append_neutral fun c hc => isNeutral_of_isBlank (List.mem_rtakeWhile_imp hc)

theorem trim (h : IsWhole sep text) : IsWhole sep (trim text) := by
  have hcut : text.takeWhile isBlank ++ trimStart text = text := List.takeWhile_append_dropWhile
  rw [← hcut] at h
  exact (h.of_neutral_append fun c hc =>
    isNeutral_of_isBlank (List.mem_takeWhile_imp hc)).trimEnd

end IsWhole

/-- If nothing is open behind a text, nothing is open behind any of its pieces. -/
theorem Scan.isWhole_of_cut (hsep : IsNeutral sep) {s : Scan} (h : s.run text = .start) :
    ∃ first rest, cut sep s text = first :: rest ∧ s.run first = .start ∧
      Whole sep s first ∧ ∀ piece ∈ rest, IsWhole sep piece := by
  induction text generalizing s with
  | nil => exact ⟨[], [], rfl, h, trivial, List.forall_mem_nil _⟩
  | cons c cs ih =>
      rw [cut_cons hsep]
      by_cases hcut : s = start ∧ c = sep
      · obtain ⟨rfl, rfl⟩ := hcut
        have hnext : start.next c = start := next_of_neutral hsep
        rw [run_cons, hnext] at h
        obtain ⟨first, rest, hpieces, hrun, hwhole, hrest⟩ := ih h
        refine ⟨[], splitTop c cs, if_pos ⟨rfl, rfl⟩, rfl, trivial, ?_⟩
        have hsame : splitTop c cs = first :: rest := hpieces
        rw [hsame]
        exact List.forall_mem_cons.mpr ⟨⟨hrun, hwhole⟩, hrest⟩
      · obtain ⟨first, rest, hpieces, hrun, hwhole, hrest⟩ := ih h
        rw [if_neg hcut, hpieces]
        exact ⟨c :: first, rest, rfl, hrun, ⟨hcut, hwhole⟩, hrest⟩

theorem isWhole_of_mem_splitTop (hsep : IsNeutral sep) (h : Scan.start.run text = .start) :
    ∀ piece ∈ splitTop sep text, IsWhole sep piece := by
  obtain ⟨first, rest, hpieces, hrun, hwhole, hrest⟩ := Scan.isWhole_of_cut hsep h
  have hsame : splitTop sep text = first :: rest := hpieces
  rw [hsame]
  exact List.forall_mem_cons.mpr ⟨⟨hrun, hwhole⟩, hrest⟩

/-- What stands in front of a text goes to its first piece. -/
theorem splitTop_append_first (hsep : IsNeutral sep) (h : IsWhole sep front)
    (hpieces : splitTop sep text = first :: pieces) :
    splitTop sep (front ++ text) = (front ++ first) :: pieces := by
  rw [splitTop_append hsep h, hpieces, foldr_growFirst]

/-! ## One space behind each separator -/

/-- A piece behind a separator: one space and what is left without white space around it, or
nothing. -/
def respace (piece : List Char) : List Char :=
  if trim piece = [] then [] else ' ' :: trim piece

/-- A text with no white space in front of its separators, and one space behind them. -/
def respaced (sep : Char) (text : List Char) : List Char :=
  match splitTop sep text with
  | first :: rest => join [sep] (trimEnd first :: rest.map respace)
  | [] => []

/-- In front of the separators of a text stands no white space, and behind each one a space
with more text, or the next separator, or nothing. -/
def IsSpaced (sep : Char) (text : List Char) : Prop :=
  ∃ first rest, splitTop sep text = first :: rest ∧ (∀ c ∈ first.getLast?, isBlank c = false) ∧
    ∀ piece ∈ rest, piece = [] ∨ ∃ words, piece = ' ' :: words ∧ IsTight words

theorem trimEnd_eq_self_iff :
    trimEnd text = text ↔ ∀ c ∈ text.getLast?, isBlank c = false := by
  refine List.rdropWhile_eq_self_iff.trans ?_
  cases text with
  | nil => simp
  | cons c cs => simp [List.getLast?_eq_some_getLast (List.cons_ne_nil c cs)]

theorem respace_eq_self_iff :
    respace piece = piece ↔ piece = [] ∨ ∃ words, piece = ' ' :: words ∧ IsTight words := by
  constructor
  · intro h
    rw [respace] at h
    split at h
    · exact .inl h.symm
    · next hne =>
        have htrim : trim (trim piece) = trim piece := by
          rw [← trim_cons_of_isBlank (c := ' ') (by decide), h]
        exact .inr ⟨trim piece, h.symm, isTight_of_trim_eq htrim hne⟩
  · rintro (rfl | ⟨words, rfl, htight⟩)
    · rfl
    · rw [respace, trim_cons_of_isBlank (by decide), htight.trim_eq, if_neg htight.ne_nil]

theorem IsWhole.respace (h : IsWhole sep piece) (hne : sep ≠ ' ') :
    IsWhole sep (Text.respace piece) := by
  rw [Text.respace]
  split
  · exact ⟨rfl, trivial⟩
  · exact (of_char (by decide) (Ne.symm hne)).append h.trim

/-- A text has the pieces that it is put together from. -/
theorem splitTop_respaced (hsep : IsNeutral sep) (hne : sep ≠ ' ')
    (h : Scan.start.run text = .start) (hpieces : splitTop sep text = first :: pieces) :
    splitTop sep (respaced sep text) = trimEnd first :: pieces.map respace := by
  have hwhole := isWhole_of_mem_splitTop hsep h
  rw [hpieces] at hwhole
  obtain ⟨hfirst, hrest⟩ := List.forall_mem_cons.mp hwhole
  rw [respaced, hpieces]
  refine splitTop_join_sep hsep (List.cons_ne_nil _ _) ?_
  refine List.forall_mem_cons.mpr ⟨hfirst.trimEnd, fun other hother => ?_⟩
  obtain ⟨piece, hpiece, rfl⟩ := List.mem_map.mp hother
  exact (hrest piece hpiece).respace hne

/-- A text stays as it is exactly if it is spaced like that already. -/
theorem respaced_eq_self_iff (hsep : IsNeutral sep) (hne : sep ≠ ' ')
    (h : Scan.start.run text = .start) : respaced sep text = text ↔ IsSpaced sep text := by
  obtain ⟨first, rest, hpieces, htext⟩ := exists_splitTop sep text
  constructor
  · intro hsame
    have hcut := splitTop_respaced hsep hne h hpieces
    rw [hsame, hpieces] at hcut
    obtain ⟨hfirst, hrest⟩ := List.cons.inj hcut
    refine ⟨first, rest, hpieces, trimEnd_eq_self_iff.mp hfirst.symm, fun piece hpiece => ?_⟩
    have hsame := List.map_inj_left.mp (hrest.symm.trans (List.map_id rest).symm) piece hpiece
    exact respace_eq_self_iff.mp hsame
  · rintro ⟨_, _, hcut, hfirst, hrest⟩
    obtain ⟨rfl, rfl⟩ := List.cons.inj (hpieces.symm.trans hcut)
    have hmap : rest.map respace = rest := by
      refine (List.map_inj_left.mpr fun piece hpiece => ?_).trans (List.map_id rest)
      exact respace_eq_self_iff.mpr (hrest piece hpiece)
    rw [respaced, hpieces]
    dsimp only
    rw [trimEnd_eq_self_iff.mpr hfirst, hmap]
    exact htext.symm

/-! ## What the new spacing keeps -/

theorem join_cons_eq (sep : Char) (first : List Char) (rest : List (List Char)) :
    join [sep] (first :: rest) = first ++ rest.flatMap (sep :: ·) := by
  induction rest generalizing first with
  | nil => exact (List.append_nil first).symm
  | cons second more ih =>
      rw [join_cons_of_ne_nil _ _ (List.cons_ne_nil _ _), ih, List.flatMap_cons, List.append_assoc]
      rfl

theorem respaced_eq (hpieces : splitTop sep text = first :: pieces) :
    respaced sep text = trimEnd first ++ pieces.flatMap fun piece => sep :: respace piece := by
  rw [respaced, hpieces]
  dsimp only
  rw [join_cons_eq, List.flatMap_map]

theorem head?_trimEnd (h : ∀ c ∈ text.head?, isBlank c = false) :
    (trimEnd text).head? = text.head? := by
  cases text with
  | nil => rfl
  | cons c cs =>
      have hkept : trimEnd (c :: cs) = c :: trimEnd cs := trimEnd_append_cons (h c rfl) [] cs
      rw [hkept]
      rfl

theorem trimEnd_cons_of_isBlank {c : Char} (hc : isBlank c = true) (cs : List Char) :
    trimEnd (c :: cs) = if trimEnd cs = [] then [] else c :: trimEnd cs := by
  have hback : ∀ cs, trimEnd cs = (cs.reverse.dropWhile isBlank).reverse := fun _ => rfl
  have hone : [c].dropWhile isBlank = [] := List.dropWhile_cons_of_pos hc
  rw [hback, hback, List.reverse_cons, List.dropWhile_append, hone]
  split
  · next hempty =>
      rw [List.isEmpty_iff.mp hempty]
      rfl
  · next hkept => rw [List.reverse_concat, if_neg (by simpa using hkept)]

theorem getLast?_respace (h : ∀ c ∈ piece.getLast?, isBlank c = false) :
    (respace piece).getLast? = piece.getLast? := by
  rcases List.eq_nil_or_concat piece with rfl | ⟨front, c, rfl⟩
  · rfl
  · rw [List.concat_eq_append] at h ⊢
    rw [List.getLast?_concat] at h ⊢
    rw [respace, trim_concat (h c rfl), if_neg (by simp), ← List.cons_append,
      List.getLast?_concat]

section Trimmed

variable (htrim : trim text = text)

include htrim in
theorem isBlank_of_head? : ∀ c ∈ text.head?, isBlank c = false := by
  intro c hc
  obtain ⟨rest, rfl⟩ := List.head?_eq_some_iff.mp hc
  exact isBlank_head_trim htrim

include htrim in
theorem isBlank_of_getLast? : ∀ c ∈ text.getLast?, isBlank c = false := by
  intro c hc
  rw [← htrim] at hc
  exact isBlank_of_getLast?_trim hc

include htrim in
theorem head?_respaced : (respaced sep text).head? = text.head? := by
  obtain ⟨first, rest, hpieces, htext⟩ := exists_splitTop sep text
  rw [join_cons_eq] at htext
  have hfirst : ∀ c ∈ first.head?, isBlank c = false := by
    intro c hc
    apply isBlank_of_head? htrim
    rw [htext, List.head?_append, hc]
    rfl
  rw [respaced_eq hpieces]
  conv_rhs => rw [htext]
  rw [List.head?_append, List.head?_append, head?_trimEnd hfirst]
  cases rest <;> rfl

include htrim in
theorem getLast?_respaced : (respaced sep text).getLast? = text.getLast? := by
  have hlast := isBlank_of_getLast? htrim
  obtain ⟨first, rest, hpieces, htext⟩ := exists_splitTop sep text
  rw [join_cons_eq] at htext
  rw [respaced_eq hpieces]
  rcases List.eq_nil_or_concat rest with rfl | ⟨front, piece, rfl⟩
  · rw [List.flatMap_nil, List.append_nil] at htext ⊢
    rw [← htext, trimEnd_eq_self_iff.mpr hlast]
  · have hend : ∀ before piece : List Char,
        (before ++ sep :: piece).getLast? = some (piece.getLast?.getD sep) := by
      intro before piece
      rw [List.getLast?_append, List.getLast?_cons]
      rfl
    rw [List.concat_eq_append, List.flatMap_append, List.flatMap_singleton,
      ← List.append_assoc] at htext
    rw [List.concat_eq_append, List.flatMap_append, List.flatMap_singleton, ← List.append_assoc,
      hend, htext, hend, getLast?_respace]
    intro c hc
    apply hlast
    rw [htext, hend, Option.mem_def.mp hc]
    rfl

include htrim in
/-- No white space comes to the ends. -/
theorem trim_respaced : trim (respaced sep text) = respaced sep text := by
  by_cases hnil : text = []
  · subst hnil
    rfl
  · have hhead : (respaced sep text).head? = text.head? := head?_respaced htrim
    have hlast : (respaced sep text).getLast? = text.getLast? := getLast?_respaced htrim
    have hne : respaced sep text ≠ [] := by
      intro hempty
      rw [hempty] at hhead
      exact hnil (List.head?_eq_none_iff.mp hhead.symm)
    apply IsTight.trim_eq
    apply IsTight.of_ends hne
    · rw [hhead]
      exact isBlank_of_head? htrim
    · rw [hlast]
      exact isBlank_of_getLast? htrim

include htrim in
/-- A text without separators is the same, and the others keep one. -/
theorem respaced_eq_or_mem : respaced sep text = text ∨ sep ∈ respaced sep text := by
  obtain ⟨first, rest, hpieces, htext⟩ := exists_splitTop sep text
  rw [respaced_eq hpieces]
  cases rest with
  | nil =>
      obtain rfl : text = first := htext
      rw [List.flatMap_nil, List.append_nil]
      exact .inl (trimEnd_eq_self_iff.mpr (isBlank_of_getLast? htrim))
  | cons piece more => exact .inr (by simp)

include htrim in
theorem trimEnd_cons_space : trimEnd (' ' :: text) = respace text := by
  have hend : trimEnd text = text := trimEnd_eq_self_iff.mpr (isBlank_of_getLast? htrim)
  rw [trimEnd_cons_of_isBlank (by decide), respace, hend, htrim]

include htrim in
/-- A space in front of the text goes to the first piece. -/
theorem splitTop_respace (hsep : IsNeutral sep) (hne : sep ≠ ' ')
    (hpieces : splitTop sep text = first :: pieces) :
    ∃ front, splitTop sep (respace text) = front :: pieces ∧
      (trimEnd front = trimEnd first ∨ trimEnd front = ' ' :: trimEnd first) := by
  rw [respace, htrim]
  split
  · next hnil => exact ⟨first, hnil ▸ hpieces, .inl rfl⟩
  · have hspace : IsWhole sep [' '] := .of_char (by decide) (Ne.symm hne)
    refine ⟨' ' :: first, splitTop_append_first hsep hspace hpieces, ?_⟩
    rw [trimEnd_cons_of_isBlank (by decide)]
    split
    · next hnil => exact .inl hnil.symm
    · exact .inr rfl

include htrim in
/-- A space in front of the text plays no part. -/
theorem trim_respaced_respace (hsep : IsNeutral sep) (hne : sep ≠ ' ') :
    trim (respaced sep (respace text)) = respaced sep text := by
  obtain ⟨first, rest, hpieces, -⟩ := exists_splitTop sep text
  obtain ⟨front, hfront, hend⟩ := splitTop_respace htrim hsep hne hpieces
  have hsame : trim (respaced sep text) = respaced sep text := trim_respaced htrim
  rw [respaced_eq hpieces] at hsame
  rw [respaced_eq hfront, respaced_eq hpieces]
  rcases hend with hend | hend
  · rw [hend, hsame]
  · rw [hend, List.cons_append, trim_cons_of_isBlank (by decide), hsame]

end Trimmed

end ApiDoc.Text
