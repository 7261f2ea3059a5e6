import ApiDoc.Proofs.Text.Nesting

/-!
# Where a text is cut

The pieces of `splitTop` give the text back when they are joined, and a separator is left out
exactly if the text in front of it closes its strings and opens as many brackets outside them as
it closes there.  What stands outside strings is said by a grammar of the text: single characters
without quotes, and strings in which a quote stands only behind a backslash.  A scan that ends
outside strings has read such a text, and its depth counts the brackets of that grammar.
-/

namespace ApiDoc.Text

variable {sep : Char} {text front rest bare : List Char} {before after : List (List Char)}

/-! ## Texts with closed strings -/

/-- What may stand between the quotes of a string: a quote only behind a backslash, and a
backslash only in front of a character. -/
inductive IsStringBody : List Char → Prop
  | nil : IsStringBody []
  | cons {c : Char} {body : List Char} (hquote : c ≠ '"') (hescape : c ≠ '\\')
      (next : IsStringBody body) : IsStringBody (c :: body)
  | escaped (c : Char) {body : List Char} (next : IsStringBody body) :
      IsStringBody ('\\' :: c :: body)

/-- A text in which every string is closed, with the characters that stand outside strings. -/
inductive Unquoted : List Char → List Char → Prop
  | nil : Unquoted [] []
  | cons {c : Char} {text bare : List Char} (hquote : c ≠ '"') (next : Unquoted text bare) :
      Unquoted (c :: text) (c :: bare)
  | string {body text bare : List Char} (hbody : IsStringBody body) (next : Unquoted text bare) :
      Unquoted ('"' :: (body ++ '"' :: text)) bare

/-- Outside its strings, all of them closed, the text opens as many brackets as it closes. -/
def IsLevel (text : List Char) : Prop :=
  ∃ bare, Unquoted text bare ∧ bare.countP isOpening = bare.countP isClosing

/-! ## The depth counts brackets -/

theorem isClosing_eq_false_of_isOpening {c : Char} (h : isOpening c = true) :
    isClosing c = false := by
  simp only [isOpening, Bool.or_eq_true, decide_eq_true_eq] at h
  rcases h with (rfl | rfl) | rfl <;> rfl

theorem depthAfter_eq (depth : Int) (c : Char) :
    depthAfter depth c = depth + [c].countP isOpening - [c].countP isClosing := by
  rw [depthAfter]
  by_cases hopening : isOpening c = true
  · simp [hopening, isClosing_eq_false_of_isOpening hopening]
  · by_cases hclosing : isClosing c = true <;> simp [hopening, hclosing]

theorem foldl_depthAfter (depth : Int) (bare : List Char) :
    bare.foldl depthAfter depth = depth + bare.countP isOpening - bare.countP isClosing := by
  induction bare generalizing depth with
  | nil => simp
  | cons c cs ih =>
      have hcons : ∀ p : Char → Bool, (c :: cs).countP p = [c].countP p + cs.countP p :=
        fun p => by rw [← List.singleton_append, List.countP_append]
      rw [List.foldl_cons, ih, depthAfter_eq, hcons, hcons]
      omega

theorem Scan.natAbs_depth_next_le (s : Scan) (c : Char) :
    (s.next c).depth.natAbs ≤ s.depth.natAbs + 1 := by
  rw [next]
  dsimp only
  split
  · rw [depthAfter]
    split
    · omega
    · split <;> omega
  · omega

/-- The depth does not go beyond the number of characters, so 32 bits hold it in every text of
fewer than `2 ^ 31` characters. -/
theorem Scan.natAbs_depth_run_le (s : Scan) (text : List Char) :
    (s.run text).depth.natAbs ≤ s.depth.natAbs + text.length := by
  induction text generalizing s with
  | nil => exact Nat.le_refl _
  | cons c cs ih =>
      have hstep := natAbs_depth_next_le s c
      have hrest := ih (s.next c)
      rw [run_cons, List.length_cons]
      omega

/-- A scan stays inside a string up to the quote that closes it. -/
theorem IsStringBody.run (h : IsStringBody text) (depth : Int) :
    Scan.run ⟨.inside, depth⟩ text = ⟨.inside, depth⟩ := by
  induction h with
  | nil => rfl
  | cons hquote hescape next ih =>
      rw [Scan.run_cons, Scan.next, Quoting.next, if_neg hescape, if_neg hquote]
      exact ih
  | escaped c next ih => exact ih

/-- A scan leaves a text with closed strings as it leaves the characters outside of them. -/
theorem Unquoted.run (h : Unquoted text bare) (depth : Int) :
    Scan.run ⟨.outside, depth⟩ text = ⟨.outside, bare.foldl depthAfter depth⟩ := by
  induction h generalizing depth with
  | nil => rfl
  | cons hquote next ih =>
      rw [Scan.run_cons, Scan.next, Quoting.next, if_neg hquote]
      exact ih _
  | string hbody next ih =>
      have hopen : Scan.next ⟨.outside, depth⟩ '"' = ⟨.inside, depth⟩ := rfl
      have hclose : Scan.next ⟨.inside, depth⟩ '"' = ⟨.outside, depth⟩ := rfl
      rw [Scan.run_cons, hopen, Scan.run_append, hbody.run, Scan.run_cons, hclose, ih]

/-! ## Scans that end outside strings -/

/-- What a text has to be, at each place of a string, for its strings to be closed. -/
def ClosesFrom : Quoting → List Char → List Char → Prop
  | .outside, text, bare => Unquoted text bare
  | .inside, text, bare =>
      ∃ body rest, text = body ++ '"' :: rest ∧ IsStringBody body ∧ Unquoted rest bare
  | .escaped, text, bare =>
      ∃ c body rest, text = c :: (body ++ '"' :: rest) ∧ IsStringBody body ∧ Unquoted rest bare

/-- One more character in front of a text that closes its strings. -/
theorem ClosesFrom.cons {q : Quoting} {c : Char} (h : ClosesFrom (q.next c) text bare) :
    ∃ other, ClosesFrom q (c :: text) other := by
  cases q with
  | outside =>
      rw [Quoting.next] at h
      by_cases hquote : c = '"'
      · rw [if_pos hquote] at h
        obtain ⟨body, rest, rfl, hbody, hrest⟩ := h
        subst hquote
        exact ⟨bare, hrest.string hbody⟩
      · rw [if_neg hquote] at h
        exact ⟨c :: bare, Unquoted.cons hquote h⟩
  | inside =>
      rw [Quoting.next] at h
      by_cases hescape : c = '\\'
      · rw [if_pos hescape] at h
        obtain ⟨d, body, rest, rfl, hbody, hrest⟩ := h
        subst hescape
        exact ⟨bare, '\\' :: d :: body, rest, rfl, hbody.escaped d, hrest⟩
      · rw [if_neg hescape] at h
        by_cases hquote : c = '"'
        · rw [if_pos hquote] at h
          subst hquote
          exact ⟨bare, [], text, rfl, .nil, h⟩
        · rw [if_neg hquote] at h
          obtain ⟨body, rest, rfl, hbody, hrest⟩ := h
          exact ⟨bare, c :: body, rest, rfl, .cons hquote hescape hbody, hrest⟩
  | escaped =>
      obtain ⟨body, rest, rfl, hbody, hrest⟩ := h
      exact ⟨bare, c, body, rest, rfl, hbody, hrest⟩

/-- A scan that ends outside strings has read a text that closes its strings. -/
theorem exists_closesFrom_of_run {s : Scan} (h : (s.run text).quoting = .outside) :
    ∃ bare, ClosesFrom s.quoting text bare := by
  induction text generalizing s with
  | nil =>
      have hs : s.quoting = .outside := h
      rw [hs]
      exact ⟨[], .nil⟩
  | cons c cs ih =>
      obtain ⟨bare, hbare⟩ := ih h
      exact hbare.cons

/-- Behind closed strings, nothing is open if the brackets outside them open as often as they
close. -/
theorem Unquoted.run_eq_start_iff (h : Unquoted text bare) :
    Scan.start.run text = .start ↔ bare.countP isOpening = bare.countP isClosing := by
  have hrun : Scan.start.run text = ⟨.outside, bare.foldl depthAfter 0⟩ := h.run 0
  rw [hrun, foldl_depthAfter, Scan.start, Scan.mk.injEq]
  constructor
  · rintro ⟨-, hzero⟩
    omega
  · intro hcount
    exact ⟨rfl, by omega⟩

/-- Nothing is open behind exactly the level texts. -/
theorem Scan.run_eq_start_iff : Scan.start.run text = .start ↔ IsLevel text := by
  constructor
  · intro h
    obtain ⟨bare, hbare⟩ := exists_closesFrom_of_run (congrArg Scan.quoting h)
    exact ⟨bare, hbare, (Unquoted.run_eq_start_iff hbare).mp h⟩
  · rintro ⟨bare, hbare, hcount⟩
    exact (Unquoted.run_eq_start_iff hbare).mpr hcount

instance : DecidablePred IsLevel := fun _ => decidable_of_iff _ Scan.run_eq_start_iff

/-! ## Cuts -/

/-- Some pieces make up the text in front of a separator, and the others the text behind it. -/
def CutAt (sep : Char) (pieces : List (List Char)) (front rest : List Char) : Prop :=
  ∃ before after, before ≠ [] ∧ after ≠ [] ∧ pieces = before ++ after ∧
    join [sep] before = front ∧ join [sep] after = rest

/-- Behind the first pieces, unless they are all, nothing is open. -/
theorem Scan.run_join_of_cut (hsep : IsNeutral sep) {s : Scan}
    (h : cut sep s text = before ++ after) (hbefore : before ≠ []) (hafter : after ≠ []) :
    s.run (join [sep] before) = start := by
  induction text generalizing s before with
  | nil =>
      have hlength := congrArg List.length h
      have hone := List.length_pos_of_ne_nil hbefore
      have hmore := List.length_pos_of_ne_nil hafter
      rw [List.length_append, show (cut sep s []).length = 1 from rfl] at hlength
      omega
  | cons c cs ih =>
      obtain ⟨piece, others, rfl⟩ := List.exists_cons_of_ne_nil hbefore
      rw [cut_cons hsep, List.cons_append] at h
      split at h
      · next hcut =>
          obtain ⟨rfl, rfl⟩ := hcut
          obtain ⟨rfl, hothers⟩ := List.cons.inj h
          cases others with
          | nil => rfl
          | cons second more =>
              have hnext : start.next c = start := next_of_neutral hsep
              rw [join_cons_of_ne_nil _ _ (List.cons_ne_nil second more), List.nil_append,
                List.singleton_append, run_cons, hnext]
              exact ih hothers (List.cons_ne_nil second more)
      · obtain ⟨first, tail, hpieces⟩ := exists_cut sep (s.next c) cs
        rw [hpieces] at h
        obtain ⟨rfl, rfl⟩ := List.cons.inj h
        have hgrown : join [sep] ((c :: first) :: others) = c :: join [sep] (first :: others) :=
          join_growFirst [sep] c (List.cons_ne_nil first others)
        rw [hgrown, run_cons]
        exact ih hpieces (List.cons_ne_nil first others)

/-- A separator behind a level text cuts. -/
theorem splitTop_append_sep (hsep : IsNeutral sep) (h : IsLevel front) (rest : List Char) :
    splitTop sep (front ++ sep :: rest) = splitTop sep front ++ splitTop sep rest :=
  Scan.cut_append_sep hsep (Scan.run_eq_start_iff.mpr h) rest

/-- The pieces give the text back, and the separators at which it is cut are those behind level
texts. -/
theorem splitTop_cuts (hsep : IsNeutral sep) (text : List Char) :
    join [sep] (splitTop sep text) = text ∧
      ∀ front rest, text = front ++ sep :: rest →
        (CutAt sep (splitTop sep text) front rest ↔ IsLevel front) := by
  refine ⟨join_splitTopFrom sep .outside 0 text, ?_⟩
  rintro front rest rfl
  constructor
  · rintro ⟨before, after, hbefore, hafter, hpieces, rfl, -⟩
    exact Scan.run_eq_start_iff.mp (Scan.run_join_of_cut hsep hpieces hbefore hafter)
  · intro hlevel
    exact ⟨splitTop sep front, splitTop sep rest, splitTopFrom_ne_nil sep _ _ front,
      splitTopFrom_ne_nil sep _ _ rest, splitTop_append_sep hsep hlevel rest,
      join_splitTopFrom sep .outside 0 front, join_splitTopFrom sep .outside 0 rest⟩

/-- The comma behind a string with a quote and a comma in it cuts; the comma in the string does
not, and neither does the one in brackets. -/
theorem splitTop_cuts_entries :
    IsNeutral ',' ∧
      CutAt ',' (splitTop ',' "[a,b]\"c,\\\"d\",e".toList) "[a,b]\"c,\\\"d\"".toList "e".toList ∧
      ¬ CutAt ',' (splitTop ',' "[a,b]\"c,\\\"d\",e".toList) "[a,b]\"c".toList
        "\\\"d\",e".toList ∧
      ¬ CutAt ',' (splitTop ',' "[a,b]\"c,\\\"d\",e".toList) "[a".toList
        "b]\"c,\\\"d\",e".toList := by
  have hcomma : IsNeutral ',' := by decide
  have hcuts := (splitTop_cuts hcomma "[a,b]\"c,\\\"d\",e".toList).2
  refine ⟨hcomma, (hcuts _ _ (by decide)).mpr (by decide), ?_, ?_⟩
  · exact mt (hcuts _ _ (by decide)).mp (by decide)
  · exact mt (hcuts _ _ (by decide)).mp (by decide)

end ApiDoc.Text
