import ApiDoc.Proofs.Text
import ApiDoc.Source.Literal

/-!
# What is written in a text literal

A text literal has its value between quotes, as it is or with escapes.  A reader who looks
for quotes only sees the text between the first two of them.  A comma that it sees there is a
comma of the value, because no escape is written with one.
-/

namespace ApiDoc.Source

/-- The text between the first two quotes. -/
def betweenQuotes (cs : List Char) : List Char :=
  (cs.dropWhile (· ≠ '"')).tail.takeWhile (· ≠ '"')

variable {q : Quoting} {cs rest value : List Char} {c : Char}

/-! ## Escapes -/

/-- What is left of a text behind characters that are neither commas nor quotes. -/
inductive Skips : List Char → List Char → Prop
  | refl (cs : List Char) : Skips cs cs
  | cons {c : Char} {cs rest : List Char} (hc : c ≠ ',' ∧ c ≠ '"') (h : Skips cs rest) :
      Skips (c :: cs) rest

theorem ne_of_hexValue? {digit : Nat} (h : hexValue? c = some digit) : c ≠ ',' ∧ c ≠ '"' := by
  have hcomma : hexValue? ',' = none := by decide
  have hquote : hexValue? '"' = none := by decide
  constructor
  · rintro rfl
    simp [hcomma] at h
  · rintro rfl
    simp [hquote] at h

theorem skips_of_scalarNumber? {count value number : Nat}
    (h : scalarNumber? count value cs = some (number, rest)) : Skips cs rest := by
  fun_induction scalarNumber? count value cs with
  | case1 => cases h
  | case2 count value c cs hc ih =>
      obtain rfl : c = '_' := by simp_all
      exact (ih h).cons (by decide)
  | case3 count value c cs _ hc =>
      obtain ⟨-, rfl⟩ := Prod.mk.inj (Option.some.inj h)
      obtain rfl : c = '\x7d' := by simp_all
      exact (Skips.refl _).cons (by decide)
  | case4 => cases h
  | case5 count value c cs _ _ digit hdigit _ ih => exact (ih h).cons (ne_of_hexValue? hdigit)
  | case6 => cases h

/-- An escape is a quote, or has neither a quote nor a comma. -/
theorem skips_of_escaped? (h : escaped? q cs = some (c, rest)) :
    cs = '"' :: rest ∨ Skips cs rest := by
  have hallowed : ∀ {d : Char} {left : List Char},
      (if (decide (d.toNat = 0) && !q.zero) = true then none else some (d, left)) =
        some (c, rest) → left = rest := by
    intro d left hd
    split at hd
    · cases hd
    · exact (Prod.mk.inj (Option.some.inj hd)).2
  unfold escaped? at h
  dsimp only at h
  split at h
  case h_6 =>
    obtain ⟨-, rfl⟩ := Prod.mk.inj (Option.some.inj h)
    exact .inl rfl
  case h_7 =>
    obtain rfl := hallowed h
    exact .inr ((Skips.refl _).cons (by decide))
  case h_8 =>
    split at h
    · next high low hhigh hlow =>
        split at h
        · obtain rfl := hallowed h
          exact .inr ((((Skips.refl _).cons (ne_of_hexValue? hlow)).cons
            (ne_of_hexValue? hhigh)).cons (by decide))
        · cases h
    · cases h
  case h_9 =>
    split at h
    · next number left hnumber =>
        split at h
        · obtain rfl := hallowed h
          exact .inr (((skips_of_scalarNumber? hnumber).cons (by decide)).cons (by decide))
        · cases h
    · cases h
  case h_10 => cases h
  -- A letter or a mark that stands for one character.
  all_goals
    obtain ⟨-, rfl⟩ := Prod.mk.inj (Option.some.inj h)
    exact .inr ((Skips.refl _).cons (by decide))

theorem skips_of_continuation? (h : continuation? cs = some rest) : Skips cs rest := by
  fun_induction continuation? cs with
  | case1 cs ih => exact ((ih h).cons (by decide)).cons (by decide)
  | case2 => cases h
  | case3 cs ih => exact (ih h).cons (by decide)
  | case4 cs ih => exact (ih h).cons (by decide)
  | case5 cs ih => exact (ih h).cons (by decide)
  | case6 => cases h
  | case7 cs =>
      obtain rfl := Option.some.inj h
      exact .refl cs

/-! ## Texts that are closed by a quote -/

/-- A quote closes the text, and the commas in front of it are commas of the value. -/
structure ClosedWith (cs value : List Char) : Prop where
  closed : '"' ∈ cs
  commas : ',' ∈ cs.takeWhile (· ≠ '"') → ',' ∈ value

namespace ClosedWith

theorem quote (rest value : List Char) : ClosedWith ('"' :: rest) value where
  closed := List.mem_cons_self
  commas hcomma := by simp at hcomma

theorem mono {more : List Char} (h : ClosedWith cs value) (hsub : value ⊆ more) :
    ClosedWith cs more :=
  ⟨h.closed, fun hcomma => hsub (h.commas hcomma)⟩

/-- A character that stands for itself. -/
theorem cons (h : ClosedWith cs value) (c : Char) : ClosedWith (c :: cs) (c :: value) where
  closed := List.mem_cons_of_mem _ h.closed
  commas hcomma := by
    by_cases hc : c = '"'
    · simp [hc] at hcomma
    · rw [List.takeWhile_cons_of_pos (by simpa using hc), List.mem_cons] at hcomma
      exact List.mem_cons.mpr (hcomma.imp_right h.commas)

theorem skips (h : ClosedWith rest value) (hskips : Skips cs rest) : ClosedWith cs value := by
  induction hskips with
  | refl => exact h
  | @cons c cs rest hc _ ih =>
      refine ⟨List.mem_cons_of_mem _ (ih h).closed, fun hcomma => ?_⟩
      rw [List.takeWhile_cons_of_pos (by simpa using hc.2), List.mem_cons] at hcomma
      exact (ih h).commas (hcomma.resolve_left hc.1.symm)

end ClosedWith

/-- A quoted text is closed by a quote. -/
theorem closedWith_of_quoted? {fuel : Nat} (h : quoted? q fuel cs = some (value, rest)) :
    ClosedWith cs value := by
  have hmore : ∀ {fuel : Nat} {c : Char} {left value : List Char},
      (quoted? q fuel left).map (fun found => (c :: found.1, found.2)) = some (value, rest) →
        ∃ inside, quoted? q fuel left = some (inside, rest) ∧ value = c :: inside := by
    intro fuel c left value hmap
    obtain ⟨⟨inside, after⟩, hinside, heq⟩ := Option.map_eq_some_iff.mp hmap
    obtain ⟨rfl, rfl⟩ := Prod.mk.inj heq
    exact ⟨inside, hinside, rfl⟩
  fun_induction quoted? q fuel cs generalizing value with
  | case1 => cases h
  | case2 => cases h
  | case3 fuel left => exact .quote left value
  | case4 fuel more left =>
      rename_i ih
      obtain ⟨inside, hinside, rfl⟩ := hmore h
      exact ((ih left hinside).cons '\n').skips ((Skips.refl _).cons (by decide))
  | case5 => cases h
  | case6 fuel left ih =>
      obtain ⟨after, hafter, hinside⟩ := Option.bind_eq_some_iff.mp h
      exact (ih after hinside).skips
        (((skips_of_continuation? hafter).cons (by decide)).cons (by decide))
  | case7 fuel left ih =>
      obtain ⟨after, hafter, hinside⟩ := Option.bind_eq_some_iff.mp h
      exact (ih after hinside).skips ((skips_of_continuation? hafter).cons (by decide))
  | case8 fuel more left _ _ =>
      rename_i ih
      obtain ⟨⟨c, after⟩, hafter, hvalue⟩ := Option.bind_eq_some_iff.mp h
      obtain ⟨inside, hinside, rfl⟩ := hmore hvalue
      have hclosed := (ih after hinside).mono (List.subset_cons_self c inside)
      rcases skips_of_escaped? hafter with rfl | hskips
      · exact (ClosedWith.quote after _).skips ((Skips.refl _).cons (by decide))
      · exact hclosed.skips (hskips.cons (by decide))
  | case9 fuel more c left _ _ _ _ _ _ _ =>
      rename_i ih
      obtain ⟨inside, hinside, rfl⟩ := hmore h
      exact (ih left hinside).cons c
  | case10 => cases h

theorem closedWith_of_rawText? {signs : List Char} (h : rawText? q signs cs = some (value, rest)) :
    ClosedWith cs value := by
  fun_induction rawText? q signs cs generalizing value with
  | case1 => cases h
  | case2 cs ih =>
      obtain ⟨⟨inside, after⟩, hinside, heq⟩ := Option.map_eq_some_iff.mp h
      obtain ⟨rfl, rfl⟩ := Prod.mk.inj heq
      exact ((ih hinside).cons '\n').cons '\r'
  | case3 => cases h
  | case4 c cs _ _ left hleft =>
      split at hleft
      · next hc => exact hc ▸ .quote cs value
      · cases hleft
  | case5 c cs _ _ _ _ ih =>
      obtain ⟨⟨inside, after⟩, hinside, heq⟩ := Option.map_eq_some_iff.mp h
      obtain ⟨rfl, rfl⟩ := Prod.mk.inj heq
      exact (ih hinside).cons c
  | case6 => cases h

/-! ## Literals -/

/-- A literal with a text is a text literal, raw or not. -/
theorem exists_of_literalValue? {text : String} (h : literalValue? cs = some (.text text, rest)) :
    ∃ after, markedText? .text [] cs = some (text.toList, after) := by
  simp only [literalValue?, Option.or_eq_some_iff, Option.map_eq_some_iff, Prod.mk.injEq,
    reduceCtorEq, false_and, and_false, exists_false, or_false, Literal.text.injEq] at h
  obtain ⟨⟨value, after⟩, hfound, rfl, -⟩ := h
  exact ⟨after, by rw [hfound, String.toList_ofList]⟩

/-- A text literal has no comma up to its first quote, and the second one closes a text with
the commas of the value. -/
theorem exists_of_markedText? (h : markedText? q [] cs = some (value, rest)) :
    ∃ mark inside, cs = mark ++ '"' :: inside ∧ (∀ c ∈ mark, c ≠ ',' ∧ c ≠ '"') ∧
      ClosedWith inside value := by
  obtain ⟨text, htext, hread⟩ := Option.bind_eq_some_iff.mp h
  obtain rfl : cs = text := Option.some.inj htext
  split at hread
  · next inside => exact ⟨[], inside, rfl, List.forall_mem_nil _, closedWith_of_quoted? hread⟩
  · next inside =>
      unfold raw? at hread
      dsimp only at hread
      split at hread
      · next body hbody =>
          split at hread
          · cases hread
          · refine ⟨'r' :: inside.takeWhile (· = '#'), body, ?_, ?_, closedWith_of_rawText? hread⟩
            · rw [List.cons_append, ← hbody, List.takeWhile_append_dropWhile]
            · refine List.forall_mem_cons.mpr ⟨by decide, fun c hc => ?_⟩
              obtain rfl : c = '#' := by simpa using List.mem_takeWhile_imp hc
              decide
      · cases hread
  · cases hread

/-- A text as it is written, and its value. -/
structure TextLiteral where
  written : String
  value : String
deriving DecidableEq, Repr, Inhabited

namespace TextLiteral

/-- What is written is read as the value. -/
def IsRead (literal : TextLiteral) : Prop :=
  literalValue? literal.written.toList = some (.text literal.value, [])

instance (literal : TextLiteral) : Decidable literal.IsRead :=
  inferInstanceAs (Decidable (literalValue? _ = _))

/-- What a reader who looks for quotes only takes for the value. -/
def seen (literal : TextLiteral) : List Char :=
  betweenQuotes literal.written.toList

/-- The value is seen as it is, and has no comma. -/
structure IsPlain (literal : TextLiteral) : Prop where
  seen_eq : literal.seen = literal.value.toList
  no_comma : ',' ∉ literal.value.toList

instance (literal : TextLiteral) : Decidable literal.IsPlain :=
  decidable_of_iff (literal.seen = literal.value.toList ∧ ',' ∉ literal.value.toList)
    ⟨fun h => ⟨h.1, h.2⟩, fun h => ⟨h.seen_eq, h.no_comma⟩⟩

variable {literal : TextLiteral}

theorem betweenQuotes_append {mark inside : List Char} (h : '"' ∉ mark) :
    betweenQuotes (mark ++ '"' :: inside) = inside.takeWhile (· ≠ '"') := by
  have hmark : ∀ c ∈ mark, decide (c ≠ '"') = true := fun c hc =>
    decide_eq_true fun heq => h (heq ▸ hc)
  rw [betweenQuotes, List.dropWhile_append_of_pos hmark, List.dropWhile_cons_of_neg (by simp),
    List.tail_cons]

theorem IsRead.exists_inside (h : literal.IsRead) :
    ∃ mark inside, literal.written.toList = mark ++ '"' :: inside ∧
      (∀ c ∈ mark, c ≠ ',' ∧ c ≠ '"') ∧ ClosedWith inside literal.value.toList ∧
      literal.seen = inside.takeWhile (· ≠ '"') := by
  obtain ⟨after, hmarked⟩ := exists_of_literalValue? h
  obtain ⟨mark, inside, hwritten, hmark, hclosed⟩ := exists_of_markedText? hmarked
  refine ⟨mark, inside, hwritten, hmark, hclosed, ?_⟩
  rw [seen, hwritten, betweenQuotes_append fun hmem => (hmark _ hmem).2 rfl]

/-- What is seen stands between two quotes, with no comma in front of them. -/
theorem IsRead.exists_written (h : literal.IsRead) :
    ∃ mark more, literal.written.toList = mark ++ '"' :: (literal.seen ++ '"' :: more) ∧
      ∀ c ∈ mark, c ≠ ',' ∧ c ≠ '"' := by
  obtain ⟨mark, inside, hwritten, hmark, hclosed, hseen⟩ := h.exists_inside
  obtain ⟨front, more, rfl, hfront⟩ := List.eq_append_cons_of_mem hclosed.closed
  refine ⟨mark, more, ?_, hmark⟩
  rw [hwritten, hseen, Text.takeWhile_ne_append_cons hfront]

/-- A comma that is seen is one of the value. -/
theorem IsRead.comma_mem (h : literal.IsRead) (hseen : ',' ∈ literal.seen) :
    ',' ∈ literal.value.toList := by
  obtain ⟨mark, inside, -, -, hclosed, heq⟩ := h.exists_inside
  exact hclosed.commas (heq ▸ hseen)

theorem quote_not_mem_seen (literal : TextLiteral) : '"' ∉ literal.seen := by
  intro hmem
  simpa using List.mem_takeWhile_imp hmem

end TextLiteral

end ApiDoc.Source
