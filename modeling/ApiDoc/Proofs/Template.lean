import ApiDoc.Proofs.Text.Edited
import ApiDoc.Request.Template
import Mathlib.Data.List.Basic

/-!
# Placeholders of path templates

Renaming works on the parts of a template, and its result is written and taken apart
again by whoever reads the path next.  The main statements say that this is no
detour: the placeholders of a renamed template are the old ones, replaced by
position.  Marks of optional placeholders and a prefix without braces change no
name either.
-/

namespace ApiDoc.Template

/-- The texts of the placeholders among the parts of a template. -/
def texts (ps : List Piece) : List (List Char) :=
  ps.filterMap fun
    | .placeholder name => some name
    | .char _ => none

@[simp] theorem texts_nil : texts [] = [] := rfl

@[simp] theorem texts_char (c : Char) (ps : List Piece) : texts (.char c :: ps) = texts ps := rfl

@[simp] theorem texts_placeholder (name : List Char) (ps : List Piece) :
    texts (.placeholder name :: ps) = name :: texts ps := rfl

@[simp] theorem texts_map_char (cs : List Char) : texts (cs.map .char) = [] := by
  induction cs with
  | nil => rfl
  | cons c cs ih => exact ih

/-- The placeholders of a template as they are written, in order. -/
def placeholders (uri : String) : List String :=
  (texts (pieces uri)).map String.ofList

/-- Replace the members of a list by position; the ones for which nothing new is
given stay. -/
def replaceEach {α : Type u} : List (Option α) → List α → List α
  | _, [] => []
  | [], xs => xs
  | new :: news, x :: xs => new.getD x :: replaceEach news xs

@[simp] theorem replaceEach_nil {α : Type u} (xs : List α) : replaceEach [] xs = xs := by
  cases xs <;> rfl

/-- A name that can stand in a placeholder without being taken for something else. -/
def Writable (name : String) : Prop :=
  '\x7d' ∉ name.toList ∧ name.toList.getLast? ≠ some '?'

/-- A name without braces and marks. -/
def IsPlain (name : List Char) : Prop :=
  '\x7b' ∉ name ∧ '\x7d' ∉ name ∧ '?' ∉ name

/-- Every placeholder of a template is a plain name, perhaps with one mark. -/
def WellFormed (uri : String) : Prop :=
  ∀ text ∈ texts (pieces uri), ∃ name, IsPlain name ∧ (text = name ∨ text = name ++ ['?'])

instance (name : String) : Decidable (Writable name) :=
  inferInstanceAs (Decidable (_ ∧ _))

instance (name : List Char) : Decidable (IsPlain name) :=
  inferInstanceAs (Decidable (_ ∧ _ ∧ _))

theorem names_eq_map_texts (uri : String) : names uri = (texts (pieces uri)).map bareName := by
  rw [names, texts, List.map_filterMap]
  congr 1
  funext piece
  cases piece <;> rfl

theorem map_replaceEach {α : Type u} {β : Type v} (f : α → β) (news : List (Option α))
    (xs : List α) :
    (replaceEach news xs).map f = replaceEach (news.map (Option.map f)) (xs.map f) := by
  induction xs generalizing news with
  | nil => cases news <;> rfl
  | cons x xs ih =>
      cases news with
      | nil => rfl
      | cons new news => simp [replaceEach, ih]

theorem bareName_of_getLast {name : List Char} (h : name.getLast? ≠ some '?') :
    bareName name = String.ofList name := by
  have hhead : name.reverse.head? ≠ some '?' := by rwa [List.head?_reverse]
  rw [bareName, Text.dropEndWhile]
  congr 1
  cases hrev : name.reverse with
  | nil => rw [List.reverse_eq_nil_iff.mp hrev]; rfl
  | cons c cs =>
      have hc : c ≠ '?' := by
        intro he
        rw [hrev, he] at hhead
        exact hhead rfl
      rw [List.dropWhile_cons_of_neg (by simpa using hc), ← hrev, List.reverse_reverse]

theorem bareName_append_mark {name : List Char} (h : '?' ∉ name) :
    bareName (name ++ ['?']) = String.ofList name := by
  have hlast : name.getLast? ≠ some '?' := fun he => h (List.mem_of_getLast? he)
  rw [← bareName_of_getLast hlast, bareName, bareName, Text.dropEndWhile, Text.dropEndWhile]
  simp

/-- Behind an opening brace, a text without a closing one is gathered. -/
theorem piecesFrom_append (acc xs rest : List Char) (h : '\x7d' ∉ xs) :
    piecesFrom (some acc) (xs ++ rest) = piecesFrom (some (xs.reverse ++ acc)) rest := by
  induction xs generalizing acc with
  | nil => rfl
  | cons c cs ih =>
      have hc : c ≠ '\x7d' := fun he => h (he ▸ List.mem_cons_self)
      have hcs : '\x7d' ∉ cs := fun hm => h (List.mem_cons_of_mem _ hm)
      rw [List.cons_append, piecesFrom, if_neg hc, ih (c :: acc) hcs, List.reverse_cons,
        List.append_assoc, List.singleton_append]

theorem piecesFrom_unclosed (acc xs : List Char) (h : '\x7d' ∉ xs) :
    piecesFrom (some acc) xs = ('\x7b' :: acc.reverse ++ xs).map .char := by
  have hgathered := piecesFrom_append acc xs [] h
  rw [List.append_nil] at hgathered
  simp [hgathered, piecesFrom]

theorem piecesFrom_closed (acc xs rest : List Char) (h : '\x7d' ∉ xs) :
    piecesFrom (some acc) (xs ++ '\x7d' :: rest) =
      .placeholder (acc.reverse ++ xs) :: piecesFrom none rest := by
  simp [piecesFrom_append acc xs _ h, piecesFrom]

theorem renameFrom_char (news : List (Option String)) (c : Char) (ps : List Piece) :
    renameFrom news (.char c :: ps) = .char c :: renameFrom news ps := by
  cases news <;> rfl

theorem renameFrom_map_char (news : List (Option String)) (cs : List Char) :
    renameFrom news (cs.map .char) = cs.map .char := by
  induction cs with
  | nil => cases news <;> rfl
  | cons c cs ih => rw [List.map_cons, renameFrom_char, ih]

theorem piecesFrom_render_placeholder (name : List Char) (h : '\x7d' ∉ name)
    (ps : List Piece) :
    piecesFrom none ((Piece.placeholder name :: ps).flatMap Piece.render) =
      .placeholder name :: piecesFrom none (ps.flatMap Piece.render) := by
  have hsplit : (Piece.placeholder name :: ps).flatMap Piece.render =
      '\x7b' :: (name ++ '\x7d' :: ps.flatMap Piece.render) := by
    simp [Piece.render]
  rw [hsplit, piecesFrom, if_pos rfl, piecesFrom_closed [] name _ h]
  rfl

/-- Renamed parts can be written and taken apart again, also those behind an opening
brace. -/
theorem piecesFrom_renameFrom (cs : List Char) (news : List (Option String))
    (hnews : ∀ name, some name ∈ news → '\x7d' ∉ name.toList) :
    piecesFrom none ((renameFrom news (piecesFrom none cs)).flatMap Piece.render) =
        renameFrom news (piecesFrom none cs) ∧
      ∀ acc, '\x7d' ∉ acc →
        piecesFrom none ((renameFrom news (piecesFrom (some acc) cs)).flatMap Piece.render) =
          renameFrom news (piecesFrom (some acc) cs) := by
  induction cs generalizing news with
  | nil =>
      constructor
      · cases news <;> rfl
      · intro acc hacc
        have hrev : '\x7d' ∉ acc.reverse := by simpa using hacc
        rw [piecesFrom, renameFrom_map_char, flatMap_render_char, piecesFrom, if_pos rfl,
          piecesFrom_unclosed [] _ hrev]
        rfl
  | cons c cs ih =>
      constructor
      · by_cases hc : c = '\x7b'
        · rw [piecesFrom, if_pos hc]
          exact (ih news hnews).2 [] (by simp)
        · rw [piecesFrom, if_neg hc, renameFrom_char, List.flatMap_cons]
          change piecesFrom none (c :: (renameFrom news (piecesFrom none cs)).flatMap _) = _
          rw [piecesFrom, if_neg hc, (ih news hnews).1]
      · intro acc hacc
        by_cases hc : c = '\x7d'
        · rw [piecesFrom, if_pos hc]
          cases news with
          | nil =>
              rw [renameFrom, piecesFrom_render_placeholder _ (by simpa using hacc),
                (ih [] (by simp)).1]
          | cons new news =>
              have hrest := (ih news fun name hn => hnews name (List.mem_cons_of_mem _ hn)).1
              have hnew : '\x7d' ∉ (new.map String.toList).getD acc.reverse := by
                cases new with
                | none => simpa using hacc
                | some name => exact hnews name List.mem_cons_self
              rw [renameFrom, piecesFrom_render_placeholder _ hnew, hrest]
        · rw [piecesFrom, if_neg hc]
          exact (ih news hnews).2 (c :: acc) (by simp [hacc, Ne.symm hc])

theorem pieces_rename (uri : String) (news : List (Option String))
    (hnews : ∀ name, some name ∈ news → '\x7d' ∉ name.toList) :
    pieces (rename uri news) = renameFrom news (pieces uri) := by
  rw [rename, render, pieces, String.toList_ofList]
  exact (piecesFrom_renameFrom uri.toList news hnews).1

theorem texts_renameFrom (news : List (Option String)) (ps : List Piece) :
    texts (renameFrom news ps) = replaceEach (news.map (Option.map String.toList)) (texts ps) := by
  induction ps generalizing news with
  | nil => cases news <;> rfl
  | cons piece ps ih =>
      cases piece with
      | char c =>
          rw [renameFrom_char]
          exact ih news
      | placeholder name =>
          cases news with
          | nil =>
              have hrest : texts (renameFrom [] ps) = texts ps := by
                rw [ih [], List.map_nil, replaceEach_nil]
              simp [renameFrom, hrest]
          | cons new news => simp [renameFrom, ih news, replaceEach]

/-- Renaming replaces the placeholders of a template by position. -/
theorem placeholders_rename (uri : String) (news : List (Option String))
    (hnews : ∀ name, some name ∈ news → '\x7d' ∉ name.toList) :
    placeholders (rename uri news) = replaceEach news (placeholders uri) := by
  rw [placeholders, pieces_rename uri news hnews, texts_renameFrom, map_replaceEach,
    List.map_map]
  have hsame : (Option.map String.ofList ∘ Option.map String.toList : Option String → _) = id := by
    funext new
    cases new <;> simp
  rw [hsame, List.map_id, placeholders]

/-- Renaming replaces the names of the placeholders by position, if no new name ends
in a mark. -/
theorem names_rename (uri : String) (news : List (Option String))
    (hnews : ∀ name, some name ∈ news → Writable name) :
    names (rename uri news) = replaceEach news (names uri) := by
  rw [names_eq_map_texts, pieces_rename uri news fun name h => (hnews name h).1,
    texts_renameFrom, map_replaceEach, List.map_map, ← names_eq_map_texts]
  have hsame : news.map (Option.map bareName ∘ Option.map String.toList) = news := by
    conv_rhs => rw [← List.map_id news]
    refine List.map_congr_left ?_
    intro new hnew
    cases new with
    | none => rfl
    | some name =>
        have hbare := bareName_of_getLast (hnews name hnew).2
        simp [hbare]
  rw [hsame]

/-- A name without the last mark, if it has one. -/
def dropMark (name : List Char) : List Char :=
  (Text.dropTail? ['?'] name).getD name

theorem dropMark_append_mark (name : List Char) : dropMark (name ++ ['?']) = name := by
  rw [dropMark, Text.dropTail?_eq_some_iff.mpr rfl, Option.getD_some]

theorem dropMark_of_getLast {name : List Char} (h : name.getLast? ≠ some '?') :
    dropMark name = name := by
  have hnone : Text.dropTail? ['?'] name = none := by
    by_contra hsome
    obtain ⟨rest, hrest⟩ := Option.ne_none_iff_exists'.mp hsome
    rw [Text.dropTail?_eq_some_iff.mp hrest, List.getLast?_concat] at h
    exact h rfl
  rw [dropMark, hnone, Option.getD_none]

theorem eq_dropMark_or (name : List Char) :
    name = dropMark name ∨ name = dropMark name ++ ['?'] := by
  rw [dropMark]
  cases hdrop : Text.dropTail? ['?'] name with
  | none => exact .inl rfl
  | some rest => exact .inr (Text.dropTail?_eq_some_iff.mp hdrop)

theorem wellFormed_iff {uri : String} :
    WellFormed uri ↔ ∀ text ∈ texts (pieces uri), IsPlain (dropMark text) := by
  constructor
  · intro h text htext
    obtain ⟨name, hplain, rfl | rfl⟩ := h text htext
    · rwa [dropMark_of_getLast fun he => hplain.2.2 (List.mem_of_getLast? he)]
    · rwa [dropMark_append_mark]
  · intro h text htext
    exact ⟨dropMark text, h text htext, eq_dropMark_or text⟩

instance (uri : String) : Decidable (WellFormed uri) :=
  decidable_of_iff _ wellFormed_iff.symm

/-- Leaving out the marks before closing braces leaves out one mark of every
placeholder.  The name that is being read has no mark at its end which the rest of
the text closes. -/
theorem texts_of_replaced {cs ds : List Char} (h : Text.Replaced ['?', '\x7d'] ['\x7d'] cs ds) :
    texts (piecesFrom none ds) = (texts (piecesFrom none cs)).map dropMark ∧
      ∀ acc, acc.head? ≠ some '?' ∨ cs.head? ≠ some '\x7d' →
        texts (piecesFrom (some acc) ds) = (texts (piecesFrom (some acc) cs)).map dropMark := by
  induction h with
  | nil =>
      refine ⟨rfl, fun acc _ => ?_⟩
      simp only [piecesFrom, texts_map_char, List.map_nil]
  | found next ih =>
      -- The mark and the brace: outside a placeholder neither begins one.
      constructor
      · simpa [piecesFrom] using ih.1
      · intro acc _
        simp [piecesFrom, ih.1, dropMark_append_mark]
  | @kept c rest made nowhere next ih =>
      obtain ⟨houtside, hinside⟩ := ih
      constructor
      · by_cases hc : c = '\x7b'
        · simp only [piecesFrom, if_pos hc]
          exact hinside [] (.inl (by simp))
        · simpa [piecesFrom, hc] using houtside
      · intro acc hacc
        by_cases hc : c = '\x7d'
        · have hlast : acc.reverse.getLast? ≠ some '?' := by simpa [hc] using hacc
          simp [piecesFrom, hc, houtside, dropMark_of_getLast hlast]
        · simp only [piecesFrom, if_neg hc]
          refine hinside (c :: acc) ?_
          -- A mark before a brace would have been left out.
          by_contra hboth
          obtain ⟨hmarked, hclosed⟩ := not_or.mp hboth
          obtain ⟨more, rfl⟩ := List.head?_eq_some_iff.mp (not_not.mp hclosed)
          obtain rfl : c = '?' := by simpa using hmarked
          exact nowhere ⟨more, rfl⟩

theorem texts_replaceAll_marks (cs : List Char) :
    texts (piecesFrom none (Text.replaceAll ['?', '\x7d'] ['\x7d'] cs)) =
      (texts (piecesFrom none cs)).map dropMark :=
  (texts_of_replaced (Text.replaced_replaceAll (List.cons_ne_nil _ _) _ cs)).1

/-- Of a well-formed template, the placeholders without their last mark are the
names. -/
theorem map_dropMark_of_wellFormed {uri : String} (h : WellFormed uri) :
    ((texts (pieces uri)).map dropMark).map String.ofList = names uri := by
  rw [names_eq_map_texts, List.map_map]
  refine List.map_congr_left ?_
  intro text htext
  obtain ⟨name, ⟨-, -, hmark⟩, rfl | rfl⟩ := h text htext
  · have hlast : text.getLast? ≠ some '?' := fun he => hmark (List.mem_of_getLast? he)
    rw [Function.comp, dropMark_of_getLast hlast, bareName_of_getLast hlast]
  · rw [Function.comp, dropMark_append_mark, bareName_append_mark hmark]

/-- Text without an opening brace has no part in the placeholders behind it. -/
theorem texts_append_of_not_mem (cs rest : List Char) (h : '\x7b' ∉ cs) :
    texts (piecesFrom none (cs ++ rest)) = texts (piecesFrom none rest) := by
  induction cs with
  | nil => rfl
  | cons c cs ih =>
      have hc : c ≠ '\x7b' := fun he => h (he ▸ List.mem_cons_self)
      have hcs : '\x7b' ∉ cs := fun hm => h (List.mem_cons_of_mem _ hm)
      rw [List.cons_append, piecesFrom, if_neg hc]
      exact ih hcs

/-! ## Renaming as an edit of the text -/

/-- A placeholder gives way to one with a name without slashes and marks. -/
def Renames (old new : List Char) : Prop :=
  ∃ name other, old = '\x7b' :: name ++ ['\x7d'] ∧ new = '\x7b' :: other ++ ['\x7d'] ∧
    '/' ∉ other ∧ '?' ∉ other

theorem keepSegments_renames : Text.KeepSegments Renames := by
  rintro old new ⟨name, other, rfl, rfl, hslash, -⟩
  refine ⟨⟨'\x7b', _, rfl, by decide⟩, ⟨'\x7b', _, rfl, by decide⟩, ?_⟩
  simpa using hslash

/-- Renaming is an edit, also behind an opening brace. -/
theorem edited_renameFrom (cs : List Char) {news : List (Option String)}
    (hnews : ∀ name, some name ∈ news → '/' ∉ name.toList ∧ '?' ∉ name.toList) :
    Text.Edited Renames cs ((renameFrom news (piecesFrom none cs)).flatMap Piece.render) ∧
      ∀ acc, Text.Edited Renames ('\x7b' :: acc.reverse ++ cs)
        ((renameFrom news (piecesFrom (some acc) cs)).flatMap Piece.render) := by
  induction cs generalizing news with
  | nil =>
      constructor
      · cases news <;> exact .nil
      · intro acc
        rw [piecesFrom, renameFrom_map_char, flatMap_render_char, List.append_nil]
        exact .refl _
  | cons c cs ih =>
      constructor
      · by_cases hc : c = '\x7b'
        · rw [piecesFrom, if_pos hc, hc]
          exact (ih hnews).2 []
        · rw [piecesFrom, if_neg hc, renameFrom_char]
          exact .keep c (ih hnews).1
      · intro acc
        by_cases hc : c = '\x7d'
        · have hsplit : '\x7b' :: acc.reverse ++ c :: cs =
              ('\x7b' :: acc.reverse ++ ['\x7d']) ++ cs := by
            rw [hc, List.append_assoc, List.singleton_append]
          rw [piecesFrom, if_pos hc, hsplit]
          cases news with
          | nil => exact (ih hnews).1.append_left _
          | cons new news =>
              have hrest := (ih fun name hname => hnews name (List.mem_cons_of_mem _ hname)).1
              cases new with
              | none => exact hrest.append_left _
              | some name =>
                  obtain ⟨hslash, hmark⟩ := hnews name List.mem_cons_self
                  exact .swap ⟨acc.reverse, name.toList, rfl, rfl, hslash, hmark⟩ hrest
        · have hopened : '\x7b' :: acc.reverse ++ c :: cs = '\x7b' :: (c :: acc).reverse ++ cs := by
            simp
          rw [piecesFrom, if_neg hc, hopened]
          exact (ih hnews).2 (c :: acc)

theorem edited_rename (uri : String) {news : List (Option String)}
    (hnews : ∀ name, some name ∈ news → '/' ∉ name.toList ∧ '?' ∉ name.toList) :
    Text.Edited Renames uri.toList (rename uri news).toList := by
  rw [rename, render, pieces, String.toList_ofList]
  exact (edited_renameFrom uri.toList hnews).1

end ApiDoc.Template
