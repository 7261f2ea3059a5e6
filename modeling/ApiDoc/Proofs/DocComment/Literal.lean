import Mathlib.Data.List.Induction
import Mathlib.Data.Nat.Digits.Defs
import ApiDoc.DocComment.TagBody
import ApiDoc.Proofs.Except
import ApiDoc.Proofs.Scalar.Numeral
import ApiDoc.Proofs.Text
import ApiDoc.Proofs.Text.Nesting

/-!
# Literal values of annotations

A literal is `null`, a truth value, a whole number of 64 bits, a text in double quotes
without a backslash, or a list of literals in brackets.  Its text is sealed and has no
white space at its ends, so it can be cut out of a list or an entry again; reading it
gives the value that it denotes.
-/

namespace ApiDoc.TagBody

open Text (IsNeutral IsQuotable IsTight Sealed)

/-! ## Characters of keys, words and numbers -/

/-- A letter or a digit of ASCII, or one of four marks. -/
def isKeyChar (c : Char) : Bool :=
  c.isAlphanum || c = '_' || c = '.' || c = '$' || c = '-'

section KeyChar

variable {c d sep : Char} {least : Nat} {text : List Char}

theorem ne_of_isKeyChar (hc : isKeyChar c = true) (hd : isKeyChar d = false) : c ≠ d := by
  rintro rfl
  exact Bool.noConfusion (hc.symm.trans hd)

theorem isNeutral_of_isKeyChar (h : isKeyChar c = true) : IsNeutral c :=
  Text.isNeutral_of (by decide) h

theorem toNat_of_isKeyChar (h : isKeyChar c = true) : 33 ≤ c.toNat ∧ c.toNat < 127 := by
  simp only [isKeyChar, Bool.or_eq_true, decide_eq_true_eq] at h
  rcases h with (((hletter | rfl) | rfl) | rfl) | rfl
  · delta Char.isAlphanum Char.isAlpha Char.isUpper Char.isLower Char.isDigit at hletter
    simp [UInt32.le_iff_toNat_le] at hletter
    omega
  all_goals decide

theorem isBlank_of_isKeyChar (h : isKeyChar c = true) : Text.isBlank c = false :=
  Text.isBlank_eq_false_of (by decide +kernel) h

theorem isTight_of_isKeyChar (hne : text ≠ []) (h : ∀ c ∈ text, isKeyChar c = true) :
    IsTight text :=
  .of_forall hne fun c hc => isBlank_of_isKeyChar (h c hc)

theorem sealed_of_isKeyChar (hsep : isKeyChar sep = false)
    (h : ∀ c ∈ text, isKeyChar c = true) : Sealed sep least text :=
  .of_neutral (fun c hc => isNeutral_of_isKeyChar (h c hc))
    fun hmem => ne_of_isKeyChar (h sep hmem) hsep rfl

end KeyChar

/-! ## Texts between two characters -/

section Enclosed

variable {opening closing first : Char} {text : List Char}

theorem enclosed_append (opening closing : Char) (text : List Char) :
    enclosed opening closing (opening :: (text ++ [closing])) = true := by
  rw [enclosed, ← List.cons_append, List.getLast?_concat]
  simp

theorem enclosed_cons_of_ne (hne : first ≠ opening) (closing : Char) (text : List Char) :
    enclosed opening closing (first :: text) = false := by
  simp [enclosed, hne]

theorem enclosed_of_isKeyChar (hopening : isKeyChar opening = false) (closing : Char)
    (h : ∀ c ∈ text, isKeyChar c = true) : enclosed opening closing text = false := by
  cases text with
  | nil => rfl
  | cons c cs => exact enclosed_cons_of_ne (ne_of_isKeyChar (h c List.mem_cons_self) hopening) _ _

theorem inner_append (opening closing : Char) (text : List Char) :
    inner (opening :: (text ++ [closing])) = text := by
  rw [inner, List.drop_one, List.tail_cons, List.dropLast_concat]

end Enclosed

/-! ## Words and numbers -/

section Scalars

variable {text : List Char}

/-- A text of key characters is a scalar, and read by its look. -/
theorem value?_of_isKeyChar (fuel : Nat) (h : ∀ c ∈ text, isKeyChar c = true)
    (hnull : text ≠ "null".toList) :
    value? (fuel + 1) text = some (Scalar.guess (String.ofList text)) := by
  have hlist : enclosed '[' ']' text = false := enclosed_of_isKeyChar (by decide) _ h
  have hbraces : enclosed '\x7b' '\x7d' text = false := enclosed_of_isKeyChar (by decide) _ h
  have hdouble : enclosed '"' '"' text = false := enclosed_of_isKeyChar (by decide) _ h
  have hsingle : enclosed '\'' '\'' text = false := enclosed_of_isKeyChar (by decide) _ h
  rw [value?, hlist, hbraces, hdouble, hsingle, if_neg hnull]
  simp

end Scalars

/-- The number that decimal digits denote, perhaps with a minus in front. -/
def decimal (negative : Bool) (digits : List (Fin 10)) : Int :=
  let magnitude : Nat := Nat.ofDigits 10 (digits.reverse.map Fin.val)
  if negative then -(magnitude : Int) else magnitude

/-- Decimal digits, perhaps with a minus in front, that denote a number of 64 bits. -/
structure Numeral where
  negative : Bool
  digits : List (Fin 10)
  ne_nil : digits ≠ []
  lower : -2 ^ 63 ≤ decimal negative digits
  upper : decimal negative digits < 2 ^ 63

namespace Numeral

def digitChar (d : Fin 10) : Char :=
  Nat.digitChar d

def text (n : Numeral) : List Char :=
  if n.negative then '-' :: n.digits.map digitChar else n.digits.map digitChar

def value (n : Numeral) : Int :=
  decimal n.negative n.digits

theorem isDigit_digitChar (d : Fin 10) : (digitChar d).isDigit = true := by
  revert d
  decide

theorem toNat_digitChar (d : Fin 10) : (digitChar d).toNat - '0'.toNat = d := by
  revert d
  decide

theorem digitsValue_map_digitChar (digits : List (Fin 10)) :
    Text.digitsValue (digits.map digitChar) = Nat.ofDigits 10 (digits.reverse.map Fin.val) := by
  induction digits using List.reverseRecOn with
  | nil => rfl
  | append_singleton front d ih =>
      rw [List.map_append, List.map_singleton, Text.digitsValue_append_singleton, ih,
        toNat_digitChar, List.reverse_concat, List.map_cons, Nat.ofDigits_cons]
      exact Nat.add_comm _ _

theorem isDigit_of_mem {n : Numeral} {c : Char} (h : c ∈ n.digits.map digitChar) :
    c.isDigit = true := by
  obtain ⟨d, -, rfl⟩ := List.mem_map.mp h
  exact isDigit_digitChar d

theorem isKeyChar_of_mem_text {n : Numeral} {c : Char} (h : c ∈ n.text) : isKeyChar c = true := by
  have hdigit : ∀ c ∈ n.digits.map digitChar, isKeyChar c = true := by
    intro c hc
    simp [isKeyChar, Char.isAlphanum, isDigit_of_mem hc]
  rw [text] at h
  split at h
  · rcases List.mem_cons.mp h with rfl | hmem
    · decide
    · exact hdigit c hmem
  · exact hdigit c h

/-- The decimal numeral that is written. -/
def written (n : Numeral) : Scalar.Numeral where
  negative := n.negative
  digits := n.digits.map digitChar
  ne_nil := by simpa using n.ne_nil
  isDigit := fun _ => isDigit_of_mem

theorem text_written (n : Numeral) : n.written.text = n.text := rfl

theorem value_written (n : Numeral) : n.written.value = n.value := by
  rw [value, decimal, ← digitsValue_map_digitChar]
  rfl

theorem inWord_value (n : Numeral) : Scalar.inWord n.value = true := by
  rw [Scalar.inWord, Bool.and_eq_true, decide_eq_true_iff, decide_eq_true_iff]
  exact ⟨n.lower, n.upper⟩

theorem number?_text (n : Numeral) : Scalar.number? n.text = some (.int n.value) := by
  rw [← text_written, n.written.number?_text, value_written, if_pos n.inWord_value]

theorem text_ne_nil (n : Numeral) : n.text ≠ [] := by
  rw [text]
  split
  · exact List.cons_ne_nil _ _
  · simpa using n.ne_nil

theorem guess_text (n : Numeral) :
    Scalar.guess (String.ofList n.text) = .num (.int n.value) := by
  rw [← text_written, n.written.guess_text, value_written, if_pos n.inWord_value]

end Numeral

/-! ## Texts in quotes -/

/-- A backslash in front of every quote. -/
def escape (content : List Char) : List Char :=
  content.flatMap fun c => if c = '"' then ['\\', '"'] else [c]

theorem escape_quote_cons (content : List Char) :
    escape ('"' :: content) = '\\' :: '"' :: escape content := rfl

theorem escape_cons_of_ne {c : Char} (h : c ≠ '"') (content : List Char) :
    escape (c :: content) = c :: escape content := by
  rw [escape, List.flatMap_cons, if_neg h]
  rfl

/-- Leaving out the backslashes gives the text back. -/
theorem replace_escape {content : List Char} (h : '\\' ∉ content) {fuel : Nat}
    (hfuel : (escape content).length ≤ fuel) :
    Text.replace ['\\', '"'] ['"'] fuel (escape content) = content := by
  induction content generalizing fuel with
  | nil => cases fuel <;> rfl
  | cons c cs ih =>
      have hne : '\\' ≠ c := fun heq => h (heq ▸ List.mem_cons_self)
      have hcs : '\\' ∉ cs := List.not_mem_of_not_mem_cons h
      by_cases hc : c = '"'
      · subst hc
        rw [escape_quote_cons, List.length_cons, List.length_cons] at hfuel
        obtain ⟨left, rfl⟩ : ∃ left, fuel = left + 1 := ⟨fuel - 1, by omega⟩
        rw [escape_quote_cons, Text.replace]
        simpa [Text.dropHead?] using ih hcs (by omega)
      · rw [escape_cons_of_ne hc, List.length_cons] at hfuel
        obtain ⟨left, rfl⟩ : ∃ left, fuel = left + 1 := ⟨fuel - 1, by omega⟩
        rw [escape_cons_of_ne hc, Text.replace]
        simpa [Text.dropHead?, hne] using ih hcs (by omega)

theorem isQuotable_escape {content : List Char} (h : '\\' ∉ content) :
    IsQuotable (escape content) := by
  induction content with
  | nil => exact .nil
  | cons c cs ih =>
      have hne : c ≠ '\\' := fun heq => h (heq ▸ List.mem_cons_self)
      have hcs : IsQuotable (escape cs) := ih (List.not_mem_of_not_mem_cons h)
      by_cases hc : c = '"'
      · subst hc
        exact hcs.cons_escaped '"'
      · rw [escape_cons_of_ne hc]
        exact hcs.cons hne hc

/-- A text in quotes. -/
def quote (content : List Char) : List Char :=
  '"' :: (escape content ++ ['"'])

theorem value?_quote {content : List Char} (h : '\\' ∉ content) (fuel : Nat) :
    value? (fuel + 1) (quote content) = some (.str (String.ofList content)) := by
  have hlist : enclosed '[' ']' (quote content) = false := enclosed_cons_of_ne (by decide) _ _
  have hbraces : enclosed '\x7b' '\x7d' (quote content) = false :=
    enclosed_cons_of_ne (by decide) _ _
  have hquotes : enclosed '"' '"' (quote content) = true := enclosed_append _ _ _
  have hlength : 2 ≤ (quote content).length := by simp [quote]
  have hinner : inner (quote content) = escape content := inner_append _ _ _
  rw [value?, hlist, hbraces, hquotes, hinner, Text.replaceAll, replace_escape h (Nat.le_refl _)]
  simp [hlength]

/-! ## Literals -/

/-- The literal values. -/
inductive Literal
  | null
  | flag (value : Bool)
  | numeral (value : Numeral)
  | quoted (content : List Char) (plain : '\\' ∉ content)
  | list (items : List Literal)

namespace Literal

mutual

/-- How a literal is written. -/
def text : Literal → List Char
  | .null => "null".toList
  | .flag true => "true".toList
  | .flag false => "false".toList
  | .numeral value => value.text
  | .quoted content _ => quote content
  | .list items => '[' :: (Text.join [',', ' '] (texts items) ++ [']'])

def texts : List Literal → List (List Char)
  | [] => []
  | item :: rest => text item :: texts rest

end

mutual

/-- The value that a literal stands for. -/
def denote : Literal → Json
  | .null => .null
  | .flag value => .bool value
  | .numeral value => .num (.int value.value)
  | .quoted content _ => .str (String.ofList content)
  | .list items => .arr (denotes items)

def denotes : List Literal → List Json
  | [] => []
  | item :: rest => denote item :: denotes rest

end

theorem texts_eq_map (items : List Literal) : texts items = items.map text := by
  induction items with
  | nil => rfl
  | cons item rest ih => rw [texts, ih, List.map_cons]

theorem denotes_eq_map (items : List Literal) : denotes items = items.map denote := by
  induction items with
  | nil => rfl
  | cons item rest ih => rw [denotes, ih, List.map_cons]

/-- What holds of a list if it holds of its items holds of every literal. -/
@[elab_as_elim]
theorem induction {motive : Literal → Prop} (null : motive .null)
    (flag : ∀ value, motive (.flag value)) (numeral : ∀ value, motive (.numeral value))
    (quoted : ∀ content plain, motive (.quoted content plain))
    (list : ∀ items, (∀ item ∈ items, motive item) → motive (.list items)) (l : Literal) :
    motive l :=
  match l with
  | .null => null
  | .flag value => flag value
  | .numeral value => numeral value
  | .quoted content plain => quoted content plain
  | .list items => list items fun item _ => induction null flag numeral quoted list item
termination_by l
decreasing_by
  have hlt := List.sizeOf_lt_of_mem ‹item ∈ items›
  rw [Literal.list.sizeOf_spec]
  omega

theorem text_list (items : List Literal) :
    (list items).text = '[' :: (Text.join [',', ' '] (items.map text) ++ [']']) := by
  rw [text, texts_eq_map]

theorem isTight_text (l : Literal) : IsTight l.text := by
  cases l with
  | null => exact isTight_of_isKeyChar (by decide) (List.all_eq_true.mp (by decide))
  | flag value =>
      cases value
      · exact isTight_of_isKeyChar (by decide) (List.all_eq_true.mp (by decide))
      · exact isTight_of_isKeyChar (by decide) (List.all_eq_true.mp (by decide))
  | numeral value =>
      exact isTight_of_isKeyChar value.text_ne_nil fun _ => Numeral.isKeyChar_of_mem_text
  | quoted content plain => exact .enclosed (by decide) (by decide) _
  | list items => exact .enclosed (by decide) (by decide) _

/-- A literal is not cut at the separators of entries and items. -/
theorem sealed_text {sep : Char} (hsep : IsNeutral sep) (hkey : isKeyChar sep = false)
    (l : Literal) : Sealed sep 0 l.text := by
  induction l using induction with
  | null => exact sealed_of_isKeyChar hkey (List.all_eq_true.mp (by decide))
  | flag value =>
      cases value
      · exact sealed_of_isKeyChar hkey (List.all_eq_true.mp (by decide))
      · exact sealed_of_isKeyChar hkey (List.all_eq_true.mp (by decide))
  | numeral value => exact sealed_of_isKeyChar hkey fun _ => Numeral.isKeyChar_of_mem_text
  | quoted content plain => exact .quoted hsep (isQuotable_escape plain)
  | list items ih =>
      -- Between the brackets one more is open, so the comma does not cut even for `sep = ','`.
      have hbetween : Sealed sep 1 [',', ' '] :=
        .cons (by decide) (.inr (Nat.le_refl 1)) (.cons (by decide) (.inr (Nat.le_refl 1)) .nil)
      rw [text_list]
      refine .bracketed hsep (.join hbetween ?_)
      intro piece hpiece
      obtain ⟨item, hitem, rfl⟩ := List.mem_map.mp hpiece
      exact (ih item hitem).mono (Nat.zero_le 1)

theorem length_text_lt {items : List Literal} {item : Literal} (h : item ∈ items) :
    item.text.length < (list items).text.length := by
  have hle : item.text.length ≤ (Text.join [',', ' '] (items.map text)).length :=
    Text.length_le_join (List.mem_map_of_mem h)
  rw [text_list, List.length_cons, List.length_append]
  omega

/-- A list is read item by item. -/
theorem value?_list (items : List Literal) (fuel : Nat) :
    value? (fuel + 1) (list items).text =
      ((items.map text).mapM (value? fuel)).map .arr := by
  have hlist : enclosed '[' ']' (list items).text = true := by
    rw [text_list]
    exact enclosed_append _ _ _
  have hinner : inner (list items).text = Text.join [',', ' '] (items.map text) := by
    rw [text_list, inner_append]
  rw [value?, if_pos hlist, hinner]
  cases items with
  | nil => rfl
  | cons first rest =>
      have hne : (first :: rest).map text ≠ [] := List.cons_ne_nil _ _
      have htight : ∀ piece ∈ (first :: rest).map text, IsTight piece :=
        List.forall_mem_map.mpr fun item _ => item.isTight_text
      have hsealed : ∀ piece ∈ (first :: rest).map text, Sealed ',' 0 piece :=
        List.forall_mem_map.mpr fun item _ => item.sealed_text (by decide) (by decide)
      have hjoin : IsTight (Text.join [',', ' '] ((first :: rest).map text)) := .join hne htight
      rw [hjoin.trim_eq]
      split
      · next hnil => exact absurd hnil hjoin.ne_nil
      · have hpieces := Text.map_trim_splitTop_join (by decide) (by decide) hne hsealed htight
        rw [← hpieces, List.mapM_map, hpieces]
        rfl

/-- A literal is read as the value that it denotes. -/
theorem value?_text (l : Literal) {fuel : Nat} (hfuel : l.text.length ≤ fuel) :
    value? (fuel + 1) l.text = some l.denote := by
  induction l using induction generalizing fuel with
  | null => rfl
  | flag value =>
      cases value
      · exact value?_of_isKeyChar fuel (List.all_eq_true.mp (by decide)) (by decide)
      · exact value?_of_isKeyChar fuel (List.all_eq_true.mp (by decide)) (by decide)
  | numeral value =>
      have hnull : value.text ≠ "null".toList := by
        intro heq
        have hnumber := value.number?_text
        rw [heq] at hnumber
        cases hnumber
      have hread := value?_of_isKeyChar fuel (fun _ => Numeral.isKeyChar_of_mem_text) hnull
      rw [value.guess_text] at hread
      exact hread
  | quoted content plain => exact value?_quote plain fuel
  | list items ih =>
      -- Items are shorter than the list, so what is left of the fuel is enough for them.
      have hitems : ∀ item ∈ items, value? fuel item.text = some item.denote := by
        intro item hitem
        have hlt := length_text_lt hitem
        obtain ⟨left, rfl⟩ : ∃ left, fuel = left + 1 := ⟨fuel - 1, by omega⟩
        exact ih item hitem (by omega)
      have hread : items.mapM (value? fuel ∘ text) = some (items.map denote) :=
        mapM_eq_some_map hitems
      rw [value?_list, List.mapM_map, hread, denote, denotes_eq_map]
      rfl

end Literal

end ApiDoc.TagBody
