import ApiDoc.Proofs.Dict
import ApiDoc.Proofs.DocComment.Literal

/-!
# Bodies made of entries

A listing is a list of keys with literal values, with line breaks or commas between
neighbours.  Its text is cut at these places only, every piece opens with a key, and so
reading it gives the keys with the values that the literals denote, in their order.
-/

namespace ApiDoc.TagBody

open Text (IsTight Sealed)

/-! ## Pieces -/

/-- A text that stays in one piece. -/
structure IsPiece (text : List Char) : Prop where
  comma : Sealed ',' 0 text
  line : Sealed '\n' 0 text

/-- The pieces of a text in front of which a comma stands, or does not. -/
def marked (afterComma : Bool) : List (Bool × List Char) → List (Bool × List Char)
  | [] => []
  | (_, piece) :: rest => (afterComma, piece) :: rest

section Pieces

variable {front : List Char}

theorem pieces_of_isPiece (h : IsPiece front) : pieces front = [(false, front)] := by
  rw [pieces, Text.splitTop_of_isWhole (by decide) h.line.isWhole, List.flatMap_singleton,
    Text.splitTop_of_isWhole (by decide) h.comma.isWhole]
  rfl

theorem pieces_append_newline (h : IsPiece front) (rest : List Char) :
    pieces (front ++ '\n' :: rest) = (false, front) :: pieces rest := by
  rw [pieces, Text.splitTop_append_cons (by decide) h.line.isWhole, List.flatMap_cons,
    Text.splitTop_of_isWhole (by decide) h.comma.isWhole]
  rfl

/-- Behind a comma the pieces are the same, but the first one knows of the comma. -/
theorem pieces_append_comma (h : IsPiece front) (rest : List Char) :
    pieces (front ++ ',' :: rest) = (false, front) :: marked true (pieces rest) := by
  obtain ⟨line, lines, hlines, -⟩ := Text.exists_splitTop '\n' rest
  obtain ⟨piece, more, hpieces, -⟩ := Text.exists_splitTop ',' line
  have hcomma : Sealed '\n' 0 (front ++ [',']) :=
    h.line.append (.cons (by decide) (.inl (by decide)) .nil)
  have hcut : Text.splitTop '\n' (front ++ ',' :: rest) = (front ++ ',' :: line) :: lines := by
    rw [List.append_cons, Text.splitTop_append (by decide) hcomma.isWhole, hlines,
      Text.foldr_growFirst, ← List.append_cons]
  rw [pieces, hcut, pieces, hlines, List.flatMap_cons, List.flatMap_cons,
    Text.splitTop_append_cons (by decide) h.comma.isWhole, hpieces]
  rfl

theorem marked_false_pieces (text : List Char) : marked false (pieces text) = pieces text := by
  obtain ⟨line, lines, hlines, -⟩ := Text.exists_splitTop '\n' text
  obtain ⟨piece, more, hpieces, -⟩ := Text.exists_splitTop ',' line
  rw [pieces, hlines, List.flatMap_cons, hpieces]
  rfl

/-- A piece that opens with a key is the start of an entry, with a comma in front or not. -/
theorem groupFrom_cons_of_opensWithKey {piece : List Char} (h : opensWithKey piece = true)
    (afterComma : Bool) (earlier : List (List Char)) (more : List (Bool × List Char)) :
    groupFrom earlier ((afterComma, piece) :: more) =
      groupFrom (Text.trim piece :: earlier) more := by
  rw [groupFrom.eq_def]
  exact if_pos h

/-- Empty lines behind an entry add nothing to it. -/
theorem groupFrom_newlines (entry : List Char) (earlier : List (List Char)) (count : Nat)
    (text : List Char) :
    groupFrom (entry :: earlier) (pieces (List.replicate count '\n' ++ text)) =
      groupFrom (entry :: earlier) (pieces text) := by
  induction count with
  | zero => rfl
  | succ count ih =>
      have hempty : IsPiece [] := ⟨.nil, .nil⟩
      have hline := pieces_append_newline hempty (List.replicate count '\n' ++ text)
      rw [List.nil_append] at hline
      rw [List.replicate_succ, List.cons_append, hline, groupFrom]
      exact ih

end Pieces

/-! ## Keys -/

section Key

variable {c : Char} {text : List Char}

theorem isKeyChar_of_startsKey (h : startsKey c = true) : isKeyChar c = true := by
  simp only [startsKey, Bool.or_eq_true, decide_eq_true_eq] at h
  rcases h with (hletter | rfl) | rfl
  · simp [isKeyChar, Char.isAlphanum, hletter]
  · decide
  · decide

theorem continuesKey_of_isKeyChar (h : isKeyChar c = true) : continuesKey c = true := by
  obtain ⟨-, hhigh⟩ := toNat_of_isKeyChar h
  have hword : Text.isWord c = (c.isAlphanum || c = '_') := if_pos (by omega)
  simp only [isKeyChar, Bool.or_eq_true, decide_eq_true_eq] at h
  rw [continuesKey, hword]
  rcases h with (((hletter | rfl) | rfl) | rfl) | rfl
  · simp [hletter]
  all_goals decide

theorem isBlank_of_continuesKey (h : continuesKey c = true) : Text.isBlank c = false :=
  Text.isBlank_eq_false_of (by decide +kernel) h

theorem ne_of_continuesKey {d : Char} (hc : continuesKey c = true) (hd : continuesKey d = false) :
    c ≠ d := by
  rintro rfl
  exact Bool.noConfusion (hc.symm.trans hd)

theorem isNeutral_of_continuesKey (h : continuesKey c = true) : Text.IsNeutral c :=
  Text.isNeutral_of (by decide) h

theorem isQuote_of_continuesKey (h : continuesKey c = true) : isQuote c = false := by
  have hdouble : c ≠ '"' := ne_of_continuesKey h (by decide)
  have hsingle : c ≠ '\'' := ne_of_continuesKey h (by decide)
  simp [isQuote, hdouble, hsingle]

theorem dropWhile_isQuote (h : ∀ c ∈ text, continuesKey c = true) :
    text.dropWhile isQuote = text := by
  cases text with
  | nil => rfl
  | cons c cs =>
      have hc : isQuote c = false := isQuote_of_continuesKey (h c List.mem_cons_self)
      exact List.dropWhile_cons_of_neg (by simp [hc])

theorem unquote_of_continuesKey (h : ∀ c ∈ text, continuesKey c = true) :
    Text.unquote text = text := by
  have hback : text.reverse.dropWhile isQuote = text.reverse :=
    dropWhile_isQuote fun c hc => h c (List.mem_reverse.mp hc)
  calc Text.unquote text
    _ = ((text.dropWhile isQuote).reverse.dropWhile isQuote).reverse := rfl
    _ = text := by rw [dropWhile_isQuote h, hback, List.reverse_reverse]

end Key

/-- The name of a key: a letter, `_` or `$`, with word characters, `.`, `-` and `$` behind it. -/
def isKeyName : List Char → Bool
  | [] => false
  | c :: cs => startsKey c && cs.all continuesKey

section KeyName

variable {key : List Char} (h : isKeyName key = true)

include h in
theorem exists_cons_of_isKeyName :
    ∃ c cs, key = c :: cs ∧ startsKey c = true ∧ ∀ d ∈ cs, continuesKey d = true := by
  cases key with
  | nil => cases h
  | cons c cs =>
      obtain ⟨hstart, hrest⟩ := Bool.and_eq_true_iff.mp h
      exact ⟨c, cs, rfl, hstart, List.all_eq_true.mp hrest⟩

include h in
theorem continuesKey_of_mem : ∀ c ∈ key, continuesKey c = true := by
  obtain ⟨c, cs, rfl, hstart, hrest⟩ := exists_cons_of_isKeyName h
  exact List.forall_mem_cons.mpr
    ⟨continuesKey_of_isKeyChar (isKeyChar_of_startsKey hstart), hrest⟩

include h in
theorem isTight_of_isKeyName : IsTight key := by
  obtain ⟨c, cs, hkey, -⟩ := exists_cons_of_isKeyName h
  exact .of_forall (hkey ▸ List.cons_ne_nil c cs) fun d hd =>
    isBlank_of_continuesKey (continuesKey_of_mem h d hd)

include h in
theorem not_mem_of_isKeyName {c : Char} (hc : continuesKey c = false) : c ∉ key :=
  fun hmem => ne_of_continuesKey (continuesKey_of_mem h c hmem) hc rfl

include h in
/-- A key with a colon behind it opens a piece. -/
theorem opensWithKey_append_cons (rest : List Char) :
    opensWithKey (key ++ ':' :: rest) = true := by
  have hchars := continuesKey_of_mem h
  obtain ⟨c, cs, rfl, hstart, hrest⟩ := exists_cons_of_isKeyName h
  have hc : continuesKey c = true := hchars c List.mem_cons_self
  have hblank : Text.trimStart (c :: (cs ++ ':' :: rest)) = c :: (cs ++ ':' :: rest) :=
    List.dropWhile_cons_of_neg (by simp [isBlank_of_continuesKey hc])
  have hkeyEnd : (cs ++ ':' :: rest).dropWhile continuesKey = ':' :: rest := by
    rw [List.dropWhile_append_of_pos hrest]
    exact List.dropWhile_cons_of_neg (by decide)
  rw [List.cons_append, opensWithKey, hblank, dropQuote,
    if_neg (by simp [isQuote_of_continuesKey hc])]
  dsimp only
  rw [hkeyEnd, hstart]
  rfl

end KeyName

/-! ## Entries -/

/-- A letter, `_` or `$`, with key characters behind it. -/
def isKey : List Char → Bool
  | [] => false
  | c :: cs => (c.isAlpha || c = '_' || c = '$') && cs.all isKeyChar

/-- A key with a literal as its value. -/
structure Entry where
  key : List Char
  value : Literal
  wellFormed : isKey key = true

namespace Entry

def text (e : Entry) : List Char :=
  e.key ++ ':' :: ' ' :: e.value.text

def denote (e : Entry) : String × Json :=
  (String.ofList e.key, e.value.denote)

variable {e : Entry}

theorem exists_key_eq_cons (e : Entry) : ∃ c cs, e.key = c :: cs ∧ startsKey c = true := by
  obtain ⟨key, value, hkey⟩ := e
  cases key with
  | nil => cases hkey
  | cons c cs =>
      obtain ⟨hstart, -⟩ := Bool.and_eq_true_iff.mp hkey
      exact ⟨c, cs, rfl, hstart⟩

theorem isKeyChar_of_mem_key {c : Char} (h : c ∈ e.key) : isKeyChar c = true := by
  obtain ⟨key, value, hkey⟩ := e
  cases key with
  | nil => cases h
  | cons first rest =>
      obtain ⟨hfirst, hrest⟩ := Bool.and_eq_true_iff.mp hkey
      rcases List.mem_cons.mp h with rfl | hmem
      · exact isKeyChar_of_startsKey hfirst
      · exact List.all_eq_true.mp hrest c hmem

theorem isKeyName_key (e : Entry) : isKeyName e.key = true := by
  obtain ⟨c, cs, hkey, hstart⟩ := e.exists_key_eq_cons
  have hrest : ∀ d ∈ cs, continuesKey d = true := fun d hd =>
    continuesKey_of_isKeyChar (isKeyChar_of_mem_key (hkey ▸ List.mem_cons_of_mem c hd))
  rw [hkey, isKeyName, hstart, List.all_eq_true.mpr hrest]
  rfl

theorem isTight_key (e : Entry) : IsTight e.key :=
  isTight_of_isKeyName e.isKeyName_key

theorem isTight_text (e : Entry) : IsTight e.text := by
  have htight := e.isTight_key.append [':', ' '] e.value.isTight_text
  rwa [List.append_assoc] at htight

theorem sealed_text {sep : Char} (hsep : Text.IsNeutral sep) (hkey : isKeyChar sep = false)
    (hcolon : ':' ≠ sep) (hspace : ' ' ≠ sep) (e : Entry) : Sealed sep 0 e.text := by
  have hmiddle : Sealed sep 0 (':' :: ' ' :: e.value.text) :=
    ((e.value.sealed_text hsep hkey).cons (by decide) (.inl hspace)).cons (by decide) (.inl hcolon)
  exact (sealed_of_isKeyChar hkey fun _ => isKeyChar_of_mem_key).append hmiddle

theorem isPiece_text (e : Entry) : IsPiece e.text where
  comma := e.sealed_text (by decide) (by decide) (by decide) (by decide)
  line := e.sealed_text (by decide) (by decide) (by decide) (by decide)

theorem opensWithKey_text (e : Entry) : opensWithKey e.text = true :=
  opensWithKey_append_cons e.isKeyName_key _

/-- Cutting at the first colon gives the key and the value. -/
theorem entry_text (body : List Char) (e : Entry) : entry body e.text = .ok e.denote := by
  have hcolon : ':' ∉ e.key := not_mem_of_isKeyName e.isKeyName_key (by decide)
  have hcut : Text.cutFirst? ':' e.text = some (e.key, ' ' :: e.value.text) :=
    Text.cutFirst?_append_cons hcolon _
  have hvalue : Text.trim (' ' :: e.value.text) = e.value.text := by
    rw [Text.trim_cons_of_isBlank (by decide), e.value.isTight_text.trim_eq]
  have hkey : Text.unquote (Text.trim e.key) = e.key := by
    rw [e.isTight_key.trim_eq, unquote_of_continuesKey (continuesKey_of_mem e.isKeyName_key)]
  rw [entry, hcut]
  dsimp only
  rw [hvalue, e.value.value?_text (Nat.le_refl _), hkey]
  rfl

end Entry

/-! ## Listings -/

/-- What stands between two entries: a comma and a space, or line breaks. -/
inductive Gap
  | comma
  | lines (more : Nat)

def Gap.text : Gap → List Char
  | .comma => [',', ' ']
  | .lines more => List.replicate (more + 1) '\n'

/-- Entries with gaps between neighbours. -/
structure Listing where
  first : Entry
  rest : List (Gap × Entry)

namespace Listing

def entries (l : Listing) : List Entry :=
  l.first :: l.rest.map (·.2)

/-- Entries with gaps in front of them. -/
def restText (rest : List (Gap × Entry)) : List Char :=
  rest.flatMap fun (gap, e) => gap.text ++ e.text

def text (l : Listing) : List Char :=
  l.first.text ++ restText l.rest

theorem restText_cons (gap : Gap) (e : Entry) (rest : List (Gap × Entry)) :
    restText ((gap, e) :: rest) = gap.text ++ (e.text ++ restText rest) := by
  rw [restText, List.flatMap_cons, ← restText, List.append_assoc]

theorem isTight_append_restText {front : List Char} (h : IsTight front)
    (rest : List (Gap × Entry)) : IsTight (front ++ restText rest) := by
  induction rest generalizing front with
  | nil => rwa [restText, List.flatMap_nil, List.append_nil]
  | cons item rest ih =>
      obtain ⟨gap, e⟩ := item
      rw [restText_cons, ← List.append_assoc, ← List.append_assoc]
      exact ih (h.append gap.text e.isTight_text)

/-- Every entry is a group of its own.  The first piece may have a space or a comma in front,
since what opens with a key starts a group all the same. -/
theorem groupFrom_pieces {front : List Char} (hpiece : IsPiece front)
    (hopens : opensWithKey front = true) (rest : List (Gap × Entry)) (afterComma : Bool)
    (earlier : List (List Char)) :
    groupFrom earlier (marked afterComma (pieces (front ++ restText rest))) =
      .ok ((rest.map fun item => item.2.text).reverse ++ Text.trim front :: earlier) := by
  induction rest generalizing front afterComma earlier with
  | nil =>
      rw [restText, List.flatMap_nil, List.append_nil, pieces_of_isPiece hpiece, marked,
        groupFrom_cons_of_opensWithKey hopens]
      rfl
  | cons item rest ih =>
      obtain ⟨gap, e⟩ := item
      rw [restText_cons, List.map_cons, List.reverse_cons, List.append_assoc]
      cases gap with
      | comma =>
          have hspace : IsPiece (' ' :: e.text) :=
            ⟨e.isPiece_text.comma.cons (by decide) (.inl (by decide)),
              e.isPiece_text.line.cons (by decide) (.inl (by decide))⟩
          have hnext := ih hspace e.opensWithKey_text true (Text.trim front :: earlier)
          rw [Text.trim_cons_of_isBlank (by decide), e.isTight_text.trim_eq] at hnext
          have hcut := pieces_append_comma hpiece (' ' :: e.text ++ restText rest)
          exact (congrArg (fun cut => groupFrom earlier (marked afterComma cut)) hcut).trans
            ((groupFrom_cons_of_opensWithKey hopens _ _ _).trans hnext)
      | lines more =>
          have hnext := ih e.isPiece_text e.opensWithKey_text false (Text.trim front :: earlier)
          rw [marked_false_pieces, e.isTight_text.trim_eq] at hnext
          rw [Gap.text, List.replicate_succ, List.cons_append, pieces_append_newline hpiece, marked,
            groupFrom_cons_of_opensWithKey hopens, groupFrom_newlines]
          exact hnext

theorem entries_text (l : Listing) :
    TagBody.entries l.text = .ok (l.entries.map Entry.text) := by
  have hgroups := groupFrom_pieces l.first.isPiece_text l.first.opensWithKey_text l.rest false []
  rw [marked_false_pieces, l.first.isTight_text.trim_eq] at hgroups
  rw [TagBody.entries, text, hgroups, entries, List.map_cons, List.map_map]
  simp [Except.map, Function.comp_def]

/-- Only a parenthesis in front can be left out. -/
theorem unwrap_cons_of_ne {c : Char} (h : c ≠ '(') (text : List Char) :
    unwrap (c :: text) = c :: text := by
  have hnone : Text.parenthesized? (c :: text) = none := by
    unfold Text.parenthesized?
    split
    · next heq => exact absurd (List.cons.inj heq).1 h
    · rfl
  rw [unwrap, hnone]

/-- A listing of distinct keys is read as these keys with the values of their literals. -/
theorem parse_text (l : Listing) (h : (l.entries.map Entry.key).Nodup) :
    parse (String.ofList l.text) = .ok (l.entries.map Entry.denote) := by
  have htight : IsTight l.text := isTight_append_restText l.first.isTight_text l.rest
  obtain ⟨c, cs, hkey, hstart⟩ := l.first.exists_key_eq_cons
  have hchar : isKeyChar c = true := isKeyChar_of_startsKey hstart
  obtain ⟨rest, htext⟩ : ∃ rest, l.text = c :: rest := by
    rw [text, Entry.text, hkey]
    exact ⟨_, rfl⟩
  have hunwrap : unwrap l.text = l.text := by
    rw [htext]
    exact unwrap_cons_of_ne (ne_of_isKeyChar hchar (by decide)) rest
  have hbraces : enclosed '\x7b' '\x7d' l.text = false := by
    rw [htext]
    exact enclosed_cons_of_ne (ne_of_isKeyChar hchar (by decide)) _ _
  have hempty : l.text.isEmpty = false := by rw [htext]; rfl
  have hread : (l.entries.map Entry.text).mapM (entry l.text) =
      .ok (l.entries.map Entry.denote) := by
    rw [List.mapM_map]
    exact mapM_eq_ok_map fun e _ => e.entry_text l.text
  have hkeys : (Dict.keys (l.entries.map Entry.denote)).Nodup := by
    have hnames := h.map fun _ _ => String.ofList_injective
    rw [Dict.keys, List.map_map]
    rwa [List.map_map] at hnames
  rw [parse, String.toList_ofList, htight.trim_eq, hunwrap, hempty, hbraces, l.entries_text]
  simp [hread, Except.map, Dict.merged_of_nodup hkeys]

/-- Lists inside lists, the smallest number, an empty line, and a text with quotes, a comma
and a bracket. -/
theorem parse_text_nested :
    let lowest : Numeral :=
      { negative := true
        digits := [9, 2, 2, 3, 3, 7, 2, 0, 3, 6, 8, 5, 4, 7, 7, 5, 8, 0, 8]
        ne_nil := by decide
        lower := by decide +kernel
        upper := by decide +kernel }
    let items : Literal := .list [.flag true, .list [.null, .list []], .numeral lowest]
    let said : Literal := .quoted "a \"b], c\"".toList (by decide +kernel)
    let listing : Listing :=
      { first := ⟨"x-items.all".toList, items, by decide +kernel⟩
        rest := [(.lines 1, ⟨"$id".toList, .flag false, by decide +kernel⟩),
          (.comma, ⟨"_said".toList, said, by decide +kernel⟩)] }
    (listing.entries.map Entry.key).Nodup ∧
      String.ofList listing.text =
        "x-items.all: [true, [null, []], -9223372036854775808]\n\n" ++
          "$id: false, _said: \"a \\\"b], c\\\"\"" ∧
      parse (String.ofList listing.text) =
        .ok [("x-items.all", .arr [.bool true, .arr [.null, .arr []],
          .num (.int (-9223372036854775808))]), ("$id", .bool false),
          ("_said", .str "a \"b], c\"")] := by
  intro lowest items said listing
  have hkeys : (listing.entries.map Entry.key).Nodup := by decide +kernel
  exact ⟨hkeys, by decide +kernel, parse_text listing hkeys⟩

end Listing

end ApiDoc.TagBody
