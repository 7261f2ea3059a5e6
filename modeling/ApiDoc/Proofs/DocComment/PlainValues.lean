import ApiDoc.Proofs.DocComment.LineEnds
import ApiDoc.Proofs.Text.Spacing

/-!
# Plain values

A plain value is a text on the line of its key that is neither a list nor an object, nor a quoted
text, nor a word or number that is read by its look.  The line is cut at the commas of the value,
the pieces without a key go back to the entry one by one, and each of them is trimmed before.
So the value that is read has one space behind every comma outside of brackets and strings, and no
white space in front of it: it is the text as it is written exactly if the text has this spacing.
-/

namespace ApiDoc.TagBody

open Text (IsWhole Scan)

variable {key text rest : List Char}

/-! ## The entry of a line -/

theorem extendEntry_trim (entry piece : List Char) :
    extendEntry entry true (Text.trim piece) = entry ++ ',' :: Text.respace piece := by
  rw [extendEntry, Text.respace]
  cases Text.trim piece with
  | nil => rfl
  | cons c cs => exact List.append_assoc entry [','] (' ' :: c :: cs)

/-- The pieces behind commas come back with one space in front of each of them. -/
theorem foldl_extendEntry (entry : List Char) (pieces : List (List Char)) :
    pieces.foldl (fun entry piece => extendEntry entry true (Text.trim piece)) entry =
      entry ++ pieces.flatMap fun piece => ',' :: Text.respace piece := by
  induction pieces generalizing entry with
  | nil => exact (List.append_nil entry).symm
  | cons piece more ih =>
      rw [List.foldl_cons, ih, extendEntry_trim, List.flatMap_cons, List.append_assoc]

section Key

variable (hkey : isKeyName key = true)

include hkey in
theorem isWhole_key {sep : Char} (hsep : continuesKey sep = false) (hcolon : ':' ≠ sep) :
    IsWhole sep (key ++ [':']) := by
  refine .of_neutral (List.forall_mem_append.mpr ⟨?_, List.forall_mem_singleton.mpr (by decide)⟩) ?_
  · exact fun c hc => isNeutral_of_continuesKey (continuesKey_of_mem hkey c hc)
  · simp [not_mem_of_isKeyName hkey hsep, Ne.symm hcolon]

include hkey in
/-- The key and the colon go to the first piece. -/
theorem splitTop_key {first : List Char} {pieces : List (List Char)}
    (h : Text.splitTop ',' rest = first :: pieces) :
    Text.splitTop ',' (key ++ ':' :: rest) = (key ++ ':' :: first) :: pieces := by
  have hcut := Text.splitTop_append_first (by decide) (isWhole_key hkey (by decide) (by decide)) h
  rwa [List.append_assoc, List.append_assoc] at hcut

include hkey in
theorem lineEntry_key (rest : List Char) :
    lineEntry (key ++ ':' :: rest) = key ++ ':' :: Text.respaced ',' rest := by
  obtain ⟨first, pieces, hpieces, -⟩ := Text.exists_splitTop ',' rest
  rw [lineEntry, splitTop_key hkey hpieces, Text.respaced_eq hpieces]
  dsimp only
  rw [foldl_extendEntry, Text.trim_append_cons (isTight_of_isKeyName hkey) (by decide),
    List.append_assoc]
  rfl

end Key

/-! ## Plain values -/

/-- A text on one line that is read as it is, closes what it opens, and has no comma outside of
brackets and strings behind which a key stands. -/
@[mk_iff]
structure IsPlainText (text : List Char) : Prop extends IsVerbatim text where
  line : '\n' ∉ text
  closed : Scan.start.run text = .start
  keyless : ∀ piece ∈ (Text.splitTop ',' text).tail, opensWithKey piece = false

instance : DecidablePred IsPlainText := fun text =>
  decidable_of_iff' _ (isPlainText_iff text)

theorem enclosed_congr {opening closing : Char} {other : List Char}
    (hhead : text.head? = other.head?) (hlast : text.getLast? = other.getLast?) :
    enclosed opening closing text = enclosed opening closing other := by
  rw [enclosed, hhead, hlast, enclosed]

/-- The new spacing makes no list, object, string, word or number of a text. -/
theorem IsVerbatim.respaced (h : IsVerbatim text) : IsVerbatim (Text.respaced ',' text) := by
  have hsame : ∀ opening closing, enclosed opening closing (Text.respaced ',' text) =
      enclosed opening closing text := fun _ _ =>
    enclosed_congr (Text.head?_respaced h.trimmed) (Text.getLast?_respaced h.trimmed)
  have hscalar : (∀ word ∈ ["null", "true", "false"], Text.respaced ',' text ≠ word.toList) ∧
      Scalar.number? (Text.respaced ',' text) = none := by
    have hcommas : Text.respaced ',' text = text ∨ ',' ∈ Text.respaced ',' text :=
      Text.respaced_eq_or_mem h.trimmed
    rcases hcommas with heq | hmem
    · rw [heq]
      exact ⟨h.word, h.number⟩
    · exact ⟨ne_word_of_comma_mem hmem, number?_of_comma_mem hmem⟩
  exact {
    trimmed := Text.trim_respaced h.trimmed
    list := (hsame _ _).trans h.list
    braces := (hsame _ _).trans h.braces
    double := (hsame _ _).trans h.double
    single := (hsame _ _).trans h.single
    word := hscalar.1
    number := hscalar.2 }

/-- The entry of a key and a plain value. -/
theorem entry_key (body : List Char) (hkey : isKeyName key = true) (h : IsVerbatim text)
    (hrest : Text.trim rest = text) :
    entry body (key ++ ':' :: rest) = .ok (String.ofList key, .str (String.ofList text)) := by
  have hcolon : ':' ∉ key := not_mem_of_isKeyName hkey (by decide)
  rw [entry, Text.cutFirst?_append_cons hcolon]
  dsimp only
  rw [hrest, h.value?_eq, (isTight_of_isKeyName hkey).trim_eq,
    unquote_of_continuesKey (continuesKey_of_mem hkey)]

namespace IsPlainText

variable (h : IsPlainText text)

include h in
theorem isWhole_newline : IsWhole '\n' text :=
  ⟨h.closed, Scan.whole_of_not_mem h.line⟩

include h in
/-- The line of a key and a plain value has one entry. -/
theorem isEntryLine (hkey : isKeyName key = true) :
    IsEntryLine (key ++ ':' :: Text.respace text) where
  whole := by
    have hfront : IsWhole '\n' (key ++ [':']) := isWhole_key hkey (by decide) (by decide)
    have hline := hfront.append (h.isWhole_newline.respace (by decide))
    rwa [List.append_assoc] at hline
  opens := by
    obtain ⟨first, pieces, hpieces, -⟩ := Text.exists_splitTop ',' text
    obtain ⟨front, hfront, -⟩ := Text.splitTop_respace h.trimmed (by decide) (by decide) hpieces
    have hkeyless := h.keyless
    rw [hpieces] at hkeyless
    exact ⟨_, pieces, splitTop_key hkey hfront, opensWithKey_append_cons hkey front, hkeyless⟩

include h in
/-- What is read is the text with one space behind every comma. -/
theorem parse_eq (hkey : isKeyName key = true) :
    parse (String.ofList (key ++ ':' :: ' ' :: text)) =
      .ok [(String.ofList key, .str (String.ofList (Text.respaced ',' text)))] := by
  have hbody : Text.trim (String.ofList (key ++ ':' :: ' ' :: text)).toList =
      Text.join ['\n'] [key ++ ':' :: Text.respace text] := by
    rw [String.toList_ofList, Text.trim_append_cons (isTight_of_isKeyName hkey) (by decide),
      Text.trimEnd_cons_space h.trimmed]
    rfl
  have hentry := entry_key (Text.join ['\n'] [key ++ ':' :: Text.respace text]) hkey
    h.respaced (Text.trim_respaced_respace h.trimmed (by decide) (by decide))
  have hone : (Dict.keys [(String.ofList key,
      Json.str (String.ofList (Text.respaced ',' text)))]).Nodup := List.nodup_singleton _
  rw [parse_eq_mapM (List.cons_ne_nil _ _) (List.forall_mem_singleton.mpr (h.isEntryLine hkey))
    hbody, List.map_singleton, lineEntry_key hkey]
  simp [hentry, Except.map, Dict.merged_of_nodup hone]

end IsPlainText

/-- A key with a plain value is read as this key, and the value as its text with one space behind
every comma outside of brackets and strings, and no white space in front of it.  That is the text
as it is written exactly if it has this spacing. -/
theorem parse_plainText (hkey : isKeyName key = true) (h : IsPlainText text) :
    parse (String.ofList (key ++ ':' :: ' ' :: text)) =
        .ok [(String.ofList key, .str (String.ofList (Text.respaced ',' text)))] ∧
      (parse (String.ofList (key ++ ':' :: ' ' :: text)) =
          .ok [(String.ofList key, .str (String.ofList text))] ↔ Text.IsSpaced ',' text) := by
  have hread := h.parse_eq hkey
  refine ⟨hread, ?_⟩
  rw [hread, ← Text.respaced_eq_self_iff (by decide) (by decide) h.closed]
  simp [String.ofList_inj]

/-- Commas with and without a space behind them, one with a space in front, two in a row, and one
at the end.  The commas in brackets are not touched. -/
theorem parse_plainText_limits :
    let key := "x-größe.all".toList
    let text := "Up to 1,000 ,  it's [a,b] or (c,d),, \"e,f\",".toList
    isKeyName key = true ∧ IsPlainText text ∧
      parse "x-größe.all: Up to 1,000 ,  it's [a,b] or (c,d),, \"e,f\"," =
        .ok [("x-größe.all", .str "Up to 1, 000, it's [a,b] or (c,d),, \"e,f\",")] ∧
      ¬ Text.IsSpaced ',' text := by
  intro key text
  have hkey : isKeyName key = true := by decide +kernel
  have hplain : IsPlainText text := by decide +kernel
  obtain ⟨hread, -⟩ := parse_plainText hkey hplain
  have hspaced : Text.respaced ',' text =
      "Up to 1, 000, it's [a,b] or (c,d),, \"e,f\",".toList := by
    decide +kernel
  rw [hspaced] at hread
  refine ⟨hkey, hplain, hread, fun hsame => ?_⟩
  rw [← Text.respaced_eq_self_iff (by decide) (by decide) hplain.closed, hspaced] at hsame
  exact absurd hsame (by decide +kernel)

/-- A space comes behind the comma of a number. -/
theorem not_parse_plainText_thousands :
    let text := "Up to 1,000 users".toList
    isKeyName "description".toList = true ∧ IsPlainText text ∧
      parse "description: Up to 1,000 users" =
        .ok [("description", .str "Up to 1, 000 users")] ∧
      parse "description: Up to 1,000 users" ≠ .ok [("description", .str "Up to 1,000 users")] := by
  intro text
  have hread : parse "description: Up to 1,000 users" =
      .ok [("description", .str "Up to 1, 000 users")] := by
    rfl
  refine ⟨by decide +kernel, by decide +kernel, hread, ?_⟩
  rw [hread]
  simp

end ApiDoc.TagBody
