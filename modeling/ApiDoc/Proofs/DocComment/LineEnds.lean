import ApiDoc.Proofs.DocComment.Entries
import ApiDoc.Proofs.Json.Strings
import Mathlib.Tactic.MkIffOfInductiveProp

/-!
# Commas at line ends

A body has one entry on every line.  A comma at the end of a line is not a separator: nothing
that opens with a key follows it on the line, so it belongs to the value in front of it.  The
value is then no list, no object and no quoted text any more, but the text as it is written,
with the comma.
-/

namespace ApiDoc.TagBody

open Text (IsWhole Scan)

/-! ## Values that are read as they are -/

/-- A text without white space at its ends that is no list, no object, no quoted text, and none of
the words and numbers that are read by their look. -/
@[mk_iff]
structure IsVerbatim (text : List Char) : Prop where
  trimmed : Text.trim text = text
  list : enclosed '[' ']' text = false
  braces : enclosed '\x7b' '\x7d' text = false
  double : enclosed '"' '"' text = false
  single : enclosed '\'' '\'' text = false
  word : ∀ word ∈ ["null", "true", "false"], text ≠ word.toList
  number : Scalar.number? text = none

instance : DecidablePred IsVerbatim := fun text =>
  decidable_of_iff' _ (isVerbatim_iff text)

/-- Such a text is its own value. -/
theorem IsVerbatim.value?_eq {text : List Char} (h : IsVerbatim text) (fuel : Nat) :
    value? (fuel + 1) text = some (.str (String.ofList text)) := by
  have hword : ∀ word ∈ ["null", "true", "false"], String.ofList text ≠ word := by
    rintro word hmem rfl
    exact h.word _ hmem String.toList_ofList.symm
  have hguess : Scalar.guess (String.ofList text) = .str (String.ofList text) := by
    rw [Scalar.guess, String.toList_ofList, h.trimmed, h.number]
    dsimp only
    split
    · next heq => exact absurd heq (hword "true" (by decide))
    · next heq => exact absurd heq (hword "false" (by decide))
    · rfl
  rw [value?, h.list, h.braces, h.double, h.single, if_neg (h.word "null" (by decide)), hguess]
  simp

/-- A text with a comma is no number. -/
theorem number?_of_comma_mem {text : List Char} (h : ',' ∈ text) : Scalar.number? text = none :=
  Scalar.number?_of_mem h (by decide) (by decide)

/-- No word has a comma. -/
theorem ne_word_of_comma_mem {text : List Char} (h : ',' ∈ text) :
    ∀ word ∈ ["null", "true", "false"], text ≠ word.toList := by
  have hnone : ∀ word ∈ ["null", "true", "false"], ',' ∉ word.toList := by decide
  rintro word hword rfl
  exact hnone word hword h

theorem enclosed_concat_of_ne {opening closing last : Char} (h : last ≠ closing)
    (front : List Char) : enclosed opening closing (front ++ [last]) = false := by
  simp [enclosed, h]

/-- A comma at the end takes the closing quote or bracket from it. -/
theorem isVerbatim_concat_comma {text : List Char}
    (h : Text.trim (text ++ [',']) = text ++ [',']) : IsVerbatim (text ++ [',']) where
  trimmed := h
  list := enclosed_concat_of_ne (by decide) text
  braces := enclosed_concat_of_ne (by decide) text
  double := enclosed_concat_of_ne (by decide) text
  single := enclosed_concat_of_ne (by decide) text
  word := ne_word_of_comma_mem (by simp)
  number := number?_of_comma_mem (by simp)

theorem length_replace_le {mark short : List Char} (hle : short.length ≤ mark.length) (fuel : Nat)
    (text : List Char) : (Text.replace mark short fuel text).length ≤ text.length := by
  induction fuel generalizing text with
  | zero => exact Nat.le_refl _
  | succ fuel ih =>
      cases text with
      | nil => exact Nat.le_refl _
      | cons c cs =>
          rw [Text.replace]
          split
          · next rest hrest =>
              have htext : (c :: cs).length = mark.length + rest.length := by
                rw [Text.dropHead?_eq_some_iff.mp hrest, List.length_append]
              have hshort := ih rest
              rw [List.length_append]
              omega
          · exact Nat.succ_le_succ (ih cs)

theorem length_le_of_guess_str {text : List Char} {s : String}
    (h : Scalar.guess (String.ofList text) = .str s) : s.toList.length ≤ text.length := by
  unfold Scalar.guess at h
  dsimp only at h
  split at h
  · cases h
  · split at h
    · cases h
    · cases h
    · obtain rfl := Json.str.inj h
      rw [String.toList_ofList, String.toList_ofList]
      exact (Text.length_trim_le text).trans (List.length_dropWhile_le _ _)

/-- A text that is read is not longer than what it is read from. -/
theorem length_le_of_value?_str {fuel : Nat} {raw : List Char} {s : String}
    (h : value? fuel raw = some (.str s)) : s.toList.length ≤ raw.length := by
  cases fuel with
  | zero => cases h
  | succ fuel =>
      rw [value?] at h
      split at h
      · split at h
        · cases h
        · obtain ⟨items, -, heq⟩ := Option.map_eq_some_iff.mp h
          cases heq
      · split at h
        · next hbraces =>
            obtain ⟨hhead, -⟩ := Bool.and_eq_true_iff.mp hbraces
            cases raw with
            | nil => cases hhead
            | cons c cs =>
                obtain rfl : c = '\x7b' := by simpa using hhead
                obtain ⟨text, rest, hquote, -⟩ := Json.exists_quote_of_read?_str h
                exact absurd (List.cons.inj hquote).1 (by decide)
        · split at h
          · obtain rfl := Json.str.inj (Option.some.inj h)
            have hinner : (inner raw).length ≤ raw.length := by
              rw [inner, List.length_dropLast, List.length_drop]
              omega
            rw [String.toList_ofList]
            exact (length_replace_le (by decide) _ _).trans hinner
          · split at h
            · cases h
            · exact length_le_of_guess_str (Option.some.inj h)

/-! ## Lines with one entry -/

/-- The line has one entry: its strings and brackets are closed, line breaks stand only inside
of them, and of the pieces between commas the first one opens with a key, and no other. -/
structure IsEntryLine (line : List Char) : Prop where
  whole : IsWhole '\n' line
  opens : ∃ first rest, Text.splitTop ',' line = first :: rest ∧ opensWithKey first = true ∧
    ∀ piece ∈ rest, opensWithKey piece = false

/-- The entry of a line: the pieces between commas, each without white space around it. -/
def lineEntry (line : List Char) : List Char :=
  match Text.splitTop ',' line with
  | first :: rest =>
      rest.foldl (fun entry piece => extendEntry entry true (Text.trim piece)) (Text.trim first)
  | [] => []

/-- The pieces of a line. -/
def linePieces (line : List Char) : List (Bool × List Char) :=
  match Text.splitTop ',' line with
  | first :: rest => (false, first) :: rest.map fun piece => (true, piece)
  | [] => []

theorem groupFrom_cons_of_not_opens {piece : List Char} (h : opensWithKey piece = false)
    (afterComma : Bool) (entry : List Char) (earlier : List (List Char))
    (more : List (Bool × List Char)) :
    groupFrom (entry :: earlier) ((afterComma, piece) :: more) =
      groupFrom (extendEntry entry afterComma (Text.trim piece) :: earlier) more := by
  rw [groupFrom.eq_def]
  exact if_neg (by simp [h])

theorem groupFrom_append_of_not_opens {rest : List (List Char)}
    (h : ∀ piece ∈ rest, opensWithKey piece = false) (entry : List Char)
    (earlier : List (List Char)) (more : List (Bool × List Char)) :
    groupFrom (entry :: earlier) ((rest.map fun piece => (true, piece)) ++ more) =
      groupFrom (rest.foldl (fun entry piece => extendEntry entry true (Text.trim piece)) entry ::
        earlier) more := by
  induction rest generalizing entry with
  | nil => rfl
  | cons piece rest ih =>
      obtain ⟨hpiece, hrest⟩ := List.forall_mem_cons.mp h
      rw [List.map_cons, List.cons_append, groupFrom_cons_of_not_opens hpiece]
      exact ih hrest _

namespace IsEntryLine

variable {line : List Char}

/-- A line is one group. -/
theorem groupFrom_linePieces (h : IsEntryLine line) (earlier : List (List Char))
    (more : List (Bool × List Char)) :
    groupFrom earlier (linePieces line ++ more) = groupFrom (lineEntry line :: earlier) more := by
  obtain ⟨first, rest, hpieces, hfirst, hrest⟩ := h.opens
  rw [linePieces, lineEntry, hpieces]
  dsimp only
  rw [List.cons_append, groupFrom_cons_of_opensWithKey hfirst, groupFrom_append_of_not_opens hrest]

/-- A comma at the end goes to the entry. -/
theorem concat_comma (h : IsEntryLine line) : IsEntryLine (line ++ [',']) where
  whole := h.whole.append (.of_char (by decide) (by decide))
  opens := by
    obtain ⟨first, rest, hpieces, hfirst, hrest⟩ := h.opens
    refine ⟨first, rest ++ [[]], ?_, hfirst, ?_⟩
    · exact (Scan.cut_concat (by decide) h.whole.run).trans (congrArg (· ++ [[]]) hpieces)
    · exact List.forall_mem_append.mpr ⟨hrest, List.forall_mem_singleton.mpr (by decide)⟩

theorem lineEntry_concat_comma (h : IsEntryLine line) :
    lineEntry (line ++ [',']) = lineEntry line ++ [','] := by
  obtain ⟨first, rest, hpieces, -, -⟩ := h.opens
  have hcut : Text.splitTop ',' (line ++ [',']) = first :: (rest ++ [[]]) :=
    (Scan.cut_concat (by decide) h.whole.run).trans (congrArg (· ++ [[]]) hpieces)
  rw [lineEntry, hcut, lineEntry, hpieces]
  dsimp only
  rw [List.foldl_append]
  rfl

end IsEntryLine

/-- Lines of one entry each are read as these entries. -/
theorem entries_join {lines : List (List Char)} (hne : lines ≠ [])
    (h : ∀ line ∈ lines, IsEntryLine line) :
    entries (Text.join ['\n'] lines) = .ok (lines.map lineEntry) := by
  have hpieces : pieces (Text.join ['\n'] lines) = lines.flatMap linePieces := by
    rw [pieces, Text.splitTop_join_sep (by decide) hne fun line hline => (h line hline).whole]
    rfl
  have hgroups : ∀ earlier, groupFrom earlier (lines.flatMap linePieces) =
      .ok ((lines.map lineEntry).reverse ++ earlier) := by
    clear hne hpieces
    induction lines with
    | nil => exact fun _ => rfl
    | cons line rest ih =>
        obtain ⟨hline, hrest⟩ := List.forall_mem_cons.mp h
        intro earlier
        rw [List.flatMap_cons, hline.groupFrom_linePieces, ih hrest, List.map_cons,
          List.reverse_cons, List.append_assoc]
        rfl
  rw [entries, hpieces, hgroups]
  simp [Except.map]

/-! ## Keys and values of entries -/

/-- The key of an entry, in front of the first colon. -/
def keyOf (entry : List Char) : String :=
  String.ofList (Text.unquote (Text.trim (((Text.cutFirst? ':' entry).map Prod.fst).getD [])))

/-- The text of the value of an entry, behind the first colon. -/
def textOf (entry : List Char) : List Char :=
  Text.trimStart (((Text.cutFirst? ':' entry).map Prod.snd).getD [])

section Entry

variable {body other text : List Char} {member : String × Json}

theorem exists_cut_of_entry (h : entry body text = .ok member) :
    ∃ key raw, Text.cutFirst? ':' text = some (key, raw) ∧
      member.1 = String.ofList (Text.unquote (Text.trim key)) ∧
      value? ((Text.trim raw).length + 1) (Text.trim raw) = some member.2 := by
  rw [entry] at h
  split at h
  · cases h
  · next key raw hcut =>
      dsimp only at h
      split at h
      · next j hj =>
          obtain rfl := Except.ok.inj h
          exact ⟨key, raw, hcut, rfl, hj⟩
      · cases h

theorem fst_eq_of_entry (h : entry body text = .ok member) : member.1 = keyOf text := by
  obtain ⟨key, raw, hcut, hkey, -⟩ := exists_cut_of_entry h
  rw [hkey, keyOf, hcut]
  rfl

/-- The body plays a part in errors only. -/
theorem entry_of_entry (h : entry body text = .ok member) (other : List Char) :
    entry other text = .ok member := by
  obtain ⟨key, raw, hcut, hkey, hvalue⟩ := exists_cut_of_entry h
  rw [entry, hcut]
  dsimp only
  rw [hvalue, ← hkey]

/-- With a comma behind it, the value of an entry is its text with the comma. -/
theorem entry_concat_comma (h : entry body text = .ok member) (other : List Char) :
    entry other (text ++ [',']) =
      .ok (keyOf text, .str (String.ofList (textOf text ++ [',']))) := by
  obtain ⟨key, raw, hcut, -, -⟩ := exists_cut_of_entry h
  have htrim : Text.trim (raw ++ [',']) = Text.trimStart raw ++ [','] :=
    Text.trim_concat (by decide) raw
  have htwice : Text.trim (Text.trimStart raw ++ [',']) = Text.trimStart raw ++ [','] := by
    rw [Text.trim_concat (by decide), Text.trimStart_trimStart]
  rw [entry, Text.cutFirst?_append hcut]
  dsimp only
  rw [htrim, (isVerbatim_concat_comma htwice).value?_eq, keyOf, textOf, hcut]
  rfl

/-- The comma changes every value. -/
theorem snd_ne_of_entry (h : entry body text = .ok member) :
    member.2 ≠ .str (String.ofList (textOf text ++ [','])) := by
  obtain ⟨key, raw, hcut, -, hvalue⟩ := exists_cut_of_entry h
  intro heq
  rw [heq] at hvalue
  have hlength := length_le_of_value?_str hvalue
  have htext : textOf text = Text.trimStart raw := by
    rw [textOf, hcut]
    rfl
  rw [String.toList_ofList, htext, List.length_append, List.length_singleton] at hlength
  have htrim := Text.length_trim_le raw
  omega

end Entry

/-! ## Bodies -/

/-- What opens with a key, or a quote in front of it, opens with no bracket. -/
theorem exists_cons_of_opensWithKey {piece : List Char} (h : opensWithKey piece = true) :
    ∃ c cs, Text.trimStart piece = c :: cs ∧ c ≠ '(' ∧ c ≠ '\x7b' := by
  rw [opensWithKey] at h
  cases htrim : Text.trimStart piece with
  | nil =>
      rw [htrim] at h
      cases h
  | cons c cs =>
      refine ⟨c, cs, rfl, ?_, ?_⟩
      · rintro rfl
        rw [htrim] at h
        exact absurd h (by simp [dropQuote, isQuote, startsKey])
      · rintro rfl
        rw [htrim] at h
        exact absurd h (by simp [dropQuote, isQuote, startsKey])

/-- A trimmed body whose first line has an entry does not start with a bracket. -/
theorem exists_cons_of_trim_eq {body : String} {line : List Char} {others : List (List Char)}
    (hline : IsEntryLine line)
    (hbody : Text.trim body.toList = Text.join ['\n'] (line :: others)) :
    ∃ c rest, Text.join ['\n'] (line :: others) = c :: rest ∧ c ≠ '(' ∧ c ≠ '\x7b' := by
  obtain ⟨first, rest, hpieces, hopens, -⟩ := hline.opens
  obtain ⟨c, cs, htrim, hparen, hbrace⟩ := exists_cons_of_opensWithKey hopens
  obtain ⟨d, ds, rfl⟩ : ∃ d ds, first = d :: ds := by
    refine List.exists_cons_of_ne_nil ?_
    rintro rfl
    cases htrim
  obtain ⟨more, hmore⟩ : ∃ more, line = d :: ds ++ more := by
    have hjoin : Text.join [','] ((d :: ds) :: rest) = line :=
      hpieces ▸ Text.join_splitTopFrom ',' .outside 0 line
    cases rest with
    | nil => exact ⟨[], by rw [← hjoin, List.append_nil]; rfl⟩
    | cons second others =>
        rw [Text.join_cons_of_ne_nil _ _ (List.cons_ne_nil _ _), List.append_assoc] at hjoin
        exact ⟨_, hjoin.symm⟩
  obtain ⟨tail, htail⟩ : ∃ tail, Text.join ['\n'] (line :: others) = d :: tail := by
    rw [hmore]
    cases others with
    | nil => exact ⟨ds ++ more, rfl⟩
    | cons second others =>
        rw [Text.join_cons_of_ne_nil _ _ (List.cons_ne_nil _ _), List.append_assoc]
        exact ⟨_, rfl⟩
  have hhead : Text.isBlank d = false := Text.isBlank_head_trim (hbody.trans htail)
  have hsame : d = c := by
    rw [Text.trimStart, List.dropWhile_cons_of_neg (by simp [hhead])] at htrim
    exact (List.cons.inj htrim).1
  exact ⟨d, tail, htail, hsame ▸ hparen, hsame ▸ hbrace⟩

/-- A body of lines with one entry each is read entry by entry. -/
theorem parse_eq_mapM {body : String} {lines : List (List Char)} (hne : lines ≠ [])
    (hlines : ∀ line ∈ lines, IsEntryLine line)
    (hbody : Text.trim body.toList = Text.join ['\n'] lines) :
    parse body =
      ((lines.map lineEntry).mapM (entry (Text.join ['\n'] lines))).map Dict.merged := by
  obtain ⟨c, rest, htext, hparen, hbrace⟩ : ∃ c rest, Text.join ['\n'] lines = c :: rest ∧
      c ≠ '(' ∧ c ≠ '\x7b' := by
    obtain ⟨line, others, rfl⟩ := List.exists_cons_of_ne_nil hne
    exact exists_cons_of_trim_eq (hlines line List.mem_cons_self) hbody
  have hunwrap : unwrap (Text.join ['\n'] lines) = Text.join ['\n'] lines := by
    rw [htext]
    exact Listing.unwrap_cons_of_ne hparen rest
  have hbraces : enclosed '\x7b' '\x7d' (Text.join ['\n'] lines) = false := by
    rw [htext]
    exact enclosed_cons_of_ne hbrace _ _
  have hempty : (Text.join ['\n'] lines).isEmpty = false := by
    rw [htext]
    rfl
  rw [parse, hbody, hunwrap, hempty, hbraces, entries_join hne hlines]
  rfl

/-- Entries with distinct keys are all kept, in their order. -/
theorem mapM_of_parse {body : String} {lines : List (List Char)} {made : List (String × Json)}
    (hne : lines ≠ []) (hlines : ∀ line ∈ lines, IsEntryLine line)
    (hkeys : (lines.map fun line => keyOf (lineEntry line)).Nodup)
    (hbody : Text.trim body.toList = Text.join ['\n'] lines) (h : parse body = .ok made) :
    (lines.map lineEntry).mapM (entry (Text.join ['\n'] lines)) = .ok made := by
  rw [parse_eq_mapM hne hlines hbody] at h
  obtain ⟨entries, hentries, rfl⟩ := map_eq_ok_iff.mp h
  have hnodup : (Dict.keys entries).Nodup := by
    have hnames : Dict.keys entries = (lines.map lineEntry).map keyOf :=
      map_eq_of_mapM (fun _ _ _ hread => fst_eq_of_entry hread) hentries
    rwa [hnames, List.map_map]
  rw [hentries, Dict.merged_of_nodup hnodup]

/-- What a line is read as with a comma at its end: its key, and the text behind the colon with
the comma. -/
def commaMember (line : List Char) : String × Json :=
  (keyOf (lineEntry line), .str (String.ofList (textOf (lineEntry line) ++ [','])))

theorem join_commas (front : List (List Char)) (last : List Char) :
    Text.join [',', '\n'] (front ++ [last]) =
      Text.join ['\n'] (front.map (· ++ [',']) ++ [last]) := by
  induction front with
  | nil => rfl
  | cons line rest ih =>
      have hne : rest ++ [last] ≠ [] := by simp
      have hcommas : rest.map (· ++ [',']) ++ [last] ≠ [] := by simp
      rw [List.cons_append, Text.join_cons_of_ne_nil _ _ hne, ih, List.map_cons, List.cons_append,
        Text.join_cons_of_ne_nil _ _ hcommas]
      simp

/-- Commas at the ends of all lines but the last always change what is read: each of these
values becomes its own text, with the comma. -/
theorem parse_commaLines {front : List (List Char)} {last : List Char} {body commaBody : String}
    {m : List (String × Json)} (hfront : front ≠ [])
    (hlines : ∀ line ∈ front ++ [last], IsEntryLine line)
    (hkeys : ((front ++ [last]).map fun line => keyOf (lineEntry line)).Nodup)
    (hbody : Text.trim body.toList = Text.join ['\n'] (front ++ [last]))
    (hcommaBody : Text.trim commaBody.toList = Text.join [',', '\n'] (front ++ [last]))
    (h : parse body = .ok m) :
    ∃ made, parse commaBody = .ok made ∧ made ≠ m ∧
      made = front.map commaMember ++ m.drop front.length := by
  obtain ⟨hfrontLines, hlast⟩ := List.forall_mem_append.mp hlines
  have hread := mapM_of_parse (by simp) hlines hkeys hbody h
  rw [List.map_append, List.map_singleton] at hread
  obtain ⟨entries, e, hentries, he, rfl⟩ := mapM_concat_eq_ok_iff.mp hread
  have hcommaLines : ∀ line ∈ front.map (· ++ [',']) ++ [last], IsEntryLine line := by
    refine List.forall_mem_append.mpr ⟨fun line hline => ?_, hlast⟩
    obtain ⟨plain, hplain, rfl⟩ := List.mem_map.mp hline
    exact (hfrontLines plain hplain).concat_comma
  have hmade : ∀ line ∈ front, ∀ other,
      entry other (lineEntry (line ++ [','])) = .ok (commaMember line) := by
    intro line hline other
    obtain ⟨member, hmember⟩ := exists_of_mapM hentries (List.mem_map_of_mem hline)
    rw [(hfrontLines line hline).lineEntry_concat_comma]
    exact entry_concat_comma hmember other
  have hlength : entries.length = front.length := by
    have hsame : entries.map (fun _ => ()) = (front.map lineEntry).map fun _ => () :=
      map_eq_of_mapM (fun _ _ _ _ => rfl) hentries
    simpa using congrArg List.length hsame
  have hdrop : (entries ++ [e]).drop front.length = [e] := by
    rw [← hlength, List.drop_left]
  have hcommas : parse commaBody = .ok (front.map commaMember ++ [e]) := by
    have hentriesComma : ((front.map (· ++ [',']) ++ [last]).map lineEntry).mapM
        (entry (Text.join ['\n'] (front.map (· ++ [',']) ++ [last]))) =
          .ok (front.map commaMember ++ [e]) := by
      rw [List.map_append, List.map_map, List.map_singleton]
      refine mapM_concat_eq_ok_iff.mpr ⟨_, e, ?_, entry_of_entry he _, rfl⟩
      rw [List.mapM_map]
      exact mapM_eq_ok_map fun line hline => hmade line hline _
    have hnodup : (Dict.keys (front.map commaMember ++ [e])).Nodup := by
      have hnames : Dict.keys (front.map commaMember ++ [e]) =
          (front ++ [last]).map fun line => keyOf (lineEntry line) := by
        rw [Dict.keys, List.map_append, List.map_map, List.map_append]
        exact congrArg _ (congrArg (fun key => [key]) (fst_eq_of_entry he))
      rwa [hnames]
    rw [parse_eq_mapM (by simp) hcommaLines (hcommaBody.trans (join_commas front last)),
      hentriesComma]
    exact congrArg Except.ok (Dict.merged_of_nodup hnodup)
  refine ⟨_, hcommas, ?_, by rw [hdrop]⟩
  intro heq
  -- The first line has a comma, so its value is not what it was.
  obtain ⟨line, rest, rfl⟩ := List.exists_cons_of_ne_nil hfront
  obtain ⟨first, others, hfirst, -, rfl⟩ := mapM_cons_eq_ok_iff.mp hentries
  have hsame : commaMember line = first := (List.cons.inj heq).1
  exact snd_ne_of_entry hfirst (hsame ▸ rfl)

/-- A text with a comma of its own, and a list, with white space around the body. -/
theorem parse_commaLines_user :
    let body := "\nsummary: Show, or find\n  tags: [Users, Accounts]\ndeprecated: true\n"
    let commaBody := "\nsummary: Show, or find,\n  tags: [Users, Accounts],\ndeprecated: true\n"
    let m : List (String × Json) :=
      [("summary", .str "Show, or find"), ("tags", .arr [.str "Users", .str "Accounts"]),
        ("deprecated", .bool true)]
    parse body = .ok m ∧ ∃ made, parse commaBody = .ok made ∧ made ≠ m ∧
      made = [("summary", .str "Show, or find,"), ("tags", .str "[Users, Accounts],"),
        ("deprecated", .bool true)] := by
  have hlines : ∀ line ∈ ["summary: Show, or find".toList, "  tags: [Users, Accounts]".toList] ++
      ["deprecated: true".toList], IsEntryLine line := by
    simp only [List.cons_append, List.nil_append, List.forall_mem_cons]
    refine ⟨⟨⟨?_, ?_⟩, "summary: Show".toList, [" or find".toList], ?_⟩,
      ⟨⟨?_, ?_⟩, "  tags: [Users, Accounts]".toList, [], ?_⟩,
      ⟨⟨?_, ?_⟩, "deprecated: true".toList, [], ?_⟩, List.forall_mem_nil _⟩
    all_goals decide +kernel
  have hread : parse "\nsummary: Show, or find\n  tags: [Users, Accounts]\ndeprecated: true\n" =
      .ok [("summary", .str "Show, or find"), ("tags", .arr [.str "Users", .str "Accounts"]),
        ("deprecated", .bool true)] := by
    rfl
  have hcommaBody : Text.trim
      "\nsummary: Show, or find,\n  tags: [Users, Accounts],\ndeprecated: true\n".toList =
      Text.join [',', '\n'] (["summary: Show, or find".toList,
        "  tags: [Users, Accounts]".toList] ++ ["deprecated: true".toList]) := by
    decide +kernel
  obtain ⟨made, hmade, hne, heq⟩ := parse_commaLines (by simp) hlines (by decide +kernel)
    (by decide +kernel) hcommaBody hread
  exact ⟨hread, made, hmade, hne, heq⟩

/-- A comma at the end of a line stays in the value. -/
theorem not_parse_comma_user :
    parse "summary: Show user\ntags: [Users, Accounts]" =
        .ok [("summary", .str "Show user"), ("tags", .arr [.str "Users", .str "Accounts"])] ∧
      parse "summary: Show user,\ntags: [Users, Accounts]" =
        .ok [("summary", .str "Show user,"), ("tags", .arr [.str "Users", .str "Accounts"])] ∧
      parse "summary: Show user,\ntags: [Users, Accounts]" ≠
        parse "summary: Show user\ntags: [Users, Accounts]" := by
  have hplain : parse "summary: Show user\ntags: [Users, Accounts]" =
      .ok [("summary", .str "Show user"), ("tags", .arr [.str "Users", .str "Accounts"])] := by
    rfl
  have hcomma : parse "summary: Show user,\ntags: [Users, Accounts]" =
      .ok [("summary", .str "Show user,"), ("tags", .arr [.str "Users", .str "Accounts"])] := by
    rfl
  refine ⟨hplain, hcomma, ?_⟩
  rw [hplain, hcomma]
  simp

end ApiDoc.TagBody
