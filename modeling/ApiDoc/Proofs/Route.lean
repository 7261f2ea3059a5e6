import ApiDoc.Proofs.Text
import ApiDoc.Route

/-!
# Normalized addresses

A normalized address starts with a slash, and none of its segments is a colon with a name
behind it.  Whether a path has such a segment can also be seen without cutting it: a colon
follows a slash, and something else follows the colon.  Addresses that are normal already stay
as they are, so normalizing twice is the same as normalizing once.
-/

namespace ApiDoc

namespace Text

/-- A colon with a name behind it. -/
def IsColonName (segment : List Char) : Prop :=
  segment.head? = some ':' ∧ segment ≠ [':']

instance : DecidablePred IsColonName := fun _ => instDecidableAnd

theorem isColonName_iff {segment : List Char} :
    IsColonName segment ↔ ∃ c name, segment = ':' :: c :: name := by
  constructor
  · rintro ⟨hcolon, hne⟩
    obtain ⟨name, rfl⟩ := List.head?_eq_some_iff.mp hcolon
    cases name with
    | nil => exact absurd rfl hne
    | cons c name => exact ⟨c, name, rfl⟩
  · rintro ⟨c, name, rfl⟩
    exact ⟨rfl, by simp⟩

/-- Behind a slash at its start, a path has a colon with a name as a segment, exactly if
somewhere a slash, a colon and another character than a slash follow one another. -/
theorem exists_isColonName_iff {cs : List Char} (hslash : cs.head? = some '/') :
    (∃ segment ∈ splitOn '/' cs, IsColonName segment) ↔
      ∃ c, c ≠ '/' ∧ ['/', ':', c] <:+: cs := by
  obtain ⟨rest, rfl⟩ := List.head?_eq_some_iff.mp hslash
  constructor
  · rintro ⟨segment, hsegment, hcolon⟩
    obtain ⟨c, name, rfl⟩ := isColonName_iff.mp hcolon
    rw [splitOn, if_pos rfl] at hsegment
    have hmem : ':' :: c :: name ∈ splitOn '/' rest :=
      (List.mem_cons.mp hsegment).resolve_left (List.cons_ne_nil _ _)
    have hc : c ≠ '/' := by
      rintro rfl
      exact not_mem_of_mem_splitOn hmem (by simp)
    have hinfix : '/' :: ':' :: c :: name <:+: '/' :: join ['/'] (splitOn '/' rest) :=
      isInfix_join_of_mem hmem
    rw [join_splitOn] at hinfix
    have hstart : ['/', ':', c] <+: '/' :: ':' :: c :: name := ⟨name, rfl⟩
    exact ⟨c, hc, hstart.isInfix.trans hinfix⟩
  · rintro ⟨c, hc, front, back, hsplit⟩
    rw [← hsplit]
    have hcut : splitOn '/' (front ++ ['/', ':', c] ++ back) =
        splitOn '/' front ++ growFirst ':' (growFirst c (splitOn '/' back)) := by
      rw [List.append_assoc, List.cons_append, splitOn_append_cons]
      simp [splitOn, hc]
    rw [hcut]
    obtain ⟨piece, pieces, hpieces⟩ := List.exists_cons_of_ne_nil (splitOn_ne_nil '/' back)
    refine ⟨':' :: c :: piece, ?_, isColonName_iff.mpr ⟨c, piece, rfl⟩⟩
    rw [hpieces]
    exact List.mem_append_right _ List.mem_cons_self

end Text

namespace Route

theorem not_isColonName_normalizeSegment (segment : List Char) :
    ¬ Text.IsColonName (normalizeSegment segment) := by
  rw [Text.isColonName_iff]
  rintro ⟨c, name, heq⟩
  unfold normalizeSegment at heq
  split at heq
  · cases heq
  · next hother => exact hother c name heq

theorem not_mem_normalizeSegment {segment : List Char} (h : '/' ∉ segment) :
    '/' ∉ normalizeSegment segment := by
  unfold normalizeSegment
  split
  · simpa using h
  · exact h

/-- A normalized address is cut at its slashes into the normalized segments. -/
theorem splitOn_normalizeUri (uri : String) :
    Text.splitOn '/' (normalizeUri uri).toList =
      [] :: (Text.splitOn '/' ((Text.trim uri.toList).dropWhile (· = '/'))).map
        normalizeSegment := by
  rw [normalizeUri, String.toList_ofList, Text.splitOn, if_pos rfl, Text.splitOn_join]
  · rw [ne_eq, List.map_eq_nil_iff]
    exact Text.splitOn_ne_nil _ _
  · intro piece hpiece
    obtain ⟨segment, hsegment, rfl⟩ := List.mem_map.mp hpiece
    exact not_mem_normalizeSegment (Text.not_mem_of_mem_splitOn hsegment)

theorem head?_normalizeUri (uri : String) : (normalizeUri uri).toList.head? = some '/' := by
  rw [normalizeUri, String.toList_ofList, List.head?_cons]

/-- No segment of a normalized address is a colon with a name behind it. -/
theorem not_isColonName_of_mem_normalizeUri {uri : String} {segment : List Char}
    (h : segment ∈ Text.splitOn '/' (normalizeUri uri).toList) : ¬ Text.IsColonName segment := by
  rw [splitOn_normalizeUri] at h
  rcases List.mem_cons.mp h with rfl | hmem
  · decide
  · obtain ⟨old, -, rfl⟩ := List.mem_map.mp hmem
    exact not_isColonName_normalizeSegment old

/-! ## Normal addresses -/

/-- One slash in front, no white space at the end, and no colon with a name between slashes. -/
structure IsNormal (address : List Char) : Prop where
  first : address.head? = some '/'
  second : address[1]? ≠ some '/'
  last : ∀ c ∈ address.getLast?, Text.isBlank c = false
  segments : ∀ segment ∈ Text.splitOn '/' address, ¬ Text.IsColonName segment

section Normal

variable {uri : String} {path segment : List Char} {c : Char}

/-- Only a colon with a name is rewritten. -/
theorem normalizeSegment_eq_self (h : ¬ Text.IsColonName segment) :
    normalizeSegment segment = segment := by
  unfold normalizeSegment
  split
  · exact absurd (Text.isColonName_iff.mpr ⟨_, _, rfl⟩) h
  · rfl

theorem exists_normalizeSegment_cons (hc : c ≠ '/') (name : List Char) :
    ∃ d rest, normalizeSegment (c :: name) = d :: rest ∧ d ≠ '/' := by
  unfold normalizeSegment
  split
  · exact ⟨'\x7b', _, rfl, by decide⟩
  · exact ⟨c, name, rfl, hc⟩

/-- The end of a segment stays, or becomes a brace. -/
theorem getLast?_cons_normalizeSegment (slash : Char) (segment : List Char) :
    (slash :: normalizeSegment segment).getLast? = (slash :: segment).getLast? ∨
      (slash :: normalizeSegment segment).getLast? = some '\x7d' := by
  unfold normalizeSegment
  split
  · exact .inr (by rw [← List.cons_append, List.getLast?_concat])
  · exact .inl rfl

/-- No slash comes in front of the first segment. -/
theorem head?_join_normalizeSegment (h : path.head? ≠ some '/') :
    (Text.join ['/'] ((Text.splitOn '/' path).map normalizeSegment)).head? ≠ some '/' := by
  cases path with
  | nil => decide
  | cons c cs =>
      have hc : c ≠ '/' := fun heq => h (congrArg some heq)
      obtain ⟨more, hmore⟩ := Text.exists_splitOn_eq_cons '/' (c :: cs)
      rw [List.takeWhile_cons_of_pos (by simpa using hc)] at hmore
      obtain ⟨d, rest, hfirst, hd⟩ := exists_normalizeSegment_cons hc (cs.takeWhile (· ≠ '/'))
      rw [hmore, List.map_cons, hfirst]
      cases more with
      | nil => simpa [Text.join] using hd
      | cons second others => simpa [Text.join] using hd

/-- No white space comes to the end of the last segment. -/
theorem isBlank_getLast?_join_normalizeSegment
    (h : ∀ c ∈ ('/' :: path).getLast?, Text.isBlank c = false) :
    ∀ c ∈ ('/' :: Text.join ['/'] ((Text.splitOn '/' path).map normalizeSegment)).getLast?,
      Text.isBlank c = false := by
  obtain ⟨front, last, hsplit, -⟩ :=
    Text.exists_splitOn_append (List.not_mem_nil : '/' ∉ []) path
  have hpath : ('/' :: path).getLast? = ('/' :: last).getLast? := by
    rw [← Text.join_splitOn '/' path, hsplit, Text.getLast?_cons_join]
  rw [hpath] at h
  rw [hsplit, List.map_append, List.map_singleton, Text.getLast?_cons_join]
  intro c hc
  rcases getLast?_cons_normalizeSegment '/' last with hsame | hbrace
  · exact h c (hsame ▸ hc)
  · rw [hbrace] at hc
    obtain rfl := Option.some.inj hc
    decide

/-- The text behind the first slashes of an address ends as the address does. -/
theorem isBlank_getLast?_cons_dropWhile_trim (cs : List Char) :
    ∀ c ∈ ('/' :: (Text.trim cs).dropWhile (· = '/')).getLast?, Text.isBlank c = false := by
  intro c hc
  rw [List.getLast?_cons] at hc
  cases hlast : ((Text.trim cs).dropWhile (· = '/')).getLast? with
  | none =>
      obtain rfl : '/' = c := by simpa [hlast] using hc
      decide
  | some d =>
      obtain rfl : d = c := by simpa [hlast] using hc
      refine Text.isBlank_of_getLast?_trim (?_ : (Text.trim cs).getLast? = some d)
      rw [← List.takeWhile_append_dropWhile (p := (· = '/')) (l := Text.trim cs),
        List.getLast?_append, hlast]
      rfl

theorem isNormal_normalizeUri (uri : String) : IsNormal (normalizeUri uri).toList where
  first := head?_normalizeUri uri
  second := by
    rw [normalizeUri, String.toList_ofList, List.getElem?_cons_succ, ← List.head?_eq_getElem?]
    refine head?_join_normalizeSegment fun hslash => ?_
    obtain ⟨rest, hrest⟩ := List.head?_eq_some_iff.mp hslash
    have hkept := Text.eq_false_of_dropWhile_eq_cons hrest
    exact absurd rfl (of_decide_eq_false hkept)
  last := by
    rw [normalizeUri, String.toList_ofList]
    exact isBlank_getLast?_join_normalizeSegment
      (isBlank_getLast?_cons_dropWhile_trim uri.toList)
  segments _ hsegment := not_isColonName_of_mem_normalizeUri hsegment

/-- Normalization has nothing to do on a normal address. -/
theorem IsNormal.normalizeUri_eq (h : IsNormal uri.toList) : normalizeUri uri = uri := by
  obtain ⟨rest, hrest⟩ := List.head?_eq_some_iff.mp h.first
  have htight : Text.IsTight uri.toList := by
    refine .of_ends (by simp [hrest]) (fun c hc => ?_) h.last
    rw [h.first] at hc
    obtain rfl := Option.some.inj hc
    decide
  have hdrop : (Text.trim uri.toList).dropWhile (· = '/') = rest := by
    have hsecond : rest.head? ≠ some '/' := by
      simpa [hrest, ← List.head?_eq_getElem?] using h.second
    rw [htight.trim_eq, hrest, List.dropWhile_cons_of_pos (by simp)]
    cases rest with
    | nil => rfl
    | cons c cs => exact List.dropWhile_cons_of_neg (by simpa using hsecond)
  have hsegments : (Text.splitOn '/' rest).map normalizeSegment = Text.splitOn '/' rest := by
    refine (List.map_congr_left fun segment hsegment => ?_).trans (List.map_id _)
    apply normalizeSegment_eq_self
    apply h.segments
    rw [hrest, Text.splitOn, if_pos rfl]
    exact List.mem_cons_of_mem _ hsegment
  rw [normalizeUri, hdrop, hsegments, Text.join_splitOn, ← hrest, String.ofList_toList]

/-- Normalization makes every address normal; a second time it changes nothing, as the addresses
that it leaves as they are are the normal ones. -/
theorem normalizeUri_normalizes (uri : String) :
    IsNormal (normalizeUri uri).toList ∧ normalizeUri (normalizeUri uri) = normalizeUri uri ∧
      (normalizeUri uri = uri ↔ IsNormal uri.toList) := by
  have hnormal := isNormal_normalizeUri uri
  refine ⟨hnormal, hnormal.normalizeUri_eq, ?_, IsNormal.normalizeUri_eq⟩
  intro hsame
  rwa [hsame] at hnormal

/-- Slashes and white space in front go away, and a colon without a name stays. -/
example :
    normalizeUri " //users/:id/:/::tag/ " = "/users/\x7bid\x7d/:/\x7b:tag\x7d/" := by
  decide +kernel

end Normal

end Route

end ApiDoc
