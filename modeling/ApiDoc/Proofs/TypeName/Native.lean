import ApiDoc.Proofs.Text
import ApiDoc.TypeName

/-!
# Schema types of names

A name is followed inwards through its type constructors with enough fuel for its whole
length, so `nativeOf` obeys one equation without fuel.  A name with an opening angle bracket
maps as its outermost constructor says, and only what stands in front of the bracket decides
which constructor that is.
-/

namespace ApiDoc.TypeName

open Text

/-! ## Last segments of paths -/

theorem lastSegment_of_not_mem {name : List Char} (h : ':' ∉ name) : lastSegment name = name := by
  rw [lastSegment, cutLast?_of_not_mem List.mem_cons_self h]

/-- The last segment is what stands behind the last pair of colons. -/
theorem lastSegment_append {name : List Char} (h : ':' ∉ name) (front : List Char) :
    lastSegment (front ++ ':' :: ':' :: name) = name := by
  have hone : cutLast? [':', ':'] (':' :: name) = none := by
    rw [cutLast?, cutLast?_of_not_mem List.mem_cons_self h]
    cases name with
    | nil => rfl
    | cons c cs =>
        have hc : ':' ≠ c := fun heq => h (heq ▸ List.mem_cons_self)
        simp [dropHead?, hc]
  have htwo : cutLast? [':', ':'] (':' :: ':' :: name) = some ([], name) := by
    rw [cutLast?, hone]
    rfl
  rw [lastSegment, cutLast?_append htwo front]

/-- A path is its last segment, or ends with a pair of colons and this segment. -/
theorem eq_lastSegment_or_exists (name : List Char) :
    name = lastSegment name ∨ ∃ front, name = front ++ [':', ':'] ++ lastSegment name := by
  rw [lastSegment]
  split
  · next before after hcut => exact .inr ⟨before, eq_of_cutLast? hcut⟩
  · exact .inl rfl

/-! ## Bare names -/

/-- A text without leading space and marks. -/
def unmarked (text : List Char) : List Char :=
  trimStart (((trimStart text).dropWhile (· = '?')).dropWhile (· = '&'))

theorem unmarked_suffix (text : List Char) : unmarked text <:+ text :=
  (List.dropWhile_suffix _).trans <| (List.dropWhile_suffix _).trans <|
    (List.dropWhile_suffix _).trans (List.dropWhile_suffix _)

/-- Marks are dropped in front of any other character. -/
theorem unmarked_append_cons {c : Char} (hblank : isBlank c = false) (hnull : c ≠ '?')
    (href : c ≠ '&') (front rest : List Char) :
    unmarked (front ++ c :: rest) = unmarked front ++ c :: rest := by
  have hstart : ∀ text, trimStart (text ++ c :: rest) = trimStart text ++ c :: rest :=
    fun text => dropWhile_append_cons hblank text rest
  rw [unmarked, hstart, dropWhile_append_cons (decide_eq_false hnull),
    dropWhile_append_cons (decide_eq_false href), hstart, unmarked]

/-- What stands in front of a bracket loses its marks, what stands behind it the space at
its end. -/
theorem bare_append_cons (front rest : List Char) :
    bare (front ++ '<' :: rest) = unmarked front ++ '<' :: trimEnd rest := by
  have hblank : isBlank '<' = false := by decide
  have htrim : ∀ text more,
      trim (text ++ '<' :: more) = trimStart text ++ '<' :: trimEnd more := by
    intro text more
    rw [trim, trimStart, dropWhile_append_cons hblank, trimEnd_append_cons hblank, trimStart]
  have htwice : trimEnd (trimEnd rest) = trimEnd rest := List.rdropWhile_idempotent ..
  rw [bare, htrim, dropWhile_append_cons (by decide), dropWhile_append_cons (by decide), htrim,
    htwice, unmarked]

/-- Space at the end of a name counts for nothing. -/
theorem bare_append_of_blank {tail : List Char} (h : ∀ c ∈ tail, isBlank c = true)
    (name : List Char) : bare (name ++ tail) = bare name := by
  rw [bare, trim_append_of_blank h, bare]

theorem length_bare_le (name : List Char) : (bare name).length ≤ name.length := by
  have htrim : ∀ text : List Char, (trim text).length ≤ text.length := fun text =>
    (length_trim_le text).trans (List.dropWhile_suffix _).length_le
  calc (bare name).length
    _ ≤ (((trim name).dropWhile (· = '?')).dropWhile (· = '&')).length := htrim _
    _ ≤ ((trim name).dropWhile (· = '?')).length := (List.dropWhile_suffix _).length_le
    _ ≤ (trim name).length := (List.dropWhile_suffix _).length_le
    _ ≤ name.length := htrim name

/-! ## One step inwards -/

/-- One step of a name, with `inner` for the argument of a transparent constructor. -/
def nativeStep (inner : List Char → String) (name : List Char) : String :=
  let name := bare name
  if name.isEmpty then "string"
  else if name = ['(', ')'] then "null"
  else if name.head? = some '[' then "array"
  else
    match cutFirst? '<' name with
    | some (outer, rest) =>
        match Wrapper.ofWord (String.ofList (lastSegment outer)) with
        | .transparent => inner (dropEndWhile (· = '>') rest)
        | .opaqueAs type => type
    | none => nativeOfWord (lower (String.ofList (lastSegment name)))

theorem nativeWithin_succ (fuel : Nat) (name : List Char) :
    nativeWithin (fuel + 1) name = nativeStep (nativeWithin fuel) name := rfl

/-- A step looks only at texts that are shorter than the name. -/
theorem nativeStep_congr {f g : List Char → String} {name : List Char}
    (h : ∀ text, text.length < name.length → f text = g text) :
    nativeStep f name = nativeStep g name := by
  rw [nativeStep, nativeStep]
  cases hcut : cutFirst? '<' (bare name) with
  | none => rfl
  | some parts =>
      obtain ⟨outer, rest⟩ := parts
      have hshorter : (dropEndWhile (· = '>') rest).length < name.length := by
        have hwhole := congrArg List.length (eq_of_cutFirst? hcut)
        have hrest : (dropEndWhile (· = '>') rest).length ≤ rest.length :=
          (List.rdropWhile_prefix _ _).length_le
        have hbare := length_bare_le name
        rw [List.length_append, List.length_cons] at hwhole
        omega
      dsimp only
      rw [h _ hshorter]

/-- Fuel beyond the length of the name changes nothing. -/
theorem nativeWithin_eq {fuel more : Nat} {name : List Char} (hfuel : name.length < fuel)
    (hmore : name.length < more) : nativeWithin fuel name = nativeWithin more name := by
  induction fuel generalizing more name with
  | zero => omega
  | succ fuel ih =>
      obtain ⟨more, rfl⟩ := Nat.exists_eq_add_one_of_ne_zero (Nat.ne_zero_of_lt hmore)
      rw [nativeWithin_succ, nativeWithin_succ]
      exact nativeStep_congr fun text htext => ih (by omega) (by omega)

/-- The schema type of a text. -/
def nativeOf (text : List Char) : String :=
  nativeWithin (text.length + 1) text

theorem native_ofList (text : List Char) : native (String.ofList text) = nativeOf text := by
  rw [native, String.toList_ofList, nativeOf]

theorem nativeOf_eq (text : List Char) : nativeOf text = nativeStep nativeOf text := by
  rw [nativeOf, nativeWithin_succ]
  exact nativeStep_congr fun inner hinner => nativeWithin_eq hinner (Nat.lt_succ_self _)

/-- Names that differ only in what is not looked at. -/
theorem nativeOf_congr {text other : List Char} (h : bare text = bare other) :
    nativeOf text = nativeOf other := by
  rw [nativeOf_eq, nativeOf_eq, nativeStep, nativeStep, h]

/-- The argument of a transparent constructor, from what stands behind its bracket. -/
def argument (text : List Char) : List Char :=
  dropEndWhile (· = '>') (trimEnd text)

/-- A name with a bracket maps as the constructor in front of the first one says. -/
theorem nativeOf_append_cons {front : List Char} (hfront : '<' ∉ front) (rest : List Char) :
    nativeOf (front ++ '<' :: rest) =
      if (unmarked front).head? = some '[' then "array"
      else
        match Wrapper.ofWord (String.ofList (lastSegment (unmarked front))) with
        | .transparent => nativeOf (argument rest)
        | .opaqueAs type => type := by
  have hcut : cutFirst? '<' (unmarked front ++ '<' :: trimEnd rest) =
      some (unmarked front, trimEnd rest) :=
    cutFirst?_append_cons (fun hmem => hfront ((unmarked_suffix front).subset hmem)) _
  have hunit : unmarked front ++ '<' :: trimEnd rest ≠ ['(', ')'] := by
    intro heq
    have hmem : '<' ∈ ['(', ')'] := heq ▸ List.mem_append_right _ List.mem_cons_self
    exact absurd hmem (by decide)
  have hhead : (unmarked front ++ '<' :: trimEnd rest).head? = some '[' ↔
      (unmarked front).head? = some '[' := by
    cases unmarked front with
    | nil => simp
    | cons c cs => rfl
  have hempty : (unmarked front ++ '<' :: trimEnd rest).isEmpty = false := by simp
  rw [nativeOf_eq, nativeStep, bare_append_cons]
  simp only [hempty, hunit, hhead, hcut, Bool.false_eq_true, if_false, argument]

end ApiDoc.TypeName
