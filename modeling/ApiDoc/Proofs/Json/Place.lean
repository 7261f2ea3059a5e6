import ApiDoc.Json.Dotted
import ApiDoc.Proofs.Dict
import ApiDoc.Proofs.Text

/-!
# Reading and writing places

Writing to a place of a tree obeys three laws.  What was written is read there; a second
value written to the same place takes the place of the first; and a path that parts from the
written one, at an object or at a list that takes the value in, reads what it read before.
One step of a path goes either to a slot of a list, or to a member of an object that may be
new, and the laws follow by induction on the path.
-/

namespace ApiDoc

section PutItem

variable {α β : Type} {items : List α} {i : Nat}

/-- Replace the item at a position, or append one behind the last. -/
def putItem (items : List α) (i : Nat) (item : α) : List α :=
  if i < items.length then items.set i item else items ++ [item]

theorem getElem?_putItem (hi : i ≤ items.length) (item : α) (j : Nat) :
    (putItem items i item)[j]? = if i = j then some item else items[j]? := by
  rw [putItem]
  split
  · next hlt => simp only [List.getElem?_set, hlt, if_true]
  · next hge =>
      obtain rfl : i = items.length := by omega
      rcases lt_trichotomy j items.length with hj | rfl | hj
      · rw [List.getElem?_append_left hj, if_neg hj.ne']
      · rw [List.getElem?_concat_length, if_pos rfl]
      · rw [if_neg hj.ne, List.getElem?_eq_none hj.le, List.getElem?_eq_none]
        rw [List.length_append, List.length_singleton]
        omega

theorem lt_length_putItem (hi : i ≤ items.length) (item : α) :
    i < (putItem items i item).length := by
  rw [putItem]
  split
  · next hlt => rwa [List.length_set]
  · rw [List.length_append, List.length_singleton]
    omega

theorem putItem_ne_nil (hi : i ≤ items.length) (item : α) : putItem items i item ≠ [] :=
  List.ne_nil_of_length_pos (Nat.zero_lt_of_lt (lt_length_putItem hi item))

/-- The second item takes the place of the first. -/
theorem putItem_putItem (hi : i ≤ items.length) (first second : α) :
    putItem (putItem items i first) i second = putItem items i second := by
  refine List.ext_getElem? fun j => ?_
  rw [getElem?_putItem (lt_length_putItem hi first).le, getElem?_putItem hi, getElem?_putItem hi]
  split <;> rfl

theorem map_putItem (f : α → β) (items : List α) (i : Nat) (item : α) :
    (putItem items i item).map f = putItem (items.map f) i (f item) := by
  rw [putItem, putItem, List.length_map]
  split
  · rw [List.map_set]
  · rw [List.map_append, List.map_singleton]

end PutItem

/-- Digits are the number that they denote. -/
theorem Text.natural?_of_isDigit {cs : List Char} (hne : cs ≠ [])
    (h : ∀ c ∈ cs, c.isDigit = true) : natural? cs = some (digitsValue cs) := by
  have hall : cs.all Char.isDigit = true := List.all_eq_true.mpr h
  unfold natural?
  dsimp only
  split
  · exact absurd (h '+' List.mem_cons_self) (by decide)
  · simp [hne, hall]

namespace Json

variable {segment : String} {path other : List String} {tree value : Json}

/-! ## Segments -/

/-- A number is the position that its decimal text names. -/
theorem position?_toString (n : Nat) : position? (toString n) = some n := by
  have hdigit : ∀ c ∈ Nat.toDigits 10 n, c.isDigit = true := fun _ hc =>
    Nat.isDigit_of_mem_toDigits (by decide) (by decide) hc
  rw [position?, Nat.toString_eq_repr, Nat.toList_repr,
    Text.natural?_of_isDigit Nat.toDigits_ne_nil hdigit, Text.digitsValue_toDigits]

theorem segments_append_dot (front rest : String) :
    segments (front ++ "." ++ rest) = segments front ++ segments rest := by
  have htext : (front ++ "." ++ rest).toList = front.toList ++ '.' :: rest.toList := by
    simp
  rw [segments, segments, segments, htext, Text.splitOn_append_cons, List.map_append]

/-- The decimal text of a number is one segment. -/
theorem segments_toString (n : Nat) : segments (toString n) = [toString n] := by
  have hdot : '.' ∉ (toString n).toList := by
    rw [Nat.toString_eq_repr, Nat.toList_repr]
    intro hmem
    exact absurd (Nat.isDigit_of_mem_toDigits (by decide) (by decide) hmem) (by decide)
  rw [segments, Text.splitOn_of_not_mem hdot, List.map_singleton, String.ofList_toList]

/-! ## One step of a path -/

@[simp] theorem at?_nil (j : Json) : at? [] j = some j := rfl

theorem at?_arr (segment : String) (path : List String) (items : List Json) :
    at? (segment :: path) (arr items) =
      (position? segment).bind fun i => (items[i]?).bind (at? path) := rfl

theorem at?_obj (segment : String) (path : List String) (members : List (String × Json)) :
    at? (segment :: path) (obj members) = (Dict.find? members segment).bind (at? path) := rfl

theorem slot?_eq_some_iff {length i : Nat} :
    slot? segment length = some i ↔ position? segment = some i ∧ i ≤ length := by
  rw [slot?, Option.filter_eq_some_iff, decide_eq_true_iff]

theorem setAt_obj (segment : String) (path : List String) (members : List (String × Json))
    (value : Json) :
    setAt (segment :: path) (obj members) value =
      obj (Dict.put members segment
        (setAt path ((Dict.find? members segment).getD (obj [])) value)) := rfl

theorem setAt_arr {items : List Json} {i : Nat} (hi : slot? segment items.length = some i)
    (path : List String) (value : Json) :
    setAt (segment :: path) (arr items) value =
      arr (putItem items i (setAt path ((items[i]?).getD null) value)) := by
  have hle := (slot?_eq_some_iff.mp hi).2
  rw [setAt]
  dsimp only
  rw [hi]
  dsimp only
  rcases Nat.lt_or_ge i items.length with hlt | hge
  · rw [List.getElem?_eq_getElem hlt, Option.getD_some, putItem, if_pos hlt]
  · rw [List.getElem?_eq_none hge, Option.getD_none, putItem, if_neg (Nat.not_lt.mpr hge)]

/-- The step goes to a slot of a list, or the tree becomes an object with a member under the
segment. -/
theorem setAt_cases (segment : String) (tree : Json) :
    (∃ items i, tree = arr items ∧ slot? segment items.length = some i) ∨
      ∃ members, ∀ path value, setAt (segment :: path) tree value =
        setAt (segment :: path) (obj members) value := by
  cases tree with
  | arr items =>
      cases hslot : slot? segment items.length with
      | some i => exact .inl ⟨items, i, rfl, hslot⟩
      | none =>
          refine .inr ⟨[], fun path value => ?_⟩
          rw [setAt]
          dsimp only
          rw [hslot]
          rfl
  | obj members => exact .inr ⟨members, fun _ _ => rfl⟩
  | null => exact .inr ⟨[], fun _ _ => rfl⟩
  | bool _ => exact .inr ⟨[], fun _ _ => rfl⟩
  | num _ => exact .inr ⟨[], fun _ _ => rfl⟩
  | str _ => exact .inr ⟨[], fun _ _ => rfl⟩

/-! ## The written place -/

/-- What was written is read. -/
theorem at?_setAt (path : List String) (tree value : Json) :
    at? path (setAt path tree value) = some value := by
  induction path generalizing tree with
  | nil => rfl
  | cons segment path ih =>
      rcases setAt_cases segment tree with ⟨items, i, rfl, hi⟩ | ⟨members, hset⟩
      · obtain ⟨hposition, hle⟩ := slot?_eq_some_iff.mp hi
        rw [setAt_arr hi, at?_arr, hposition, Option.bind_some, getElem?_putItem hle,
          if_pos rfl, Option.bind_some, ih]
      · rw [hset, setAt_obj, at?_obj, Dict.find?_put, if_pos rfl, Option.bind_some, ih]

/-- The second value takes the place of the first. -/
theorem setAt_setAt (path : List String) (tree first second : Json) :
    setAt path (setAt path tree first) second = setAt path tree second := by
  induction path generalizing tree with
  | nil => rfl
  | cons segment path ih =>
      rcases setAt_cases segment tree with ⟨items, i, rfl, hi⟩ | ⟨members, hset⟩
      · obtain ⟨hposition, hle⟩ := slot?_eq_some_iff.mp hi
        have hthere : slot? segment
            (putItem items i (setAt path ((items[i]?).getD null) first)).length = some i :=
          slot?_eq_some_iff.mpr ⟨hposition, (lt_length_putItem hle _).le⟩
        rw [setAt_arr hi, setAt_arr hthere, getElem?_putItem hle, if_pos rfl, Option.getD_some,
          ih, putItem_putItem hle, setAt_arr hi]
      · rw [hset, setAt_obj, setAt_obj, Dict.find?_put, if_pos rfl, Option.getD_some, ih,
          Dict.put_put, hset, setAt_obj]

/-! ## Places beside it -/

/-- Two paths lead through the same places of a tree, up to an object of which they take
different keys, or to a list of which they take different positions, where the first path
takes one that the list has, or the one behind its end. -/
inductive Diverge : (path other : List String) → Json → Prop
  | keys {members : List (String × Json)} {key different : String} {path other : List String}
      (hne : key ≠ different) : Diverge (key :: path) (different :: other) (obj members)
  | positions {items : List Json} {first second : String} {path other : List String} {i j : Nat}
      (hi : slot? first items.length = some i) (hj : position? second = some j) (hne : i ≠ j) :
      Diverge (first :: path) (second :: other) (arr items)
  | member {members : List (String × Json)} {key : String} {child : Json}
      {path other : List String} (hchild : Dict.find? members key = some child)
      (h : Diverge path other child) : Diverge (key :: path) (key :: other) (obj members)
  | item {items : List Json} {first second : String} {child : Json} {path other : List String}
      {i : Nat} (hi : position? first = some i) (hj : position? second = some i)
      (hchild : items[i]? = some child) (h : Diverge path other child) :
      Diverge (first :: path) (second :: other) (arr items)

/-- Paths with a common front diverge if they do so at the node to which the front leads. -/
theorem Diverge.append {front : List String} {node : Json} (hnode : at? front tree = some node)
    (h : Diverge path other node) : Diverge (front ++ path) (front ++ other) tree := by
  induction front generalizing tree with
  | nil => exact Option.some.inj hnode ▸ h
  | cons segment front ih =>
      cases tree with
      | arr items =>
          rw [at?_arr] at hnode
          obtain ⟨i, hi, hnode⟩ := Option.bind_eq_some_iff.mp hnode
          obtain ⟨child, hchild, hnode⟩ := Option.bind_eq_some_iff.mp hnode
          exact .item hi hi hchild (ih hnode)
      | obj members =>
          rw [at?_obj] at hnode
          obtain ⟨child, hchild, hnode⟩ := Option.bind_eq_some_iff.mp hnode
          exact .member hchild (ih hnode)
      | _ => cases hnode

/-- What stands beside the written place stays as it was. -/
theorem at?_setAt_of_diverge (h : Diverge path other tree) (value : Json) :
    at? other (setAt path tree value) = at? other tree := by
  induction h with
  | keys hne => rw [setAt_obj, at?_obj, at?_obj, Dict.find?_put, if_neg hne]
  | positions hi hj hne =>
      have hle := (slot?_eq_some_iff.mp hi).2
      rw [setAt_arr hi, at?_arr, at?_arr, hj, Option.bind_some, Option.bind_some,
        getElem?_putItem hle, if_neg hne]
  | member hchild _ ih =>
      rw [setAt_obj, at?_obj, at?_obj, Dict.find?_put, if_pos rfl, hchild, Option.getD_some,
        Option.bind_some, Option.bind_some, ih]
  | @item items first _ child _ _ i hi hj hchild _ ih =>
      have hle : i ≤ items.length := (List.getElem?_eq_some_iff.mp hchild).1.le
      have hslot : slot? first items.length = some i := slot?_eq_some_iff.mpr ⟨hi, hle⟩
      rw [setAt_arr hslot, at?_arr, at?_arr, hj, Option.bind_some, Option.bind_some,
        getElem?_putItem hle, if_pos rfl, hchild, Option.getD_some, Option.bind_some,
        Option.bind_some, ih]

/-- Writing to a dotted path of any tree: the value is read there, a second value replaces the
first, and whatever path diverges from the written one reads the same before and after. -/
theorem setDotted_laws (tree : Json) (path : String) (first second : Json) :
    at? (segments path) (setDotted tree path first) = some first ∧
      setDotted (setDotted tree path first) path second = setDotted tree path second ∧
      ∀ other, Diverge (segments path) (segments other) tree →
        at? (segments other) (setDotted tree path first) = at? (segments other) tree :=
  ⟨at?_setAt (segments path) tree first, setAt_setAt (segments path) tree first second,
    fun _ h => at?_setAt_of_diverge h first⟩

/-- A value behind the end of a list, under a member that is there. -/
theorem setDotted_laws_list :
    let tree : Json := .obj [("list", .arr [.obj [("x", .ofNat 1)]]), ("rest", .bool true)]
    (Diverge (segments "list.1.y") (segments "list.0.x") tree ∧
      at? (segments "list.0.x") (setDotted tree "list.1.y" (.str "new")) = some (.ofNat 1)) ∧
    at? (segments "list.1.y") (setDotted tree "list.1.y" (.str "new")) = some (.str "new") ∧
    setDotted (setDotted tree "list.1.y" (.str "new")) "list.1.y" .null =
      .obj
        [("list", .arr [.obj [("x", .ofNat 1)], .obj [("y", .null)]]), ("rest", .bool true)] := by
  intro tree
  have hdiverge : Diverge (segments "list.1.y") (segments "list.0.x") tree := by
    have hpositions : Diverge ["1", "y"] ["0", "x"] (.arr [.obj [("x", .ofNat 1)]]) :=
      .positions (i := 1) (j := 0) (by decide) (by decide) (by decide)
    have hfront : at? ["list"] tree = some (.arr [.obj [("x", .ofNat 1)]]) := rfl
    exact hpositions.append hfront
  obtain ⟨hread, hagain, hbeside⟩ := setDotted_laws tree "list.1.y" (.str "new") .null
  exact ⟨⟨hdiverge, hbeside "list.0.x" hdiverge⟩, hread, hagain⟩

end Json

end ApiDoc
