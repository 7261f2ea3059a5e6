import ApiDoc.Json.Dotted
import ApiDoc.Json.Reader
import ApiDoc.Proofs.Dict

/-!
# Values without repeated keys

A value read from a text repeats no key, and writing such a value to a place of another
one gives such a value again.
-/

namespace ApiDoc.Json

/-- No object inside the value has a key twice. -/
inductive Distinct : Json → Prop
  | null : Distinct null
  | bool {b : Bool} : Distinct (bool b)
  | num {n : Number} : Distinct (num n)
  | str {s : String} : Distinct (str s)
  | arr {items : List Json} (hitems : ∀ j ∈ items, Distinct j) : Distinct (arr items)
  | obj {members : List (String × Json)} (hkeys : (Dict.keys members).Nodup)
      (hvalues : ∀ entry ∈ members, Distinct entry.2) : Distinct (obj members)

theorem distinct_arr_iff {items : List Json} :
    (arr items).Distinct ↔ ∀ j ∈ items, j.Distinct :=
  ⟨fun h => by cases h with | arr hitems => exact hitems, .arr⟩

theorem distinct_obj_iff {members : List (String × Json)} :
    (obj members).Distinct ↔
      (Dict.keys members).Nodup ∧ ∀ entry ∈ members, entry.2.Distinct :=
  ⟨fun h => by cases h with | obj hkeys hvalues => exact ⟨hkeys, hvalues⟩,
    fun h => .obj h.1 h.2⟩

/-! ## Values that were read -/

mutual

theorem distinct_merged : (j : Json) → j.merged.Distinct
  | .null => .null
  | .bool _ => .bool
  | .num _ => .num
  | .str _ => .str
  | .arr items => .arr (distinct_mergedItems items)
  | .obj members =>
      .obj (Dict.nodup_keys_merged _) (Dict.forall_mem_merged (distinct_mergedMembers members))

theorem distinct_mergedItems : (items : List Json) → ∀ j ∈ mergedItems items, j.Distinct
  | [] => by simp [mergedItems]
  | j :: rest => by
      rw [mergedItems]
      exact List.forall_mem_cons.mpr ⟨distinct_merged j, distinct_mergedItems rest⟩

theorem distinct_mergedMembers : (members : List (String × Json)) →
    ∀ entry ∈ mergedMembers members, entry.2.Distinct
  | [] => by simp [mergedMembers]
  | (key, j) :: rest => by
      rw [mergedMembers]
      exact List.forall_mem_cons.mpr ⟨distinct_merged j, distinct_mergedMembers rest⟩

end

mutual

/-- A value that repeats no key stays as it is. -/
theorem merged_of_distinct : (j : Json) → j.Distinct → j.merged = j
  | .null, _ => rfl
  | .bool _, _ => rfl
  | .num _, _ => rfl
  | .str _, _ => rfl
  | .arr items, h => by
      rw [merged, mergedItems_of_distinct items (distinct_arr_iff.mp h)]
  | .obj members, h => by
      obtain ⟨hkeys, hvalues⟩ := distinct_obj_iff.mp h
      rw [merged, mergedMembers_of_distinct members hvalues, Dict.merged_of_nodup hkeys]

theorem mergedItems_of_distinct : (items : List Json) → (∀ j ∈ items, j.Distinct) →
    mergedItems items = items
  | [], _ => rfl
  | j :: rest, h => by
      obtain ⟨hj, hrest⟩ := List.forall_mem_cons.mp h
      rw [mergedItems, merged_of_distinct j hj, mergedItems_of_distinct rest hrest]

theorem mergedMembers_of_distinct : (members : List (String × Json)) →
    (∀ entry ∈ members, entry.2.Distinct) → mergedMembers members = members
  | [], _ => rfl
  | (key, j) :: rest, h => by
      obtain ⟨hj, hrest⟩ := List.forall_mem_cons.mp h
      rw [mergedMembers, merged_of_distinct j hj, mergedMembers_of_distinct rest hrest]

end

theorem distinct_of_read? {cs : List Char} {j : Json} (h : read? cs = some j) :
    j.Distinct := by
  obtain ⟨raw, -, rfl⟩ := Option.map_eq_some_iff.mp h
  exact distinct_merged raw

/-! ## Writing to a place -/

theorem distinct_put {members : List (String × Json)} {key : String} {value : Json}
    (hmembers : (obj members).Distinct) (hvalue : value.Distinct) :
    (obj (Dict.put members key value)).Distinct := by
  obtain ⟨hkeys, hvalues⟩ := distinct_obj_iff.mp hmembers
  refine .obj (Dict.nodup_keys_put hkeys key value) ?_
  intro entry hentry
  rcases Dict.mem_put hentry with rfl | hold
  · exact hvalue
  · exact hvalues entry hold

theorem distinct_find? {members : List (String × Json)} {key : String} {j : Json}
    (hmembers : ∀ entry ∈ members, entry.2.Distinct)
    (h : Dict.find? members key = some j) : j.Distinct :=
  hmembers _ (Dict.mem_of_find? h)

theorem distinct_setAt {path : List String} {tree value : Json} (htree : tree.Distinct)
    (hvalue : value.Distinct) : (setAt path tree value).Distinct := by
  induction path generalizing tree with
  | nil => exact hvalue
  | cons segment path ih =>
      have hempty : (obj []).Distinct := .obj List.nodup_nil (by simp)
      have hkey : ∀ members, (obj members).Distinct →
          (obj (Dict.put members segment
            (setAt path ((Dict.find? members segment).getD (obj [])) value))).Distinct := by
        intro members hmembers
        refine distinct_put hmembers (ih ?_)
        cases hfind : Dict.find? members segment with
        | none => exact hempty
        | some j => exact distinct_find? (distinct_obj_iff.mp hmembers).2 hfind
      cases tree with
      | arr items =>
          have hitems := distinct_arr_iff.mp htree
          simp only [setAt]
          split
          · split
            · next i _ item hitem =>
                refine .arr fun j hj => ?_
                rcases List.mem_or_eq_of_mem_set hj with hold | rfl
                · exact hitems j hold
                · exact ih (hitems item (List.mem_of_getElem? hitem))
            · refine .arr fun j hj => ?_
              rcases List.mem_append.mp hj with hold | hnew
              · exact hitems j hold
              · exact List.mem_singleton.mp hnew ▸ ih .null
          · exact hkey [] hempty
      | obj members => exact hkey members htree
      | null => exact hkey [] hempty
      | bool _ => exact hkey [] hempty
      | num _ => exact hkey [] hempty
      | str _ => exact hkey [] hempty

theorem distinct_setDotted {tree value : Json} (htree : tree.Distinct)
    (hvalue : value.Distinct) (path : String) : (setDotted tree path value).Distinct :=
  distinct_setAt htree hvalue

end ApiDoc.Json
