import ApiDoc.Proofs.Json.Same
import ApiDoc.Proofs.PathChange.Basic

/-!
# Changes with the same values

Two lists of overrides for a path are the same if their values are: zero may have either
sign, and the members of an object may come in any order.  Changes that are the same in
this way give documents that are, and differ at most in extensions of parameters.
-/

namespace ApiDoc

/-- One value, or two that the comparison of values does not tell apart. -/
def Json.Alike (x y : Json) : Prop :=
  x = y ∨ x.same y = true

theorem Json.Alike.asStr?_eq {x y : Json} (h : x.Alike y) : x.asStr? = y.asStr? := by
  rcases h with rfl | h
  · rfl
  · cases x <;> cases y <;> simp_all [Json.same, Json.asStr?]

theorem Json.Alike.asBool?_eq {x y : Json} (h : x.Alike y) : x.asBool? = y.asBool? := by
  rcases h with rfl | h
  · rfl
  · cases x <;> cases y <;> simp_all [Json.same, Json.asBool?]

namespace Dict

variable {α : Type u} {R : α → α → Prop} {d e : Dict α}

/-- The same keys in the same order, with related values. -/
def Alike (R : α → α → Prop) (d e : Dict α) : Prop :=
  List.Forall₂ (fun x y => x.1 = y.1 ∧ R x.2 y.2) d e

theorem Alike.refl (hR : ∀ x, R x x) (d : Dict α) : Alike R d d :=
  List.forall₂_same.mpr fun x _ => ⟨rfl, hR x.2⟩

theorem Alike.find? (h : Alike R d e) (key : String) :
    Option.Rel R (find? d key) (find? e key) :=
  rel_find?_of_forall₂ h key

theorem Alike.has_eq (h : Alike R d e) (key : String) : has d key = has e key := by
  rw [has, has]
  rcases eq_none_or_eq_some_of_rel (h.find? key) with ⟨hd, he⟩ | ⟨x, y, hd, he, -⟩
  · rw [hd, he]
  · rw [hd, he]
    rfl

theorem Alike.insert (h : Alike R d e) (key : String) {v w : α} (hvalue : R v w) :
    Alike R (insert d key v) (insert e key w) := by
  induction h with
  | nil => exact .cons ⟨rfl, hvalue⟩ .nil
  | @cons x y rest others hentry hrest ih =>
      obtain ⟨k, v'⟩ := x
      obtain ⟨l, w'⟩ := y
      obtain ⟨rfl, hold⟩ := hentry
      rw [Dict.insert, Dict.insert]
      split
      · exact .cons ⟨rfl, hvalue⟩ hrest
      · split
        · exact .cons ⟨rfl, hvalue⟩ (.cons ⟨rfl, hold⟩ hrest)
        · exact .cons ⟨rfl, hold⟩ ih

theorem Alike.erase (h : Alike R d e) (key : String) : Alike R (erase d key) (erase e key) := by
  induction h with
  | nil => exact .nil
  | @cons x y rest others hentry hrest ih =>
      obtain ⟨k, v⟩ := x
      obtain ⟨l, w⟩ := y
      obtain ⟨rfl, hold⟩ := hentry
      rw [Dict.erase, Dict.erase]
      split
      · exact ih
      · exact .cons ⟨rfl, hold⟩ ih

end Dict

/-- Two parameters that differ at most in the values of extensions, which are alike. -/
structure Parameter.Alike (p q : Parameter) : Prop where
  fields : q = { p with extensions := q.extensions }
  extensions : ∀ key, Option.Rel Json.Alike (Dict.find? p.extensions key)
    (Dict.find? q.extensions key)

/-- Two operations that differ at most in their parameters, which are alike. -/
structure Operation.Alike (o p : Operation) : Prop where
  fields : p = { o with parameters := p.parameters }
  parameters : List.Forall₂ Parameter.Alike o.parameters p.parameters

/-- The same methods under the same paths, with operations that are alike. -/
def Paths.Alike (paths others : Paths) : Prop :=
  Dict.Alike (Dict.Alike Operation.Alike) paths others

theorem Parameter.Alike.refl (p : Parameter) : p.Alike p :=
  ⟨rfl, fun key => by
    cases Dict.find? p.extensions key with
    | none => exact .none
    | some x => exact .some (.inl rfl)⟩

theorem Operation.Alike.refl (o : Operation) : o.Alike o :=
  ⟨rfl, List.forall₂_same.mpr fun p _ => Parameter.Alike.refl p⟩

theorem Paths.Alike.refl (paths : Paths) : paths.Alike paths :=
  Dict.Alike.refl (Dict.Alike.refl Operation.Alike.refl) paths

namespace PathOverride

/-- Two overrides with the same keys, and values that are alike. -/
structure Alike (c d : PathOverride) : Prop where
  left : (Dict.keys c).Nodup
  right : (Dict.keys d).Nodup
  values : ∀ key, Option.Rel Json.Alike (Dict.find? c key) (Dict.find? d key)

/-- Objects that compare as equal have the same keys, since none is repeated. -/
theorem alike_of_same {c d : PathOverride} (hc : (Dict.keys c).Nodup)
    (hd : (Dict.keys d).Nodup) (h : (Json.obj c).same (.obj d) = true) : Alike c d := by
  refine ⟨hc, hd, fun key => ?_⟩
  rcases eq_none_or_eq_some_of_rel ((Json.same_obj_iff hc hd).mp h key) with
    ⟨hnone, hmissing⟩ | ⟨x, y, hx, hy, hsame⟩
  · rw [hnone, hmissing]
    exact .none
  · rw [hx, hy]
    exact .some (.inr hsame)

theorem forall₂_of_same {xs ys : List PathOverride} (hxs : ∀ c ∈ xs, (Dict.keys c).Nodup)
    (hys : ∀ d ∈ ys, (Dict.keys d).Nodup) (h : same xs ys = true) :
    List.Forall₂ Alike xs ys := by
  induction xs generalizing ys with
  | nil =>
      cases ys with
      | nil => exact .nil
      | cons d ys => simp [same, Json.sameItems] at h
  | cons c xs ih =>
      cases ys with
      | nil => simp [same, Json.sameItems] at h
      | cons d ys =>
          rw [same, List.map_cons, List.map_cons, Json.sameItems, Bool.and_eq_true] at h
          obtain ⟨hc, hxs⟩ := List.forall_mem_cons.mp hxs
          obtain ⟨hd, hys⟩ := List.forall_mem_cons.mp hys
          exact .cons (alike_of_same hc hd h.1) (ih hxs hys h.2)

/-- Overrides that `register` takes for the same are alike. -/
theorem forall₂_alike {xs ys : List PathOverride} (hxs : ∀ c ∈ xs, (Dict.keys c).Nodup)
    (hys : ∀ d ∈ ys, (Dict.keys d).Nodup) (h : xs = ys ∨ same xs ys = true) :
    List.Forall₂ Alike xs ys := by
  rcases h with rfl | h
  · refine List.forall₂_same.mpr fun c hc => ⟨hxs c hc, hxs c hc, fun key => ?_⟩
    cases Dict.find? c key with
    | none => exact .none
    | some x => exact .some (.inl rfl)
  · exact forall₂_of_same hxs hys h

namespace Alike

variable {c d : PathOverride}

/-- What is read from a key in the same way for values that are alike is the same. -/
theorem bind_eq (h : c.Alike d) {α : Type} {read : Json → Option α}
    (hread : ∀ x y : Json, x.Alike y → read x = read y) (key : String) :
    (Dict.find? c key).bind read = (Dict.find? d key).bind read := by
  rcases eq_none_or_eq_some_of_rel (h.values key) with ⟨hc, hd⟩ | ⟨x, y, hc, hd, hsame⟩
  · rw [hc, hd]
  · rw [hc, hd]
    exact hread x y hsame

theorem name?_eq (h : c.Alike d) : name? c = name? d :=
  h.bind_eq (fun _ _ => Json.Alike.asStr?_eq) "name"

/-- The extensions that the keys without a meaning become. -/
theorem others (h : c.Alike d) (key : String) :
    Option.Rel Json.Alike
      (Dict.find? (c.filter fun entry => !fieldNames.contains entry.1) key)
      (Dict.find? (d.filter fun entry => !fieldNames.contains entry.1) key) := by
  rw [Dict.find?_filter fun key => !fieldNames.contains key,
    Dict.find?_filter fun key => !fieldNames.contains key]
  split
  · exact h.values key
  · exact .none

theorem apply (h : c.Alike d) {p q : Parameter} (hpq : p.Alike q) :
    (apply c p).Alike (PathOverride.apply d q) := by
  obtain ⟨hfields, hextensions⟩ := hpq
  have htext := h.bind_eq fun _ _ => Json.Alike.asStr?_eq
  have hflag := h.bind_eq (fun _ _ => Json.Alike.asBool?_eq) "required"
  constructor
  · rw [hfields]
    simp only [PathOverride.apply, htext, hflag]
  · intro key
    have hkeys : ∀ override : PathOverride, (Dict.keys override).Nodup →
        (Dict.keys (override.filter fun entry => !fieldNames.contains entry.1)).Nodup :=
      fun override hnodup => hnodup.sublist (List.filter_sublist.map _)
    rw [PathOverride.apply, PathOverride.apply, Dict.find?_insertAll (hkeys c h.left),
      Dict.find?_insertAll (hkeys d h.right)]
    rcases eq_none_or_eq_some_of_rel (h.others key) with ⟨hc, hd⟩ | ⟨x, y, hc, hd, hvalue⟩
    · rw [hc, hd]
      exact hextensions key
    · rw [hc, hd]
      exact .some hvalue

end Alike

theorem alike_applyAll {xs ys : List PathOverride} {ps qs : List Parameter}
    (h : List.Forall₂ Alike xs ys) (hpq : List.Forall₂ Parameter.Alike ps qs) :
    List.Forall₂ Parameter.Alike (applyAll xs ps) (applyAll ys qs) := by
  induction hpq generalizing xs ys with
  | nil => cases h <;> exact .nil
  | @cons p q ps qs hfirst hrest ih =>
      cases h with
      | nil => exact .cons hfirst hrest
      | @cons c d xs ys hchange hchanges =>
          have hlocation : q.location = p.location := by rw [hfirst.fields]
          rw [applyAll, applyAll, hlocation]
          split
          · exact .cons (hchange.apply hfirst) (ih hchanges)
          · exact .cons hfirst (ih (.cons hchange hchanges))

theorem map_name?_eq {xs ys : List PathOverride} (h : List.Forall₂ Alike xs ys) :
    xs.map name? = ys.map name? := by
  induction h with
  | nil => rfl
  | cons hchange _ ih => rw [List.map_cons, List.map_cons, hchange.name?_eq, ih]

end PathOverride

namespace PathChanges

variable {xs ys : List PathOverride}

theorem alike_changeOperation (h : List.Forall₂ PathOverride.Alike xs ys) {o p : Operation}
    (hop : o.Alike p) : (changeOperation xs o).Alike (changeOperation ys p) := by
  refine ⟨?_, PathOverride.alike_applyAll h hop.parameters⟩
  rw [hop.fields]
  rfl

theorem alike_changeItem (h : List.Forall₂ PathOverride.Alike xs ys) {item other : PathItem}
    (hitem : Dict.Alike Operation.Alike item other) :
    Dict.Alike Operation.Alike (changeItem xs item) (changeItem ys other) := by
  refine List.forall₂_map_left_iff.mpr (List.forall₂_map_right_iff.mpr (hitem.imp ?_))
  exact fun _ _ hentry => ⟨hentry.1, alike_changeOperation h hentry.2⟩

theorem alike_foldl_moveOperation {uri target : String} {moved others : PathItem}
    (hmoved : Dict.Alike Operation.Alike moved others) {s t : PathItem × List Warning}
    (hst : Dict.Alike Operation.Alike s.1 t.1) :
    Dict.Alike Operation.Alike (moved.foldl (moveOperation uri target) s).1
      (others.foldl (moveOperation uri target) t).1 := by
  induction hmoved generalizing s t with
  | nil => exact hst
  | @cons x y _ _ hentry _ ih =>
      obtain ⟨hmethod, hoperation⟩ := hentry
      refine ih ?_
      rw [moveOperation_fst, moveOperation_fst, ← hmethod, ← hst.has_eq]
      split
      · exact hst
      · exact hst.insert x.1 hoperation

theorem alike_applyOne {uri : String} (h : List.Forall₂ PathOverride.Alike xs ys)
    {s t : Paths × List Warning} (hst : s.1.Alike t.1) :
    (applyOne s (uri, xs)).1.Alike (applyOne t (uri, ys)).1 := by
  obtain ⟨paths, warnings⟩ := s
  obtain ⟨others, notes⟩ := t
  have hrest := Dict.Alike.erase hst uri
  have htarget : renamed uri ys = renamed uri xs := by
    rw [renamed, renamed, PathOverride.map_name?_eq h]
  have hthere : Dict.Alike Operation.Alike
      ((Dict.find? (Dict.erase paths uri) (renamed uri xs)).getD [])
      ((Dict.find? (Dict.erase others uri) (renamed uri xs)).getD []) := by
    rcases eq_none_or_eq_some_of_rel (hrest.find? (renamed uri xs)) with
      ⟨hp, ho⟩ | ⟨item, other, hp, ho, hitem⟩
    · rw [hp, ho]
      exact .nil
    · rw [hp, ho]
      exact hitem
  rcases eq_none_or_eq_some_of_rel (hst.find? uri) with ⟨hp, ho⟩ | ⟨item, other, hp, ho, hitem⟩
  · simpa only [applyOne, hp, ho] using hst
  · simp only [applyOne, hp, ho, htarget]
    exact hrest.insert _ (alike_foldl_moveOperation (alike_changeItem h hitem) hthere)

/-- Changes that are alike give paths that are alike. -/
theorem alike_apply {changes others : PathChanges}
    (h : Dict.Alike (List.Forall₂ PathOverride.Alike) changes others) (paths : Paths) :
    (changes.apply paths).1.Alike (others.apply paths).1 := by
  have hrun : ∀ s t : Paths × List Warning, s.1.Alike t.1 →
      (changes.foldl applyOne s).1.Alike (others.foldl applyOne t).1 := by
    induction h with
    | nil => exact fun _ _ hst => hst
    | @cons x y _ _ hentry _ ih =>
        obtain ⟨uri, xs⟩ := x
        obtain ⟨_, ys⟩ := y
        obtain ⟨rfl, hchange⟩ := hentry
        exact fun s t hst => ih _ _ (alike_applyOne hchange hst)
  exact hrun (paths, []) (paths, []) (Paths.Alike.refl paths)

end PathChanges

end ApiDoc
