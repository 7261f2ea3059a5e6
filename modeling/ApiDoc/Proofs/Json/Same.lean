import ApiDoc.Proofs.Binary64.Rounding
import ApiDoc.Proofs.Json.Distinct
import Mathlib.Data.List.Perm.Subperm

/-!
# Equality of values

Two values are the same if their numbers are, whatever the sign of a zero, and if their
objects have the same members, in whatever order.  On values that repeat no key this is
symmetric and transitive: two objects are the same exactly if every key has the same value
in both, or is missing in both.  A float that is not a number is not the same as itself.
-/

namespace ApiDoc

/-! ## Numbers -/

namespace Binary64

variable {s t : Bool} {m n : Nat} {e f lower : Int}

/-- Finite numbers are equal if their mantissas are at any exponent below theirs. -/
theorem compare?_finite_eq_iff (he : lower ≤ e) (hf : lower ≤ f) :
    compare? (.finite s m e) (.finite t n f) = some .eq ↔
      mantissaAt s m e lower = mantissaAt t n f lower := by
  have hfactor : ((2 ^ (min e f - lower).toNat : Nat) : Int) ≠ 0 :=
    Int.natCast_ne_zero.mpr (Nat.two_pow_pos _).ne'
  rw [mantissaAt_lower (le_min he hf) (min_le_left e f),
    mantissaAt_lower (le_min he hf) (min_le_right e f), Int.mul_eq_mul_right_iff hfactor, compare?,
    Option.some_inj, compare_eq_iff_eq]

theorem compare?_eq_symm {x y : Binary64} (h : compare? x y = some .eq) :
    compare? y x = some .eq := by
  match x, y with
  | .infinite s, .infinite t => cases s <;> cases t <;> simp_all [compare?]
  | .infinite s, .finite .. => cases s <;> simp [compare?] at h
  | .finite .., .infinite t => cases t <;> simp [compare?] at h
  | .finite s m e, .finite t n f =>
      rw [compare?_finite_eq_iff (min_le_left e f) (min_le_right e f)] at h
      rw [compare?_finite_eq_iff (min_le_right e f) (min_le_left e f), h]

theorem compare?_eq_trans {x y z : Binary64} (hxy : compare? x y = some .eq)
    (hyz : compare? y z = some .eq) : compare? x z = some .eq := by
  match x, y, z with
  | .infinite s, .infinite t, .infinite u =>
      cases s <;> cases t <;> cases u <;> simp_all [compare?]
  | .infinite s, .finite .., _ => cases s <;> simp [compare?] at hxy
  | .finite .., .infinite t, _ => cases t <;> simp [compare?] at hxy
  | _, .infinite s, .finite .. => cases s <;> simp [compare?] at hyz
  | _, .finite .., .infinite t => cases t <;> simp [compare?] at hyz
  | .finite s m e, .finite t n f, .finite u l g =>
      obtain ⟨lower, he, hf, hg⟩ : ∃ lower, lower ≤ e ∧ lower ≤ f ∧ lower ≤ g :=
        ⟨min e (min f g), by omega⟩
      rw [compare?_finite_eq_iff he hf] at hxy
      rw [compare?_finite_eq_iff hf hg] at hyz
      rw [compare?_finite_eq_iff he hg, hxy, hyz]

end Binary64

namespace Number

theorem same_symm {x y : Number} (h : x.same y = true) : y.same x = true := by
  match x, y with
  | .int a, .int b =>
      rw [same, beq_iff_eq] at h ⊢
      exact h.symm
  | .float a, .float b =>
      rw [same, beq_iff_eq] at h ⊢
      exact Binary64.compare?_eq_symm h

theorem same_trans {x y z : Number} (hxy : x.same y = true) (hyz : y.same z = true) :
    x.same z = true := by
  match x, y, z with
  | .int a, .int b, .int c =>
      rw [same, beq_iff_eq] at *
      exact hxy.trans hyz
  | .float a, .float b, .float c =>
      rw [same, beq_iff_eq] at *
      exact Binary64.compare?_eq_trans hxy hyz

end Number

theorem eq_none_or_eq_some_of_rel {α : Type u} {β : Type v} {R : α → β → Prop} {x : Option α}
    {y : Option β} (h : Option.Rel R x y) :
    x = none ∧ y = none ∨ ∃ a b, x = some a ∧ y = some b ∧ R a b := by
  cases h with
  | none => exact .inl ⟨rfl, rfl⟩
  | some hab => exact .inr ⟨_, _, rfl, rfl, hab⟩

namespace Json

variable {x y z : Json} {xs ys zs : List Json} {members others : List (String × Json)}

/-! ## Objects -/

theorem sameMembers_iff : sameMembers members others = true ↔
    ∀ entry ∈ members, ∃ y, Dict.find? others entry.1 = some y ∧ entry.2.same y = true := by
  induction members with
  | nil => simp [sameMembers]
  | cons first rest ih =>
      obtain ⟨key, x⟩ := first
      rw [sameMembers, Bool.and_eq_true, ih, List.forall_mem_cons]
      cases Dict.find? others key <;> simp

/-- Objects that compare as equal have the same keys, since none is repeated. -/
theorem perm_keys_of_same (hmembers : (Dict.keys members).Nodup)
    (h : (obj members).same (obj others) = true) :
    (Dict.keys members).Perm (Dict.keys others) := by
  rw [same, Bool.and_eq_true, sameMembers_iff] at h
  obtain ⟨hlength, hvalues⟩ := h
  have hsubset : Dict.keys members ⊆ Dict.keys others := by
    intro key hkey
    obtain ⟨entry, hentry, rfl⟩ := List.mem_map.mp hkey
    obtain ⟨y, hy, -⟩ := hvalues entry hentry
    exact List.mem_map.mpr ⟨(entry.1, y), Dict.mem_of_find? hy, rfl⟩
  refine (hmembers.subperm hsubset).perm_of_length_le ?_
  simpa [Dict.keys] using (beq_iff_eq.mp hlength).ge

/-- Objects are the same if every key has the same value in both, or is missing in both. -/
theorem same_obj_iff (hmembers : (Dict.keys members).Nodup) (hothers : (Dict.keys others).Nodup) :
    (obj members).same (obj others) = true ↔
      ∀ key, Option.Rel (fun x y => x.same y = true) (Dict.find? members key)
        (Dict.find? others key) := by
  constructor
  · intro h key
    have hperm := perm_keys_of_same hmembers h
    rw [same, Bool.and_eq_true, sameMembers_iff] at h
    cases hfind : Dict.find? members key with
    | some x =>
        obtain ⟨y, hy, hsame⟩ := h.2 _ (Dict.mem_of_find? hfind)
        rw [hy]
        exact .some hsame
    | none =>
        rw [Dict.find?_eq_none_iff_not_mem_keys, hperm.mem_iff,
          ← Dict.find?_eq_none_iff_not_mem_keys] at hfind
        rw [hfind]
        exact .none
  · intro h
    have hkeys : ∀ key, key ∈ Dict.keys members ↔ key ∈ Dict.keys others := by
      intro key
      rw [Dict.mem_keys_iff, Dict.mem_keys_iff]
      rcases eq_none_or_eq_some_of_rel (h key) with ⟨hx, hy⟩ | ⟨x, y, hx, hy, -⟩
      · rw [hx, hy]
      · rw [hx, hy]
        exact iff_of_true rfl rfl
    have hlength := ((List.perm_ext_iff_of_nodup hmembers hothers).mpr hkeys).length_eq
    rw [same, Bool.and_eq_true, sameMembers_iff]
    refine ⟨beq_iff_eq.mpr (by simpa [Dict.keys] using hlength), fun entry hentry => ?_⟩
    have hthere := Dict.find?_of_mem_of_nodup hmembers hentry
    rcases eq_none_or_eq_some_of_rel (h entry.1) with ⟨hx, -⟩ | ⟨x, y, hx, hy, hsame⟩
    · rw [hthere] at hx
      cases hx
    · obtain rfl := Option.some.inj (hthere.symm.trans hx)
      exact ⟨y, hy, hsame⟩

/-! ## Symmetry and transitivity -/

theorem sameItems_symm (h : ∀ x ∈ xs, ∀ y : Json, y.Distinct → x.same y = true → y.same x = true)
    (hys : ∀ y ∈ ys, y.Distinct) (hsame : sameItems xs ys = true) :
    sameItems ys xs = true := by
  induction xs generalizing ys with
  | nil =>
      cases ys with
      | nil => rfl
      | cons y ys => cases hsame
  | cons x xs ih =>
      cases ys with
      | nil => cases hsame
      | cons y ys =>
          obtain ⟨hx, hxs⟩ := List.forall_mem_cons.mp h
          obtain ⟨hy, hys⟩ := List.forall_mem_cons.mp hys
          rw [sameItems, Bool.and_eq_true] at hsame ⊢
          exact ⟨hx y hy hsame.1, ih hxs hys hsame.2⟩

theorem same_symm (hx : x.Distinct) (hy : y.Distinct) (h : x.same y = true) :
    y.same x = true := by
  induction hx generalizing y with
  | null => cases y <;> simp_all [same]
  | bool => cases y <;> simp_all [same]
  | num =>
      cases y with
      | num n => exact Number.same_symm h
      | _ => cases h
  | str => cases y <;> simp_all [same]
  | @arr xs hxs ih =>
      cases y with
      | arr ys =>
          exact sameItems_symm (fun x hx y hdistinct => ih x hx hdistinct)
            (distinct_arr_iff.mp hy) h
      | _ => cases h
  | @obj members hkeys hvalues ih =>
      cases y with
      | obj others =>
          obtain ⟨hothers, hdistinct⟩ := distinct_obj_iff.mp hy
          rw [same_obj_iff hkeys hothers] at h
          refine (same_obj_iff hothers hkeys).mpr fun key => ?_
          rcases eq_none_or_eq_some_of_rel (h key) with ⟨hx, hy⟩ | ⟨x, y, hx, hy, hsame⟩
          · rw [hx, hy]
            exact .none
          · rw [hx, hy]
            exact .some (ih _ (Dict.mem_of_find? hx) (distinct_find? hdistinct hy) hsame)
      | _ => cases h

theorem sameItems_trans
    (h : ∀ x ∈ xs, ∀ y z : Json, y.Distinct → z.Distinct → x.same y = true → y.same z = true →
      x.same z = true)
    (hys : ∀ y ∈ ys, y.Distinct) (hzs : ∀ z ∈ zs, z.Distinct) (hxy : sameItems xs ys = true)
    (hyz : sameItems ys zs = true) : sameItems xs zs = true := by
  induction xs generalizing ys zs with
  | nil =>
      cases ys with
      | nil => exact hyz
      | cons y ys => cases hxy
  | cons x xs ih =>
      cases ys with
      | nil => cases hxy
      | cons y ys =>
          cases zs with
          | nil => cases hyz
          | cons z zs =>
              obtain ⟨hx, hxs⟩ := List.forall_mem_cons.mp h
              obtain ⟨hy, hys⟩ := List.forall_mem_cons.mp hys
              obtain ⟨hz, hzs⟩ := List.forall_mem_cons.mp hzs
              rw [sameItems, Bool.and_eq_true] at hxy hyz ⊢
              exact ⟨hx y z hy hz hxy.1 hyz.1, ih hxs hys hzs hxy.2 hyz.2⟩

theorem same_trans (hx : x.Distinct) (hy : y.Distinct) (hz : z.Distinct)
    (hxy : x.same y = true) (hyz : y.same z = true) : x.same z = true := by
  induction hx generalizing y z with
  | null =>
      cases y with
      | null => exact hyz
      | _ => cases hxy
  | bool => cases y <;> cases z <;> simp_all [same]
  | num =>
      cases y with
      | num n =>
          cases z with
          | num m => exact Number.same_trans hxy hyz
          | _ => cases hyz
      | _ => cases hxy
  | str => cases y <;> cases z <;> simp_all [same]
  | @arr xs hxs ih =>
      cases y with
      | arr ys =>
          cases z with
          | arr zs =>
              exact sameItems_trans (fun x hx y z hdistinct hvalid => ih x hx hdistinct hvalid)
                (distinct_arr_iff.mp hy) (distinct_arr_iff.mp hz) hxy hyz
          | _ => cases hyz
      | _ => cases hxy
  | @obj members hkeys hvalues ih =>
      cases y with
      | obj others =>
          cases z with
          | obj more =>
              obtain ⟨hothers, hdistinct⟩ := distinct_obj_iff.mp hy
              obtain ⟨hmore, hvalid⟩ := distinct_obj_iff.mp hz
              rw [same_obj_iff hkeys hothers] at hxy
              rw [same_obj_iff hothers hmore] at hyz
              refine (same_obj_iff hkeys hmore).mpr fun key => ?_
              rcases eq_none_or_eq_some_of_rel (hxy key) with
                ⟨hnone, habsent⟩ | ⟨x, y, hfirst, hsecond, hsame⟩
              · rw [hnone, ← habsent]
                exact hyz key
              · rcases eq_none_or_eq_some_of_rel (hyz key) with
                  ⟨habsent, -⟩ | ⟨_, z, hthere, hthird, hthen⟩
                · rw [hsecond] at habsent
                  cases habsent
                · obtain rfl := Option.some.inj (hsecond.symm.trans hthere)
                  rw [hfirst, hthird]
                  exact .some (ih _ (Dict.mem_of_find? hfirst) (distinct_find? hdistinct hsecond)
                    (distinct_find? hvalid hthird) hsame hthen)
          | _ => cases hyz
      | _ => cases hxy

end Json

end ApiDoc
