import ApiDoc.Assembly.Document
import ApiDoc.Proofs.Json.Same

/-!
# Recording the changes of paths

The overrides of paths are recorded call by call.  A call for a path that has no overrides
yet is accepted.  A later call for this path is accepted if its overrides are the same as
those there, else refused, and in both cases nothing changes.  So after any calls each path
has the overrides of its first call, and a call is refused exactly if an accepted one gave
its path other overrides.
-/

namespace ApiDoc

namespace PathOverride

variable {xs ys zs : List PathOverride}

theorem distinct_arr_map_obj (h : ∀ change ∈ xs, (Json.obj change).Distinct) :
    (Json.arr (xs.map .obj)).Distinct := by
  rw [Json.distinct_arr_iff, List.forall_mem_map]
  exact h

theorem same_symm (hxs : ∀ change ∈ xs, (Json.obj change).Distinct)
    (hys : ∀ change ∈ ys, (Json.obj change).Distinct) (h : same xs ys = true) :
    same ys xs = true :=
  Json.same_symm (distinct_arr_map_obj hxs) (distinct_arr_map_obj hys) h

theorem same_trans (hxs : ∀ change ∈ xs, (Json.obj change).Distinct)
    (hys : ∀ change ∈ ys, (Json.obj change).Distinct)
    (hzs : ∀ change ∈ zs, (Json.obj change).Distinct) (hxy : same xs ys = true)
    (hyz : same ys zs = true) : same xs zs = true :=
  Json.same_trans (distinct_arr_map_obj hxs) (distinct_arr_map_obj hys)
    (distinct_arr_map_obj hzs) hxy hyz

end PathOverride

namespace PathChanges

/-! ## One call -/

section Call

variable {changes : PathChanges} {uri : String} {overrides : List PathOverride} {e : Error}

/-- A call is refused if its path has other overrides. -/
theorem register_eq_error_iff :
    changes.register uri overrides = .error e ↔
      .repeatedPathChange uri = e ∧
        ∃ first, Dict.find? changes uri = some first ∧
          PathOverride.same first overrides = false := by
  rw [register]
  cases Dict.find? changes uri with
  | none => simp
  | some first => cases hsame : PathOverride.same first overrides <;> simp [hsame]

/-- A call is accepted if its path has the same overrides or none. -/
theorem exists_register_eq_ok_iff :
    (∃ recorded, changes.register uri overrides = .ok recorded) ↔
      ∀ first, Dict.find? changes uri = some first → PathOverride.same first overrides = true := by
  rw [register]
  cases Dict.find? changes uri with
  | none => simp
  | some first => cases hsame : PathOverride.same first overrides <;> simp [hsame]

/-- The changes after a call.  A refused call leaves them. -/
def record (changes : PathChanges) (uri : String) (overrides : List PathOverride) : PathChanges :=
  match changes.register uri overrides with
  | .ok recorded => recorded
  | .error _ => changes

theorem record_eq (changes : PathChanges) (uri : String) (overrides : List PathOverride) :
    changes.record uri overrides =
      if (Dict.find? changes uri).isSome then changes
      else Dict.insert changes uri overrides := by
  rw [record, register]
  cases Dict.find? changes uri with
  | none => rfl
  | some first => cases hsame : PathOverride.same first overrides <;> simp [hsame]

theorem find?_record (changes : PathChanges) (uri : String) (overrides : List PathOverride)
    (key : String) :
    Dict.find? (changes.record uri overrides) key =
      (Dict.find? changes key).or (if uri = key then some overrides else none) := by
  rw [record_eq]
  split
  · next hsome =>
      by_cases huri : uri = key
      · subst huri
        exact (Option.or_of_isSome hsome).symm
      · rw [if_neg huri, Option.or_none]
  · next hnone =>
      rw [Dict.find?_insert]
      by_cases huri : uri = key
      · subst huri
        rw [Option.not_isSome_iff_eq_none.mp hnone, Option.none_or]
      · rw [if_neg huri, if_neg huri, Option.or_none]

/-- Changes are recorded in increasing order of their paths. -/
theorem increasing_record (h : Dict.Increasing changes) :
    Dict.Increasing (changes.record uri overrides) := by
  rw [record_eq]
  split
  · exact h
  · exact h.insert uri overrides

end Call

/-! ## A run of calls -/

/-- A call that records the overrides of a path. -/
structure Registration where
  uri : String
  overrides : List PathOverride
  /-- No object in an override, and no override, has a key twice. -/
  distinct : ∀ change ∈ overrides, (Json.obj change).Distinct

/-- The changes after calls one after another, from no changes. -/
def recordAll (calls : List Registration) : PathChanges :=
  calls.foldl (fun changes call => changes.record call.uri call.overrides) []

/-- One of the calls was accepted. -/
def Accepted (calls : List Registration) (call : Registration) : Prop :=
  ∃ before after, calls = before ++ call :: after ∧
    ∃ recorded, (recordAll before).register call.uri call.overrides = .ok recorded

variable {calls : List Registration} {call first : Registration}

theorem Accepted.mem (h : Accepted calls call) : call ∈ calls := by
  obtain ⟨before, after, rfl, -⟩ := h
  exact List.mem_append_right before List.mem_cons_self

theorem recordAll_concat (calls : List Registration) (call : Registration) :
    recordAll (calls ++ [call]) = (recordAll calls).record call.uri call.overrides := by
  rw [recordAll, List.foldl_concat]
  rfl

theorem increasing_recordAll (calls : List Registration) : Dict.Increasing (recordAll calls) :=
  List.foldlRecOn (motive := fun changes => Dict.Increasing changes) calls _ List.Pairwise.nil
    fun _ h _ _ => increasing_record h

/-- Each path has the overrides of its first call. -/
theorem find?_recordAll (calls : List Registration) (uri : String) :
    Dict.find? (recordAll calls) uri = (calls.find? (·.uri = uri)).map (·.overrides) := by
  induction calls using List.reverseRecOn with
  | nil => rfl
  | append_singleton calls call ih =>
      rw [recordAll_concat, find?_record, ih, List.find?_append, Option.map_or]
      congr 1
      by_cases huri : call.uri = uri <;> simp [huri]

/-- The first call of a path is accepted. -/
theorem accepted_of_find? {uri : String} (h : calls.find? (·.uri = uri) = some first) :
    Accepted calls first := by
  obtain ⟨huri, before, after, hcalls, hbefore⟩ := List.find?_eq_some_iff_append.mp h
  refine ⟨before, after, hcalls, exists_register_eq_ok_iff.mpr fun overrides hthere => ?_⟩
  have hnone : before.find? (·.uri = first.uri) = none := by
    rw [List.find?_eq_none, of_decide_eq_true huri]
    simpa using hbefore
  rw [find?_recordAll, hnone] at hthere
  cases hthere

/-- An accepted call has the overrides of the first call of its path, or the same ones. -/
theorem eq_or_same_of_accepted (h : Accepted calls call)
    (hfirst : calls.find? (·.uri = call.uri) = some first) :
    first = call ∨ PathOverride.same first.overrides call.overrides = true := by
  obtain ⟨before, after, rfl, haccepted⟩ := h
  rw [List.find?_append] at hfirst
  cases hbefore : before.find? (·.uri = call.uri) with
  | none =>
      rw [hbefore, Option.none_or, List.find?_cons_of_pos (by simp)] at hfirst
      exact .inl (Option.some.inj hfirst).symm
  | some earlier =>
      obtain rfl : earlier = first := by simpa [hbefore] using hfirst
      refine .inr (exists_register_eq_ok_iff.mp haccepted _ ?_)
      rw [find?_recordAll, hbefore]
      rfl

/-- A call is refused if an accepted one gave its path other overrides. -/
theorem exists_register_eq_error_iff :
    (∃ e, (recordAll calls).register call.uri call.overrides = .error e) ↔
      ∃ first, Accepted calls first ∧ first.uri = call.uri ∧
        PathOverride.same first.overrides call.overrides = false := by
  simp only [register_eq_error_iff, find?_recordAll, Option.map_eq_some_iff]
  constructor
  · rintro ⟨e, -, _, ⟨first, hfirst, rfl⟩, hother⟩
    exact ⟨first, accepted_of_find? hfirst, by simpa using List.find?_some hfirst, hother⟩
  · rintro ⟨later, haccepted, huri, hother⟩
    obtain ⟨first, hfirst⟩ : ∃ first, calls.find? (·.uri = call.uri) = some first := by
      rw [← Option.isSome_iff_exists, List.find?_isSome]
      exact ⟨later, haccepted.mem, by simpa using huri⟩
    refine ⟨_, rfl, _, ⟨first, hfirst, rfl⟩, ?_⟩
    rw [← Bool.not_eq_true] at hother ⊢
    intro hsame
    rw [← huri] at hfirst
    rcases eq_or_same_of_accepted haccepted hfirst with rfl | halike
    · exact hother hsame
    · exact hother (PathOverride.same_trans later.distinct first.distinct call.distinct
        (PathOverride.same_symm first.distinct later.distinct halike) hsame)

/-- After any calls each path stands once, with the overrides of its first call.  A further
call is refused exactly if an accepted one gave its path other overrides; the error names
the path, the changes stay, and the draft that holds them gets a warning and nothing else. -/
theorem recordAll_keeps_first (calls : List Registration) :
    Dict.Increasing (recordAll calls) ∧
    (∀ uri, Dict.find? (recordAll calls) uri =
      (calls.find? (·.uri = uri)).map (·.overrides)) ∧
    ∀ call : Registration,
      ((∃ e, (recordAll calls).register call.uri call.overrides = .error e) ↔
        ∃ first, Accepted calls first ∧ first.uri = call.uri ∧
          PathOverride.same first.overrides call.overrides = false) ∧
      ∀ e, (recordAll calls).register call.uri call.overrides = .error e →
        e = .repeatedPathChange call.uri ∧
        recordAll (calls ++ [call]) = recordAll calls ∧
        ∀ route draft, draft.changes = recordAll calls →
          Assembly.addChanges call.uri route (some call.overrides) draft =
            { draft with warnings := draft.warnings ++ [.repeatedPathChange call.uri route] } := by
  refine ⟨increasing_recordAll calls, find?_recordAll calls, fun call => ?_⟩
  refine ⟨exists_register_eq_error_iff, fun e h => ?_⟩
  obtain ⟨rfl, -⟩ := register_eq_error_iff.mp h
  refine ⟨rfl, ?_, fun route draft hdraft => ?_⟩
  · rw [recordAll_concat, record, h]
  · rw [Assembly.addChanges, hdraft, h]

/-- Two methods of one path that rename its parameter differently: the second is refused. -/
theorem recordAll_keeps_first_pet :
    let pet : Registration :=
      { uri := "/pets/\x7bid\x7d", overrides := [[("name", .str "pet")]], distinct := by
          simpa [Json.distinct_obj_iff, Dict.keys] using Json.Distinct.str }
    let cat : Registration :=
      { uri := "/pets/\x7bid\x7d", overrides := [[("name", .str "cat")]], distinct := by
          simpa [Json.distinct_obj_iff, Dict.keys] using Json.Distinct.str }
    (recordAll [pet]).register cat.uri cat.overrides = .error (.repeatedPathChange cat.uri) ∧
      recordAll [pet, cat] = recordAll [pet] ∧
      Dict.find? (recordAll [pet, cat]) cat.uri = some pet.overrides := by
  intro pet cat
  obtain ⟨-, -, hcalls⟩ := recordAll_keeps_first [pet]
  obtain ⟨hrefused, hstays⟩ := hcalls cat
  have hpet : Accepted [pet] pet := ⟨[], [], rfl, _, rfl⟩
  obtain ⟨e, he⟩ := hrefused.mpr ⟨pet, hpet, rfl, by decide⟩
  obtain ⟨rfl, hsame, -⟩ := hstays e he
  exact ⟨he, hsame, (recordAll_keeps_first [pet, cat]).2.1 cat.uri⟩

end PathChanges

end ApiDoc
