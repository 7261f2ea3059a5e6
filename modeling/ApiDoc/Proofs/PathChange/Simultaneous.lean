import ApiDoc.Proofs.PathChange.Basic
import Mathlib.Data.List.Induction

/-!
# Changes as one renaming

The changes of a document are meant as one renaming: each operation is changed by the
overrides of its own path and moves once.  They are applied one after another, so an
operation that has moved to a path with a later change is changed and moved again.
The order does not show for those changes only which agree with what an operation has
when it arrives at their path.
-/

namespace ApiDoc

/-- The operation of a method under a path. -/
def Paths.operation? (paths : Paths) (key method : String) : Option Operation :=
  (Dict.find? paths key).bind fun item => Dict.find? item method

namespace PathChanges

/-- The path under which the operations of a path are to end. -/
def target (changes : PathChanges) (uri : String) : String :=
  ((Dict.find? changes uri).map (renamed uri)).getD uri

/-- What an operation of a path is to become. -/
def revised (changes : PathChanges) (uri : String) (o : Operation) : Operation :=
  ((Dict.find? changes uri).map (changeOperation · o)).getD o

/-- One document comes from another by all changes at once. -/
structure Simultaneous (changes : PathChanges) (before after : Paths) : Prop where
  /-- Each operation was changed once, by the overrides of its own path, and stands
  where they lead. -/
  origin : ∀ key method o, after.operation? key method = some o →
    ∃ uri p, before.operation? uri method = some p ∧ changes.target uri = key ∧
      changes.revised uri p = o
  /-- An operation gives way only to one of the same method from another path that ends
  at the same place. -/
  kept : ∀ uri method p, before.operation? uri method = some p →
    after.operation? (changes.target uri) method = some (changes.revised uri p) ∨
      ∃ other q, other ≠ uri ∧ before.operation? other method = some q ∧
        changes.target other = changes.target uri ∧
        after.operation? (changes.target uri) method = some (changes.revised other q)
  /-- The operations of a path without a change stay. -/
  untouched : ∀ uri method p, Dict.find? changes uri = none →
    before.operation? uri method = some p → after.operation? uri method = some p

/-- A later change of the path to which an earlier one leads neither moves nor changes
what comes from there. -/
def Absorbs (first next : String × List PathOverride) : Prop :=
  renamed first.1 first.2 = next.1 →
    renamed next.1 next.2 = next.1 ∧
      ∀ o, changeOperation next.2 (changeOperation first.2 o) = changeOperation first.2 o

/-- No operation is moved or changed twice. -/
def Unchained (changes : PathChanges) : Prop :=
  changes.Pairwise Absorbs

/-! ## One change -/

theorem find?_foldl_moveOperation {uri target : String} (moved : PathItem)
    (state : PathItem × List Warning) (method : String) :
    Dict.find? (moved.foldl (moveOperation uri target) state).1 method =
      (Dict.find? state.1 method).or (Dict.find? moved method) := by
  induction moved generalizing state with
  | nil => simp
  | cons first rest ih =>
      rw [List.foldl_cons, ih, moveOperation_fst, Dict.find?]
      by_cases hthere : Dict.has state.1 first.1
      · rw [if_pos hthere]
        by_cases hmethod : first.1 = method
        · obtain ⟨o, ho⟩ := Option.isSome_iff_exists.mp (hmethod ▸ hthere)
          simp [ho]
        · rw [if_neg hmethod]
      · have hnone : Dict.find? state.1 first.1 = none := by
          simpa [Dict.has] using hthere
        rw [if_neg hthere, Dict.find?_insert]
        by_cases hmethod : first.1 = method
        · rw [if_pos hmethod, if_pos hmethod, ← hmethod, hnone]
          rfl
        · rw [if_neg hmethod, if_neg hmethod]

/-- What a change makes of the operations: those of its path are changed and moved, and
take the places that are free. -/
theorem operation?_applyOne (state : Paths × List Warning)
    (change : String × List PathOverride) (key method : String) :
    (applyOne state change).1.operation? key method =
      (if key = change.1 then none else state.1.operation? key method).or
        (if key = renamed change.1 change.2 then
          (state.1.operation? change.1 method).map (changeOperation change.2) else none) := by
  obtain ⟨paths, warnings⟩ := state
  obtain ⟨uri, overrides⟩ := change
  cases hfind : Dict.find? paths uri with
  | none =>
      have hnone : paths.operation? uri method = none := by
        rw [Paths.operation?, hfind, Option.bind_none]
      simp only [applyOne, hfind, hnone, Option.map_none, ite_self, Option.or_none]
      split
      · next hkey => rw [hkey, hnone]
      · rfl
  | some item =>
      have hitem : paths.operation? uri method = Dict.find? item method := by
        rw [Paths.operation?, hfind, Option.bind_some]
      have hchanged : Dict.find? (changeItem overrides item) method =
          (Dict.find? item method).map (changeOperation overrides) :=
        Dict.find?_mapValues _ item method
      simp only [applyOne, hfind, hitem]
      rw [Paths.operation?, Dict.find?_insert]
      by_cases hkey : renamed uri overrides = key
      · rw [if_pos hkey, if_pos hkey.symm, Option.bind_some, find?_foldl_moveOperation,
          hchanged, Dict.find?_erase, hkey]
        by_cases huri : uri = key
        · simp [huri]
        · rw [if_neg huri, if_neg (Ne.symm huri), Paths.operation?]
          cases Dict.find? paths key <;> rfl
      · rw [if_neg hkey, if_neg (Ne.symm hkey), Option.or_none, Dict.find?_erase,
          Paths.operation?]
        by_cases huri : uri = key
        · rw [if_pos huri, if_pos huri.symm, Option.bind_none]
        · rw [if_neg huri, if_neg (Ne.symm huri)]

/-! ## From each change to all of them -/

variable {changes done : PathChanges} {change : String × List PathOverride}
  {before after : Paths}

theorem target_append (hnew : Dict.find? done change.1 = none) (uri : String) :
    target (done ++ [change]) uri =
      if uri = change.1 then renamed change.1 change.2 else done.target uri := by
  rw [target, target, Dict.find?_append, Dict.find?, Dict.find?_nil]
  by_cases huri : uri = change.1
  · simp [huri, hnew]
  · simp [huri, Ne.symm huri]

theorem revised_append (hnew : Dict.find? done change.1 = none) (uri : String)
    (o : Operation) :
    revised (done ++ [change]) uri o =
      if uri = change.1 then changeOperation change.2 o else done.revised uri o := by
  rw [revised, revised, Dict.find?_append, Dict.find?, Dict.find?_nil]
  by_cases huri : uri = change.1
  · simp [huri, hnew]
  · simp [huri, Ne.symm huri]

theorem target_of_find? (h : Dict.find? changes change.1 = none) :
    changes.target change.1 = change.1 := by
  rw [target, h, Option.map_none, Option.getD_none]

theorem revised_of_find? (h : Dict.find? changes change.1 = none) (o : Operation) :
    changes.revised change.1 o = o := by
  rw [revised, h, Option.map_none, Option.getD_none]

/-- What has come to the path of a change is left alone by it, if nothing is chained. -/
theorem absorbed_of_target_eq (hnext : ∀ first ∈ done, Absorbs first change) {uri : String}
    (huri : uri ≠ change.1) (htarget : done.target uri = change.1) :
    renamed change.1 change.2 = change.1 ∧
      ∀ o, changeOperation change.2 (done.revised uri o) = done.revised uri o := by
  cases hfind : Dict.find? done uri with
  | none =>
      rw [target, hfind, Option.map_none, Option.getD_none] at htarget
      exact absurd htarget huri
  | some overrides =>
      rw [target, hfind, Option.map_some, Option.getD_some] at htarget
      have hmem := Dict.mem_of_find? hfind
      simpa [revised, hfind] using hnext _ hmem htarget

namespace Simultaneous

theorem refl (paths : Paths) : Simultaneous [] paths paths where
  origin key _ o h := ⟨key, o, h, rfl, rfl⟩
  kept _ _ _ h := .inl h
  untouched _ _ _ _ h := h

theorem isSome_target (h : Simultaneous changes before after) {uri method : String}
    {p : Operation} (hp : before.operation? uri method = some p) :
    (after.operation? (changes.target uri) method).isSome := by
  rcases h.kept uri method p hp with hsome | ⟨other, q, -, -, -, hsome⟩
  · rw [hsome]; rfl
  · rw [hsome]; rfl

/-- If every operation has an origin, it is enough that there is one at each place
where operations are to end. -/
theorem of_isSome
    (origin : ∀ key method o, after.operation? key method = some o →
      ∃ uri p, before.operation? uri method = some p ∧ changes.target uri = key ∧
        changes.revised uri p = o)
    (present : ∀ uri method p, before.operation? uri method = some p →
      (after.operation? (changes.target uri) method).isSome)
    (untouched : ∀ uri method p, Dict.find? changes uri = none →
      before.operation? uri method = some p → after.operation? uri method = some p) :
    Simultaneous changes before after where
  origin := origin
  kept uri method p hp := by
    obtain ⟨o, ho⟩ := Option.isSome_iff_exists.mp (present uri method p hp)
    obtain ⟨other, q, hq, htarget, rfl⟩ := origin _ method o ho
    by_cases hother : other = uri
    · subst hother
      obtain rfl : q = p := Option.some.inj (hq.symm.trans hp)
      exact .inl ho
    · exact .inr ⟨other, q, hother, hq, htarget, ho⟩
  untouched := untouched

/-- One more change of a path that had none, when it absorbs what comes to its path. -/
theorem applyOne {state : Paths × List Warning}
    (hnew : Dict.find? done change.1 = none)
    (hnext : ∀ first ∈ done, Absorbs first change)
    (h : Simultaneous done before state.1) :
    Simultaneous (done ++ [change]) before (applyOne state change).1 := by
  refine of_isSome ?_ ?_ ?_
  · intro key method o ho
    rw [operation?_applyOne] at ho
    rcases Option.or_eq_some_iff.mp ho with hstayed | ⟨-, hmoved⟩
    -- It stayed, so it stands under another path than that of the change.
    · have hkey : key ≠ change.1 := by
        rintro rfl
        simp at hstayed
      rw [if_neg hkey] at hstayed
      obtain ⟨uri, p, hp, rfl, rfl⟩ := h.origin key method o hstayed
      have huri : uri ≠ change.1 := by
        rintro rfl
        exact hkey (target_of_find? hnew)
      refine ⟨uri, p, hp, ?_, ?_⟩
      · rw [target_append hnew, if_neg huri]
      · rw [revised_append hnew, if_neg huri]
    -- It was moved now: from its own path, or it had come to the path of the change before.
    · have hkey : key = renamed change.1 change.2 := by
        by_contra hne
        simp [hne] at hmoved
      rw [if_pos hkey] at hmoved
      obtain ⟨q, hq, rfl⟩ := Option.map_eq_some_iff.mp hmoved
      obtain ⟨uri, p, hp, htarget, rfl⟩ := h.origin change.1 method q hq
      refine ⟨uri, p, hp, ?_, ?_⟩
      · rw [target_append hnew, hkey]
        split
        · rfl
        · next huri =>
            rw [htarget, (absorbed_of_target_eq hnext huri htarget).1]
      · rw [revised_append hnew]
        split
        · next huri => rw [huri, revised_of_find? hnew]
        · next huri => rw [(absorbed_of_target_eq hnext huri htarget).2]
  · intro uri method p hp
    have hpresent := h.isSome_target hp
    rw [operation?_applyOne, target_append hnew, Option.isSome_or, Bool.or_eq_true]
    by_cases huri : uri = change.1
    · rw [huri, target_of_find? hnew] at hpresent
      rw [if_pos huri, if_pos rfl, Option.isSome_map]
      exact .inr hpresent
    · rw [if_neg huri]
      by_cases hhere : done.target uri = change.1
      · have hstays := (absorbed_of_target_eq hnext huri hhere).1
        rw [hhere] at hpresent ⊢
        rw [if_pos hstays.symm, Option.isSome_map]
        exact .inr hpresent
      · rw [if_neg hhere]
        exact .inl hpresent
  · intro uri method p hnone hp
    rw [Dict.find?_append, Option.or_eq_none_iff] at hnone
    have huri : uri ≠ change.1 := by
      rintro rfl
      simp [Dict.find?] at hnone
    rw [operation?_applyOne, if_neg huri, h.untouched uri method p hnone.1 hp,
      Option.some_or]

end Simultaneous

/-- Changes that are not chained are one renaming. -/
theorem simultaneous_foldl (hincreasing : Dict.Increasing changes)
    (hunchained : changes.Unchained) (state : Paths × List Warning) :
    Simultaneous changes state.1 (changes.foldl applyOne state).1 := by
  induction changes using List.reverseRecOn with
  | nil => exact Simultaneous.refl state.1
  | append_singleton done change ih =>
      obtain ⟨hdone, -, hkeys⟩ := List.pairwise_append.mp hincreasing
      obtain ⟨hrest, -, hnext⟩ := List.pairwise_append.mp hunchained
      have hnew : Dict.find? done change.1 = none := by
        refine Dict.find?_eq_none_iff.mpr fun value hvalue => ?_
        exact lt_irrefl _ (hkeys _ hvalue change List.mem_cons_self)
      rw [List.foldl_append]
      exact (ih hdone hrest).applyOne hnew
        fun first hfirst => hnext first hfirst change List.mem_cons_self

/-! ## One operation through the changes -/

/-- A document with a single operation. -/
def IsSingle (paths : Paths) (uri : String) (o : Operation) : Prop :=
  ∀ key method, paths.operation? key method =
    if key = uri ∧ method = "get" then some o else none

theorem isSingle_cons_nil (uri : String) (o : Operation) :
    IsSingle [(uri, [("get", o)])] uri o := by
  intro key method
  by_cases hkey : key = uri
  · by_cases hmethod : method = "get"
    · simp [Paths.operation?, Dict.find?, hkey, hmethod]
    · simp [Paths.operation?, Dict.find?, hkey, hmethod, Ne.symm hmethod]
  · simp [Paths.operation?, Dict.find?, hkey, Ne.symm hkey]

theorem IsSingle.applyOne_self {state : Paths × List Warning} {o : Operation}
    (h : IsSingle state.1 change.1 o) :
    IsSingle (applyOne state change).1 (renamed change.1 change.2)
      (changeOperation change.2 o) := by
  intro key method
  rw [operation?_applyOne, h, h]
  by_cases hkey : key = change.1 <;> by_cases hmoved : key = renamed change.1 change.2 <;>
    by_cases hmethod : method = "get" <;> simp_all

theorem IsSingle.foldl_of_ne {state : Paths × List Warning} {uri : String} {o : Operation}
    (hne : ∀ change ∈ changes, change.1 ≠ uri) (h : IsSingle state.1 uri o) :
    IsSingle (changes.foldl applyOne state).1 uri o := by
  induction changes generalizing state with
  | nil => exact h
  | cons change rest ih =>
      refine ih (fun later hlater => hne later (List.mem_cons_of_mem _ hlater)) ?_
      have hchange := hne change List.mem_cons_self
      intro key method
      have hnone : state.1.operation? change.1 method = none := by
        rw [h, if_neg fun hboth => hchange hboth.1]
      rw [operation?_applyOne, hnone, h, Option.map_none, ite_self, Option.or_none]
      by_cases hkey : key = change.1
      · simp [hkey, hchange]
      · rw [if_neg hkey]

/-- A change absorbs what an earlier one has moved to its path, as a document with one
operation shows, if none of the changes behind them is chained. -/
theorem absorbs_of_simultaneous {first next : String × List PathOverride}
    {rest : PathChanges} (hincreasing : Dict.Increasing (done ++ first :: rest))
    (hrest : rest.Unchained) (hnext : next ∈ rest)
    (h : ∀ paths, Simultaneous (done ++ first :: rest) paths
      (apply (done ++ first :: rest) paths).1) :
    Absorbs first next := by
  intro hleads
  obtain ⟨-, hlast, hkeys⟩ := List.pairwise_append.mp hincreasing
  have hbehind : Dict.Increasing rest := (List.pairwise_cons.mp hlast).2
  have hdone : ∀ change ∈ done, change.1 ≠ first.1 := fun change hchange =>
    ne_of_lt (hkeys change hchange first List.mem_cons_self)
  have hfirst : Dict.find? (done ++ first :: rest) first.1 = some first.2 :=
    Dict.find?_of_mem hincreasing (List.mem_append_right _ List.mem_cons_self)
  have hfind : Dict.find? rest next.1 = some next.2 := Dict.find?_of_mem hbehind hnext
  have hmoves : ∀ o, renamed next.1 next.2 = next.1 ∧
      changeOperation next.2 (changeOperation first.2 o) = changeOperation first.2 o := by
    intro o
    -- Alone in a document, the operation is not replaced by another on its way.
    have harrived : IsSingle
        (applyOne (done.foldl applyOne ([(first.1, [("get", o)])], [])) first).1
        next.1 (changeOperation first.2 o) :=
      hleads ▸ (IsSingle.foldl_of_ne hdone (isSingle_cons_nil first.1 o)).applyOne_self
    have hthere := (simultaneous_foldl hbehind hrest _).kept next.1 "get" _
      (by rw [harrived, if_pos ⟨rfl, rfl⟩])
    rcases hthere with hmoved | ⟨other, q, hother, hq, -⟩
    -- The renaming knows of the first change only, the document of both.
    · rw [target, revised, hfind, Option.map_some, Option.map_some, Option.getD_some,
        Option.getD_some] at hmoved
      have happly := h [(first.1, [("get", o)])]
      rw [apply, List.foldl_append, List.foldl_cons] at happly
      obtain ⟨uri, p, hp, htarget, hrevised⟩ := happly.origin _ "get" _ hmoved
      rw [isSingle_cons_nil first.1 o] at hp
      obtain ⟨⟨rfl, -⟩, hsame⟩ := Option.ite_none_right_eq_some.mp hp
      obtain rfl : o = p := Option.some.inj hsame
      rw [target, hfirst, Option.map_some, Option.getD_some] at htarget
      rw [revised, hfirst, Option.map_some, Option.getD_some] at hrevised
      exact ⟨htarget.symm.trans hleads, hrevised.symm⟩
    · rw [harrived, if_neg fun hboth => hother hboth.1] at hq
      cases hq
  exact ⟨(hmoves {}).1, fun o => (hmoves o).2⟩

/-- If the changes are one renaming of every document, none of them is chained.  The
induction goes from the last change to the first, so that what follows a pair of
changes is known to be one renaming. -/
theorem unchained_of_simultaneous (hincreasing : Dict.Increasing changes)
    (h : ∀ paths, Simultaneous changes paths (changes.apply paths).1) : changes.Unchained := by
  suffices hsuffix : ∀ rest done, changes = done ++ rest → Unchained rest from
    hsuffix changes [] rfl
  intro rest
  induction rest with
  | nil => exact fun _ _ => List.Pairwise.nil
  | cons first rest ih =>
      intro done hsplit
      have hrest : Unchained rest :=
        ih (done ++ [first]) (by rw [hsplit, List.append_assoc, List.singleton_append])
      subst hsplit
      exact List.Pairwise.cons
        (fun next hnext => absorbs_of_simultaneous hincreasing hrest hnext h) hrest

/-- The recorded changes are one renaming of every document exactly if none of them is
chained. -/
theorem simultaneous_apply_iff (hincreasing : Dict.Increasing changes) :
    (∀ paths, Simultaneous changes paths (changes.apply paths).1) ↔ changes.Unchained :=
  ⟨unchained_of_simultaneous hincreasing,
    fun hunchained paths => simultaneous_foldl hincreasing hunchained (paths, [])⟩

/-- Two changes which lead to other places are one renaming. -/
theorem simultaneous_apply_two :
    let changes : PathChanges :=
      [("/a/\x7bx\x7d", [[("name", .str "y")]]), ("/b/\x7bu\x7d", [[("name", .str "v")]])]
    Dict.Increasing changes ∧
      ∀ paths, Simultaneous changes paths (changes.apply paths).1 := by
  intro changes
  have hincreasing : Dict.Increasing changes := by decide +kernel
  have hunchained : changes.Unchained :=
    List.pairwise_pair.mpr fun hleads => absurd hleads (by decide +kernel)
  exact ⟨hincreasing, (simultaneous_apply_iff hincreasing).mpr hunchained⟩

/-- An operation that is to end under `/a/{y}` is moved on by the change of that path. -/
theorem not_simultaneous_chain :
    let changes : PathChanges :=
      [("/a/\x7bx\x7d", [[("name", .str "y")]]), ("/a/\x7by\x7d", [[("name", .str "z")]])]
    let paths : Paths :=
      [("/a/\x7bx\x7d", [("get", { parameters := Template.parameters "/a/\x7bx\x7d" })])]
    Dict.Increasing changes ∧
      ¬ Simultaneous changes paths (changes.apply paths).1 := by
  intro changes paths
  refine ⟨by decide +kernel, fun h => ?_⟩
  have hthere : ((changes.apply paths).1.operation?
      (changes.target "/a/\x7bx\x7d") "get").isSome := h.isSome_target rfl
  exact absurd hthere (by decide +kernel)

end PathChanges

end ApiDoc
