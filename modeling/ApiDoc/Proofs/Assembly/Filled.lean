import ApiDoc.Proofs.Assembly.Table

/-!
# Paths without operations

A route that is kept puts an item under its path also when all its methods are left out,
and then the item stays empty, unless another route answers a method there.  A change of
path parameters never leaves an empty item behind, and fills the one that it moves to.  So
it can be told from the routes which items of a document are empty, before and after the
changes.
-/

namespace ApiDoc

namespace Paths

variable {paths : Paths} {key : String}

/-- Every path has an operation. -/
def Filled (paths : Paths) : Prop :=
  ∀ entry ∈ paths, entry.2 ≠ []

instance : DecidablePred Filled := fun paths =>
  inferInstanceAs (Decidable (∀ entry ∈ paths, entry.2 ≠ []))

/-- There is an operation under a path. -/
def HasOperation (paths : Paths) (key : String) : Prop :=
  ∃ method o, paths.operation? key method = some o

theorem hasOperation_iff :
    paths.HasOperation key ↔ ∃ item, Dict.find? paths key = some item ∧ item ≠ [] := by
  constructor
  · rintro ⟨method, o, ho⟩
    obtain ⟨item, hitem, hmethod⟩ := Option.bind_eq_some_iff.mp ho
    refine ⟨item, hitem, ?_⟩
    rintro rfl
    cases hmethod
  · rintro ⟨item, hitem, hne⟩
    cases item with
    | nil => exact absurd rfl hne
    | cons entry rest =>
        refine ⟨entry.1, entry.2, ?_⟩
        rw [operation?, hitem, Option.bind_some, Dict.find?_cons_self]

theorem HasOperation.find?_ne_nil (h : paths.HasOperation key) :
    Dict.find? paths key ≠ some [] := by
  obtain ⟨item, hitem, hne⟩ := hasOperation_iff.mp h
  rw [hitem]
  exact fun hempty => hne (Option.some.inj hempty)

theorem filled_iff (h : paths.Ordered) :
    paths.Filled ↔ ∀ key, Dict.find? paths key ≠ some [] := by
  constructor
  · intro hfilled key hempty
    exact hfilled _ (Dict.mem_of_find? hempty) rfl
  · intro hnone entry hentry hempty
    apply hnone entry.1
    rw [Dict.find?_of_mem h.increasing hentry, hempty]

end Paths

/-! ## Changes of paths -/

namespace PathChanges

variable {changes : PathChanges} {state : Paths × List Warning}
  {change : String × List PathOverride} {key : String}

/-- A change takes operations from its own path only. -/
theorem hasOperation_applyOne (hne : key ≠ change.1) (h : state.1.HasOperation key) :
    (applyOne state change).1.HasOperation key := by
  obtain ⟨method, o, ho⟩ := h
  refine ⟨method, o, ?_⟩
  rw [operation?_applyOne, if_neg hne, ho, Option.some_or]

/-- The path to which a change leads has the operations that it moves. -/
theorem hasOperation_applyOne_renamed (h : state.1.HasOperation change.1) :
    (applyOne state change).1.HasOperation (renamed change.1 change.2) := by
  obtain ⟨method, o, ho⟩ := h
  refine ⟨method, Option.isSome_iff_exists.mp ?_⟩
  rw [operation?_applyOne, if_pos rfl, ho, Option.isSome_or, Option.map_some, Option.isSome_some,
    Bool.or_true]

/-- A change takes its own path away, and leaves all others but the one it leads to. -/
theorem find?_applyOne (hne : renamed change.1 change.2 ≠ key) :
    Dict.find? (applyOne state change).1 key =
      if change.1 = key then none else Dict.find? state.1 key := by
  obtain ⟨paths, warnings⟩ := state
  obtain ⟨uri, overrides⟩ := change
  cases hfind : Dict.find? paths uri with
  | none =>
      simp only [applyOne, hfind]
      split
      · next huri => rw [← huri, hfind]
      · rfl
  | some item =>
      simp only [applyOne, hfind]
      rw [Dict.find?_insert, if_neg hne, Dict.find?_erase]

/-- A change of a path with operations makes no empty item, and fills one where it leads
to it. -/
theorem find?_applyOne_eq_nil_iff (h : state.1.HasOperation change.1) (key : String) :
    Dict.find? (applyOne state change).1 key = some [] ↔
      Dict.find? state.1 key = some [] ∧ renamed change.1 change.2 ≠ key := by
  by_cases hkey : renamed change.1 change.2 = key
  · subst hkey
    refine iff_of_false ?_ fun hboth => hboth.2 rfl
    exact (hasOperation_applyOne_renamed h).find?_ne_nil
  · rw [find?_applyOne hkey, and_iff_left hkey]
    split
    · next huri =>
        refine iff_of_false ?_ (huri ▸ h.find?_ne_nil)
        intro hnone
        cases hnone
    · rfl

theorem find?_foldl_applyOne_eq_nil_iff (hkeys : (Dict.keys changes).Nodup)
    (h : ∀ change ∈ changes, state.1.HasOperation change.1) (key : String) :
    Dict.find? (changes.foldl applyOne state).1 key = some [] ↔
      Dict.find? state.1 key = some [] ∧
        ∀ change ∈ changes, renamed change.1 change.2 ≠ key := by
  induction changes generalizing state with
  | nil => simp
  | cons first rest ih =>
      obtain ⟨hfirst, hrest⟩ := List.nodup_cons.mp hkeys
      have hlater : ∀ change ∈ rest, (applyOne state first).1.HasOperation change.1 := by
        intro change hchange
        apply hasOperation_applyOne
        · intro hsame
          exact hfirst (List.mem_map.mpr ⟨change, hchange, hsame⟩)
        · exact h change (List.mem_cons_of_mem _ hchange)
      rw [List.foldl_cons, ih hrest hlater, find?_applyOne_eq_nil_iff (h first List.mem_cons_self),
        List.forall_mem_cons, and_assoc]

end PathChanges

/-! ## Drafts -/

namespace Assembly

variable {a : Assembly} {base key : String} {resolve : Resolver} {routes : List Route}
  {draft : Draft}

/-- Some route documents a method under a path. -/
def Answers (a : Assembly) (base : String) (routes : List Route) (key : String) : Prop :=
  ∃ route ∈ routes, ∃ method, a.serves base key method route = true

theorem hasOperation_draft_iff (h : routes.foldlM (a.addRoute base resolve) {} = .ok draft) :
    draft.paths.HasOperation key ↔ a.Answers base routes key := by
  constructor
  · rintro ⟨name, o, ho⟩
    obtain ⟨route, hroute, method, hserves, -⟩ := exists_serves_of_operation?_draft h ho
    exact ⟨route, hroute, method, hserves⟩
  · rintro ⟨route, hroute, method, hserves⟩
    obtain ⟨last, hlast⟩ := exists_getLast?_filter_serves hroute hserves
    obtain ⟨d, -, hoperation⟩ := operation?_draft_of_getLast? h hlast
    exact ⟨method.name, d.operation, hoperation⟩

/-- Only paths with operations are changed. -/
theorem hasOperation_of_mem_changes
    (h : routes.foldlM (a.addRoute base resolve) {} = .ok draft)
    {change : String × List PathOverride} (hchange : change ∈ draft.changes) :
    draft.paths.HasOperation change.1 := by
  obtain ⟨d, ⟨route, hroute, hkept, hkey, method, hmethod, -⟩, -⟩ :=
    (from_draft h).changes change hchange
  rw [hasOperation_draft_iff h]
  exact ⟨route, hroute, method, serves_iff.mpr ⟨hkept, hkey.symm, hmethod⟩⟩

/-- The empty items of a draft are those of kept routes under whose path no method is
documented. -/
theorem find?_draft_eq_nil_iff (h : routes.foldlM (a.addRoute base resolve) {} = .ok draft) :
    Dict.find? draft.paths key = some [] ↔
      (∃ route ∈ routes, a.isDropped base route = false ∧
        pathKey (relativeUri base route.uri) = key) ∧ ¬ a.Answers base routes key := by
  rw [← isSome_find?_draft h, ← hasOperation_draft_iff h, Paths.hasOperation_iff]
  cases Dict.find? draft.paths key with
  | none => simp
  | some item => simp

end Assembly

/-! ## Documents -/

namespace Application

open Assembly

variable {app : Application} {a : Assembly} {filter : Option String} {document : Document}
  {warnings : List Warning}

/-- Before the changes of paths all items are filled, exactly if under the path of every
kept route some method is documented.  After the changes an item may also be filled by one
that leads to it. -/
theorem filled_paths_iff (h : app.documentOf a filter = .ok (document, warnings)) :
    let base := basePrefix a.settings filter
    ∃ draft, app.routes.foldlM (a.addRoute base app.resolve) {} = .ok draft ∧
      document.paths = (draft.changes.apply draft.paths).1 ∧
      (draft.paths.Filled ↔ ∀ route ∈ app.routes, a.isDropped base route = false →
        a.Answers base app.routes (pathKey (relativeUri base route.uri))) ∧
      (document.paths.Filled ↔ ∀ route ∈ app.routes, a.isDropped base route = false →
        a.Answers base app.routes (pathKey (relativeUri base route.uri)) ∨
          ∃ change ∈ draft.changes, PathChanges.renamed change.1 change.2 =
            pathKey (relativeUri base route.uri)) := by
  intro base
  obtain ⟨schemas, draft, -, hdraft, rfl⟩ := documentUnder_eq_ok h
  have hordered : draft.paths.Ordered := ordered_draft hdraft
  refine ⟨draft, hdraft, rfl, ?_, ?_⟩
  · rw [Paths.filled_iff hordered]
    constructor
    · intro hfilled route hroute hkept
      by_contra hnone
      exact hfilled _ ((find?_draft_eq_nil_iff hdraft).mpr ⟨⟨route, hroute, hkept, rfl⟩, hnone⟩)
    · intro hanswers key hempty
      obtain ⟨⟨route, hroute, hkept, rfl⟩, hnone⟩ := (find?_draft_eq_nil_iff hdraft).mp hempty
      exact hnone (hanswers route hroute hkept)
  · have hempty : ∀ key, Dict.find? (draft.changes.apply draft.paths).1 key = some [] ↔
        Dict.find? draft.paths key = some [] ∧
          ∀ change ∈ draft.changes, PathChanges.renamed change.1 change.2 ≠ key :=
      PathChanges.find?_foldl_applyOne_eq_nil_iff
        (increasing_changes_draft hdraft).nodup_keys
        fun change hchange => hasOperation_of_mem_changes hdraft hchange
    rw [Paths.filled_iff (PathChanges.ordered_apply hordered)]
    constructor
    · intro hfilled route hroute hkept
      by_contra hnone
      obtain ⟨hanswers, hchanges⟩ := not_or.mp hnone
      apply hfilled (pathKey (relativeUri base route.uri))
      refine (hempty _).mpr ⟨?_, fun change hchange hleads => hchanges ⟨change, hchange, hleads⟩⟩
      exact (find?_draft_eq_nil_iff hdraft).mpr ⟨⟨route, hroute, hkept, rfl⟩, hanswers⟩
    · intro hfills key hnil
      obtain ⟨hbefore, hchanges⟩ := (hempty key).mp hnil
      obtain ⟨⟨route, hroute, hkept, rfl⟩, hnone⟩ := (find?_draft_eq_nil_iff hdraft).mp hbefore
      rcases hfills route hroute hkept with hanswers | ⟨change, hchange, hleads⟩
      · exact hnone hanswers
      · exact hchanges change hchange hleads

/-- The item of a route that is left with no method is empty, until the change of another
path leads to it. -/
theorem filled_paths_pet :
    let a : Assembly := { settings := {}, builders := {}, entities := {}, now := ⟨"", ""⟩ }
    let hidden : Route := { uri := "/api/pets/\x7bpet\x7d", methods := [.head] }
    let shown : Route :=
      { uri := "/api/pets/\x7bid\x7d", methods := [.get], action := some "show" }
    let app : Application :=
      { routes := [hidden, shown]
        resolve := fun _ =>
          some { comment := some "@Request(\x7b\"pathParams\": [\x7b\"name\": \"pet\"\x7d]\x7d)" } }
    ∃ made draft, app.documentOf a none = .ok made ∧
      app.routes.foldlM (a.addRoute "/api" app.resolve) {} = .ok draft ∧
      ¬ draft.paths.Filled ∧ made.1.paths.Filled := by
  intro a hidden shown app
  obtain ⟨made, hmade, -⟩ : ∃ made, app.documentOf a none = .ok made ∧
      Dict.keys made.1.paths = ["/pets/\x7bpet\x7d"] := by
    decide +kernel
  have hbase : basePrefix a.settings none = "/api" := by decide +kernel
  obtain ⟨draft, hdraft, -, hbefore, hafter⟩ := filled_paths_iff hmade
  rw [hbase] at hdraft hbefore hafter
  have hkey : pathKey (relativeUri "/api" hidden.uri) = "/pets/\x7bpet\x7d" := by decide +kernel
  have hhidden : ¬ a.Answers "/api" app.routes "/pets/\x7bpet\x7d" := by
    rintro ⟨route, hroute, method, hserves⟩
    have hnone : ∀ route ∈ app.routes,
        a.serves "/api" "/pets/\x7bpet\x7d" method route = false := by
      cases method <;> decide +kernel
    rw [hnone route hroute] at hserves
    cases hserves
  refine ⟨made, draft, hmade, hdraft, ?_, hafter.mpr ?_⟩
  · intro hfilled
    have hkept : a.isDropped "/api" hidden = false := by decide +kernel
    have hanswers := hbefore.mp hfilled hidden List.mem_cons_self hkept
    rw [hkey] at hanswers
    exact hhidden hanswers
  · intro route hroute _
    rcases List.mem_pair.mp hroute with rfl | rfl
    · right
      have hleads : ∀ draft, app.routes.foldlM (a.addRoute "/api" app.resolve) {} = .ok draft →
          ∃ change ∈ draft.changes,
            PathChanges.renamed change.1 change.2 = "/pets/\x7bpet\x7d" := by
        decide +kernel
      rw [hkey]
      exact hleads draft hdraft
    · left
      have hserves :
          a.serves "/api" (pathKey (relativeUri "/api" shown.uri)) .get shown = true := by
        decide +kernel
      exact ⟨shown, hroute, .get, hserves⟩

/-- A route that answers nothing but a method that is left out leaves an empty item. -/
theorem not_filled_paths_head :
    let a : Assembly := { settings := {}, builders := {}, entities := {}, now := ⟨"", ""⟩ }
    let app : Application := { routes := [{ uri := "/api/pets", methods := [.head] }] }
    (∀ route ∈ app.routes, route.methods ≠ []) ∧
      ∃ made, app.documentOf a none = .ok made ∧ ¬ made.1.paths.Filled := by
  decide +kernel

end Application

end ApiDoc
