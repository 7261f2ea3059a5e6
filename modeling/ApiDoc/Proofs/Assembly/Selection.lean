import ApiDoc.Proofs.Assembly.Table

/-!
# Routes that are left out

A document depends only on the routes that are kept, and on their methods that are
documented.  Without the others the document is the same, or the error is; so nothing
that only they reach can stop a document from being made.
-/

namespace ApiDoc

namespace Assembly

variable {a : Assembly} {base : String} {resolve : Resolver} {routes : List Route}

/-- The routes that are kept, with those of their methods that are documented. -/
def selection (a : Assembly) (base : String) (routes : List Route) : List Route :=
  (routes.filter fun route => !a.isDropped base route).map fun route =>
    { route with methods := a.documentedMethods route }

theorem mem_selection_iff {selected : Route} :
    selected ∈ a.selection base routes ↔
      ∃ route ∈ routes, a.isDropped base route = false ∧
        selected = { route with methods := a.documentedMethods route } := by
  simp only [selection, List.mem_map, List.mem_filter, Bool.not_eq_true', and_assoc,
    @eq_comm _ selected]

theorem documentedMethods_documentedMethods (a : Assembly) (route : Route) :
    a.documentedMethods { route with methods := a.documentedMethods route } =
      a.documentedMethods route := by
  simp [documentedMethods, List.filter_filter]

theorem addRoute_documentedMethods (draft : Draft) (route : Route) :
    a.addRoute base resolve draft { route with methods := a.documentedMethods route } =
      a.addRoute base resolve draft route := by
  have hmethods := documentedMethods_documentedMethods a route
  rw [addRoute, addRoute, hmethods]
  rfl

theorem documentedMethods_of_mem_selection {route : Route}
    (h : route ∈ a.selection base routes) : a.documentedMethods route = route.methods := by
  obtain ⟨whole, -, -, rfl⟩ := mem_selection_iff.mp h
  exact documentedMethods_documentedMethods a whole

theorem foldlM_selection (draft : Draft) :
    (a.selection base routes).foldlM (a.addRoute base resolve) draft =
      routes.foldlM (a.addRoute base resolve) draft := by
  rw [selection, List.foldlM_map]
  simp only [addRoute_documentedMethods]
  refine foldlM_filter_of_idle (fun route draft hdropped => ?_) draft
  exact addRoute_of_isDropped (by simpa using hdropped)

/-- The handler of a route without methods plays no part. -/
theorem addRoute_congr {other : Resolver} {route : Route}
    (h : a.documentedMethods route ≠ [] → route.action.bind other = route.action.bind resolve)
    (draft : Draft) :
    a.addRoute base other draft route = a.addRoute base resolve draft route := by
  rw [addRoute, addRoute]
  by_cases hnone : a.documentedMethods route = []
  · rw [hnone]
    rfl
  · rw [h hnone]

theorem addRoute_eq_error {draft : Draft} {route : Route} {e : Error}
    (h : a.addRoute base resolve draft route = .error e) :
    ∃ method ∈ a.documentedMethods route, a.computed base resolve route method = .error e := by
  rw [addRoute] at h
  split at h
  · cases h
  · rcases bind_eq_error_iff.mp h with hmethods | ⟨made, -, hend⟩
    · obtain ⟨method, hmethod, state, hstep⟩ := exists_step_eq_error hmethods
      rcases bind_eq_error_iff.mp hstep with hoperation | ⟨d, -, hend⟩
      · exact ⟨method, hmethod, hoperation⟩
      · cases hend
    · cases hend

end Assembly

namespace Application

open Assembly

/-- A document is made from the selected routes: the others may be taken from the table,
the handlers which only they have may be any, and every error is that of the schemas or
of a selected method.  Which routes and methods are not selected is said by `isDropped_iff`
and `mem_documentedMethods_iff`. -/
theorem documentOf_selection (app : Application) (a : Assembly) (filter : Option String) :
    let base := basePrefix a.settings filter
    { app with routes := a.selection base app.routes }.documentOf a filter =
        app.documentOf a filter ∧
      (∀ resolve : Resolver,
        (∀ route ∈ a.selection base app.routes, route.methods ≠ [] →
          route.action.bind resolve = route.action.bind app.resolve) →
        { app with resolve }.documentOf a filter = app.documentOf a filter) ∧
      ∀ e, app.documentOf a filter = .error e →
        a.entities.schemas a.now a.builders = .error e ∨
          ∃ route ∈ a.selection base app.routes, ∃ method ∈ route.methods,
            a.computed base app.resolve route method = .error e := by
  intro base
  refine ⟨?_, fun resolve hagree => ?_, fun e he => ?_⟩
  · rw [documentOf, documentOf, documentUnder, documentUnder, foldlM_selection]
  · have hroutes : ∀ route ∈ a.selection base app.routes, ∀ draft,
        a.addRoute base resolve draft route = a.addRoute base app.resolve draft route := by
      intro route hroute draft
      refine addRoute_congr (fun hmethods => ?_) draft
      rw [documentedMethods_of_mem_selection hroute] at hmethods
      exact hagree route hroute hmethods
    have hrun : app.routes.foldlM (a.addRoute base resolve) {} =
        app.routes.foldlM (a.addRoute base app.resolve) {} :=
      calc app.routes.foldlM (a.addRoute base resolve) {}
        _ = (a.selection base app.routes).foldlM (a.addRoute base resolve) {} :=
          (foldlM_selection {}).symm
        _ = (a.selection base app.routes).foldlM (a.addRoute base app.resolve) {} :=
          foldlM_congr hroutes {}
        _ = app.routes.foldlM (a.addRoute base app.resolve) {} := foldlM_selection {}
    rw [documentOf, documentOf, documentUnder, documentUnder, hrun]
  · rcases bind_eq_error_iff.mp he with hschemas | ⟨schemas, -, he⟩
    · exact .inl hschemas
    · rcases bind_eq_error_iff.mp he with hrun | ⟨draft, -, hend⟩
      · rw [← foldlM_selection] at hrun
        obtain ⟨route, hroute, before, hstep⟩ := exists_step_eq_error hrun
        obtain ⟨method, hmethod, hcomputed⟩ := addRoute_eq_error hstep
        rw [documentedMethods_of_mem_selection hroute] at hmethod
        exact .inr ⟨route, hroute, method, hmethod, hcomputed⟩
      · cases hend

/-- A malformed tag of a route outside the prefix does no harm; inside it is an error. -/
example :
    let a : Assembly := { settings := {}, builders := {}, entities := {}, now := ⟨"", ""⟩ }
    let app : String → Application := fun uri =>
      { routes := [{ uri, methods := [.get], action := some "index" }]
        resolve := fun _ => some { comment := some "@Request(pets)" } }
    ((app "/web/pets").documentOf a none).isOk = true ∧
      ((app "/api/pets").documentOf a none).isOk = false := by
  decide +kernel

end Application

end ApiDoc
