import ApiDoc.Proofs.Assembly.Draft
import ApiDoc.Proofs.Assembly.Operation
import ApiDoc.Proofs.Builder
import ApiDoc.Proofs.PathChange.Simultaneous

/-!
# The draft of a table of routes

A route of a table adds its operations to the item of its path, and replaces what stood
there for the same methods.  So the operation of a method under a path is that of the
last route which has it, and without changes of path parameters the document is the
draft.
-/

namespace ApiDoc

theorem Method.eq_of_name_eq {m n : Method} (h : m.name = n.name) : m = n := by
  cases m <;> cases n <;> first | rfl | exact absurd h (by decide)

theorem Paths.operation?_insert (paths : Paths) (path key name : String) (item : PathItem) :
    Paths.operation? (Dict.insert paths path item) key name =
      if path = key then Dict.find? item name else paths.operation? key name := by
  rw [operation?, Dict.find?_insert]
  split <;> rfl

namespace Assembly

variable {a : Assembly} {base key : String} {resolve : Resolver} {route : Route}
  {routes : List Route} {method : Method}

/-- Whether a route documents a method under a path: neither it nor the method is left
out. -/
def serves (a : Assembly) (base key : String) (method : Method) (route : Route) : Bool :=
  !a.isDropped base route && pathKey (relativeUri base route.uri) == key &&
    (a.documentedMethods route).contains method

theorem serves_iff : a.serves base key method route = true ↔ a.isDropped base route = false ∧
    pathKey (relativeUri base route.uri) = key ∧ method ∈ a.documentedMethods route := by
  simp [serves, and_assoc]

/-- What is documented about a method of a route. -/
def computed (a : Assembly) (base : String) (resolve : Resolver) (route : Route)
    (method : Method) : Except Error Documented :=
  a.operation route method (relativeUri base route.uri) (route.action.bind resolve)

/-! ## The methods of one route -/

section Methods

variable {relative : String} {handler : Option Handler} {methods : List Method}
  {state next : PathItem × Draft}

/-- Other methods keep what they have. -/
theorem find?_foldlM_addMethod_of_ne
    (h : methods.foldlM (a.addMethod route relative handler) state = .ok next) {name : String}
    (hname : ∀ method ∈ methods, method.name ≠ name) :
    Dict.find? next.1 name = Dict.find? state.1 name := by
  refine foldlM_keeps
    (p := fun s : PathItem × Draft => Dict.find? s.1 name = Dict.find? state.1 name) ?_ h rfl
  intro method hmethod before after hstep hbefore
  obtain ⟨d, -, hitem, -⟩ := addMethod_eq_ok hstep
  rw [hitem, Dict.find?_insert, if_neg (hname method hmethod), hbefore]

/-- Each method of the route has its operation. -/
theorem find?_foldlM_addMethod_of_mem
    (h : methods.foldlM (a.addMethod route relative handler) state = .ok next)
    (hmethod : method ∈ methods) :
    ∃ d, a.operation route method relative handler = .ok d ∧
      Dict.find? next.1 method.name = some d.operation := by
  induction methods generalizing state with
  | nil => cases hmethod
  | cons first rest ih =>
      rw [List.foldlM_cons] at h
      obtain ⟨between, hfirst, hrest⟩ := bind_eq_ok_iff.mp h
      by_cases hlater : method ∈ rest
      · exact ih hrest hlater
      · obtain rfl : method = first := (List.mem_cons.mp hmethod).resolve_right hlater
        obtain ⟨d, hd, hitem, -⟩ := addMethod_eq_ok hfirst
        refine ⟨d, hd, ?_⟩
        rw [find?_foldlM_addMethod_of_ne hrest, hitem, Dict.find?_insert, if_pos rfl]
        exact fun other hother hname => hlater (Method.eq_of_name_eq hname ▸ hother)

end Methods

/-! ## One route -/

section Routes

variable {draft next : Draft}

theorem operation?_addRoute_of_serves (hserves : a.serves base key method route = true)
    (h : a.addRoute base resolve draft route = .ok next) :
    ∃ d, a.computed base resolve route method = .ok d ∧
      next.paths.operation? key method.name = some d.operation := by
  obtain ⟨hkept, rfl, hmethod⟩ := serves_iff.mp hserves
  obtain ⟨item, made, hmethods, hpaths, -⟩ := addRoute_eq_ok hkept h
  obtain ⟨d, hd, hitem⟩ := find?_foldlM_addMethod_of_mem hmethods hmethod
  exact ⟨d, hd, by rw [hpaths, Paths.operation?_insert, if_pos rfl, hitem]⟩

theorem operation?_addRoute_of_not_serves {name : String}
    (hserves : ∀ method, a.serves base key method route = true → method.name ≠ name)
    (h : a.addRoute base resolve draft route = .ok next) :
    next.paths.operation? key name = draft.paths.operation? key name := by
  cases hkept : a.isDropped base route with
  | true =>
      rw [addRoute_of_isDropped hkept] at h
      rw [Except.ok.inj h]
  | false =>
      obtain ⟨item, made, hmethods, hpaths, -⟩ := addRoute_eq_ok hkept h
      rw [hpaths, Paths.operation?_insert]
      split
      · next hpath =>
          have hitem := find?_foldlM_addMethod_of_ne hmethods fun method hmethod =>
            hserves method (serves_iff.mpr ⟨hkept, hpath, hmethod⟩)
          rw [hitem, Paths.operation?, hpath]
          cases Dict.find? draft.paths key <;> rfl
      · rfl

theorem isSome_find?_addRoute (hkept : a.isDropped base route = false)
    (h : a.addRoute base resolve draft route = .ok next) (key : String) :
    (Dict.find? next.paths key).isSome ↔
      pathKey (relativeUri base route.uri) = key ∨ (Dict.find? draft.paths key).isSome := by
  obtain ⟨item, made, -, hpaths, -⟩ := addRoute_eq_ok hkept h
  rw [hpaths, Dict.find?_insert]
  split
  · next hpath => simp [hpath]
  · next hpath => simp [hpath]

/-! ## All routes -/

/-- In the draft, a method has the operation of the last route that documents it under
the path. -/
theorem operation?_draft_of_getLast?
    (h : routes.foldlM (a.addRoute base resolve) {} = .ok draft)
    (hlast : (routes.filter (a.serves base key method)).getLast? = some route) :
    ∃ d, a.computed base resolve route method = .ok d ∧
      draft.paths.operation? key method.name = some d.operation := by
  induction routes using List.reverseRecOn generalizing draft with
  | nil => cases hlast
  | append_singleton routes last ih =>
      obtain ⟨before, hbefore, hstep⟩ := foldlM_concat_eq_ok_iff.mp h
      cases hserves : a.serves base key method last with
      | true =>
          obtain rfl : last = route := by simpa [List.filter_append, hserves] using hlast
          exact operation?_addRoute_of_serves hserves hstep
      | false =>
          have hearlier : (routes.filter (a.serves base key method)).getLast? = some route := by
            simpa [List.filter_append, hserves] using hlast
          obtain ⟨d, hd, hoperation⟩ := ih hbefore hearlier
          refine ⟨d, hd, ?_⟩
          rw [operation?_addRoute_of_not_serves _ hstep, hoperation]
          intro other hother hname
          rw [Method.eq_of_name_eq hname, hserves] at hother
          cases hother

/-- The draft has no operations but those that the routes document. -/
theorem exists_serves_of_operation?_draft
    (h : routes.foldlM (a.addRoute base resolve) {} = .ok draft) {name : String}
    {o : Operation} (ho : draft.paths.operation? key name = some o) :
    ∃ route ∈ routes, ∃ method, a.serves base key method route = true ∧ method.name = name := by
  by_contra hnone
  have hempty : draft.paths.operation? key name = none := by
    refine foldlM_keeps (p := fun d : Draft => d.paths.operation? key name = none) ?_ h rfl
    intro route hroute before after hstep hbefore
    rw [operation?_addRoute_of_not_serves _ hstep, hbefore]
    exact fun method hserves hname => hnone ⟨route, hroute, method, hserves, hname⟩
  rw [hempty] at ho
  cases ho

/-- The paths of the draft are those of the routes that are kept. -/
theorem isSome_find?_draft (h : routes.foldlM (a.addRoute base resolve) {} = .ok draft)
    (key : String) :
    (Dict.find? draft.paths key).isSome ↔
      ∃ route ∈ routes, a.isDropped base route = false ∧
        pathKey (relativeUri base route.uri) = key := by
  induction routes using List.reverseRecOn generalizing draft with
  | nil =>
      obtain rfl := Except.ok.inj h
      simp
  | append_singleton routes last ih =>
      obtain ⟨before, hbefore, hstep⟩ := foldlM_concat_eq_ok_iff.mp h
      have hearlier := ih hbefore
      cases hkept : a.isDropped base last with
      | true =>
          rw [addRoute_of_isDropped hkept] at hstep
          rw [← Except.ok.inj hstep, hearlier]
          simp [hkept]
      | false =>
          rw [isSome_find?_addRoute hkept hstep, hearlier, or_comm]
          simp [or_and_right, exists_or, hkept]

/-- Each operation that went into the draft was made. -/
theorem exists_computed (h : routes.foldlM (a.addRoute base resolve) {} = .ok draft)
    (hroute : route ∈ routes) (hserves : a.serves base key method route = true) :
    ∃ d, a.computed base resolve route method = .ok d := by
  obtain ⟨before, after, hstep⟩ := exists_step_eq_ok h route hroute
  obtain ⟨d, hd, -⟩ := operation?_addRoute_of_serves hserves hstep
  exact ⟨d, hd⟩

/-- A draft is made if every operation that goes into it is. -/
theorem exists_draft
    (h : ∀ route ∈ routes, ∀ key method, a.serves base key method route = true →
      ∃ d, a.computed base resolve route method = .ok d) :
    ∃ draft, routes.foldlM (a.addRoute base resolve) {} = .ok draft := by
  refine exists_foldlM_eq_ok (fun route hroute draft => ?_) _
  cases hkept : a.isDropped base route with
  | true => exact ⟨draft, addRoute_of_isDropped hkept⟩
  | false =>
      have hmethods : ∀ method ∈ a.documentedMethods route, ∀ state, ∃ next,
          a.addMethod route (relativeUri base route.uri) (route.action.bind resolve) state
            method = .ok next := by
        intro method hmethod state
        obtain ⟨d, hd⟩ := h route hroute _ method (serves_iff.mpr ⟨hkept, rfl, hmethod⟩)
        exact ⟨_, bind_eq_ok_iff.mpr ⟨d, hd, rfl⟩⟩
      obtain ⟨made, hmade⟩ := exists_foldlM_eq_ok hmethods
        ((Dict.find? draft.paths (pathKey (relativeUri base route.uri))).getD [], draft)
      rw [addRoute, hkept]
      exact ⟨_, bind_eq_ok_iff.mpr ⟨made, hmade, rfl⟩⟩

/-! ## Changes of path parameters -/

theorem find?_changes_addChanges (path uri : String) (overrides : Option (List PathOverride))
    (draft : Draft) (key : String) :
    Dict.find? (addChanges path uri overrides draft).changes key =
      (Dict.find? draft.changes key).or (if path = key then overrides else none) := by
  cases overrides with
  | none => simp [addChanges]
  | some overrides => rw [changes_addChanges, PathChanges.find?_record]

theorem increasing_addChanges {path uri : String} {overrides : Option (List PathOverride)}
    (h : Dict.Increasing draft.changes) :
    Dict.Increasing (addChanges path uri overrides draft).changes := by
  cases overrides with
  | none => exact h
  | some overrides =>
      rw [changes_addChanges]
      exact PathChanges.increasing_record h

theorem isSome_find?_addChanges (path uri : String)
    (overrides : Option (List PathOverride)) {draft : Draft}
    (hsome : (Dict.find? draft.changes key).isSome) :
    (Dict.find? (addChanges path uri overrides draft).changes key).isSome := by
  rw [find?_changes_addChanges, Option.isSome_or, hsome, Bool.true_or]

/-- What holds of the changes after every record holds of them after a route. -/
theorem changes_addRoute_keeps {p : PathChanges → Prop}
    (hp : ∀ path uri overrides (d : Draft), p d.changes →
      p (addChanges path uri overrides d).changes)
    (h : a.addRoute base resolve draft route = .ok next) (hdraft : p draft.changes) :
    p next.changes := by
  cases hkept : a.isDropped base route with
  | true =>
      rw [addRoute_of_isDropped hkept] at h
      exact Except.ok.inj h ▸ hdraft
  | false =>
      obtain ⟨item, made, hmethods, -, hchanges⟩ := addRoute_eq_ok hkept h
      rw [hchanges]
      refine foldlM_keeps (p := fun s : PathItem × Draft => p s.2.changes) ?_ hmethods hdraft
      intro method _ s t hstep hs
      obtain ⟨d, -, -, ht⟩ := addMethod_eq_ok hstep
      rw [ht]
      exact hp _ _ _ _ hs

theorem isSome_find?_changes_addRoute (h : a.addRoute base resolve draft route = .ok next)
    (hsome : (Dict.find? draft.changes key).isSome) :
    (Dict.find? next.changes key).isSome :=
  changes_addRoute_keeps (p := fun changes => (Dict.find? changes key).isSome)
    (fun path uri overrides _ => isSome_find?_addChanges path uri overrides) h hsome

/-- What a comment changes for a path is recorded, or another change of the path was. -/
theorem isSome_changes_draft (h : routes.foldlM (a.addRoute base resolve) {} = .ok draft)
    {d : Documented} (hd : a.Documents base resolve routes key d) (hsome : d.overrides.isSome) :
    (Dict.find? draft.changes key).isSome := by
  obtain ⟨route, hroute, hkept, hkey, method, hmethod, hd⟩ := hd
  have hreach : ∀ before after, a.addRoute base resolve before route = .ok after →
      (Dict.find? after.changes key).isSome := by
    intro before after hstep
    obtain ⟨item, made, hmethods, -, hchanges⟩ := addRoute_eq_ok hkept hstep
    rw [hchanges]
    refine foldlM_reaches (p := fun s : PathItem × Draft => (Dict.find? s.2.changes key).isSome)
      ?_ hmethods hmethod ?_
    · intro other _ s t hother hs
      obtain ⟨_, -, -, ht⟩ := addMethod_eq_ok hother
      rw [ht]
      exact isSome_find?_addChanges _ _ _ hs
    · intro s t hthis
      obtain ⟨made, hmade, -, ht⟩ := addMethod_eq_ok hthis
      obtain rfl : made = d := Except.ok.inj (hmade.symm.trans hd)
      rw [ht, find?_changes_addChanges, if_pos hkey.symm, Option.isSome_or, hsome, Bool.or_true]
  refine foldlM_reaches (p := fun draft : Draft => (Dict.find? draft.changes key).isSome) ?_
    h hroute hreach
  intro other _ before after hstep hbefore
  exact isSome_find?_changes_addRoute hstep hbefore

theorem increasing_changes_draft (h : routes.foldlM (a.addRoute base resolve) {} = .ok draft) :
    Dict.Increasing draft.changes := by
  refine foldlM_keeps (p := fun d : Draft => Dict.Increasing d.changes) ?_ h List.Pairwise.nil
  intro route _ before after hstep hbefore
  exact changes_addRoute_keeps (p := Dict.Increasing)
    (fun _ _ _ _ hchanges => increasing_addChanges hchanges) hstep hbefore

end Routes

theorem exists_getLast?_filter_serves (hroute : route ∈ routes)
    (hserves : a.serves base key method route = true) :
    ∃ last, (routes.filter (a.serves base key method)).getLast? = some last := by
  have hne := List.ne_nil_of_mem (List.mem_filter.mpr ⟨hroute, hserves⟩)
  exact ⟨_, List.getLast?_eq_some_getLast hne⟩

end Assembly

namespace Application

open Assembly

variable {app : Application} {a : Assembly} {filter : Option String} {document : Document}
  {warnings : List Warning}

/-- The changes of a draft are empty if no comment changes path parameters. -/
theorem changes_eq_nil {draft : Draft}
    (hplain : ∀ route ∈ app.routes, ∀ d,
      Documented.ofHandler a route.uri (route.action.bind app.resolve) = .ok d →
        d.overrides = none)
    {base : String} (h : app.routes.foldlM (a.addRoute base app.resolve) {} = .ok draft) :
    draft.changes = [] := by
  refine List.eq_nil_iff_forall_not_mem.mpr fun change hchange => ?_
  obtain ⟨d, ⟨route, hroute, -, -, method, -, hd⟩, hoverrides⟩ :=
    (from_draft h).changes change hchange
  obtain ⟨documented, _, _, hofHandler, _, _, rfl⟩ := operation_eq_ok hd
  rw [hplain route hroute documented hofHandler] at hoverrides
  cases hoverrides

/-- Without changes of path parameters, a document has an operation for each method that
a route documents under its path, and it is the operation of the last such route. -/
theorem document_holds_last_served
    (hplain : ∀ route ∈ app.routes, ∀ d,
      Documented.ofHandler a route.uri (route.action.bind app.resolve) = .ok d →
        d.overrides = none)
    (h : app.documentOf a filter = .ok (document, warnings)) :
    let base := basePrefix a.settings filter
    document.paths.Ordered ∧
      (∀ key name, (document.paths.operation? key name).isSome ↔
        ∃ route ∈ app.routes, ∃ method,
          a.serves base key method route = true ∧ method.name = name) ∧
      ∀ key method route, (app.routes.filter (a.serves base key method)).getLast? = some route →
        ∃ d, a.computed base app.resolve route method = .ok d ∧
          document.paths.operation? key method.name = some d.operation := by
  intro base
  obtain ⟨schemas, draft, -, hdraft, rfl⟩ := documentUnder_eq_ok h
  have hpaths : (draft.changes.apply draft.paths).1 = draft.paths := by
    rw [changes_eq_nil hplain hdraft]
    rfl
  rw [hpaths]
  refine ⟨ordered_draft hdraft, fun key name => ⟨fun hsome => ?_, ?_⟩, ?_⟩
  · obtain ⟨o, ho⟩ := Option.isSome_iff_exists.mp hsome
    exact exists_serves_of_operation?_draft hdraft ho
  · rintro ⟨route, hroute, method, hserves, rfl⟩
    obtain ⟨last, hlast⟩ := exists_getLast?_filter_serves hroute hserves
    obtain ⟨d, -, hoperation⟩ := operation?_draft_of_getLast? hdraft hlast
    exact Option.isSome_iff_exists.mpr ⟨d.operation, hoperation⟩
  · exact fun key method route hlast => operation?_draft_of_getLast? hdraft hlast

/-- Two spellings of one path, with a response that a builder of its own wraps: the later route
gives the operation of the method that both have, and a method that is left out has none. -/
theorem document_holds_last_served_pet :
    let a : Assembly :=
      { settings := {}, builders := Builders.register {} "W" (.wrapping "item"), entities := {}
        now := ⟨"", ""⟩ }
    let shown : Route :=
      { uri := "/api/pets/\x7bid\x7d", methods := [.get], action := some "show" }
    let app : Application :=
      { routes :=
          [{ uri := "/api/pets/\x7bid?\x7d", methods := [.get, .head, .put] }, shown,
            { uri := "/web/pets", methods := [.get] }]
        resolve := fun _ => some
          { comment := some "One pet\n@Response(code: 200, ref: W(Pet))" } }
    (∀ route ∈ app.routes, ∀ d,
      Documented.ofHandler a route.uri (route.action.bind app.resolve) = .ok d →
        d.overrides = none) ∧
    ∃ made, app.documentOf a none = .ok made ∧ Dict.keys made.1.paths = ["/pets/\x7bid\x7d"] ∧
      made.1.paths.operation? "/pets/\x7bid\x7d" "head" = none ∧
      (∃ d, a.computed "/api" app.resolve shown .get = .ok d ∧
        made.1.paths.operation? "/pets/\x7bid\x7d" "get" = some d.operation) := by
  intro a shown app
  have hplain : ∀ route ∈ app.routes, ∀ d,
      Documented.ofHandler a route.uri (route.action.bind app.resolve) = .ok d →
        d.overrides = none := by
    decide +kernel
  obtain ⟨made, hmade, hkeys⟩ : ∃ made, app.documentOf a none = .ok made ∧
      Dict.keys made.1.paths = ["/pets/\x7bid\x7d"] := by
    decide +kernel
  have hbase : basePrefix a.settings none = "/api" := by decide +kernel
  obtain ⟨-, hpairs, hlast⟩ := document_holds_last_served hplain hmade
  rw [hbase] at hpairs hlast
  have hhead : ∀ route ∈ app.routes, a.serves "/api" "/pets/\x7bid\x7d" .head route = false := by
    decide +kernel
  have hshown : (app.routes.filter (a.serves "/api" "/pets/\x7bid\x7d" .get)).getLast? =
      some shown := by
    decide +kernel
  have hnone : ¬ (made.1.paths.operation? "/pets/\x7bid\x7d" "head").isSome := by
    rw [hpairs]
    rintro ⟨route, hroute, method, hserves, hname⟩
    obtain rfl : method = .head := Method.eq_of_name_eq hname
    rw [hhead route hroute] at hserves
    cases hserves
  exact ⟨hplain, made, hmade, hkeys, Option.not_isSome_iff_eq_none.mp hnone,
    hlast "/pets/\x7bid\x7d" .get shown hshown⟩

end Application

end ApiDoc
