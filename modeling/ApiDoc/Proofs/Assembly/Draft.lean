import ApiDoc.Assembly.Document
import ApiDoc.Proofs.Except
import ApiDoc.Proofs.PathChange.Basic
import ApiDoc.Proofs.PathChange.Register
import ApiDoc.Proofs.Text

/-!
# Where a document comes from

A route is left out by its name, by its address or for its prefix, and a method by its name
in any case.  Every operation of a draft, and every list of changes, was made for a method of a
route that is not left out.  So what holds of all that can be made for the routes of a
table holds of the draft, and through the changes of the paths in the document.
-/

namespace ApiDoc

namespace Assembly

/-! ## What is left out -/

/-- An address is under a prefix if it is the prefix, or goes on behind it with a slash. -/
theorem underPrefix_iff {uri base : String} :
    underPrefix uri base = true ↔
      uri = base ∨ ∃ rest, uri.toList = base.toList ++ '/' :: rest := by
  rw [underPrefix]
  constructor
  · intro h
    split at h
    · cases h
    · next rest hrest =>
        have huri := Text.dropHead?_eq_some_iff.mp hrest
        cases rest with
        | nil => exact .inl (String.toList_inj.mp (huri.trans (List.append_nil _)))
        | cons c more =>
            obtain rfl : c = '/' := by simpa using h
            exact .inr ⟨more, huri⟩
  · rintro (rfl | ⟨rest, huri⟩)
    · rw [Text.dropHead?_eq_some_iff.mpr (List.append_nil _).symm]
      rfl
    · rw [Text.dropHead?_eq_some_iff.mpr huri]
      rfl

/-- A route is left out by its name, by its address, or because it is not under the prefix. -/
theorem isDropped_iff {a : Assembly} {base : String} {route : Route} :
    a.isDropped base route = true ↔
      (∃ name ∈ route.name, name ∈ a.settings.ignored.routes) ∨
        route.uri ∈ a.settings.ignored.routes ∨
        base ≠ "" ∧
          ¬ (route.uri = base ∨ ∃ rest, route.uri.toList = base.toList ++ '/' :: rest) := by
  rw [← underPrefix_iff, isDropped]
  cases route.name with
  | none => simp
  | some name => simp [or_assoc]

/-- A method of a route is documented unless its name is ignored, in any case. -/
theorem mem_documentedMethods_iff {a : Assembly} {route : Route} {method : Method} :
    method ∈ a.documentedMethods route ↔
      method ∈ route.methods ∧
        ∀ ignored ∈ a.settings.ignored.methods, ignored.toLower ≠ method.name.toLower := by
  simp [documentedMethods, Settings.ignoresMethod]

/-! ## What is documented -/

/-- What is documented under a path about a method of a kept route. -/
def Documents (a : Assembly) (base : String) (resolve : Resolver) (routes : List Route)
    (key : String) (d : Documented) : Prop :=
  ∃ route ∈ routes, a.isDropped base route = false ∧
    key = pathKey (relativeUri base route.uri) ∧
    ∃ method ∈ a.documentedMethods route,
      a.operation route method (relativeUri base route.uri) (route.action.bind resolve) = .ok d

/-- Everything in a draft was made from something documented under its path. -/
structure Draft.From (q : String → Documented → Prop) (draft : Draft) : Prop where
  operations : draft.paths.ForAll fun key o => ∃ d, q key d ∧ d.operation = o
  changes : ∀ change ∈ draft.changes, ∃ d, q change.1 d ∧ d.overrides = some change.2

theorem paths_addChanges (path uri : String) (overrides : Option (List PathOverride))
    (draft : Draft) : (addChanges path uri overrides draft).paths = draft.paths := by
  cases overrides with
  | none => rfl
  | some overrides =>
      rw [addChanges]
      split <;> rfl

theorem changes_addChanges (path uri : String) (overrides : List PathOverride) (draft : Draft) :
    (addChanges path uri (some overrides) draft).changes =
      draft.changes.record path overrides := by
  rw [addChanges, PathChanges.record]
  cases draft.changes.register path overrides <;> rfl

theorem mem_changes_addChanges {path uri : String} {overrides : Option (List PathOverride)}
    {draft : Draft} {change : String × List PathOverride}
    (h : change ∈ (addChanges path uri overrides draft).changes) :
    change ∈ draft.changes ∨ change.1 = path ∧ overrides = some change.2 := by
  cases overrides with
  | none => exact .inl h
  | some overrides =>
      rw [changes_addChanges, PathChanges.record_eq] at h
      split at h
      · exact .inl h
      · rcases Dict.mem_insert h with rfl | hold
        · exact .inr ⟨rfl, rfl⟩
        · exact .inl hold

section Steps

variable {a : Assembly} {base relative : String} {resolve : Resolver} {route : Route}
  {handler : Option Handler}

/-- One step of a route: the operation of a method is put into the item. -/
theorem addMethod_eq_ok {method : Method} {state next : PathItem × Draft}
    (h : a.addMethod route relative handler state method = .ok next) :
    ∃ d, a.operation route method relative handler = .ok d ∧
      next.1 = Dict.insert state.1 method.name d.operation ∧
      next.2 = addChanges (pathKey relative) route.uri d.overrides
        { state.2 with warnings := state.2.warnings ++ d.warnings } := by
  obtain ⟨d, hd, hnext⟩ := bind_eq_ok_iff.mp h
  obtain rfl := Except.ok.inj hnext
  exact ⟨d, hd, rfl, rfl⟩

theorem paths_foldlM_addMethod {methods : List Method} {state next : PathItem × Draft}
    (h : methods.foldlM (a.addMethod route relative handler) state = .ok next) :
    next.2.paths = state.2.paths := by
  refine foldlM_keeps (p := fun s : PathItem × Draft => s.2.paths = state.2.paths) ?_ h rfl
  intro method _ before after hstep hbefore
  obtain ⟨d, -, -, hdraft⟩ := addMethod_eq_ok hstep
  rw [hdraft, paths_addChanges, ← hbefore]

variable {draft next : Draft}

/-- A route that is not left out puts an item under its path. -/
theorem addRoute_eq_ok (hkept : a.isDropped base route = false)
    (h : a.addRoute base resolve draft route = .ok next) :
    ∃ item made,
      (a.documentedMethods route).foldlM
        (a.addMethod route (relativeUri base route.uri) (route.action.bind resolve))
        ((Dict.find? draft.paths (pathKey (relativeUri base route.uri))).getD [], draft) =
          .ok (item, made) ∧
      next.paths = Dict.insert draft.paths (pathKey (relativeUri base route.uri)) item ∧
      next.changes = made.changes := by
  rw [addRoute, hkept] at h
  obtain ⟨⟨item, made⟩, hmethods, hnext⟩ := bind_eq_ok_iff.mp h
  obtain rfl := Except.ok.inj hnext
  have hpaths : made.paths = draft.paths := paths_foldlM_addMethod hmethods
  exact ⟨item, made, hmethods, by rw [hpaths], rfl⟩

theorem addRoute_of_isDropped (hdropped : a.isDropped base route = true) :
    a.addRoute base resolve draft route = .ok draft := by
  rw [addRoute, hdropped, if_pos rfl]

end Steps

/-- Documenting one method keeps the origin of everything, in the item of its path and
in the draft. -/
theorem from_addMethod {a : Assembly} {route : Route} {relative : String}
    {handler : Option Handler} {q : String → Documented → Prop} {method : Method}
    (hq : ∀ d, a.operation route method relative handler = .ok d → q (pathKey relative) d)
    {state next : PathItem × Draft}
    (hstep : a.addMethod route relative handler state method = .ok next)
    (hitem : ∀ entry ∈ state.1, ∃ d, q (pathKey relative) d ∧ d.operation = entry.2)
    (hdraft : state.2.From q) :
    (∀ entry ∈ next.1, ∃ d, q (pathKey relative) d ∧ d.operation = entry.2) ∧
      next.2.From q := by
  obtain ⟨d, hd, hput, hnext⟩ := addMethod_eq_ok hstep
  rw [hput, hnext]
  refine ⟨Dict.forall_mem_insert ⟨d, hq d hd, rfl⟩ hitem, ?_, ?_⟩
  · rw [paths_addChanges]
    exact hdraft.operations
  · intro change hchange
    rcases mem_changes_addChanges hchange with hold | ⟨hpath, hoverrides⟩
    · exact hdraft.changes change hold
    · exact ⟨d, hpath ▸ hq d hd, hoverrides⟩

/-- Documenting a route keeps the origin of everything. -/
theorem from_addRoute {a : Assembly} {base : String} {resolve : Resolver} {route : Route}
    {q : String → Documented → Prop}
    (hq : a.isDropped base route = false → ∀ method ∈ a.documentedMethods route, ∀ d,
      a.operation route method (relativeUri base route.uri) (route.action.bind resolve) = .ok d →
        q (pathKey (relativeUri base route.uri)) d)
    {draft next : Draft} (hstep : a.addRoute base resolve draft route = .ok next)
    (hdraft : draft.From q) : next.From q := by
  cases hkept : a.isDropped base route with
  | true =>
      rw [addRoute_of_isDropped hkept] at hstep
      exact Except.ok.inj hstep ▸ hdraft
  | false =>
      obtain ⟨item, made, hmethods, hpaths, hchanges⟩ := addRoute_eq_ok hkept hstep
      have hold : ∀ entry ∈ (Dict.find? draft.paths (pathKey (relativeUri base route.uri))).getD [],
          ∃ d, q (pathKey (relativeUri base route.uri)) d ∧ d.operation = entry.2 := by
        cases hfind : Dict.find? draft.paths (pathKey (relativeUri base route.uri)) with
        | none => simp
        | some item => exact hdraft.operations _ (Dict.mem_of_find? hfind)
      obtain ⟨hitem, hmade⟩ := foldlM_keeps
        (p := fun state : PathItem × Draft =>
          (∀ entry ∈ state.1,
            ∃ d, q (pathKey (relativeUri base route.uri)) d ∧ d.operation = entry.2) ∧
          state.2.From q)
        (fun method hmethod _ _ hstep hstate =>
          from_addMethod (hq hkept method hmethod) hstep hstate.1 hstate.2)
        hmethods ⟨hold, hdraft⟩
      constructor
      · rw [hpaths]
        exact Dict.forall_mem_insert hitem hdraft.operations
      · rw [hchanges]
        exact hmade.changes

/-- Everything in the draft of a table of routes is documented for one of them. -/
theorem from_draft {a : Assembly} {base : String} {resolve : Resolver} {routes : List Route}
    {draft : Draft} (h : routes.foldlM (a.addRoute base resolve) {} = .ok draft) :
    draft.From (a.Documents base resolve routes) := by
  refine foldlM_keeps (p := Draft.From (a.Documents base resolve routes)) ?_ h ⟨?_, ?_⟩
  · intro route hroute before after hstep hbefore
    refine from_addRoute ?_ hstep hbefore
    intro hkept method hmethod d hd
    exact ⟨route, hroute, hkept, rfl, method, hmethod, hd⟩
  · intro entry hentry
    cases hentry
  · intro change hchange
    cases hchange

/-- The paths of a draft, and the methods under each, stand in order. -/
theorem ordered_draft {a : Assembly} {base : String} {resolve : Resolver}
    {routes : List Route} {draft : Draft}
    (h : routes.foldlM (a.addRoute base resolve) {} = .ok draft) : draft.paths.Ordered := by
  refine foldlM_keeps (p := fun draft : Draft => draft.paths.Ordered) ?_ h
    ⟨List.Pairwise.nil, by simp⟩
  intro route _ before after hstep hbefore
  cases hkept : a.isDropped base route with
  | true =>
      rw [addRoute_of_isDropped hkept] at hstep
      exact Except.ok.inj hstep ▸ hbefore
  | false =>
      obtain ⟨item, made, hmethods, hpaths, -⟩ := addRoute_eq_ok hkept hstep
      have hitem : Dict.Increasing item := by
        refine foldlM_keeps (p := fun state : PathItem × Draft => Dict.Increasing state.1) ?_
          hmethods (hbefore.getD_find? _)
        intro method _ state next hmethod hstate
        obtain ⟨d, -, hput, -⟩ := addMethod_eq_ok hmethod
        rw [hput]
        exact hstate.insert _ _
      rw [hpaths]
      exact hbefore.insert hitem _

/-- The parts of a finished document. -/
theorem documentUnder_eq_ok {a : Assembly} {base : String} {resolve : Resolver}
    {routes : List Route} {document : Document} {warnings : List Warning}
    (h : a.documentUnder base resolve routes = .ok (document, warnings)) :
    ∃ schemas draft,
      a.entities.schemas a.now a.builders = .ok schemas ∧
      routes.foldlM (a.addRoute base resolve) {} = .ok draft ∧
      document =
        { openapi := "3.0.0"
          info := info a.settings
          servers := a.settings.documentServers
          tags := a.settings.tags
          paths := (draft.changes.apply draft.paths).1
          components :=
            { schemas
              securitySchemes :=
                if a.settings.sources.security then Security.schemes a.settings else [] } } := by
  rw [documentUnder] at h
  obtain ⟨schemas, hschemas, h⟩ := bind_eq_ok_iff.mp h
  obtain ⟨draft, hdraft, h⟩ := bind_eq_ok_iff.mp h
  exact ⟨schemas, draft, hschemas, hdraft, (Prod.mk.inj (Except.ok.inj h)).1.symm⟩

/-- What holds of all that is documented for the routes of a table, and is kept by the
changes of their paths, holds in the document. -/
theorem forAll_paths_documentUnder {a : Assembly} {base : String} {resolve : Resolver}
    {routes : List Route} {document : Document} {warnings : List Warning}
    {p : String → Operation → Prop}
    (hmade : ∀ key d, a.Documents base resolve routes key d → p key d.operation)
    (hchange : ∀ key d overrides, a.Documents base resolve routes key d →
      d.overrides = some overrides → ∀ o, p key o →
        p (PathChanges.renamed key overrides) (PathChanges.changeOperation overrides o))
    (h : a.documentUnder base resolve routes = .ok (document, warnings)) :
    document.paths.ForAll p := by
  obtain ⟨schemas, draft, -, hdraft, rfl⟩ := documentUnder_eq_ok h
  have hfrom := from_draft hdraft
  refine PathChanges.forAll_apply ?_ ?_
  · intro change hmem o ho
    obtain ⟨d, hd, hoverrides⟩ := hfrom.changes change hmem
    exact hchange change.1 d change.2 hd hoverrides o ho
  · intro entry hentry operation hoperation
    obtain ⟨d, hd, heq⟩ := hfrom.operations entry hentry operation hoperation
    exact heq ▸ hmade entry.1 d hd

end Assembly

end ApiDoc
