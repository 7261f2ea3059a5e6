import ApiDoc.Proofs.Assembly.Draft
import ApiDoc.Proofs.Assembly.Operation
import ApiDoc.Proofs.PathChange.Simultaneous

/-!
# Security requirements and security schemes

The requirements of a route and the schemes of a document are made from the same
configured flows: a requirement names every definition, and every known definition has a
scheme.  Validated settings hold known definitions only, so whatever is required is a
scheme of the document, also after the changes of the paths.
-/

namespace ApiDoc

/-- Validated settings configure no definition but the known ones. -/
theorem Settings.mem_allowedFlows_of_validate {s : Settings} (h : s.validate = .ok ()) :
    ∀ definition ∈ Dict.keys s.flows, definition ∈ Dict.keys allowedFlows := by
  intro definition hdefinition
  obtain ⟨⟨name, flow⟩, hflow, rfl⟩ := List.mem_map.mp hdefinition
  have hcheck : checkFlow name flow = .ok () := forM_eq_ok_iff.mp h _ hflow
  rw [checkFlow] at hcheck
  split at hcheck
  · cases hcheck
  · next flows hfind => exact List.mem_map_of_mem (Dict.mem_of_find? hfind)

namespace Security

variable {s : Settings}

theorem isSome_scheme? {definition : String} (flow : String)
    (h : definition ∈ Dict.keys Settings.allowedFlows) :
    (scheme? s definition flow).isSome := by
  have hknown : definition = "OAuth2" ∨ definition = "bearerAuth" := by
    simpa [Settings.allowedFlows, Dict.keys] using h
  rcases hknown with rfl | rfl
  · rfl
  · rfl

/-- Every configured definition has a scheme, and there are no others. -/
theorem keys_schemes (h : s.validate = .ok ()) : Dict.keys (schemes s) = Dict.keys s.flows := by
  have hall : ∀ entry ∈ s.flows, (scheme? s entry.1 entry.2).isSome := by
    intro entry hentry
    apply isSome_scheme?
    exact Settings.mem_allowedFlows_of_validate h _ (List.mem_map_of_mem hentry)
  calc
    Dict.keys (schemes s) =
        (s.flows.filter fun entry => (scheme? s entry.1 entry.2).isSome).map (·.1) :=
      Dict.keys_filterMap Prod.fst (fun entry => scheme? s entry.1 entry.2) s.flows
    _ = Dict.keys s.flows := by
      rw [List.filter_eq_self.mpr hall]
      rfl

/-- A requirement of a route names every configured definition. -/
theorem keys_of_ofRoute? {middlewares : List String} {requirements : List SecurityRequirement}
    (h : ofRoute? s middlewares = some requirements) :
    ∀ requirement ∈ requirements, Dict.keys requirement = Dict.keys s.flows := by
  obtain ⟨guard, -, rfl⟩ := Option.map_eq_some_iff.mp h
  refine List.forall_mem_singleton.mpr ?_
  rw [requirement, Dict.keys, List.map_map]
  exact List.map_id _

end Security

namespace Application

open Assembly

variable {app : Application} {a : Assembly} {filter : Option String} {document : Document}
  {warnings : List Warning}

/-- With validated settings that ask for security, what an operation of the document
requires are exactly the security schemes of the document. -/
theorem document_requires_schemes (hvalid : a.settings.validate = .ok ())
    (hsecurity : a.settings.sources.security = true)
    (h : app.documentOf a filter = .ok (document, warnings)) :
    document.paths.ForAll fun _ o =>
      ∀ requirements ∈ o.security, ∀ requirement ∈ requirements, ∀ name,
        name ∈ Dict.keys requirement ↔ name ∈ Dict.keys document.components.securitySchemes := by
  have hschemes : Dict.keys document.components.securitySchemes = Dict.keys a.settings.flows := by
    obtain ⟨schemas, draft, -, -, rfl⟩ := documentUnder_eq_ok h
    rw [hsecurity, if_pos rfl]
    exact Security.keys_schemes hvalid
  rw [hschemes]
  refine forAll_paths_documentUnder (p := fun _ o =>
    ∀ requirements ∈ o.security, ∀ requirement ∈ requirements, ∀ name,
      name ∈ Dict.keys requirement ↔ name ∈ Dict.keys a.settings.flows) ?_ ?_ h
  · -- Whatever the comment asks for, the step for security writes over it.
    rintro key d ⟨route, -, -, -, method, -, hd⟩ requirements hrequirements requirement hmem name
    obtain ⟨documented, requested, configured, -, -, -, rfl⟩ := operation_eq_ok hd
    rw [tagged_eq, secure_eq, hsecurity, if_pos rfl] at hrequirements
    rw [Security.keys_of_ofRoute? hrequirements requirement hmem]
  · -- The changes of a path leave the security as it is.
    intro key d overrides _ _ o ho
    exact ho

/-- A guarded route whose comment asks for another scheme and renames its placeholder. -/
theorem document_requires_schemes_pet :
    let a : Assembly :=
      { settings := { flows := [("OAuth2", "password"), ("bearerAuth", "http")] }
        builders := {}, entities := {}, now := ⟨"", ""⟩ }
    let comment := "@Request(\x7b\"security\": [\x7b\"apiKey\": []\x7d], " ++
      "\"pathParams\": [\x7b\"name\": \"pet\"\x7d]\x7d)"
    let app : Application :=
      { routes :=
          [{ uri := "/api/pets/\x7bid\x7d", methods := [.get], action := some "show"
             middlewares := ["auth:api"] }]
        resolve := fun _ => some { comment := some comment } }
    a.settings.validate = .ok () ∧ a.settings.sources.security = true ∧
    ∃ document warnings o requirement,
      app.documentOf a none = .ok (document, warnings) ∧
      document.paths.operation? "/pets/\x7bpet\x7d" "get" = some o ∧
      o.security = some [requirement] ∧ Dict.keys requirement = ["OAuth2", "bearerAuth"] ∧
      ∀ name ∈ Dict.keys requirement, name ∈ Dict.keys document.components.securitySchemes := by
  intro a comment app
  have hvalid : a.settings.validate = .ok () := rfl
  obtain ⟨⟨document, warnings⟩, hmade, hshown⟩ : ∃ made, app.documentOf a none = .ok made ∧
      (made.1.paths.operation? "/pets/\x7bpet\x7d" "get").bind Operation.security =
        some [[("OAuth2", ["api"]), ("bearerAuth", [])]] := by
    decide +kernel
  obtain ⟨o, ho, hrequires⟩ := Option.bind_eq_some_iff.mp hshown
  obtain ⟨item, hitem, hget⟩ := Option.bind_eq_some_iff.mp ho
  have hnames := document_requires_schemes hvalid rfl hmade _ (Dict.mem_of_find? hitem) _
    (Dict.mem_of_find? hget) _ hrequires _ List.mem_cons_self
  exact ⟨hvalid, rfl, document, warnings, o, _, hmade, ho, hrequires, rfl,
    fun name hname => (hnames name).mp hname⟩

end Application

end ApiDoc
