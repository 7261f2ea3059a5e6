import ApiDoc.Proofs.Assembly.Draft
import ApiDoc.Proofs.Assembly.Operation
import ApiDoc.Proofs.PathChange.Agreement
import ApiDoc.Proofs.Request.Query

/-!
# Agreement of path parameters in a document

An operation takes the parameters of the full address of its route, and stands under
the address without the prefix and without marks.  The two name the same placeholders
if no placeholder begins in the prefix, and the changes of the paths keep them in step.
A prefix with a placeholder leaves its operations with a path parameter that their
path does not have.
-/

namespace ApiDoc

namespace Assembly

theorem texts_relativeUri {base : String} (hbase : '\x7b' ∉ base.toList) (uri : String) :
    Template.texts (Template.pieces (relativeUri base uri)) =
      Template.texts (Template.pieces uri) := by
  obtain ⟨front, rest, huri, hfront, hrest⟩ : ∃ front rest, uri.toList = front ++ rest ∧
      '\x7b' ∉ front ∧ (Text.dropHead? base.toList uri.toList).getD uri.toList = rest := by
    cases hdrop : Text.dropHead? base.toList uri.toList with
    | none => exact ⟨[], uri.toList, rfl, by simp, rfl⟩
    | some rest =>
        exact ⟨base.toList, rest, Text.dropHead?_eq_some_iff.mp hdrop, hbase, rfl⟩
  have htexts : Template.texts (Template.pieces uri) =
      Template.texts (Template.piecesFrom none rest) := by
    rw [Template.pieces, huri, Template.texts_append_of_not_mem front rest hfront]
  rw [relativeUri, hrest, htexts]
  cases rest with
  | nil => rfl
  | cons c cs => simp [Template.pieces]

/-- The path of a route has the placeholders of its address, without marks. -/
theorem placeholders_pathKey {base uri : String} (hbase : '\x7b' ∉ base.toList)
    (huri : Template.WellFormed uri) :
    Template.placeholders (pathKey (relativeUri base uri)) = Template.names uri := by
  rw [← Template.map_dropMark_of_wellFormed huri, ← texts_relativeUri hbase uri,
    Template.placeholders, Template.pieces, pathKey, String.toList_ofList,
    Template.texts_replaceAll_marks, Template.pieces]

theorem pathNames_append_of_forall_ne {generated added : List Parameter}
    (h : ∀ p ∈ added, p.location ≠ .path) :
    ((generated ++ added).filter (·.location = .path)).map (·.name) =
      (generated.filter (·.location = .path)).map (·.name) := by
  have hnone : added.filter (·.location = .path) = [] :=
    List.filter_eq_nil_iff.mpr fun p hp => by simpa using h p hp
  rw [List.filter_append, hnone, List.append_nil]

theorem pathNames_templateParameters (uri : String) :
    ((Template.parameters uri).filter (·.location = .path)).map (·.name) =
      Template.names uri := by
  have hall : (Template.parameters uri).filter (·.location = .path) =
      Template.parameters uri := by
    refine List.filter_eq_self.mpr ?_
    intro p hp
    obtain ⟨name, -, rfl⟩ := List.mem_map.mp hp
    rfl
  rw [hall, Template.parameters, List.map_map]
  exact List.map_id _

/-- An operation without documented path parameters takes those of its address. -/
theorem pathNames_operation {a : Assembly} {route : Route} {method : Method}
    {relative : String} {handler : Option Handler} {d : Documented}
    (hdocumented : ∀ documented,
      Documented.ofHandler a route.uri handler = .ok documented →
        ∀ p ∈ documented.operation.parameters, p.location ≠ .path)
    (h : a.operation route method relative handler = .ok d) :
    d.operation.pathNames = Template.names route.uri := by
  obtain ⟨documented, requested, configured, hofHandler, hrequest, hconfigured, rfl⟩ :=
    operation_eq_ok h
  obtain ⟨query, body, hpart, rfl⟩ := addRequest_eq_ok hrequest
  obtain ⟨responses, -, rfl⟩ := addConfigured_eq_ok hconfigured
  obtain ⟨added, hadded, hmem⟩ := requestParameters_eq_append
    (Template.parameters route.uri ++ query) documented.operation.parameters
  have hquery : ∀ p ∈ query, p.location ≠ .path := by
    rcases hpart with ⟨hparameters, -⟩ | ⟨-, -, hnone, -⟩
    · intro p hp
      rw [location_of_rulesPart hparameters p hp]
      decide
    · simp [hnone]
  have hheaders : ∀ p ∈ a.headers, p.location ≠ .path := by
    intro p hp
    obtain ⟨entry, -, rfl⟩ := List.mem_map.mp hp
    exact Location.noConfusion
  rw [Operation.pathNames, parameters_tagged, parameters_secure,
    pathNames_append_of_forall_ne hheaders, hadded,
    pathNames_append_of_forall_ne fun p hp => hdocumented _ hofHandler p (hmem p hp),
    pathNames_append_of_forall_ne hquery, pathNames_templateParameters]

end Assembly

/-- A documentation that leaves the path parameters to the path: it has none of its
own, and its changes name them without closing braces. -/
structure Documented.LeavesPath (d : Documented) : Prop where
  noPath : ∀ p ∈ d.operation.parameters, p.location ≠ .path
  names : ∀ overrides ∈ d.overrides, ∀ override ∈ overrides,
    ∀ name ∈ PathOverride.name? override, '\x7d' ∉ name.toList

instance : DecidablePred Documented.LeavesPath := fun d =>
  decidable_of_iff ((∀ p ∈ d.operation.parameters, p.location ≠ .path) ∧
    ∀ overrides ∈ d.overrides, ∀ override ∈ overrides,
      ∀ name ∈ PathOverride.name? override, '\x7d' ∉ name.toList)
    ⟨fun ⟨noPath, names⟩ => ⟨noPath, names⟩, fun ⟨noPath, names⟩ => ⟨noPath, names⟩⟩

namespace Application

/-- Under every path of a document, each operation has one path parameter for each
placeholder, in order and under its name, if no placeholder begins in the prefix. -/
theorem pathNames_eq_placeholders {app : Application} {a : Assembly}
    {filter : Option String} {document : Document} {warnings : List Warning}
    (hbase : '\x7b' ∉ (Assembly.basePrefix a.settings filter).toList)
    (huris : ∀ route ∈ app.routes, Template.WellFormed route.uri)
    (hdocs : ∀ route ∈ app.routes, ∀ d,
      Documented.ofHandler a route.uri (route.action.bind app.resolve) = .ok d → d.LeavesPath)
    (h : app.documentOf a filter = .ok (document, warnings)) :
    document.paths.ForAll fun key o => o.pathNames = Template.placeholders key := by
  refine Assembly.forAll_paths_documentUnder ?_ ?_ h
  · rintro key d ⟨route, hroute, -, rfl, method, -, hd⟩
    rw [Assembly.pathNames_operation (fun d hd => (hdocs route hroute d hd).noPath) hd,
      Assembly.placeholders_pathKey hbase (huris route hroute)]
  · rintro key d overrides ⟨route, hroute, -, rfl, method, -, hd⟩ hoverrides o ho
    obtain ⟨documented, _, _, hofHandler, _, _, rfl⟩ := Assembly.operation_eq_ok hd
    exact PathChanges.pathNames_eq_placeholders_renamed
      ((hdocs route hroute documented hofHandler).names overrides hoverrides) ho

/-- Without a prefix in the addresses the path of a pet loses its mark, and the comment
of the handler gives its placeholder another name. -/
theorem pathNames_eq_placeholders_pet :
    let a : Assembly :=
      { settings := {}, builders := {}, entities := {}, now := ⟨"", ""⟩ }
    let app : Application :=
      { routes :=
          [{ uri := "/api/pets/\x7bid?\x7d", methods := [.get, .put], action := some "pet" },
            { uri := "/api/pets/\x7bid\x7d/\x7btoy\x7d", methods := [.get] }]
        resolve := fun action =>
          if action = "pet" then
            some { comment := some "@Request(\x7b\"pathParams\": [\x7b\"name\": \"pet\"\x7d]\x7d)" }
          else none }
    '\x7b' ∉ (Assembly.basePrefix a.settings none).toList ∧
    (∀ route ∈ app.routes, Template.WellFormed route.uri) ∧
    (∀ route ∈ app.routes, ∀ d,
      Documented.ofHandler a route.uri (route.action.bind app.resolve) = .ok d → d.LeavesPath) ∧
    ∃ made, app.documentOf a none = .ok made ∧
      Dict.keys made.1.paths =
        ["/pets/\x7bid\x7d/\x7btoy\x7d", "/pets/\x7bpet\x7d"] ∧
      made.1.paths.ForAll fun key o => o.pathNames = Template.placeholders key := by
  intro a app
  have hbase : '\x7b' ∉ (Assembly.basePrefix a.settings none).toList := by decide +kernel
  have huris : ∀ route ∈ app.routes, Template.WellFormed route.uri := by decide +kernel
  have hdocs : ∀ route ∈ app.routes, ∀ d,
      Documented.ofHandler a route.uri (route.action.bind app.resolve) = .ok d →
        d.LeavesPath := by
    decide +kernel
  obtain ⟨made, hmade, hkeys⟩ : ∃ made, app.documentOf a none = .ok made ∧
      Dict.keys made.1.paths =
        ["/pets/\x7bid\x7d/\x7btoy\x7d", "/pets/\x7bpet\x7d"] := by
    decide +kernel
  exact ⟨hbase, huris, hdocs, made, hmade, hkeys,
    pathNames_eq_placeholders hbase huris hdocs hmade⟩

/-- Under a prefix with a placeholder, the operation has a path parameter and its path
has no placeholder. -/
theorem pathNames_ne_placeholders_tenant :
    let a : Assembly :=
      { settings := { basePath := "/\x7btenant\x7d" }
        builders := {}
        entities := {}
        now := ⟨"", ""⟩ }
    let app : Application := { routes := [{ uri := "/\x7btenant\x7d/pets", methods := [.get] }] }
    (∀ route ∈ app.routes, Template.WellFormed route.uri) ∧
    (∀ route ∈ app.routes, ∀ d,
      Documented.ofHandler a route.uri (route.action.bind app.resolve) = .ok d → d.LeavesPath) ∧
    ∃ made, app.documentOf a none = .ok made ∧
      ¬ made.1.paths.ForAll fun key o => o.pathNames = Template.placeholders key := by
  intro a app
  refine ⟨?_, ?_, ?_⟩
  · decide +kernel
  · decide +kernel
  · decide +kernel

end Application

end ApiDoc
