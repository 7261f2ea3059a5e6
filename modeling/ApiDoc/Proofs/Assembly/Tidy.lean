import ApiDoc.Proofs.Assembly.Operation
import ApiDoc.Proofs.Component.Tidy
import ApiDoc.Proofs.PathChange.Tidy
import ApiDoc.Proofs.Request.Tidy

/-!
# Tidy operations of routes

What is documented about a handler is clean, and so is everything that an operation
gets from its route and from the settings, when their values repeat no key and the builders
give tidy schemas.
-/

namespace ApiDoc

/-- The dictionaries of the settings stand in order, and the examples of the headers
repeat no key. -/
structure Settings.Tidy (s : Settings) : Prop where
  flows : s.flows.Increasing
  scopes : s.scopes.Increasing
  samples : ∀ header ∈ s.appended.headers, ∀ j ∈ header.2.sample, j.Distinct

/-- The values of settings and entities repeat no key, and no builder gives a schema that
could. -/
structure Assembly.Tidy (a : Assembly) : Prop where
  settings : a.settings.Tidy
  builders : a.builders.Tidy
  entities : a.entities.Tidy

namespace Documented

/-- A clean operation, and changes whose values repeat no key. -/
structure Clean (d : Documented) : Prop where
  operation : d.operation.Clean
  overrides : ∀ overrides ∈ d.overrides, PathOverride.Distinct overrides

/-- An operation of nothing but texts. -/
theorem clean_of_texts {o : Operation} (hparameters : o.parameters = [])
    (hbody : o.requestBody = none) (hresponses : o.responses = [])
    (hsecurity : o.security = none) (hextensions : o.extensions = []) : o.Clean := by
  refine ⟨⟨?_, ?_, ?_, ?_, ?_, ?_⟩, ?_⟩
  · simp [hparameters]
  · simp [hbody]
  · rw [hresponses]
    exact List.Pairwise.nil
  · simp [hresponses]
  · simp [hsecurity]
  · rw [hextensions]
    exact Json.extends_nil _
  · simp [hparameters]

theorem clean_overlay {d next : Documented} {entry : String × Json}
    (hentry : entry.2.Distinct) (h : d.overlay entry = .ok next) (hd : d.Clean) :
    next.Clean := by
  rcases overlay_eq_ok h with ⟨-, rfl⟩ | ⟨-, rfl⟩ | ⟨-, -, merged, hmerged, rfl⟩
  · exact ⟨⟨{ hd.operation.tidy with }, hd.operation.parameters⟩, hd.overrides⟩
  · refine ⟨hd.operation, ?_⟩
    rintro _ ⟨⟩
    exact PathOverride.distinct_ofJson hentry
  · exact ⟨Operation.clean_of_mergeValue hentry hmerged, hd.overrides⟩

theorem tidy_responseSchema {a : Assembly} {reference uri : String} {s : Schema}
    (hbuilders : a.builders.Tidy) (h : responseSchema a reference uri = .ok s) : s.Tidy := by
  obtain ⟨found, hfound, h⟩ := bind_eq_ok_iff.mp h
  cases found with
  | some shape => exact Except.ok.inj h ▸ Reference.tidy_structured hbuilders hfound shape rfl
  | none => exact Except.ok.inj h ▸ Schema.tidy_empty.congr rfl rfl rfl rfl

theorem tidy_response {a : Assembly} {uri : String} {entries : List (String × Json)}
    {r : Response} (hbuilders : a.builders.Tidy) (h : response a uri entries = .ok r) :
    r.Tidy := by
  unfold response at h
  dsimp only at h
  split at h
  · exact Except.ok.inj h ▸ Response.tidy_plain _
  · obtain ⟨s, hs, h⟩ := bind_eq_ok_iff.mp h
    exact Except.ok.inj h ▸ (Response.tidy_plain _).withSchema (tidy_responseSchema hbuilders hs)

theorem tidy_insertResponse {o : Operation} {r : Response} (h : o.Tidy) (hr : r.Tidy)
    (code : String) :
    Operation.Tidy { o with responses := Dict.insert o.responses code r } :=
  { h with
    increasing := h.increasing.insert code r
    responses := Dict.forall_mem_insert (p := fun entry : String × Response => entry.2.Tidy)
      hr h.responses }

theorem clean_addResponse {a : Assembly} {uri body : String} {d next : Documented}
    (hbuilders : a.builders.Tidy) (h : addResponse a uri d body = .ok next) (hd : d.Clean) :
    next.Clean := by
  obtain ⟨entries, -, h⟩ := bind_eq_ok_iff.mp h
  split at h
  · obtain rfl := Except.ok.inj h
    exact ⟨hd.operation, hd.overrides⟩
  · obtain ⟨r, hr, h⟩ := bind_eq_ok_iff.mp h
    obtain rfl := Except.ok.inj h
    exact ⟨⟨tidy_insertResponse hd.operation.tidy (tidy_response hbuilders hr) _,
      hd.operation.parameters⟩, hd.overrides⟩

theorem distinct_of_requestEntries {block : DocBlock} {entries : List (String × Json)}
    (h : requestEntries block = .ok entries) : ∀ entry ∈ entries, entry.2.Distinct := by
  rw [requestEntries] at h
  split at h
  · exact TagBody.forall_distinct_of_parse h
  · obtain rfl : [] = entries := Except.ok.inj h
    simp

/-- What holds at the start of a comment, and is kept by its entries and its responses,
holds of all that is documented about a handler. -/
theorem ofHandler_keeps {p : Documented → Prop} {a : Assembly} {uri : String}
    {handler : Option Handler} {d : Documented} (hstart : ∀ block, p (start block))
    (hentry : ∀ entry before after, entry.2.Distinct → overlay before entry = .ok after →
      p before → p after)
    (hresponse : ∀ body before after, addResponse a uri before body = .ok after →
      p before → p after)
    (h : ofHandler a uri handler = .ok d) : p d := by
  rcases ofHandler_eq_ok h with rfl | ⟨comment, -, -, hcomment⟩
  · exact hstart {}
  · obtain ⟨entries, overlaid, hentries, hoverlaid, hresponses⟩ := ofComment_eq_ok hcomment
    have hdistinct := distinct_of_requestEntries hentries
    refine foldlM_keeps (fun body _ => hresponse body) hresponses ?_
    exact foldlM_keeps
      (fun entry hmem before after => hentry entry before after (hdistinct entry hmem))
      hoverlaid (hstart _)

theorem clean_ofHandler {a : Assembly} {uri : String} {handler : Option Handler}
    {d : Documented} (hbuilders : a.builders.Tidy) (h : ofHandler a uri handler = .ok d) :
    d.Clean :=
  ofHandler_keeps (fun _ => ⟨clean_of_texts rfl rfl rfl rfl rfl, by simp [start]⟩)
    (fun _ _ _ hentry => clean_overlay hentry) (fun _ _ _ => clean_addResponse hbuilders) h

/-- No override of a path parameter repeats a key. -/
theorem nodup_keys_ofHandler {a : Assembly} {uri : String} {handler : Option Handler}
    {d : Documented} (h : ofHandler a uri handler = .ok d) :
    ∀ overrides ∈ d.overrides, ∀ override ∈ overrides, (Dict.keys override).Nodup := by
  refine ofHandler_keeps
    (p := fun d => ∀ overrides ∈ d.overrides, ∀ override ∈ overrides, (Dict.keys override).Nodup)
    (fun _ => by simp [start]) ?_ ?_ h
  · intro entry before after hdistinct hstep hbefore
    rcases overlay_eq_ok hstep with ⟨-, rfl⟩ | ⟨-, rfl⟩ | ⟨-, -, merged, -, rfl⟩
    · exact hbefore
    · rintro _ ⟨⟩
      exact PathOverride.nodup_keys_ofJson hdistinct
    · exact hbefore
  · intro body before after hstep hbefore
    obtain ⟨responses, warnings, rfl⟩ := addResponse_eq_ok hstep
    exact hbefore

end Documented

namespace Assembly

variable {a : Assembly}

theorem clean_addRequest {route : Route} {method : Method} {handler : Option Handler}
    {o requested : Operation} (h : a.addRequest route method handler o = .ok requested)
    (ho : o.Clean) : requested.Clean := by
  obtain ⟨query, body, hpart, rfl⟩ := addRequest_eq_ok h
  have hquery : ∀ p ∈ query, p.Clean := by
    rcases hpart with ⟨hparameters, -⟩ | ⟨-, -, rfl, -⟩
    · rcases rulesPart_eq_parameters hparameters with rfl | ⟨known, -, hrules⟩
      · simp
      · exact Query.clean_parameters hrules
    · simp
  have hbody : ∀ b ∈ body, b.Tidy := by
    rcases hpart with ⟨-, rfl⟩ | ⟨described, hdescribed, -, rfl⟩
    · exact ho.tidy.requestBody
    · obtain ⟨rules, hrules⟩ := rulesPart_eq_body hdescribed
      rintro _ ⟨⟩
      exact Body.tidy_requestBody hrules
  obtain ⟨added, hadded, hmem⟩ := requestParameters_eq_append
    (Template.parameters route.uri ++ query) o.parameters
  have hparameters : ∀ p ∈ requestParameters (Template.parameters route.uri ++ query)
      o.parameters, p.Clean := by
    rw [hadded]
    exact List.forall_mem_append.mpr
      ⟨List.forall_mem_append.mpr ⟨Template.clean_parameters route.uri, hquery⟩,
        fun p hp => ho.parameters p (hmem p hp)⟩
  exact ⟨{ ho.tidy with
    parameters := fun p hp => (hparameters p hp).tidy, requestBody := hbody }, hparameters⟩

theorem clean_headers (hsettings : a.settings.Tidy) : ∀ p ∈ a.headers, p.Clean := by
  intro p hp
  obtain ⟨header, hheader, rfl⟩ := List.mem_map.mp hp
  have hsample := hsettings.samples header hheader
  have hschema : (headerParameter header.1 header.2).schema.Tidy :=
    Schema.tidy_scalar hsample (by simp [headerParameter]) rfl rfl rfl rfl rfl rfl
  cases hvalue : header.2.sample with
  | none =>
      refine Parameter.clean_of_extensions_nil hschema ?_
      rw [headerParameter, hvalue]
  | some value =>
      have hextensions : (headerParameter header.1 header.2).extensions =
          [("example", value)] := by
        rw [headerParameter, hvalue]
      refine ⟨⟨hschema, ?_⟩, ?_⟩
      · rw [hextensions]
        exact (Json.extends_nil _).insert (by decide) (hsample value hvalue)
      · simp [hextensions, Dict.keys]

theorem tidy_appendedResponse {uri : String} {appended : AppendedResponse} {r : Response}
    (hbuilders : a.builders.Tidy) (h : a.appendedResponse uri appended = .ok r) : r.Tidy := by
  unfold appendedResponse at h
  dsimp only at h
  split at h
  · exact Except.ok.inj h ▸ Response.tidy_plain _
  · obtain ⟨s, hs, h⟩ := bind_eq_ok_iff.mp h
    exact Except.ok.inj h ▸
      (Response.tidy_plain _).withSchema (Reference.tidy_resolve hbuilders hs)

theorem tidy_addAppended {uri : String} {responses next : Dict Response}
    {entry : String × AppendedResponse} (hbuilders : a.builders.Tidy)
    (h : a.addAppended uri responses entry = .ok next)
    (hresponses : responses.Increasing ∧ ∀ r ∈ responses, r.2.Tidy) :
    next.Increasing ∧ ∀ r ∈ next, r.2.Tidy := by
  unfold addAppended at h
  split at h
  · exact Except.ok.inj h ▸ hresponses
  · obtain ⟨r, hr, h⟩ := bind_eq_ok_iff.mp h
    obtain rfl := Except.ok.inj h
    exact ⟨hresponses.1.insert _ _,
      Dict.forall_mem_insert (p := fun r : String × Response => r.2.Tidy)
        (tidy_appendedResponse hbuilders hr) hresponses.2⟩

theorem tidy_withDefault {responses : Dict Response}
    (h : responses.Increasing ∧ ∀ r ∈ responses, r.2.Tidy) :
    (withDefault responses).Increasing ∧ ∀ r ∈ withDefault responses, r.2.Tidy := by
  rw [withDefault]
  split
  · exact ⟨List.pairwise_singleton _ _,
      List.forall_mem_singleton.mpr (Response.tidy_plain "OK")⟩
  · exact h

theorem clean_addConfigured (ha : a.Tidy) {uri : String}
    {o configured : Operation} (h : a.addConfigured uri o = .ok configured) (ho : o.Clean) :
    configured.Clean := by
  obtain ⟨responses, hresponses, rfl⟩ := addConfigured_eq_ok h
  have htidy : responses.Increasing ∧ ∀ r ∈ responses, r.2.Tidy :=
    foldlM_keeps (p := fun rs : Dict Response => rs.Increasing ∧ ∀ r ∈ rs, r.2.Tidy)
      (fun _ _ _ _ hstep hrs => tidy_addAppended ha.builders hstep hrs) hresponses
      (tidy_withDefault ⟨ho.tidy.increasing, ho.tidy.responses⟩)
  have hparameters : ∀ p ∈ o.parameters ++ a.headers, p.Clean :=
    List.forall_mem_append.mpr ⟨ho.parameters, clean_headers ha.settings⟩
  exact ⟨{ ho.tidy with
    parameters := fun p hp => (hparameters p hp).tidy
    increasing := htidy.1
    responses := htidy.2 }, hparameters⟩

theorem clean_secure (hsettings : a.settings.Tidy) {route : Route} {o : Operation}
    (ho : o.Clean) : (a.secure route o).Clean := by
  rw [secure]
  split
  · refine ⟨{ ho.tidy with security := ?_ }, ho.parameters⟩
    intro requirements hrequirements requirement hrequirement
    obtain ⟨middleware, -, rfl⟩ := Option.map_eq_some_iff.mp hrequirements
    rw [List.mem_singleton.mp hrequirement]
    have hkeys : Dict.keys (Security.requirement a.settings (Security.parameters middleware)) =
        Dict.keys a.settings.flows := by
      rw [Security.requirement, Dict.keys, List.map_map]
      exact List.map_id _
    rw [hkeys]
    exact hsettings.flows.nodup_keys
  · exact ho

theorem clean_tagged {relative : String} {handler : Option Handler} {o : Operation}
    (ho : o.Clean) : (a.tagged relative handler o).Clean := by
  rw [tagged]
  split
  · exact ⟨{ ho.tidy with }, ho.parameters⟩
  · exact ho

/-- The operation of a route is clean, whatever its handler documents. -/
theorem clean_operation (ha : a.Tidy) {route : Route} {method : Method}
    {relative : String} {handler : Option Handler} {d : Documented}
    (h : a.operation route method relative handler = .ok d) : d.Clean := by
  obtain ⟨documented, requested, configured, hofHandler, hrequest, hconfigured, rfl⟩ :=
    operation_eq_ok h
  have hdocumented := Documented.clean_ofHandler ha.builders hofHandler
  have hrequested := clean_addRequest hrequest hdocumented.operation
  have hconfiguredClean := clean_addConfigured ha hconfigured hrequested
  exact ⟨clean_tagged (clean_secure ha.settings hconfiguredClean), hdocumented.overrides⟩

end Assembly

end ApiDoc
