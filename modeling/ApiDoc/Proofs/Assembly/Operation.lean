import ApiDoc.Assembly.Operation
import ApiDoc.Proofs.Except
import ApiDoc.Proofs.Request.Query

/-!
# The steps to an operation

An operation is made in a few steps, each of which may fail.  For each step it is
stated once what came out if it did not.
-/

namespace ApiDoc

namespace Documented

variable {a : Assembly} {uri : String} {d : Documented}

/-- What the prose of a comment says, and its tags without a body. -/
def start (block : DocBlock) : Documented :=
  { operation :=
      { deprecated := block.hasTag "deprecated"
        summary := block.summary
        description := block.description } }

/-- The entries of the tag `Request`; none if it has no body. -/
def requestEntries (block : DocBlock) : Except Error (List (String × Json)) :=
  match block.firstBody? "Request" with
  | some body => TagBody.parse body
  | none => .ok []

/-- What an entry of the tag `Request` does: two keys have a meaning of their own. -/
theorem overlay_eq_ok {entry : String × Json} {next : Documented}
    (h : d.overlay entry = .ok next) :
    (entry.1 = "operationId" ∧ next =
        { d with operation := { d.operation with operationId := some entry.2.plainText } }) ∨
      (entry.1 = "pathParams" ∧
        next = { d with overrides := some (PathOverride.ofJson entry.2) }) ∨
      entry.1 ≠ "operationId" ∧ entry.1 ≠ "pathParams" ∧
        ∃ merged, d.operation.mergeValue entry.1 entry.2 = .ok merged ∧
          next = { d with operation := merged } := by
  unfold overlay at h
  split at h
  · next hname => exact .inl ⟨hname, (Except.ok.inj h).symm⟩
  · next hname => exact .inr (.inl ⟨hname, (Except.ok.inj h).symm⟩)
  · next hid hpath =>
      obtain ⟨merged, hmerged, h⟩ := bind_eq_ok_iff.mp h
      exact .inr (.inr ⟨hid, hpath, merged, hmerged, (Except.ok.inj h).symm⟩)

/-- A response of a comment changes nothing but responses. -/
theorem addResponse_eq_ok {body : String} {next : Documented}
    (h : addResponse a uri d body = .ok next) :
    ∃ responses warnings,
      next = { d with operation := { d.operation with responses }, warnings } := by
  obtain ⟨entries, -, h⟩ := bind_eq_ok_iff.mp h
  split at h
  · obtain rfl := Except.ok.inj h
    exact ⟨d.operation.responses, _, rfl⟩
  · obtain ⟨r, -, h⟩ := bind_eq_ok_iff.mp h
    obtain rfl := Except.ok.inj h
    exact ⟨_, d.warnings, rfl⟩

/-- The steps through a comment: its entries are overlaid, then its responses added. -/
theorem ofComment_eq_ok {comment : String} (h : ofComment a uri comment = .ok d) :
    ∃ entries overlaid,
      requestEntries (DocBlock.parse comment) = .ok entries ∧
      entries.foldlM overlay (start (DocBlock.parse comment)) = .ok overlaid ∧
      (((DocBlock.parse comment).tagsNamed "Response").filterMap (·.body)).foldlM
        (addResponse a uri) overlaid = .ok d := by
  rw [ofComment] at h
  rw [requestEntries]
  cases hbody : (DocBlock.parse comment).firstBody? "Request" with
  | none => simpa only [hbody, start, bind_eq_ok_iff, exists_and_left] using h
  | some body => simpa only [hbody, start, bind_eq_ok_iff, exists_and_left] using h

/-- Nothing is documented, or a comment was read. -/
theorem ofHandler_eq_ok {handler : Option Handler} (h : ofHandler a uri handler = .ok d) :
    d = {} ∨ ∃ comment, handler.bind (·.comment) = some comment ∧
      a.settings.sources.comments = true ∧ ofComment a uri comment = .ok d := by
  unfold ofHandler at h
  split at h
  · next comment hcomment =>
      have hthere := (Option.filter_eq_some_iff.mp hcomment).1
      split at h
      · next hread => exact .inr ⟨comment, hthere, hread, h⟩
      · exact .inl (Except.ok.inj h).symm
  · exact .inl (Except.ok.inj h).symm

end Documented

namespace Assembly

/-- The parameters of an operation: the generated ones before the documented ones. -/
def requestParameters (generated documented : List Parameter) : List Parameter :=
  if generated.isEmpty then documented else addDocumented generated documented

/-- Documented parameters only follow the generated ones. -/
theorem addDocumented_eq_append (generated documented : List Parameter) :
    ∃ added, addDocumented generated documented = generated ++ added ∧
      ∀ p ∈ added, p ∈ documented := by
  induction documented generalizing generated with
  | nil => exact ⟨[], (List.append_nil _).symm, by simp⟩
  | cons p ps ih =>
      rw [addDocumented, List.foldl_cons]
      split
      · obtain ⟨added, heq, hadded⟩ := ih generated
        exact ⟨added, heq, fun q hq => List.mem_cons_of_mem _ (hadded q hq)⟩
      · obtain ⟨added, heq, hadded⟩ := ih (generated ++ [p])
        refine ⟨p :: added, ?_, ?_⟩
        · rw [← addDocumented, heq, List.append_assoc, List.singleton_append]
        · intro q hq
          rcases List.mem_cons.mp hq with rfl | hq
          · exact List.mem_cons_self
          · exact List.mem_cons_of_mem _ (hadded q hq)

/-- The generated parameters come first, and what follows them is documented. -/
theorem requestParameters_eq_append (generated documented : List Parameter) :
    ∃ added, requestParameters generated documented = generated ++ added ∧
      ∀ p ∈ added, p ∈ documented := by
  rw [requestParameters]
  split
  · next hempty =>
      rw [List.isEmpty_iff.mp hempty]
      exact ⟨documented, rfl, fun _ hp => hp⟩
  · exact addDocumented_eq_append generated documented

theorem rulesPart_eq_parameters {a : Assembly} {method : Method} {handler : Option Handler}
    {query : List Parameter} (h : a.rulesPart method handler = .ok (.parameters query)) :
    query = [] ∨ ∃ known ∈ handler, Query.parameters a.now known.rules = .ok query := by
  rw [rulesPart] at h
  split at h
  · exact .inl (RequestPart.parameters.inj (Except.ok.inj h)).symm
  · exact .inl (RequestPart.parameters.inj (Except.ok.inj h)).symm
  · next rules _ hrules =>
      obtain ⟨known, hknown, rfl⟩ := Option.map_eq_some_iff.mp hrules
      rw [RequestPart.ofRules] at h
      split at h
      · obtain ⟨body, -, heq⟩ := map_eq_ok_iff.mp h
        cases heq
      · obtain ⟨ps, hps, heq⟩ := map_eq_ok_iff.mp h
        exact .inr ⟨known, hknown, RequestPart.parameters.inj heq ▸ hps⟩

/-- The parameters of rules are sent in the query. -/
theorem location_of_rulesPart {a : Assembly} {method : Method} {handler : Option Handler}
    {query : List Parameter} (h : a.rulesPart method handler = .ok (.parameters query)) :
    ∀ p ∈ query, p.location = .query := by
  rcases rulesPart_eq_parameters h with rfl | ⟨known, -, hquery⟩
  · simp
  · exact Query.location_of_mem_parameters hquery

theorem rulesPart_eq_body {a : Assembly} {method : Method} {handler : Option Handler}
    {body : RequestBody} (h : a.rulesPart method handler = .ok (.body body)) :
    ∃ rules, Body.requestBody a.now rules = .ok body := by
  rw [rulesPart] at h
  split at h
  · cases Except.ok.inj h
  · cases Except.ok.inj h
  · next rules _ _ =>
      rw [RequestPart.ofRules] at h
      split at h
      · obtain ⟨made, hmade, heq⟩ := map_eq_ok_iff.mp h
        exact ⟨rules, RequestPart.body.inj heq ▸ hmade⟩
      · obtain ⟨ps, -, heq⟩ := map_eq_ok_iff.mp h
        cases heq

/-- The request of an operation: what the rules describe is a list of query parameters
or a body. -/
theorem addRequest_eq_ok {a : Assembly} {route : Route} {method : Method}
    {handler : Option Handler} {o requested : Operation}
    (h : a.addRequest route method handler o = .ok requested) :
    ∃ query body,
      (a.rulesPart method handler = .ok (.parameters query) ∧ body = o.requestBody ∨
        ∃ described, a.rulesPart method handler = .ok (.body described) ∧ query = [] ∧
          body = some described) ∧
      requested = { o with
        requestBody := body
        parameters :=
          requestParameters (Template.parameters route.uri ++ query) o.parameters } := by
  rw [addRequest] at h
  obtain ⟨part, hpart, h⟩ := bind_eq_ok_iff.mp h
  cases part with
  | parameters query =>
      refine ⟨query, o.requestBody, .inl ⟨hpart, rfl⟩, ?_⟩
      rw [requestParameters]
      change (if _ then _ else _) = _ at h
      split at h
      · next hempty => simpa [hempty] using (Except.ok.inj h).symm
      · next hempty => simpa [hempty] using (Except.ok.inj h).symm
  | body described =>
      refine ⟨[], some described, .inr ⟨described, hpart, rfl, rfl⟩, ?_⟩
      rw [requestParameters, List.append_nil]
      change (if _ then _ else _) = _ at h
      split at h
      · next hempty => simpa [hempty] using (Except.ok.inj h).symm
      · next hempty => simpa [hempty] using (Except.ok.inj h).symm

/-- The headers that every operation takes. -/
def headers (a : Assembly) : List Parameter :=
  a.settings.appended.headers.map fun entry => headerParameter entry.1 entry.2

theorem addConfigured_eq_ok {a : Assembly} {uri : String} {o configured : Operation}
    (h : a.addConfigured uri o = .ok configured) :
    ∃ responses,
      a.settings.appended.responses.foldlM (a.addAppended uri) (withDefault o.responses) =
        .ok responses ∧
      configured = { o with responses, parameters := o.parameters ++ a.headers } := by
  rw [addConfigured] at h
  obtain ⟨responses, hresponses, h⟩ := bind_eq_ok_iff.mp h
  exact ⟨responses, hresponses, (Except.ok.inj h).symm⟩

/-- The steps to an operation, from what is documented about its handler. -/
theorem operation_eq_ok {a : Assembly} {route : Route} {method : Method} {relative : String}
    {handler : Option Handler} {d : Documented}
    (h : a.operation route method relative handler = .ok d) :
    ∃ documented requested configured,
      Documented.ofHandler a route.uri handler = .ok documented ∧
      a.addRequest route method handler documented.operation = .ok requested ∧
      a.addConfigured route.uri requested = .ok configured ∧
      d = { documented with
        operation := a.tagged relative handler (a.secure route configured) } := by
  rw [operation] at h
  obtain ⟨documented, hdocumented, h⟩ := bind_eq_ok_iff.mp h
  obtain ⟨requested, hrequested, h⟩ := bind_eq_ok_iff.mp h
  obtain ⟨configured, hconfigured, h⟩ := bind_eq_ok_iff.mp h
  exact ⟨documented, requested, configured, hdocumented, hrequested, hconfigured,
    (Except.ok.inj h).symm⟩

theorem secure_eq (a : Assembly) (route : Route) (o : Operation) :
    a.secure route o = { o with
      security :=
        if a.settings.sources.security then Security.ofRoute? a.settings route.middlewares
        else o.security } := by
  rw [secure]
  split <;> rfl

theorem tagged_eq (a : Assembly) (relative : String) (handler : Option Handler)
    (o : Operation) :
    a.tagged relative handler o = { o with
      tags := if o.tags.isEmpty then (a.defaultTag? relative handler).toList else o.tags } := by
  rw [tagged]
  split <;> rfl

@[simp] theorem parameters_secure (a : Assembly) (route : Route) (o : Operation) :
    (a.secure route o).parameters = o.parameters := by
  rw [secure_eq]

@[simp] theorem parameters_tagged (a : Assembly) (relative : String)
    (handler : Option Handler) (o : Operation) :
    (a.tagged relative handler o).parameters = o.parameters := by
  rw [tagged_eq]

end Assembly

end ApiDoc
