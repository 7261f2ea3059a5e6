import ApiDoc.Proofs.Assembly.Operation
import ApiDoc.Proofs.Assembly.Tidy
import ApiDoc.Proofs.Document.Exact

/-!
# The responses of an operation

Four steps write responses.  The entries of the tag `Request` are overlaid first; the tags
`Response` with a code follow in their order, and a later one takes the place of an earlier
one under its code; an operation without any gets a default; and the settings add theirs
under the codes that are left.  So a response that is documented or the default stays what
it is.
-/

namespace ApiDoc

namespace Documented

variable {a : Assembly} {uri : String} {d next overlaid : Documented}

/-! ## Responses of the tag `Request` -/

/-- Overlay one key of the tag `Request` on responses; it leaves them alone unless it is
theirs or leads into them. -/
def overlayResponses (responses : Dict Response) (entry : String × Json) :
    Option (Dict Response) :=
  match Json.segments entry.1 with
  | [] => some responses
  | first :: path =>
      if first = "responses" then
        Json.dictOf? Response.ofJson?
          (Json.setAt path (Json.ofDict Response.toJson responses) entry.2)
      else some responses

theorem overlayResponses_of_ne {entry : String × Json}
    (h : (Json.segments entry.1).head? ≠ some "responses") (responses : Dict Response) :
    overlayResponses responses entry = some responses := by
  rw [overlayResponses]
  split
  · rfl
  · next first path hsegments =>
      exact if_neg fun hfirst => h (by rw [hsegments, hfirst, List.head?_cons])

/-- The responses of an operation are overlaid as part of it. -/
theorem overlayResponses_of_mergeValue {o merged : Operation} {key : String} {value : Json}
    (ho : o.Exact) (h : o.mergeValue key value = .ok merged) :
    overlayResponses o.responses (key, value) = some merged.responses := by
  have hrow : .defaulted "responses" Operation.responses [] (Json.dictOf? Response.ofJson?)
      (Json.ofDict Response.toJson) ∈ Operation.table := by
    simp [Operation.table]
  have hwritten : Dict.find? (Json.written Operation.table o ++ o.extensions) "responses" =
      some (Json.ofDict Response.toJson o.responses) :=
    Json.find?_written_append (by decide) hrow ho.extensions o
  have hback : Json.dictOf? Response.ofJson? (Json.ofDict Response.toJson o.responses) =
      some o.responses :=
    ho.responses.dictOf?_ofDict fun _ => Response.ofJson?_toJson
  rw [Operation.mergeValue, ho.merged_toJson, Operation.toJson_eq_written, Json.setDotted] at h
  rw [overlayResponses]
  cases hsegments : Json.segments key with
  | nil => exact absurd hsegments (Json.segments_ne_nil key)
  | cons first path =>
      rw [hsegments, Json.setAt_obj] at h
      split at h
      · next read hread =>
          obtain rfl := Except.ok.inj h
          have hfound := (Operation.readFrom_of_ofJson? hread).responses
          rw [Record.defaulted?_named, Dict.find?_put] at hfound
          dsimp only
          split
          · next hfirst =>
              subst hfirst
              rwa [if_pos rfl, hwritten] at hfound
          · next hfirst =>
              rw [if_neg hfirst, hwritten] at hfound
              exact hback.symm.trans hfound
      · cases h

/-- One entry does to the responses what it does to the operation. -/
theorem overlay_responses {entry : String × Json} (hentry : entry.2.Distinct)
    (hd : d.operation.Exact) (h : d.overlay entry = .ok next) :
    next.operation.Exact ∧
      overlayResponses d.operation.responses entry = some next.operation.responses := by
  obtain ⟨key, value⟩ := entry
  rcases overlay_eq_ok h with ⟨rfl, rfl⟩ | ⟨rfl, rfl⟩ | ⟨-, -, merged, hmerged, rfl⟩
  · exact ⟨{ hd with }, overlayResponses_of_ne (by dsimp only; decide) _⟩
  · exact ⟨hd, overlayResponses_of_ne (by dsimp only; decide) _⟩
  · exact ⟨Operation.exact_of_mergeValue hentry hmerged, overlayResponses_of_mergeValue hd hmerged⟩

/-- The entries of the tag `Request` overlay the responses one after another. -/
theorem foldlM_overlay_responses {entries : List (String × Json)}
    (hentries : ∀ entry ∈ entries, entry.2.Distinct) (hd : d.operation.Exact)
    (hrun : entries.foldlM overlay d = .ok overlaid) :
    overlaid.operation.Exact ∧
      entries.foldlM overlayResponses d.operation.responses =
        some overlaid.operation.responses := by
  induction entries generalizing d with
  | nil =>
      obtain rfl := Except.ok.inj hrun
      exact ⟨hd, rfl⟩
  | cons entry rest ih =>
      rw [List.foldlM_cons] at hrun
      obtain ⟨next, hnext, hrest⟩ := bind_eq_ok_iff.mp hrun
      obtain ⟨hfirst, hothers⟩ := List.forall_mem_cons.mp hentries
      obtain ⟨hexact, hstep⟩ := overlay_responses hfirst hd hnext
      obtain ⟨hend, hresponses⟩ := ih hothers hexact hrest
      refine ⟨hend, ?_⟩
      rw [List.foldlM_cons, hstep]
      exact hresponses

/-! ## Responses of the tags `Response` -/

/-- The entries of a tag that gives its response a code. -/
structure CodedTag where
  code : String
  entries : List (String × Json)

/-- The code and the entries in the body of a tag, if there is a code. -/
def codedTag? (body : String) : Option CodedTag :=
  match TagBody.parse body with
  | .ok entries => (Dict.find? entries "code").map fun code => ⟨code.plainText, entries⟩
  | .error _ => none

theorem codedTag?_of_parse {body : String} {entries : List (String × Json)}
    (h : TagBody.parse body = .ok entries) :
    codedTag? body = (Dict.find? entries "code").map fun code => ⟨code.plainText, entries⟩ := by
  rw [codedTag?, h]

/-- The response that a tag describes, under its code. -/
def Describes (a : Assembly) (uri : String) (tag : CodedTag) (made : String × Response) : Prop :=
  made.1 = tag.code ∧ response a uri tag.entries = .ok made.2

/-- A tag without a code adds nothing, and one with a code its response. -/
theorem addResponse_responses {body : String} (h : addResponse a uri d body = .ok next) :
    (codedTag? body = none ∧ next.operation.responses = d.operation.responses) ∨
      ∃ tag made, codedTag? body = some tag ∧ Describes a uri tag made ∧
        next.operation.responses = Dict.insert d.operation.responses made.1 made.2 := by
  obtain ⟨entries, hentries, h⟩ := bind_eq_ok_iff.mp h
  rw [codedTag?_of_parse hentries]
  cases hcode : Dict.find? entries "code" with
  | none =>
      rw [hcode] at h
      obtain rfl := Except.ok.inj h
      exact .inl ⟨rfl, rfl⟩
  | some code =>
      rw [hcode] at h
      obtain ⟨made, hmade, h⟩ := bind_eq_ok_iff.mp h
      obtain rfl := Except.ok.inj h
      exact .inr ⟨⟨code.plainText, entries⟩, (code.plainText, made), rfl,
        ⟨rfl, hmade⟩, rfl⟩

/-- The responses of tags are inserted in their order. -/
theorem foldlM_addResponse_responses {bodies : List String}
    (hrun : bodies.foldlM (addResponse a uri) overlaid = .ok d) :
    ∃ made, List.Forall₂ (Describes a uri) (bodies.filterMap codedTag?) made ∧
      d.operation.responses = Dict.insertAll overlaid.operation.responses made := by
  induction bodies generalizing overlaid with
  | nil =>
      obtain rfl := Except.ok.inj hrun
      exact ⟨[], .nil, rfl⟩
  | cons body rest ih =>
      rw [List.foldlM_cons] at hrun
      obtain ⟨next, hnext, hrest⟩ := bind_eq_ok_iff.mp hrun
      obtain ⟨made, hmade, hresponses⟩ := ih hrest
      rcases addResponse_responses hnext with ⟨htag, hsame⟩ | ⟨tag, first, htag, hfirst, hinsert⟩
      · rw [hsame] at hresponses
        exact ⟨made, by rwa [List.filterMap_cons_none htag], hresponses⟩
      · rw [hinsert] at hresponses
        exact ⟨first :: made, by rw [List.filterMap_cons_some htag]; exact .cons hfirst hmade,
          hresponses⟩

section Describes

variable {tags : List CodedTag} {made : List (String × Response)}

theorem keys_of_describes (h : List.Forall₂ (Describes a uri) tags made) :
    Dict.keys made = tags.map (·.code) := by
  induction h with
  | nil => rfl
  | cons hfirst _ ih => exact List.cons_eq_cons.mpr ⟨hfirst.1, ih⟩

/-- The first tag with a code has its response first. -/
theorem find?_of_describes (h : List.Forall₂ (Describes a uri) tags made)
    {front rest : List CodedTag} {tag : CodedTag} (htags : tags = front ++ tag :: rest)
    (hfront : tag.code ∉ front.map (·.code)) :
    ∃ own, response a uri tag.entries = .ok own ∧ Dict.find? made tag.code = some own := by
  induction h generalizing front with
  | nil => cases front <;> cases htags
  | @cons first described tags made hfirst _ ih =>
      obtain ⟨hcode, hresponse⟩ := hfirst
      rw [Dict.find?, hcode]
      cases front with
      | nil =>
          obtain ⟨rfl, -⟩ := List.cons.inj htags
          exact ⟨described.2, hresponse, if_pos rfl⟩
      | cons other front =>
          obtain ⟨rfl, htail⟩ := List.cons.inj (htags.trans (List.cons_append ..))
          rw [List.map_cons, List.mem_cons, not_or] at hfront
          rw [if_neg (Ne.symm hfront.1)]
          exact ih htail hfront.2

/-- The last tag with a code has its response last. -/
theorem find?_reverse_of_describes (h : List.Forall₂ (Describes a uri) tags made)
    {before after : List CodedTag} {tag : CodedTag} (htags : tags = before ++ tag :: after)
    (hafter : tag.code ∉ after.map (·.code)) :
    ∃ own, response a uri tag.entries = .ok own ∧
      Dict.find? made.reverse tag.code = some own := by
  have hreverse : tags.reverse = after.reverse ++ tag :: before.reverse := by
    rw [htags, List.reverse_append, List.reverse_cons, List.append_assoc, List.singleton_append]
  refine find?_of_describes (List.forall₂_reverse_iff.mpr h) hreverse ?_
  rwa [List.map_reverse, List.mem_reverse]

end Describes

/-! ## Comments -/

/-- The comment of a handler, if comments are read and it is not blank. -/
def comment? (a : Assembly) (handler : Option Handler) : Option String :=
  if a.settings.sources.comments then
    (handler.bind (·.comment)).filter fun text => !Text.allBlank text.toList
  else none

theorem ofHandler_eq (a : Assembly) (uri : String) (handler : Option Handler) :
    ofHandler a uri handler = (comment? a handler).elim (.ok {}) (ofComment a uri) := by
  rw [ofHandler, comment?]
  cases (handler.bind (·.comment)).filter fun text => !Text.allBlank text.toList with
  | none => rw [ite_self]; rfl
  | some comment => dsimp only; split <;> rfl

/-- The responses that the tag `Request` of a comment gives; none without a comment. -/
def requestedResponses? (comment : Option String) : Option (Dict Response) :=
  match comment with
  | none => some []
  | some text =>
      match requestEntries (DocBlock.parse text) with
      | .ok entries => entries.foldlM overlayResponses []
      | .error _ => none

/-- The tags `Response` of a comment that have a code, in their order. -/
def responseTags (comment : Option String) : List CodedTag :=
  match comment with
  | none => []
  | some text =>
      (((DocBlock.parse text).tagsNamed "Response").filterMap (·.body)).filterMap codedTag?

/-- The documented responses are those of the tag `Request`, and those of the tags `Response`
inserted into them. -/
theorem ofHandler_responses {handler : Option Handler} (h : ofHandler a uri handler = .ok d) :
    ∃ requested made,
      requestedResponses? (comment? a handler) = some requested ∧ requested.Increasing ∧
      List.Forall₂ (Describes a uri) (responseTags (comment? a handler)) made ∧
      d.operation.responses = Dict.insertAll requested made := by
  rw [ofHandler_eq] at h
  cases hcomment : comment? a handler with
  | none =>
      rw [hcomment] at h
      obtain rfl := Except.ok.inj h
      exact ⟨[], [], rfl, .nil, .nil, rfl⟩
  | some comment =>
      rw [hcomment] at h
      obtain ⟨entries, overlaid, hentries, hoverlaid, htags⟩ := ofComment_eq_ok h
      obtain ⟨hexact, hrequested⟩ := foldlM_overlay_responses (distinct_of_requestEntries hentries)
        (d := start (DocBlock.parse comment)) { Operation.exact_empty with } hoverlaid
      obtain ⟨made, hmade, hresponses⟩ := foldlM_addResponse_responses htags
      refine ⟨overlaid.operation.responses, made, ?_, hexact.responses.increasing, hmade,
        hresponses⟩
      rw [requestedResponses?, hentries]
      exact hrequested

end Documented

namespace Assembly

open Documented (CodedTag Describes comment? requestedResponses? responseTags)

variable {a : Assembly} {uri : String}

/-! ## Configured responses -/

section Configured

variable {entries : List (String × AppendedResponse)} {responses filled : Dict Response}
  {code : String}

/-- A configured response is left out if its code is taken, and else added. -/
theorem addAppended_eq_ok {entry : String × AppendedResponse}
    (h : a.addAppended uri responses entry = .ok filled) :
    (∃ response, Dict.find? responses entry.1 = some response ∧ filled = responses) ∨
      Dict.find? responses entry.1 = none ∧ ∃ response,
        a.appendedResponse uri entry.2 = .ok response ∧
        filled = Dict.insert responses entry.1 response := by
  rw [addAppended, Dict.has] at h
  cases hfound : Dict.find? responses entry.1 with
  | some response =>
      rw [hfound] at h
      exact .inl ⟨response, rfl, (Except.ok.inj h).symm⟩
  | none =>
      rw [hfound] at h
      obtain ⟨response, hresponse, h⟩ := bind_eq_ok_iff.mp h
      exact .inr ⟨rfl, response, hresponse, (Except.ok.inj h).symm⟩

/-- What stands under a code stays there. -/
theorem find?_of_addAppended {entry : String × AppendedResponse} {response : Response}
    (h : a.addAppended uri responses entry = .ok filled)
    (hfound : Dict.find? responses code = some response) :
    Dict.find? filled code = some response := by
  rcases addAppended_eq_ok h with ⟨-, -, rfl⟩ | ⟨hfree, added, -, rfl⟩
  · exact hfound
  · rw [Dict.find?_insert, if_neg, hfound]
    rintro rfl
    cases hfree.symm.trans hfound

theorem find?_of_foldlM_addAppended {response : Response}
    (hrun : entries.foldlM (a.addAppended uri) responses = .ok filled)
    (hfound : Dict.find? responses code = some response) :
    Dict.find? filled code = some response :=
  foldlM_keeps (p := fun d : Dict Response => Dict.find? d code = some response)
    (fun _ _ _ _ hstep hbefore => find?_of_addAppended hstep hbefore) hrun hfound

/-- A code that is free gets the configured response, if there is one. -/
theorem find?_of_free (hrun : entries.foldlM (a.addAppended uri) responses = .ok filled)
    (hfree : Dict.find? responses code = none) :
    match Dict.find? entries code with
    | none => Dict.find? filled code = none
    | some entry => ∃ response, a.appendedResponse uri entry = .ok response ∧
        Dict.find? filled code = some response := by
  induction entries generalizing responses with
  | nil =>
      obtain rfl := Except.ok.inj hrun
      exact hfree
  | cons entry rest ih =>
      obtain ⟨key, value⟩ := entry
      rw [List.foldlM_cons] at hrun
      obtain ⟨next, hnext, hrest⟩ := bind_eq_ok_iff.mp hrun
      rw [Dict.find?]
      rcases addAppended_eq_ok hnext with ⟨response, htaken, rfl⟩ | ⟨-, response, hmade, rfl⟩
      · have hne : key ≠ code := by
          rintro rfl
          cases hfree.symm.trans htaken
        rw [if_neg hne]
        exact ih hrest hfree
      · by_cases hkey : key = code
        · rw [if_pos hkey]
          refine ⟨response, hmade, find?_of_foldlM_addAppended hrest ?_⟩
          rw [Dict.find?_insert, if_pos hkey]
        · rw [if_neg hkey]
          refine ih hrest ?_
          rw [Dict.find?_insert, if_neg hkey, hfree]

theorem mem_keys_foldlM_addAppended
    (hrun : entries.foldlM (a.addAppended uri) responses = .ok filled) :
    code ∈ Dict.keys filled ↔ code ∈ Dict.keys responses ∨ code ∈ Dict.keys entries := by
  rw [Dict.mem_keys_iff, Dict.mem_keys_iff, Dict.mem_keys_iff]
  cases hfound : Dict.find? responses code with
  | some response => simp [find?_of_foldlM_addAppended hrun hfound]
  | none =>
      have hfilled := find?_of_free hrun hfound
      cases hentry : Dict.find? entries code with
      | none =>
          rw [hentry] at hfilled
          simp [hfilled]
      | some entry =>
          rw [hentry] at hfilled
          obtain ⟨response, -, hresponse⟩ := hfilled
          simp [hresponse]

end Configured

/-! ## Operations -/

/-- The codes with a documented response, or that of the default if there is none. -/
def documentedCodes (requested : Dict Response) (tags : List CodedTag) : List String :=
  match Dict.keys requested ++ tags.map (·.code) with
  | [] => ["200"]
  | code :: rest => code :: rest

/-- Which response stands under which code. -/
structure Responds (a : Assembly) (uri : String) (requested : Dict Response)
    (tags : List CodedTag) (responses : Dict Response) : Prop where
  increasing : responses.Increasing
  codes : ∀ code, code ∈ Dict.keys responses ↔
    code ∈ documentedCodes requested tags ∨ code ∈ Dict.keys a.settings.appended.responses
  /-- The last tag with a code gives its response. -/
  tagged : ∀ before tag after, tags = before ++ tag :: after →
    tag.code ∉ after.map (·.code) →
      ∃ response, Documented.response a uri tag.entries = .ok response ∧
        Dict.find? responses tag.code = some response
  /-- Without a tag, the requested response of a code stays. -/
  kept : ∀ code response, Dict.find? requested code = some response →
    code ∉ tags.map (·.code) → Dict.find? responses code = some response
  default : requested = [] → tags = [] →
    Dict.find? responses "200" = some { description := "OK" }
  /-- The settings give what is neither documented nor the default. -/
  configured : ∀ code entry, code ∉ documentedCodes requested tags →
    Dict.find? a.settings.appended.responses code = some entry →
      ∃ response, a.appendedResponse uri entry = .ok response ∧
        Dict.find? responses code = some response

section Responds

variable {requested responses : Dict Response} {tags : List CodedTag}
  {made : List (String × Response)}

/-- Before the settings add theirs, the codes are the documented ones or that of the default. -/
theorem mem_keys_withDefault_iff (hmade : List.Forall₂ (Describes a uri) tags made)
    (code : String) :
    code ∈ Dict.keys (withDefault (Dict.insertAll requested made)) ↔
      code ∈ documentedCodes requested tags := by
  have hkeys : ∀ code, code ∈ Dict.keys (Dict.insertAll requested made) ↔
      code ∈ Dict.keys requested ++ tags.map (·.code) := by
    intro code
    rw [Dict.mem_keys_insertAll_iff, Documented.keys_of_describes hmade, List.mem_append, or_comm]
  rw [documentedCodes, withDefault]
  cases hcodes : Dict.keys requested ++ tags.map (·.code) with
  | nil =>
      have hnone : Dict.insertAll requested made = [] := by
        rw [← List.map_eq_nil_iff, List.eq_nil_iff_forall_not_mem]
        intro other hother
        rw [← Dict.keys, hkeys, hcodes] at hother
        cases hother
      rw [hnone]
      rfl
  | cons first rest =>
      have hsome : (Dict.insertAll requested made).isEmpty = false := by
        rw [List.isEmpty_eq_false_iff]
        intro hnone
        have hfirst := (hkeys first).mpr (hcodes ▸ List.mem_cons_self)
        rw [hnone] at hfirst
        cases hfirst
      rw [hsome, if_neg Bool.false_ne_true, hkeys, hcodes]

/-- A documented response is there before the settings add theirs. -/
theorem find?_withDefault {response : Response} {code : String}
    (h : Dict.find? (Dict.insertAll requested made) code = some response) :
    Dict.find? (withDefault (Dict.insertAll requested made)) code = some response := by
  rw [withDefault]
  split
  · next hempty =>
      rw [List.isEmpty_iff.mp hempty] at h
      cases h
  · exact h

theorem increasing_withDefault {d : Dict Response} (h : d.Increasing) :
    (withDefault d).Increasing := by
  rw [withDefault]
  split
  · exact List.pairwise_singleton _ _
  · exact h

theorem responds_of_foldlM (hrequested : requested.Increasing)
    (hmade : List.Forall₂ (Describes a uri) tags made)
    (hrun : a.settings.appended.responses.foldlM (a.addAppended uri)
      (withDefault (Dict.insertAll requested made)) = .ok responses) :
    a.Responds uri requested tags responses := by
  have hfind := Dict.find?_insertAll_reverse requested made
  refine
    { increasing := ?_
      codes := fun code => ?_
      tagged := fun before tag after htags hafter => ?_
      kept := fun code response hfound htags => ?_
      default := fun hrequested htags => ?_
      configured := fun code entry hfree hentry => ?_ }
  · refine foldlM_keeps ?_ hrun (increasing_withDefault (hrequested.insertAll made))
    intro entry _ before after hstep hbefore
    rcases addAppended_eq_ok hstep with ⟨-, -, rfl⟩ | ⟨-, response, -, rfl⟩
    · exact hbefore
    · exact hbefore.insert entry.1 response
  · rw [← mem_keys_withDefault_iff hmade, mem_keys_foldlM_addAppended hrun]
  · obtain ⟨response, hresponse, hlast⟩ :=
      Documented.find?_reverse_of_describes hmade htags hafter
    refine ⟨response, hresponse, find?_of_foldlM_addAppended hrun (find?_withDefault ?_)⟩
    rw [hfind, hlast, Option.some_or]
  · refine find?_of_foldlM_addAppended hrun (find?_withDefault ?_)
    have hnone : Dict.find? made.reverse code = none := by
      rwa [Dict.find?_eq_none_iff_not_mem_keys, Dict.keys, List.map_reverse, List.mem_reverse,
        ← Dict.keys, Documented.keys_of_describes hmade]
    rw [hfind, hnone, Option.none_or, hfound]
  · subst hrequested htags
    cases hmade
    exact find?_of_foldlM_addAppended hrun rfl
  · have hnone : Dict.find? (withDefault (Dict.insertAll requested made)) code = none := by
      rwa [Dict.find?_eq_none_iff_not_mem_keys, mem_keys_withDefault_iff hmade]
    have hfilled := find?_of_free hrun hnone
    rwa [hentry] at hfilled

end Responds

/-- The codes of an operation are the documented ones, or 200 if there is none, and those of the
settings.  A documented code has its documented response, that of the last tag if it has tags,
and the settings give the responses under the codes that are neither documented nor the
default. -/
theorem responds_operation {route : Route} {method : Method} {relative : String}
    {handler : Option Handler} {d : Documented}
    (h : a.operation route method relative handler = .ok d) :
    ∃ requested, requestedResponses? (comment? a handler) = some requested ∧
      a.Responds route.uri requested (responseTags (comment? a handler)) d.operation.responses := by
  obtain ⟨documented, withRequest, configured, hdocumented, hrequest, hconfigured, rfl⟩ :=
    operation_eq_ok h
  obtain ⟨requested, made, hrequested, hincreasing, hmade, hresponses⟩ :=
    Documented.ofHandler_responses hdocumented
  obtain ⟨query, body, -, rfl⟩ := addRequest_eq_ok hrequest
  obtain ⟨responses, hrun, rfl⟩ := addConfigured_eq_ok hconfigured
  rw [hresponses] at hrun
  refine ⟨requested, hrequested, ?_⟩
  rw [tagged_eq, secure_eq]
  exact responds_of_foldlM hincreasing hmade hrun

/-- A requested response, a code with two tags, and one configured response for a free code. -/
theorem responds_operation_pets :
    let settings : Settings :=
      { appended := { responses := [("404", { description := some "Missing" }),
          ("500", { description := some "Failed" })] } }
    let a : Assembly := { settings, builders := {}, entities := {}, now := ⟨"", ""⟩ }
    let route : Route := { uri := "/api/pets", methods := [.get] }
    let comment := "@Request(responses.200.description: Pets)\n" ++
      "@Response(code: 404, description: None)\n@Response(code: 404, description: Gone)"
    let handler : Handler := { comment := some comment }
    ∃ d, a.operation route .get "/pets" (some handler) = .ok d ∧
      (∀ code, code ∈ Dict.keys d.operation.responses ↔ code ∈ ["200", "404", "500"]) ∧
      (Dict.find? d.operation.responses "404").map Response.description = some "Gone" ∧
      Dict.find? d.operation.responses "500" = some { description := "Failed" } := by
  intro settings a route comment handler
  have hbuilt : (a.operation route .get "/pets" (some handler)).toOption.isSome = true := by
    decide +kernel
  obtain ⟨d, hd⟩ := Option.isSome_iff_exists.mp hbuilt
  replace hd := eq_ok_of_toOption hd
  obtain ⟨requested, hrequested, hresponds⟩ := responds_operation hd
  have hkeys : Dict.keys requested = ["200"] := by
    have hread :
        (requestedResponses? (comment? a (some handler))).map Dict.keys = some ["200"] := by
      decide +kernel
    rw [hrequested] at hread
    exact Option.some.inj hread
  have htags : (responseTags (comment? a (some handler))).map (fun tag =>
      (tag.code, (Documented.response a route.uri tag.entries).toOption.map Response.description)) =
        [("404", some "None"), ("404", some "Gone")] := by
    decide +kernel
  obtain ⟨first, rest, hsplit, hfirst, hrest⟩ := List.map_eq_cons_iff.mp htags
  obtain ⟨last, rfl, hlast⟩ := List.map_eq_singleton_iff.mp hrest
  have hcodes : documentedCodes requested (responseTags (comment? a (some handler))) =
      ["200", "404", "404"] := by
    rw [documentedCodes, hkeys, hsplit, List.map_cons, List.map_singleton,
      (Prod.mk.inj hfirst).1, (Prod.mk.inj hlast).1]
    rfl
  refine ⟨d, hd, fun code => ?_, ?_, ?_⟩
  · have hconfigured : Dict.keys a.settings.appended.responses = ["404", "500"] := rfl
    rw [hresponds.codes, hcodes, hconfigured]
    simp only [List.mem_cons, List.not_mem_nil, or_false]
    grind
  · obtain ⟨hcode, hdescription⟩ := Prod.mk.inj hlast
    obtain ⟨response, hresponse, hfound⟩ := hresponds.tagged [first] last [] hsplit (by simp)
    rw [hresponse] at hdescription
    rw [← hcode, hfound]
    exact hdescription
  · obtain ⟨response, hresponse, hfound⟩ :=
      hresponds.configured "500" { description := some "Failed" } (by rw [hcodes]; decide) rfl
    obtain rfl := Except.ok.inj hresponse
    exact hfound

end Assembly

end ApiDoc
