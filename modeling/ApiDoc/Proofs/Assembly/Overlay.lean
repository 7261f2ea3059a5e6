import ApiDoc.Proofs.Assembly.Table
import ApiDoc.Proofs.Assembly.Tidy
import ApiDoc.Proofs.Document.Overlay
import ApiDoc.Proofs.Text
import Mathlib.Data.List.TakeWhile

/-!
# What the tag `Request` overlays

The entries of the tag are overlaid first, and five steps write into the operation after
them.  A part of the operation that none of them generates keeps the last value that was
overlaid.  Tags keep it unless they are empty.  Security is set anew for every route when
it is read from the middlewares, so an overlaid security is lost there even if no
middleware is a guard.
-/

namespace ApiDoc

/-! ## Blank comments -/

namespace DocBlock

theorem stripMarks_of_allBlank {line : List Char} (h : Text.allBlank line = true) :
    stripMarks line = [] := by
  have htrim : Text.trimStart line = [] := by
    rw [Text.trimStart, List.dropWhile_eq_nil_iff]
    exact List.all_eq_true.mp h
  rw [stripMarks, Text.trim, htrim]
  rfl

/-- A blank comment has no tags. -/
theorem tags_parse_of_allBlank {comment : String} (h : Text.allBlank comment.toList = true) :
    (parse comment).tags = [] := by
  have hlines : ∀ line ∈ (Text.lines comment.toList).map stripMarks, line = [] := by
    intro line hline
    obtain ⟨raw, hraw, rfl⟩ := List.mem_map.mp hline
    exact stripMarks_of_allBlank (List.all_eq_true.mpr fun c hc =>
      List.all_eq_true.mp h c (Text.subset_of_mem_lines hraw hc))
  have hscan : ∀ scan : Scan, scan.pending = none ∧ scan.tags = [] →
      (scan.readLine []).pending = none ∧ (scan.readLine []).tags = [] := by
    intro scan hscan
    rw [Scan.readLine, hscan.1]
    dsimp only [Text.trimStart, List.dropWhile]
    split
    · exact hscan
    · exact ⟨rfl, hscan.2⟩
  have hend : let scan := ((Text.lines comment.toList).map stripMarks).foldl Scan.readLine {}
      scan.pending = none ∧ scan.tags = [] := by
    refine List.foldlRecOn (motive := fun scan : Scan => scan.pending = none ∧ scan.tags = [])
      _ Scan.readLine ⟨rfl, rfl⟩ ?_
    intro scan hbefore line hline
    rw [hlines line hline]
    exact hscan scan hbefore
  rw [parse, Scan.allTags, hend.1, hend.2]
  rfl

end DocBlock

/-- What the entries of a tag say about a key at the top: the value of the key, unless a
later entry writes there. -/
def Overlays (entries : List (String × Json)) (key : String) (value : Json) : Prop :=
  ∃ before after, entries = before ++ (key, value) :: after ∧
    Json.segments key = [key] ∧
    ∀ later ∈ after, (Json.segments later.1).head? ≠ some key

namespace Documented

open Operation (Part)

variable {α : Type} {key : String} {get : Operation → α} {read : Option Json → Option α}
  {a : Assembly} {uri : String} {d next overlaid : Documented} {entries : List (String × Json)}
  {value : Json}

/-! ## Entries -/

theorem settled_overlay {entry : String × Json} (hentry : entry.2.Distinct)
    (h : d.overlay entry = .ok next) (hd : d.operation.Settled) : next.operation.Settled := by
  rcases overlay_eq_ok h with ⟨-, rfl⟩ | ⟨-, rfl⟩ | ⟨-, -, merged, hmerged, rfl⟩
  · exact ⟨⟨{ hd.clean.tidy with }, hd.clean.parameters⟩, hd.security⟩
  · exact hd
  · exact Operation.settled_of_mergeValue hd hentry hmerged

/-- An entry leaves alone what stands under another key. -/
theorem part_overlay_of_ne (hp : Part key get read) {entry : String × Json}
    (hentry : entry.2.Distinct) (hne : (Json.segments entry.1).head? ≠ some key)
    (h : d.overlay entry = .ok next) (hd : d.operation.Settled) :
    get next.operation = get d.operation := by
  rcases overlay_eq_ok h with ⟨hname, rfl⟩ | ⟨-, rfl⟩ | ⟨-, -, merged, hmerged, rfl⟩
  · refine hp.identifier (fun hkey => hne ?_) d.operation _
    rw [hname, hkey]
    decide
  · rfl
  · exact hp.of_mergeValue_of_ne hd hentry hne hmerged

/-- An entry gives its value to what stands under its key. -/
theorem part_overlay (hp : Part key get read) (hvalue : value.Distinct)
    (hkey : Json.segments key = [key]) (hid : key ≠ "operationId") (hpath : key ≠ "pathParams")
    (h : d.overlay (key, value) = .ok next) (hd : d.operation.Settled) :
    read (some value) = some (get next.operation) := by
  rcases overlay_eq_ok h with ⟨hname, -⟩ | ⟨hname, -⟩ | ⟨-, -, merged, hmerged, rfl⟩
  · exact absurd hname hid
  · exact absurd hname hpath
  · exact hp.of_mergeValue hd hvalue hkey hmerged

theorem operationId_overlay (h : d.overlay ("operationId", value) = .ok next) :
    next.operation.operationId = some value.plainText := by
  obtain rfl := Except.ok.inj h
  rfl

/-- What stands under a key after all entries stood there after the entry of the key. -/
theorem exists_overlay_of_overlays (hp : Part key get read)
    (hentries : ∀ entry ∈ entries, entry.2.Distinct) (hd : d.operation.Settled)
    (hrun : entries.foldlM overlay d = .ok overlaid) (h : Overlays entries key value) :
    ∃ before after : Documented, before.operation.Settled ∧
      before.overlay (key, value) = .ok after ∧ Json.segments key = [key] ∧ value.Distinct ∧
      get overlaid.operation = get after.operation := by
  obtain ⟨earlier, later, rfl, hkey, hlater⟩ := h
  obtain ⟨hearlier, hvalue, hrest⟩ : (∀ entry ∈ earlier, entry.2.Distinct) ∧
      value.Distinct ∧ ∀ entry ∈ later, entry.2.Distinct := by
    simpa [or_imp, forall_and] using hentries
  rw [List.foldlM_append] at hrun
  obtain ⟨before, hbefore, hrun⟩ := bind_eq_ok_iff.mp hrun
  rw [List.foldlM_cons] at hrun
  obtain ⟨after, hafter, hrun⟩ := bind_eq_ok_iff.mp hrun
  have hsettled : before.operation.Settled := by
    refine foldlM_keeps (p := fun d : Documented => d.operation.Settled) ?_ hbefore hd
    intro entry hentry s t hstep hs
    exact settled_overlay (hearlier entry hentry) hstep hs
  have hend : overlaid.operation.Settled ∧ get overlaid.operation = get after.operation := by
    refine foldlM_keeps
      (p := fun d : Documented => d.operation.Settled ∧ get d.operation = get after.operation)
      ?_ hrun ⟨settled_overlay hvalue hafter hsettled, rfl⟩
    intro entry hentry s t hstep hs
    have hsame : get t.operation = get s.operation :=
      part_overlay_of_ne hp (hrest entry hentry) (hlater entry hentry) hstep hs.1
    exact ⟨settled_overlay (hrest entry hentry) hstep hs.1, hsame.trans hs.2⟩
  exact ⟨before, after, hsettled, hafter, hkey, hvalue, hend.2⟩

/-! ## Comments -/

theorem settled_start (block : DocBlock) : (start block).operation.Settled where
  clean := clean_of_texts rfl rfl rfl rfl rfl
  security := by simp [start]

theorem part_responses (hp : Part key get read) {bodies : List String}
    (h : bodies.foldlM (addResponse a uri) overlaid = .ok d) :
    get d.operation = get overlaid.operation := by
  refine foldlM_keeps (p := fun d : Documented => get d.operation = get overlaid.operation) ?_ h rfl
  intro body _ before after hstep hbefore
  obtain ⟨responses, warnings, rfl⟩ := addResponse_eq_ok hstep
  rw [← hbefore]
  exact hp.generated before.operation _ _ responses

section Comment

variable {block : DocBlock} {comment body : String} {handler : Option Handler}

/-- A part is read from the value that a comment overlays under its key. -/
theorem read_of_overlays (hp : Part key get read)
    (hentries : ∀ entry ∈ entries, entry.2.Distinct)
    (hoverlaid : entries.foldlM overlay (start block) = .ok overlaid)
    (hresponses : ((block.tagsNamed "Response").filterMap (·.body)).foldlM
      (addResponse a uri) overlaid = .ok d)
    (hid : key ≠ "operationId") (hpath : key ≠ "pathParams") (h : Overlays entries key value) :
    read (some value) = some (get d.operation) := by
  obtain ⟨before, after, hsettled, hstep, hkey, hvalue, hend⟩ :=
    exists_overlay_of_overlays hp hentries (settled_start block) hoverlaid h
  rw [part_responses hp hresponses, hend]
  exact part_overlay hp hvalue hkey hid hpath hstep hsettled

theorem operationId_of_overlays (hentries : ∀ entry ∈ entries, entry.2.Distinct)
    (hoverlaid : entries.foldlM overlay (start block) = .ok overlaid)
    (hresponses : ((block.tagsNamed "Response").filterMap (·.body)).foldlM
      (addResponse a uri) overlaid = .ok d)
    (h : Overlays entries "operationId" value) :
    d.operation.operationId = some value.plainText := by
  obtain ⟨before, after, -, hstep, -, -, hend⟩ :=
    exists_overlay_of_overlays Operation.part_operationId hentries (settled_start block)
      hoverlaid h
  calc d.operation.operationId
    _ = overlaid.operation.operationId := part_responses Operation.part_operationId hresponses
    _ = after.operation.operationId := hend
    _ = some value.plainText := operationId_overlay hstep

/-- The comment of a handler that has a body for `Request` is read through. -/
theorem ofComment_of_firstBody? (hcomments : a.settings.sources.comments = true)
    (hcomment : handler.bind (·.comment) = some comment)
    (hbody : (DocBlock.parse comment).firstBody? "Request" = some body)
    (h : ofHandler a uri handler = .ok d) :
    ∃ entries overlaid, TagBody.parse body = .ok entries ∧
      entries.foldlM overlay (start (DocBlock.parse comment)) = .ok overlaid ∧
      (((DocBlock.parse comment).tagsNamed "Response").filterMap (·.body)).foldlM
        (addResponse a uri) overlaid = .ok d := by
  have hnot : Text.allBlank comment.toList = false := by
    by_contra hblank
    rw [DocBlock.firstBody?, DocBlock.firstTag?,
      DocBlock.tags_parse_of_allBlank (Bool.eq_true_of_not_eq_false hblank)] at hbody
    cases hbody
  have hread : ofComment a uri comment = .ok d := by
    rw [ofHandler, hcomment] at h
    simpa [Option.filter, hnot, hcomments] using h
  obtain ⟨entries, overlaid, hentries, hrest⟩ := ofComment_eq_ok hread
  rw [requestEntries, hbody] at hentries
  exact ⟨entries, overlaid, hentries, hrest⟩

end Comment

end Documented

namespace Assembly

open Operation (Part)

variable {a : Assembly} {route : Route} {method : Method} {relative : String}
  {handler : Option Handler} {d : Documented}

/-! ## Operations -/

/-- What the steps after the comment write: parameters, body and responses, security if
it is read from the middlewares, and tags if there are none. -/
theorem operation_eq_documented (h : a.operation route method relative handler = .ok d) :
    ∃ documented parameters requestBody responses,
      Documented.ofHandler a route.uri handler = .ok documented ∧
      d.operation = { documented.operation with
        parameters
        requestBody
        responses
        security :=
          if a.settings.sources.security then Security.ofRoute? a.settings route.middlewares
          else documented.operation.security
        tags :=
          if documented.operation.tags.isEmpty then (a.defaultTag? relative handler).toList
          else documented.operation.tags } := by
  obtain ⟨documented, requested, configured, hdocumented, hrequest, hconfigured, rfl⟩ :=
    operation_eq_ok h
  obtain ⟨query, body, -, rfl⟩ := addRequest_eq_ok hrequest
  obtain ⟨responses, -, rfl⟩ := addConfigured_eq_ok hconfigured
  rw [secure_eq, tagged_eq]
  exact ⟨documented, _, body, responses, hdocumented, rfl⟩

/-- An operation keeps what the entries of the tag `Request` say about its parts: all
that no step generates, tags unless they are empty, and security exactly when it is not
read from the middlewares or none is asked for. -/
structure Keeps (a : Assembly) (route : Route) (entries : List (String × Json))
    (o : Operation) : Prop where
  summary : ∀ value, Overlays entries "summary" value → value = .str o.summary
  description : ∀ value, Overlays entries "description" value → value = .str o.description
  operationId : ∀ value, Overlays entries "operationId" value →
    o.operationId = some value.plainText
  deprecated : ∀ value, Overlays entries "deprecated" value → value = .bool o.deprecated
  extensions : ∀ key value, key ∉ Operation.fieldNames → key ≠ "pathParams" →
    Overlays entries key value → Dict.find? o.extensions key = some value
  tags : ∀ value, Overlays entries "tags" value → value ≠ .arr [] →
    value = .arr (o.tags.map .str)
  security : ∀ value, Overlays entries "security" value →
    ∃ requirements, Operation.readSecurity value = some requirements ∧
      (Security.guard? a.settings route.middlewares = none →
        (o.security = requirements ↔
          a.settings.sources.security = false ∨ requirements = none))

/-- The comment of a handler is kept in an operation. -/
def KeepsComment (a : Assembly) (route : Route) (handler : Option Handler) (o : Operation) :
    Prop :=
  ∀ comment body, handler.bind (·.comment) = some comment →
    (DocBlock.parse comment).firstBody? "Request" = some body →
    ∃ entries, TagBody.parse body = .ok entries ∧ a.Keeps route entries o

theorem keeps_operation (hcomments : a.settings.sources.comments = true)
    (h : a.operation route method relative handler = .ok d) :
    a.KeepsComment route handler d.operation := by
  intro comment body hcomment hbody
  obtain ⟨documented, parameters, requestBody, responses, hdocumented, hd⟩ :=
    operation_eq_documented h
  obtain ⟨entries, overlaid, hentries, hoverlaid, hresponses⟩ :=
    Documented.ofComment_of_firstBody? hcomments hcomment hbody hdocumented
  have hdistinct := TagBody.forall_distinct_of_parse hentries
  have hread : ∀ {α : Type} {key : String} {get : Operation → α} {read value},
      Part key get read → key ≠ "operationId" → key ≠ "pathParams" →
      Overlays entries key value → read (some value) = some (get documented.operation) :=
    fun hp => Documented.read_of_overlays hp hdistinct hoverlaid hresponses
  refine ⟨entries, hentries, ?_⟩
  rw [hd]
  refine
    { summary := fun value hvalue => Json.eq_str_of_asStr? ?_
      description := fun value hvalue => Json.eq_str_of_asStr? ?_
      operationId := fun value hvalue => ?_
      deprecated := fun value hvalue => Json.eq_bool_of_asBool? ?_
      extensions := fun key value hfield hpath hvalue => ?_
      tags := fun value hvalue hsome => ?_
      security := fun value hvalue => ?_ }
  · exact hread Operation.part_summary (by decide) (by decide) hvalue
  · exact hread Operation.part_description (by decide) (by decide) hvalue
  · exact Documented.operationId_of_overlays hdistinct hoverlaid hresponses hvalue
  · exact hread Operation.part_deprecated (by decide) (by decide) hvalue
  · have hid : key ≠ "operationId" := fun heq => hfield (heq ▸ by decide)
    exact (Option.some.inj (hread (Operation.part_extension hfield) hid hpath hvalue)).symm
  · have htexts : value = .arr (documented.operation.tags.map .str) :=
      Json.eq_of_listOf?_asStr? (hread Operation.part_tags (by decide) (by decide) hvalue)
    cases htags : documented.operation.tags with
    | nil =>
        rw [htags] at htexts
        exact absurd htexts hsome
    | cons first rest => simpa [htags] using htexts
  · have hrequirements : Operation.readSecurity value = some documented.operation.security :=
      hread Operation.part_security (by decide) (by decide) hvalue
    refine ⟨documented.operation.security, hrequirements, fun hguard => ?_⟩
    have hroute : Security.ofRoute? a.settings route.middlewares = none := by
      rw [Security.ofRoute?, hguard, Option.map_none]
    cases hsecurity : a.settings.sources.security with
    | false => simp
    | true => simp [hroute, eq_comm]

/-- Changes of parameters keep a comment. -/
theorem KeepsComment.congr {o p : Operation} (hp : p = { o with parameters := p.parameters })
    (h : a.KeepsComment route handler o) : a.KeepsComment route handler p := by
  intro comment body hcomment hbody
  obtain ⟨entries, hentries, hkeeps⟩ := h comment body hcomment hbody
  rw [hp]
  exact ⟨entries, hentries, { hkeeps with }⟩

end Assembly

namespace Application

open Assembly

variable {app : Application} {a : Assembly} {filter : Option String} {document : Document}
  {warnings : List Warning}

/-- When comments are read, the operation made for each route that is kept keeps its
comment, and the operations of the document are these, up to changes of parameters. -/
theorem document_keeps_comments (hcomments : a.settings.sources.comments = true)
    (h : app.documentOf a filter = .ok (document, warnings)) :
    let base := basePrefix a.settings filter
    (∀ route ∈ app.routes, a.isDropped base route = false →
      ∀ method ∈ a.documentedMethods route, ∃ d,
        a.computed base app.resolve route method = .ok d ∧
        a.KeepsComment route (route.action.bind app.resolve) d.operation) ∧
    ∀ entry ∈ document.paths, ∀ item ∈ entry.2,
      ∃ route ∈ app.routes, a.isDropped base route = false ∧
        ∃ method ∈ a.documentedMethods route, ∃ d,
          a.computed base app.resolve route method = .ok d ∧
          item.2 = { d.operation with parameters := item.2.parameters } ∧
          a.KeepsComment route (route.action.bind app.resolve) item.2 := by
  intro base
  refine ⟨fun route hroute hkept method hmethod => ?_, ?_⟩
  · obtain ⟨schemas, draft, -, hdraft, -⟩ := documentUnder_eq_ok h
    obtain ⟨d, hd⟩ := exists_computed hdraft hroute (serves_iff.mpr ⟨hkept, rfl, hmethod⟩)
    exact ⟨d, hd, keeps_operation hcomments hd⟩
  · refine forAll_paths_documentUnder (p := fun _ o =>
      ∃ route ∈ app.routes, a.isDropped base route = false ∧
        ∃ method ∈ a.documentedMethods route, ∃ d,
          a.computed base app.resolve route method = .ok d ∧
          o = { d.operation with parameters := o.parameters } ∧
          a.KeepsComment route (route.action.bind app.resolve) o) ?_ ?_ h
    · rintro key d ⟨route, hroute, hkept, -, method, hmethod, hd⟩
      exact ⟨route, hroute, hkept, method, hmethod, d, hd, rfl, keeps_operation hcomments hd⟩
    · rintro key - overrides - - o ⟨route, hroute, hkept, method, hmethod, d, hd, ho, hkeeps⟩
      refine ⟨route, hroute, hkept, method, hmethod, d, hd, ?_, hkeeps.congr rfl⟩
      rw [PathChanges.changeOperation, ho]

/-- A summary and an extension of a tag are kept. -/
theorem document_keeps_comments_pets :
    let a : Assembly := { settings := {}, builders := {}, entities := {}, now := ⟨"", ""⟩ }
    let app : Application :=
      { routes := [{ uri := "/api/pets", methods := [.get], action := some "index" }]
        resolve := fun _ => some { comment := some "@Request(summary: Pets, x-owner: cats)" } }
    a.settings.sources.comments = true ∧
    ∃ document warnings o, app.documentOf a none = .ok (document, warnings) ∧
      document.paths.operation? "/pets" "get" = some o ∧
      o.summary = "Pets" ∧ Dict.find? o.extensions "x-owner" = some (.str "cats") := by
  intro a app
  obtain ⟨⟨document, warnings⟩, hmade, hsome⟩ : ∃ made, app.documentOf a none = .ok made ∧
      (made.1.paths.operation? "/pets" "get").isSome := by
    decide +kernel
  obtain ⟨o, ho⟩ := Option.isSome_iff_exists.mp hsome
  obtain ⟨item, hitem, hget⟩ := Option.bind_eq_some_iff.mp ho
  obtain ⟨-, hkeeps⟩ := document_keeps_comments (rfl : a.settings.sources.comments = true) hmade
  obtain ⟨route, hroute, -, -, -, -, -, -, hcomment⟩ :=
    hkeeps _ (Dict.mem_of_find? hitem) _ (Dict.mem_of_find? hget)
  obtain rfl := List.mem_singleton.mp hroute
  obtain ⟨entries, hentries, hkeep⟩ := hcomment _ "summary: Pets, x-owner: cats" rfl
    (by decide +kernel)
  have hparse : TagBody.parse "summary: Pets, x-owner: cats" =
      .ok [("summary", .str "Pets"), ("x-owner", .str "cats")] := rfl
  obtain rfl := Except.ok.inj (hparse.symm.trans hentries)
  have hsummary := hkeep.summary (.str "Pets")
    ⟨[], [("x-owner", .str "cats")], rfl, by decide +kernel, by decide +kernel⟩
  have howner := hkeep.extensions "x-owner" (.str "cats") (by decide) (by decide)
    ⟨[("summary", .str "Pets")], [], rfl, by decide +kernel, by simp⟩
  exact ⟨rfl, document, warnings, o, hmade, ho, (Json.str.inj hsummary).symm, howner⟩

/-- A route without middlewares loses the security that its comment asks for. -/
theorem not_keeps_security_pets :
    let a : Assembly := { settings := {}, builders := {}, entities := {}, now := ⟨"", ""⟩ }
    let body := "\x7b\"security\": [\x7b\"apiKey\": []\x7d]\x7d"
    let comment := "@Request(" ++ body ++ ")"
    let route : Route := { uri := "/api/pets", methods := [.get], action := some "index" }
    let app : Application :=
      { routes := [route], resolve := fun _ => some { comment := some comment } }
    a.settings.sources.comments = true ∧
    Security.guard? a.settings route.middlewares = none ∧
    (DocBlock.parse comment).firstBody? "Request" = some body ∧
    (∃ entries, TagBody.parse body = .ok entries ∧ ∃ value, Overlays entries "security" value ∧
      Operation.readSecurity value = some (some [[("apiKey", [])]])) ∧
    ∃ made, app.documentOf a none = .ok made ∧
      (made.1.paths.operation? "/pets" "get").map Operation.security = some none := by
  intro a body comment route app
  refine ⟨rfl, by decide +kernel, by decide +kernel, ?_, by decide +kernel⟩
  obtain ⟨entries, hentries, hkeys, hread⟩ : ∃ entries, TagBody.parse body = .ok entries ∧
      Dict.keys entries = ["security"] ∧
      (Dict.find? entries "security").bind Operation.readSecurity =
        some (some [[("apiKey", [])]]) := by
    decide +kernel
  obtain ⟨⟨key, value⟩, rfl, rfl⟩ := List.map_eq_singleton_iff.mp hkeys
  exact ⟨_, hentries, value, ⟨[], [], rfl, by decide +kernel, by simp⟩, hread⟩

end Application

end ApiDoc
