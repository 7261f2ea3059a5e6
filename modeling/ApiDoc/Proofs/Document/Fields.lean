import ApiDoc.Proofs.Document.Read
import ApiDoc.Proofs.Json.Field

/-!
# The fields of a document

Every part of a document but its schemas is a record with a table of fields: it is written as
the table, and perhaps extensions behind it, and it is read from an object if each of its
parts is what the field finds there.
-/

namespace ApiDoc

open Json (Row)

/-! ## Parts with extensions -/

namespace Parameter

/-- The fields, in the order in which they are written. -/
def table : List (Row Parameter) :=
  [.required "name" name Json.asStr? .str,
    .required "in" location Location.ofJson? fun l => .str l.name,
    .defaulted "required" Parameter.required false Json.asBool? .bool,
    .optional "description" description (Json.orNull? Json.asStr?) .str,
    .skipping "schema" schema Schema.isEmpty {} Schema.ofJson? Schema.toJson]

theorem toJson_eq_written (p : Parameter) :
    p.toJson = .obj (Json.written table p ++ p.extensions) := by
  simp [toJson, Json.written, table, schemaMember]

theorem ofJson?_eq_some_iff {j : Json} {p : Parameter} :
    ofJson? j = some p ↔ ∃ members, j = .obj members ∧ Json.Holds table extensions members p := by
  constructor
  · intro h
    obtain ⟨members, hmembers, h⟩ := Option.bind_eq_some_iff.mp h
    obtain rfl := Json.eq_obj_of_asObj? hmembers
    obtain ⟨name, hname, h⟩ := Option.bind_eq_some_iff.mp h
    obtain ⟨location, hlocation, h⟩ := Option.bind_eq_some_iff.mp h
    obtain ⟨required, hrequired, h⟩ := Option.bind_eq_some_iff.mp h
    obtain ⟨description, hdescription, h⟩ := Option.bind_eq_some_iff.mp h
    obtain ⟨schema, hschema, h⟩ := Option.bind_eq_some_iff.mp h
    obtain rfl := Option.some.inj h
    refine ⟨members, rfl, ?_, rfl⟩
    simp only [table, List.forall_mem_cons, Row.found_required, Row.found_defaulted,
      Row.found_optional, Row.found_skipping]
    exact ⟨hname, hlocation, hrequired, hdescription, hschema, List.forall_mem_nil _⟩
  · rintro ⟨members, rfl, hparts, hextensions⟩
    simp only [table, List.forall_mem_cons, Row.found_required, Row.found_defaulted,
      Row.found_optional, Row.found_skipping] at hparts
    obtain ⟨hname, hlocation, hrequired, hdescription, hschema, -⟩ := hparts
    refine Option.bind_eq_some_iff.mpr ⟨_, hname, ?_⟩
    refine Option.bind_eq_some_iff.mpr ⟨_, hlocation, ?_⟩
    refine Option.bind_eq_some_iff.mpr ⟨_, hrequired, ?_⟩
    refine Option.bind_eq_some_iff.mpr ⟨_, hdescription, ?_⟩
    refine Option.bind_eq_some_iff.mpr ⟨_, hschema, ?_⟩
    exact congrArg some (congrArg (fun e => { p with extensions := e }) hextensions.symm)

end Parameter

namespace MediaType

def table : List (Row MediaType) :=
  [.skipping "schema" schema Schema.isEmpty {} Schema.ofJson? Schema.toJson]

theorem toJson_eq_written (m : MediaType) :
    m.toJson = .obj (Json.written table m ++ m.extensions) := by
  simp [toJson, Json.written, table, Parameter.schemaMember]

theorem ofJson?_eq_some_iff {j : Json} {m : MediaType} :
    ofJson? j = some m ↔ ∃ members, j = .obj members ∧ Json.Holds table extensions members m := by
  constructor
  · intro h
    obtain ⟨members, hmembers, h⟩ := Option.bind_eq_some_iff.mp h
    obtain rfl := Json.eq_obj_of_asObj? hmembers
    obtain ⟨schema, hschema, h⟩ := Option.bind_eq_some_iff.mp h
    obtain rfl := Option.some.inj h
    refine ⟨members, rfl, ?_, rfl⟩
    simp only [table, List.forall_mem_cons, Row.found_skipping]
    exact ⟨hschema, List.forall_mem_nil _⟩
  · rintro ⟨members, rfl, hparts, hextensions⟩
    simp only [table, List.forall_mem_cons, Row.found_skipping] at hparts
    obtain ⟨hschema, -⟩ := hparts
    refine Option.bind_eq_some_iff.mpr ⟨_, hschema, ?_⟩
    exact congrArg some (congrArg (fun e => { m with extensions := e }) hextensions.symm)

end MediaType

namespace RequestBody

def table : List (Row RequestBody) :=
  [.optional "description" description (Json.orNull? Json.asStr?) .str,
    .optional "required" RequestBody.required (Json.orNull? Json.asBool?) .bool,
    .defaulted "content" content [] (Json.dictOf? MediaType.ofJson?)
      (Json.ofDict MediaType.toJson)]

theorem toJson_eq_written (b : RequestBody) :
    b.toJson = .obj (Json.written table b ++ b.extensions) := by
  simp [toJson, Json.written, table]

theorem ofJson?_eq_some_iff {j : Json} {b : RequestBody} :
    ofJson? j = some b ↔ ∃ members, j = .obj members ∧ Json.Holds table extensions members b := by
  constructor
  · intro h
    obtain ⟨members, hmembers, h⟩ := Option.bind_eq_some_iff.mp h
    obtain rfl := Json.eq_obj_of_asObj? hmembers
    obtain ⟨description, hdescription, h⟩ := Option.bind_eq_some_iff.mp h
    obtain ⟨required, hrequired, h⟩ := Option.bind_eq_some_iff.mp h
    obtain ⟨content, hcontent, h⟩ := Option.bind_eq_some_iff.mp h
    obtain rfl := Option.some.inj h
    refine ⟨members, rfl, ?_, rfl⟩
    simp only [table, List.forall_mem_cons, Row.found_defaulted, Row.found_optional]
    exact ⟨hdescription, hrequired, hcontent, List.forall_mem_nil _⟩
  · rintro ⟨members, rfl, hparts, hextensions⟩
    simp only [table, List.forall_mem_cons, Row.found_defaulted, Row.found_optional] at hparts
    obtain ⟨hdescription, hrequired, hcontent, -⟩ := hparts
    refine Option.bind_eq_some_iff.mpr ⟨_, hdescription, ?_⟩
    refine Option.bind_eq_some_iff.mpr ⟨_, hrequired, ?_⟩
    refine Option.bind_eq_some_iff.mpr ⟨_, hcontent, ?_⟩
    exact congrArg some (congrArg (fun e => { b with extensions := e }) hextensions.symm)

end RequestBody

namespace Response

def table : List (Row Response) :=
  [.defaulted "description" description "" Json.asStr? .str,
    .optional "content" content (Json.orNull? (Json.dictOf? MediaType.ofJson?))
      (Json.ofDict MediaType.toJson)]

theorem toJson_eq_written (r : Response) :
    r.toJson = .obj (Json.written table r ++ r.extensions) := by
  simp [toJson, Json.written, table]

theorem ofJson?_eq_some_iff {j : Json} {r : Response} :
    ofJson? j = some r ↔ ∃ members, j = .obj members ∧ Json.Holds table extensions members r := by
  constructor
  · intro h
    obtain ⟨members, hmembers, h⟩ := Option.bind_eq_some_iff.mp h
    obtain rfl := Json.eq_obj_of_asObj? hmembers
    obtain ⟨description, hdescription, h⟩ := Option.bind_eq_some_iff.mp h
    obtain ⟨content, hcontent, h⟩ := Option.bind_eq_some_iff.mp h
    obtain rfl := Option.some.inj h
    refine ⟨members, rfl, ?_, rfl⟩
    simp only [table, List.forall_mem_cons, Row.found_defaulted, Row.found_optional]
    exact ⟨hdescription, hcontent, List.forall_mem_nil _⟩
  · rintro ⟨members, rfl, hparts, hextensions⟩
    simp only [table, List.forall_mem_cons, Row.found_defaulted, Row.found_optional] at hparts
    obtain ⟨hdescription, hcontent, -⟩ := hparts
    refine Option.bind_eq_some_iff.mpr ⟨_, hdescription, ?_⟩
    refine Option.bind_eq_some_iff.mpr ⟨_, hcontent, ?_⟩
    exact congrArg some (congrArg (fun e => { r with extensions := e }) hextensions.symm)

end Response

namespace Operation

def table : List (Row Operation) :=
  [.list "tags" tags Json.asStr? .str,
    .defaulted "summary" summary "" Json.asStr? .str,
    .defaulted "description" description "" Json.asStr? .str,
    .optional "operationId" operationId (Json.orNull? Json.asStr?) .str,
    .defaulted "deprecated" deprecated false Json.asBool? .bool,
    .list "parameters" parameters Parameter.ofJson? Parameter.toJson,
    .optional "requestBody" requestBody (Json.orNull? RequestBody.ofJson?) RequestBody.toJson,
    .defaulted "responses" responses [] (Json.dictOf? Response.ofJson?)
      (Json.ofDict Response.toJson),
    .optional "security" security (Json.orNull? (Json.listOf? SecurityRequirement.ofJson?))
      fun rs => .arr (rs.map SecurityRequirement.toJson)]

theorem toJson_eq_written (o : Operation) :
    o.toJson = .obj (Json.written table o ++ o.extensions) := by
  simp [toJson, Json.written, table]

theorem ofJson?_eq_some_iff {j : Json} {o : Operation} :
    ofJson? j = some o ↔ ∃ members, j = .obj members ∧ Json.Holds table extensions members o := by
  constructor
  · intro h
    obtain ⟨members, hmembers, -⟩ := Option.bind_eq_some_iff.mp h
    obtain rfl := Json.eq_obj_of_asObj? hmembers
    have hread := readFrom_of_ofJson? h
    refine ⟨members, rfl, ?_, hread.extensions⟩
    simp only [table, List.forall_mem_cons, Row.found_defaulted, Row.found_optional,
      Row.found_list]
    exact ⟨hread.tags, hread.summary, hread.description, hread.operationId, hread.deprecated,
      hread.parameters, hread.requestBody, hread.responses, hread.security,
      List.forall_mem_nil _⟩
  · rintro ⟨members, rfl, hparts, hextensions⟩
    simp only [table, List.forall_mem_cons, Row.found_defaulted, Row.found_optional,
      Row.found_list] at hparts
    obtain ⟨htags, hsummary, hdescription, hoperationId, hdeprecated, hparameters,
      hbody, hresponses, hsecurity, -⟩ := hparts
    refine Option.bind_eq_some_iff.mpr ⟨_, htags, ?_⟩
    refine Option.bind_eq_some_iff.mpr ⟨_, hsummary, ?_⟩
    refine Option.bind_eq_some_iff.mpr ⟨_, hdescription, ?_⟩
    refine Option.bind_eq_some_iff.mpr ⟨_, hoperationId, ?_⟩
    refine Option.bind_eq_some_iff.mpr ⟨_, hdeprecated, ?_⟩
    refine Option.bind_eq_some_iff.mpr ⟨_, hparameters, ?_⟩
    refine Option.bind_eq_some_iff.mpr ⟨_, hbody, ?_⟩
    refine Option.bind_eq_some_iff.mpr ⟨_, hresponses, ?_⟩
    refine Option.bind_eq_some_iff.mpr ⟨_, hsecurity, ?_⟩
    exact congrArg some (congrArg (fun e => { o with extensions := e }) hextensions.symm)

end Operation

/-! ## Parts without extensions -/

namespace Info

def table : List (Row Info) :=
  [.required "title" title Json.asStr? .str,
    .optional "description" description (Json.orNull? Json.asStr?) .str,
    .required "version" version Json.asStr? .str]

theorem toJson_eq_written (i : Info) : i.toJson = .obj (Json.written table i) := by
  simp [toJson, Json.written, table]

theorem ofJson?_obj {members : List (String × Json)} {i : Info}
    (h : ∀ f ∈ table, f.found members = some (f.part i)) : ofJson? (.obj members) = some i := by
  simp only [table, List.forall_mem_cons, Row.found_required, Row.found_optional] at h
  obtain ⟨htitle, hdescription, hversion, -⟩ := h
  refine Option.bind_eq_some_iff.mpr ⟨_, htitle, ?_⟩
  refine Option.bind_eq_some_iff.mpr ⟨_, hdescription, ?_⟩
  exact Option.bind_eq_some_iff.mpr ⟨_, hversion, rfl⟩

end Info

namespace Server

def table : List (Row Server) :=
  [.required "url" url Json.asStr? .str,
    .optional "description" description (Json.orNull? Json.asStr?) .str]

theorem toJson_eq_written (s : Server) : s.toJson = .obj (Json.written table s) := by
  simp [toJson, Json.written, table]

theorem ofJson?_obj {members : List (String × Json)} {s : Server}
    (h : ∀ f ∈ table, f.found members = some (f.part s)) : ofJson? (.obj members) = some s := by
  simp only [table, List.forall_mem_cons, Row.found_required, Row.found_optional] at h
  obtain ⟨hurl, hdescription, -⟩ := h
  refine Option.bind_eq_some_iff.mpr ⟨_, hurl, ?_⟩
  exact Option.bind_eq_some_iff.mpr ⟨_, hdescription, rfl⟩

end Server

namespace TagInfo

def table : List (Row TagInfo) :=
  [.required "name" name Json.asStr? .str,
    .optional "description" description (Json.orNull? Json.asStr?) .str]

theorem toJson_eq_written (t : TagInfo) : t.toJson = .obj (Json.written table t) := by
  simp [toJson, Json.written, table]

theorem ofJson?_obj {members : List (String × Json)} {t : TagInfo}
    (h : ∀ f ∈ table, f.found members = some (f.part t)) : ofJson? (.obj members) = some t := by
  simp only [table, List.forall_mem_cons, Row.found_required, Row.found_optional] at h
  obtain ⟨hname, hdescription, -⟩ := h
  refine Option.bind_eq_some_iff.mpr ⟨_, hname, ?_⟩
  exact Option.bind_eq_some_iff.mpr ⟨_, hdescription, rfl⟩

end TagInfo

namespace OAuthFlow

def table : List (Row OAuthFlow) :=
  [.optional "authorizationUrl" authorizationUrl (Json.orNull? Json.asStr?) .str,
    .optional "tokenUrl" tokenUrl (Json.orNull? Json.asStr?) .str,
    .required "scopes" scopes (Json.dictOf? Json.asStr?) (Json.ofDict .str)]

theorem toJson_eq_written (f : OAuthFlow) : f.toJson = .obj (Json.written table f) := by
  simp [toJson, Json.written, table]

theorem ofJson?_obj {members : List (String × Json)} {flow : OAuthFlow}
    (h : ∀ f ∈ table, f.found members = some (f.part flow)) :
    ofJson? (.obj members) = some flow := by
  simp only [table, List.forall_mem_cons, Row.found_required, Row.found_optional] at h
  obtain ⟨hauthorizationUrl, htokenUrl, hscopes, -⟩ := h
  refine Option.bind_eq_some_iff.mpr ⟨_, hauthorizationUrl, ?_⟩
  refine Option.bind_eq_some_iff.mpr ⟨_, htokenUrl, ?_⟩
  exact Option.bind_eq_some_iff.mpr ⟨_, hscopes, rfl⟩

end OAuthFlow

namespace SecurityScheme

def table : List (Row SecurityScheme) :=
  [.required "type" type Json.asStr? .str,
    .optional "scheme" scheme (Json.orNull? Json.asStr?) .str,
    .optional "bearerFormat" bearerFormat (Json.orNull? Json.asStr?) .str,
    .optional "flows" flows (Json.orNull? (Json.dictOf? OAuthFlow.ofJson?))
      (Json.ofDict OAuthFlow.toJson)]

theorem toJson_eq_written (s : SecurityScheme) : s.toJson = .obj (Json.written table s) := by
  simp [toJson, Json.written, table]

theorem ofJson?_obj {members : List (String × Json)} {s : SecurityScheme}
    (h : ∀ f ∈ table, f.found members = some (f.part s)) : ofJson? (.obj members) = some s := by
  simp only [table, List.forall_mem_cons, Row.found_required, Row.found_optional] at h
  obtain ⟨htype, hscheme, hbearerFormat, hflows, -⟩ := h
  refine Option.bind_eq_some_iff.mpr ⟨_, htype, ?_⟩
  refine Option.bind_eq_some_iff.mpr ⟨_, hscheme, ?_⟩
  refine Option.bind_eq_some_iff.mpr ⟨_, hbearerFormat, ?_⟩
  exact Option.bind_eq_some_iff.mpr ⟨_, hflows, rfl⟩

end SecurityScheme

namespace Components

def table : List (Row Components) :=
  [.defaulted "schemas" schemas [] (Json.dictOf? Schema.ofJson?) (Json.ofDict Schema.toJson),
    .skipping "securitySchemes" securitySchemes List.isEmpty []
      (Json.dictOf? SecurityScheme.ofJson?) (Json.ofDict SecurityScheme.toJson)]

theorem toJson_eq_written (c : Components) : c.toJson = .obj (Json.written table c) := by
  simp [toJson, Json.written, table]

theorem ofJson?_obj {members : List (String × Json)} {c : Components}
    (h : ∀ f ∈ table, f.found members = some (f.part c)) : ofJson? (.obj members) = some c := by
  simp only [table, List.forall_mem_cons, Row.found_defaulted, Row.found_skipping] at h
  obtain ⟨hschemas, hsecuritySchemes, -⟩ := h
  refine Option.bind_eq_some_iff.mpr ⟨_, hschemas, ?_⟩
  exact Option.bind_eq_some_iff.mpr ⟨_, hsecuritySchemes, rfl⟩

end Components

namespace Document

def table : List (Row Document) :=
  [.required "openapi" openapi Json.asStr? .str,
    .required "info" info Info.ofJson? Info.toJson,
    .list "servers" servers Server.ofJson? Server.toJson,
    .list "tags" tags TagInfo.ofJson? TagInfo.toJson,
    .required "paths" paths Paths.ofJson? Paths.toJson,
    .defaulted "components" components {} Components.ofJson? Components.toJson]

theorem toJson_eq_written (d : Document) : d.toJson = .obj (Json.written table d) := by
  simp [toJson, Json.written, table]

theorem ofJson?_obj {members : List (String × Json)} {d : Document}
    (h : ∀ f ∈ table, f.found members = some (f.part d)) : ofJson? (.obj members) = some d := by
  simp only [table, List.forall_mem_cons, Row.found_required, Row.found_defaulted,
    Row.found_list] at h
  obtain ⟨hopenapi, hinfo, hservers, htags, hpaths, hcomponents, -⟩ := h
  refine Option.bind_eq_some_iff.mpr ⟨_, hopenapi, ?_⟩
  refine Option.bind_eq_some_iff.mpr ⟨_, hinfo, ?_⟩
  refine Option.bind_eq_some_iff.mpr ⟨_, hservers, ?_⟩
  refine Option.bind_eq_some_iff.mpr ⟨_, htags, ?_⟩
  refine Option.bind_eq_some_iff.mpr ⟨_, hpaths, ?_⟩
  exact Option.bind_eq_some_iff.mpr ⟨_, hcomponents, rfl⟩

end Document

end ApiDoc
