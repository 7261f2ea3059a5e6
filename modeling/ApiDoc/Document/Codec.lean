import ApiDoc.Document.Basic
import ApiDoc.Error
import ApiDoc.Json.Dotted
import ApiDoc.Schema.Codec

/-!
# Documents as JSON

Every part is written with its fields in a fixed order, then its extensions,
and read back from an object.  Parts without extensions may also be given as the
plain list of their values.  `Operation.mergeValue` overlays one value at a
dotted path by going through JSON and back.
-/

namespace ApiDoc

/-- A location is given by its name, also as the only key of an object, with `null`. -/
def Location.ofJson? : Json → Option Location
  | .str name | .obj [(name, .null)] => ofName? name
  | _ => none

namespace Parameter

def fieldNames : List String := ["name", "in", "required", "description", "schema"]

/-- The member of a schema, left out when the schema is empty. -/
def schemaMember (schema : Schema) : List (String × Json) :=
  if schema.isEmpty then [] else [("schema", schema.toJson)]

def toJson (p : Parameter) : Json :=
  .obj ([("name", .str p.name), ("in", .str p.location.name), ("required", .bool p.required)] ++
    Json.optionalMember "description" .str p.description ++ schemaMember p.schema ++
    p.extensions)

def ofJson? (j : Json) : Option Parameter := do
  let members ← j.asObj?
  let r := Record.named members
  return {
    name := ← r.required? "name" Json.asStr?
    location := ← r.required? "in" Location.ofJson?
    required := ← r.defaulted? "required" false Json.asBool?
    description := ← r.optional? "description" (Json.orNull? Json.asStr?)
    schema := ← r.defaulted? "schema" {} Schema.ofJson?
    extensions := Json.others fieldNames members }

end Parameter

namespace MediaType

def toJson (m : MediaType) : Json :=
  .obj (Parameter.schemaMember m.schema ++ m.extensions)

def ofJson? (j : Json) : Option MediaType := do
  let members ← j.asObj?
  return {
    schema := ← (Record.named members).defaulted? "schema" {} Schema.ofJson?
    extensions := Json.others ["schema"] members }

end MediaType

namespace RequestBody

def fieldNames : List String := ["description", "required", "content"]

def toJson (b : RequestBody) : Json :=
  .obj (Json.optionalMember "description" .str b.description ++
    Json.optionalMember "required" .bool b.required ++
    [("content", Json.ofDict MediaType.toJson b.content)] ++ b.extensions)

def ofJson? (j : Json) : Option RequestBody := do
  let members ← j.asObj?
  let r := Record.named members
  return {
    description := ← r.optional? "description" (Json.orNull? Json.asStr?)
    required := ← r.optional? "required" (Json.orNull? Json.asBool?)
    content := ← r.defaulted? "content" [] (Json.dictOf? MediaType.ofJson?)
    extensions := Json.others fieldNames members }

end RequestBody

namespace Response

def fieldNames : List String := ["description", "content"]

def toJson (r : Response) : Json :=
  .obj ([("description", .str r.description)] ++
    Json.optionalMember "content" (Json.ofDict MediaType.toJson) r.content ++ r.extensions)

def ofJson? (j : Json) : Option Response := do
  let members ← j.asObj?
  let r := Record.named members
  return {
    description := ← r.defaulted? "description" "" Json.asStr?
    content := ← r.optional? "content" (Json.orNull? (Json.dictOf? MediaType.ofJson?))
    extensions := Json.others fieldNames members }

end Response

namespace SecurityRequirement

def toJson (r : SecurityRequirement) : Json :=
  Json.ofDict (fun scopes => .arr (scopes.map .str)) r

def ofJson? (j : Json) : Option SecurityRequirement :=
  Json.dictOf? (Json.listOf? Json.asStr?) j

end SecurityRequirement

namespace Operation

def fieldNames : List String :=
  ["tags", "summary", "description", "operationId", "deprecated", "parameters", "requestBody",
    "responses", "security"]

def toJson (o : Operation) : Json :=
  .obj (Json.listMember "tags" .str o.tags ++
    [("summary", .str o.summary), ("description", .str o.description)] ++
    Json.optionalMember "operationId" .str o.operationId ++
    [("deprecated", .bool o.deprecated)] ++
    Json.listMember "parameters" Parameter.toJson o.parameters ++
    Json.optionalMember "requestBody" RequestBody.toJson o.requestBody ++
    [("responses", Json.ofDict Response.toJson o.responses)] ++
    Json.optionalMember "security" (fun rs => .arr (rs.map SecurityRequirement.toJson))
      o.security ++
    o.extensions)

def ofJson? (j : Json) : Option Operation := do
  let members ← j.asObj?
  let r := Record.named members
  return {
    tags := ← r.defaulted? "tags" [] (Json.listOf? Json.asStr?)
    summary := ← r.defaulted? "summary" "" Json.asStr?
    description := ← r.defaulted? "description" "" Json.asStr?
    operationId := ← r.optional? "operationId" (Json.orNull? Json.asStr?)
    deprecated := ← r.defaulted? "deprecated" false Json.asBool?
    parameters := ← r.defaulted? "parameters" [] (Json.listOf? Parameter.ofJson?)
    requestBody := ← r.optional? "requestBody" (Json.orNull? RequestBody.ofJson?)
    responses := ← r.defaulted? "responses" [] (Json.dictOf? Response.ofJson?)
    security := ←
      r.optional? "security" (Json.orNull? (Json.listOf? SecurityRequirement.ofJson?))
    extensions := Json.others fieldNames members }

/-- Overlay a value at a dotted path; a value that does not fit the place is an
annotation error. -/
def mergeValue (o : Operation) (key : String) (value : Json) : Except Error Operation :=
  match ofJson? (Json.setDotted o.toJson.merged key value) with
  | some o => .ok o
  | none => .error (.badTag key .misfit)

end Operation

namespace PathItem

def toJson (item : PathItem) : Json :=
  Json.ofDict Operation.toJson item

def ofJson? (j : Json) : Option PathItem :=
  Json.dictOf? Operation.ofJson? j

end PathItem

namespace Paths

def toJson (paths : Paths) : Json :=
  Json.ofDict PathItem.toJson paths

def ofJson? (j : Json) : Option Paths :=
  Json.dictOf? PathItem.ofJson? j

end Paths

namespace Info

def toJson (i : Info) : Json :=
  .obj ([("title", .str i.title)] ++ Json.optionalMember "description" .str i.description ++
    [("version", .str i.version)])

def ofJson? (j : Json) : Option Info := do
  let r ← j.record? ["title", "description", "version"]
  return {
    title := ← r.required? "title" Json.asStr?
    description := ← r.optional? "description" (Json.orNull? Json.asStr?)
    version := ← r.required? "version" Json.asStr? }

end Info

namespace Server

def toJson (s : Server) : Json :=
  .obj ([("url", .str s.url)] ++ Json.optionalMember "description" .str s.description)

def ofJson? (j : Json) : Option Server := do
  let r ← j.record? ["url", "description"]
  return {
    url := ← r.required? "url" Json.asStr?
    description := ← r.optional? "description" (Json.orNull? Json.asStr?) }

end Server

namespace TagInfo

def toJson (t : TagInfo) : Json :=
  .obj ([("name", .str t.name)] ++ Json.optionalMember "description" .str t.description)

def ofJson? (j : Json) : Option TagInfo := do
  let r ← j.record? ["name", "description"]
  return {
    name := ← r.required? "name" Json.asStr?
    description := ← r.optional? "description" (Json.orNull? Json.asStr?) }

end TagInfo

namespace OAuthFlow

def toJson (f : OAuthFlow) : Json :=
  .obj (Json.optionalMember "authorizationUrl" .str f.authorizationUrl ++
    Json.optionalMember "tokenUrl" .str f.tokenUrl ++ [("scopes", Json.ofDict .str f.scopes)])

def ofJson? (j : Json) : Option OAuthFlow := do
  let r ← j.record? ["authorizationUrl", "tokenUrl", "scopes"]
  return {
    authorizationUrl := ← r.optional? "authorizationUrl" (Json.orNull? Json.asStr?)
    tokenUrl := ← r.optional? "tokenUrl" (Json.orNull? Json.asStr?)
    scopes := ← r.required? "scopes" (Json.dictOf? Json.asStr?) }

end OAuthFlow

namespace SecurityScheme

def toJson (s : SecurityScheme) : Json :=
  .obj ([("type", .str s.type)] ++ Json.optionalMember "scheme" .str s.scheme ++
    Json.optionalMember "bearerFormat" .str s.bearerFormat ++
    Json.optionalMember "flows" (Json.ofDict OAuthFlow.toJson) s.flows)

def ofJson? (j : Json) : Option SecurityScheme := do
  let r ← j.record? ["type", "scheme", "bearerFormat", "flows"]
  return {
    type := ← r.required? "type" Json.asStr?
    scheme := ← r.optional? "scheme" (Json.orNull? Json.asStr?)
    bearerFormat := ← r.optional? "bearerFormat" (Json.orNull? Json.asStr?)
    flows := ← r.optional? "flows" (Json.orNull? (Json.dictOf? OAuthFlow.ofJson?)) }

end SecurityScheme

namespace Components

def toJson (c : Components) : Json :=
  .obj ([("schemas", Json.ofDict Schema.toJson c.schemas)] ++
    (if c.securitySchemes.isEmpty then []
      else [("securitySchemes", Json.ofDict SecurityScheme.toJson c.securitySchemes)]))

def ofJson? (j : Json) : Option Components := do
  let r ← j.record? ["schemas", "securitySchemes"]
  return {
    schemas := ← r.defaulted? "schemas" [] (Json.dictOf? Schema.ofJson?)
    securitySchemes := ←
      r.defaulted? "securitySchemes" [] (Json.dictOf? SecurityScheme.ofJson?) }

end Components

namespace Document

def fieldNames : List String := ["openapi", "info", "servers", "tags", "paths", "components"]

def toJson (d : Document) : Json :=
  .obj ([("openapi", .str d.openapi), ("info", d.info.toJson)] ++
    Json.listMember "servers" Server.toJson d.servers ++
    Json.listMember "tags" TagInfo.toJson d.tags ++
    [("paths", Paths.toJson d.paths), ("components", d.components.toJson)])

def ofJson? (j : Json) : Option Document := do
  let r ← j.record? fieldNames
  return {
    openapi := ← r.required? "openapi" Json.asStr?
    info := ← r.required? "info" Info.ofJson?
    servers := ← r.defaulted? "servers" [] (Json.listOf? Server.ofJson?)
    tags := ← r.defaulted? "tags" [] (Json.listOf? TagInfo.ofJson?)
    paths := ← r.required? "paths" Paths.ofJson?
    components := ← r.defaulted? "components" {} Components.ofJson? }

end Document

end ApiDoc
