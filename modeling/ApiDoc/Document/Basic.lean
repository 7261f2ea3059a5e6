import ApiDoc.Schema.Basic

/-!
# OpenAPI documents

The parts of a document, from the operation of a route up to the document
itself.  Dictionaries have increasing keys; keys without a field of their own
are kept as extensions.
-/

namespace ApiDoc

/-- Where a parameter is sent. -/
inductive Location
  | path
  | query
  | header
  | cookie
  | body
deriving DecidableEq, Repr, Inhabited

namespace Location

def name : Location → String
  | .path => "path"
  | .query => "query"
  | .header => "header"
  | .cookie => "cookie"
  | .body => "body"

def ofName? (name : String) : Option Location :=
  match name with
  | "path" => some .path
  | "query" => some .query
  | "header" => some .header
  | "cookie" => some .cookie
  | "body" => some .body
  | _ => none

theorem ofName?_name (l : Location) : ofName? l.name = some l := by
  cases l <;> rfl

end Location

/-- A parameter of an operation. -/
structure Parameter where
  name : String
  location : Location
  required : Bool := false
  description : Option String := none
  schema : Schema := {}
  extensions : Dict Json := []
deriving Repr, Inhabited

/-- The content of a body in one media type. -/
structure MediaType where
  schema : Schema := {}
  extensions : Dict Json := []
deriving Repr, Inhabited

/-- The body of a request. -/
structure RequestBody where
  description : Option String := none
  required : Option Bool := none
  content : Dict MediaType := []
  extensions : Dict Json := []
deriving Repr, Inhabited

/-- One response of an operation. -/
structure Response where
  description : String := ""
  content : Option (Dict MediaType) := none
  extensions : Dict Json := []
deriving Repr, Inhabited

/-- The response with a JSON body of this schema. -/
def Response.withSchema (r : Response) (schema : Schema) : Response :=
  { r with content := some (Dict.insert (r.content.getD []) "application/json" { schema }) }

/-- A set of schemes that together admit a request, with their scopes. -/
abbrev SecurityRequirement := Dict (List String)

/-- What one method of a path does. -/
structure Operation where
  tags : List String := []
  summary : String := ""
  description : String := ""
  operationId : Option String := none
  deprecated : Bool := false
  parameters : List Parameter := []
  requestBody : Option RequestBody := none
  responses : Dict Response := []
  security : Option (List SecurityRequirement) := none
  extensions : Dict Json := []
deriving Repr, Inhabited

/-- The operations of one path, by method in lower case. -/
abbrev PathItem := Dict Operation

/-- The path items of a document, by path. -/
abbrev Paths := Dict PathItem

structure Info where
  title : String
  description : Option String := none
  version : String
deriving DecidableEq, Repr, Inhabited

structure Server where
  url : String
  description : Option String := none
deriving DecidableEq, Repr, Inhabited

/-- A declared tag. -/
structure TagInfo where
  name : String
  description : Option String := none
deriving DecidableEq, Repr, Inhabited

/-- One flow of an OAuth2 scheme. -/
structure OAuthFlow where
  authorizationUrl : Option String := none
  tokenUrl : Option String := none
  scopes : Dict String := []
deriving DecidableEq, Repr, Inhabited

/-- A way to authenticate. -/
structure SecurityScheme where
  type : String
  scheme : Option String := none
  bearerFormat : Option String := none
  flows : Option (Dict OAuthFlow) := none
deriving DecidableEq, Repr, Inhabited

/-- The shared parts of a document. -/
structure Components where
  schemas : Dict Schema := []
  securitySchemes : Dict SecurityScheme := []
deriving Repr, Inhabited

/-- A whole document. -/
structure Document where
  openapi : String
  info : Info
  servers : List Server := []
  tags : List TagInfo := []
  paths : Paths := []
  components : Components := {}
deriving Repr, Inhabited

end ApiDoc
