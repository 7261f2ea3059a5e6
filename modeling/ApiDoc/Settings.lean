import ApiDoc.Document.Basic
import ApiDoc.Error

/-!
# Settings

What a user can choose about a document: its head, the prefix of the documented
routes, the ways to authenticate, and what every operation gets or loses.  Every
choice has a default.
-/

namespace ApiDoc

/-- A server as it is configured. -/
inductive ServerEntry
  | url (url : String)
  | detailed (url description : Option String)
deriving DecidableEq, Repr, Inhabited

/-- How an operation without tags gets one. -/
inductive Tagging
  /-- From the first segment of its path. -/
  | byPrefix
  /-- From the name of its handler type. -/
  | byHandler
  | untagged
deriving DecidableEq, Repr, Inhabited

/-- A response that every operation gets under a code it does not have. -/
structure AppendedResponse where
  description : Option String := none
  reference : Option String := none
deriving DecidableEq, Repr, Inhabited

/-- A header that every operation takes. -/
structure AppendedHeader where
  type : String := "string"
  sample : Option Json := none
  description : Option String := none
  required : Bool := false
deriving Repr, Inhabited

/-- What every operation gets. -/
structure Appended where
  responses : Dict AppendedResponse := []
  headers : Dict AppendedHeader := []
deriving Repr, Inhabited

/-- What is left out of the document. -/
structure Ignored where
  methods : List String := ["head", "options"]
  /-- Names or addresses of routes. -/
  routes : List String := []
  /-- Names of models; a star stands for all. -/
  models : List String := []
deriving DecidableEq, Repr, Inhabited

/-- Which sources of facts are used. -/
structure Sources where
  comments : Bool := true
  security : Bool := true
deriving DecidableEq, Repr, Inhabited

/-- The settings of a document. -/
structure Settings where
  title : String := "Application API Documentation"
  description : String := "Documentation for the Application API"
  version : String := "1.0.0"
  host : String := ""
  /-- The prefix of the documented routes, which paths are written without. -/
  basePath : String := "/api"
  servers : List ServerEntry := []
  /-- The directory of the sources that hold schema classes. -/
  schemaDirectory : Option String := none
  tags : List TagInfo := []
  tagging : Tagging := .byPrefix
  sources : Sources := {}
  /-- The flow of each authentication definition. -/
  flows : Dict String := [("bearerAuth", "http")]
  /-- The description of each OAuth2 scope. -/
  scopes : Dict String := []
  /-- The middlewares that mark a route as secured. -/
  guards : List String := ["auth:api", "auth:sanctum"]
  appended : Appended :=
    { responses :=
        [("401", { description := some "(Unauthorized) Invalid or missing Access Token" })] }
  ignored : Ignored := {}
  /-- The kind of page behind each code. -/
  pageKinds : Dict String := [("P", "paginate"), ("SP", "simple_paginate")]
deriving Repr, Inhabited

namespace Settings

/-- The authentication definitions, with the flows that each allows. -/
def allowedFlows : Dict (List String) :=
  [("OAuth2", ["password", "application", "implicit", "authorizationCode"]),
    ("bearerAuth", ["http"])]

/-- A configured flow must be one that its definition allows. -/
def checkFlow (definition flow : String) : Except Error Unit :=
  match Dict.find? allowedFlows definition with
  | none => .error (.invalidDefinition definition (Dict.keys allowedFlows))
  | some flows =>
      if flows.contains flow then .ok () else .error (.invalidFlow definition flow flows)

/-- Check all flows; the first wrong one is the error. -/
def validate (s : Settings) : Except Error Unit :=
  s.flows.forM fun (definition, flow) => checkFlow definition flow

/-- A configured server, numbered from one; an entry without address is none. -/
def server? (s : Settings) (number : Nat) (entry : ServerEntry) : Option Server :=
  let fallback := s.title ++ " Server #" ++ toString number
  match entry with
  | .url url => some { url, description := some fallback }
  | .detailed url description =>
      (url.filter (· ≠ "")).map fun url =>
        { url, description := some ((description.filter (· ≠ "")).getD fallback) }

/-- The servers of the document: the configured ones, else the host. -/
def documentServers (s : Settings) : List Server :=
  let servers := (s.servers.zipIdx 1).filterMap fun (entry, number) => s.server? number entry
  if servers.isEmpty && s.host ≠ "" then
    [{ url := s.host, description := some (s.title ++ " Main Server") }]
  else servers

/-- Whether operations of a method are left out; the case of letters does not
count. -/
def ignoresMethod (s : Settings) (method : String) : Bool :=
  s.ignored.methods.any fun m => m.toLower = method.toLower

end Settings

end ApiDoc
