import ApiDoc.Error
import ApiDoc.Request.Body
import ApiDoc.Request.Query
import ApiDoc.Text.Casing

/-!
# Routes and their actions

A route answers some methods under a path.  Its action names the handler: a type
and a method, with any path in front of the type.
-/

namespace ApiDoc

/-- The methods of HTTP that a route can answer. -/
inductive Method
  | get
  | post
  | put
  | patch
  | delete
  | options
  | head
deriving DecidableEq, Repr, Inhabited

namespace Method

/-- The name in lower case, as path items have it. -/
def name : Method → String
  | .get => "get"
  | .post => "post"
  | .put => "put"
  | .patch => "patch"
  | .delete => "delete"
  | .options => "options"
  | .head => "head"

/-- Whether the rules of a request describe its body. -/
def hasBody : Method → Bool
  | .post | .put | .patch => true
  | _ => false

/-- The method with a name, in whatever case. -/
def ofName (name : String) : Except Error Method :=
  match Text.lower name with
  | "get" => .ok .get
  | "post" => .ok .post
  | "put" => .ok .put
  | "patch" => .ok .patch
  | "delete" => .ok .delete
  | "options" => .ok .options
  | "head" => .ok .head
  | other => .error (.unsupportedMethod other)

end Method

/-- What the rules of a request describe. -/
inductive RequestPart
  | parameters (parameters : List Parameter)
  | body (body : RequestBody)
deriving Repr, Inhabited

namespace RequestPart

/-- A body for the methods that have one, query parameters for the others. -/
def ofRules (now : Moment) (method : Method) (rules : List (String × Json)) :
    Except Error RequestPart :=
  if method.hasBody then (Body.requestBody now rules).map .body
  else (Query.parameters now rules).map .parameters

end RequestPart

/-- A route of the application. -/
structure Route where
  uri : String
  methods : List Method
  action : Option String := none
  middlewares : List String := []
  name : Option String := none
deriving DecidableEq, Repr, Inhabited

namespace Route

/-- A segment written as a colon and a name becomes a placeholder. -/
def normalizeSegment : List Char → List Char
  | ':' :: c :: name => '\x7b' :: c :: name ++ ['\x7d']
  | segment => segment

/-- One slash in front, and placeholders in braces. -/
def normalizeUri (uri : String) : String :=
  let path := (Text.trim uri.toList).dropWhile (· = '/')
  String.ofList
    ('/' :: Text.join ['/'] ((Text.splitOn '/' path).map normalizeSegment))

/-- Type and method of an action, written `Type@method` or `path::Type::method`;
nothing for closures and other texts. -/
def parseAction? (action : String) : Option (String × String) :=
  let text := Text.trim action.toList
  match (Text.cutFirst? '@' text).or (Text.cutLast? [':', ':'] text) with
  | none => none
  | some (path, method) =>
      let owner := Text.afterLast (fun c => c = '\\' || c = ':') path
      if owner.isEmpty || method.isEmpty || owner = "Closure".toList then none
      else some (String.ofList owner, String.ofList method)

end Route

end ApiDoc
