import ApiDoc.Assembly.Documented
import ApiDoc.Request.Template
import ApiDoc.Route
import ApiDoc.Security

/-!
# The operation of a route

An operation starts from its documentation.  It gets the parameters of its path
and the parameters or the body that its rules describe, then what the settings add
to every operation, its security, and a tag if it has none.
-/

namespace ApiDoc.Assembly

/-- Whether two parameters are the same: name and place agree. -/
def sameParameter (p q : Parameter) : Bool :=
  p.name = q.name && p.location = q.location

/-- The generated parameters, and after them those documented ones that are not
there yet. -/
def addDocumented (generated documented : List Parameter) : List Parameter :=
  documented.foldl
    (fun ps p => if ps.any (sameParameter · p) then ps else ps ++ [p]) generated

/-- What the rules of a handler describe, if it has any. -/
def rulesPart (a : Assembly) (method : Method) (handler : Option Handler) :
    Except Error RequestPart :=
  match handler.map (·.rules) with
  | none | some [] => .ok (.parameters [])
  | some rules => RequestPart.ofRules a.now method rules

/-- Parameters of the path, and the parameters or the body of the rules. -/
def addRequest (a : Assembly) (route : Route) (method : Method) (handler : Option Handler)
    (o : Operation) : Except Error Operation := do
  let path := Template.parameters route.uri
  let (generated, o) ← match ← a.rulesPart method handler with
    | .parameters query => .ok (path ++ query, o)
    | .body body => .ok (path, { o with requestBody := some body })
  if generated.isEmpty then return o
  else return { o with parameters := addDocumented generated o.parameters }

/-- A configured response. -/
def appendedResponse (a : Assembly) (uri : String) (r : AppendedResponse) :
    Except Error Response := do
  let plain : Response := { description := r.description.getD "" }
  match r.reference with
  | none => return plain
  | some reference => return plain.withSchema (← Reference.resolve a.builders reference uri)

/-- Add a configured response, unless its code has one. -/
def addAppended (a : Assembly) (uri : String) (responses : Dict Response)
    (entry : String × AppendedResponse) : Except Error (Dict Response) :=
  if Dict.has responses entry.1 then .ok responses
  else do return Dict.insert responses entry.1 (← a.appendedResponse uri entry.2)

/-- A configured header. -/
def headerParameter (name : String) (h : AppendedHeader) : Parameter :=
  { name
    location := .header
    required := h.required
    description := h.description
    schema := { type := some h.type, default := h.sample }
    extensions :=
      match h.sample with
      | some value => [("example", value)]
      | none => [] }

/-- The response of an operation without any. -/
def withDefault (responses : Dict Response) : Dict Response :=
  if responses.isEmpty then [("200", { description := "OK" })] else responses

/-- Add what the settings give to every operation. -/
def addConfigured (a : Assembly) (uri : String) (o : Operation) : Except Error Operation := do
  let responses ← a.settings.appended.responses.foldlM (a.addAppended uri)
    (withDefault o.responses)
  return { o with
    responses
    parameters :=
      o.parameters ++
        a.settings.appended.headers.map fun (name, h) => headerParameter name h }

/-- The first segment of a path that is not empty. -/
def prefixTag? (relative : String) : Option String :=
  ((Text.splitOn '/' relative.toList).find? (!·.isEmpty)).map String.ofList

/-- Put a space before every capital letter but the first character. -/
def spaced (name : List Char) : List Char :=
  match name with
  | [] => []
  | first :: rest =>
      first :: rest.flatMap fun c => if Text.isUppercase c then [' ', c] else [c]

/-- The words of the name of a handler type, without the word for its kind. -/
def handlerTag? (owner : String) : Option String :=
  let words := Text.replaceAll "Controller".toList [] (spaced owner.toList)
  let tag := String.ofList (Text.trim words)
  if tag = "" then none else some tag

/-- The tag of an operation that has none. -/
def defaultTag? (a : Assembly) (relative : String) (handler : Option Handler) :
    Option String :=
  match a.settings.tagging with
  | .byPrefix => prefixTag? relative
  | .byHandler => handler.bind fun h => handlerTag? h.owner
  | .untagged => none

/-- Set the security that the middlewares of the route ask for. -/
def secure (a : Assembly) (route : Route) (o : Operation) : Operation :=
  if a.settings.sources.security then
    { o with security := Security.ofRoute? a.settings route.middlewares }
  else o

/-- Tag an operation that has no tags. -/
def tagged (a : Assembly) (relative : String) (handler : Option Handler) (o : Operation) :
    Operation :=
  if o.tags.isEmpty then { o with tags := (a.defaultTag? relative handler).toList } else o

/-- The operation of one method of a route, with the documented changes of its path
and the warnings of its comment. -/
def operation (a : Assembly) (route : Route) (method : Method) (relative : String)
    (handler : Option Handler) : Except Error Documented := do
  let d ← Documented.ofHandler a route.uri handler
  let o ← a.addRequest route method handler d.operation
  let o ← a.addConfigured route.uri o
  return { d with operation := a.tagged relative handler (a.secure route o) }

end ApiDoc.Assembly
