import ApiDoc.Assembly.Operation

/-!
# The document of an application

Routes are documented in their order under the path that is left of their address
without the prefix.  The changes of path parameters are collected on the way and
applied to the finished paths.
-/

namespace ApiDoc

namespace Assembly

/-- Whether an address is the prefix or continues it with a new segment. -/
def underPrefix (uri base : String) : Bool :=
  match Text.dropHead? base.toList uri.toList with
  | none => false
  | some rest => rest.isEmpty || rest.head? = some '/'

/-- Whether a route is left out: by name, by address, or because it is not under the
prefix. -/
def isDropped (a : Assembly) (base : String) (route : Route) : Bool :=
  let ignored := a.settings.ignored.routes
  (match route.name with
    | some name => ignored.contains name
    | none => false) ||
    ignored.contains route.uri || (base ≠ "" && !underPrefix route.uri base)

/-- The address without the prefix. -/
def relativeUri (base uri : String) : String :=
  let rest := (Text.dropHead? base.toList uri.toList).getD uri.toList
  if rest.isEmpty then "/" else String.ofList rest

/-- The path of an address: marks of optional placeholders are left out. -/
def pathKey (relative : String) : String :=
  String.ofList (Text.replaceAll ['?', '\x7d'] ['\x7d'] relative.toList)

/-- The paths documented so far. -/
structure Draft where
  paths : Paths := []
  changes : PathChanges := []
  warnings : List Warning := []
deriving Inhabited

/-- The methods of a route that are documented. -/
def documentedMethods (a : Assembly) (route : Route) : List Method :=
  route.methods.filter fun m => !a.settings.ignoresMethod m.name

/-- Collect the changes of a path; the second of two different ones is dropped with
a warning. -/
def addChanges (path uri : String) (overrides : Option (List PathOverride)) (draft : Draft) :
    Draft :=
  match overrides with
  | none => draft
  | some overrides =>
      match draft.changes.register path overrides with
      | .ok changes => { draft with changes }
      | .error _ =>
          { draft with warnings := draft.warnings ++ [.repeatedPathChange path uri] }

/-- Document one method of a route in the item of its path. -/
def addMethod (a : Assembly) (route : Route) (relative : String) (handler : Option Handler)
    (state : PathItem × Draft) (method : Method) : Except Error (PathItem × Draft) := do
  let (item, draft) := state
  let d ← a.operation route method relative handler
  let draft := { draft with warnings := draft.warnings ++ d.warnings }
  return (Dict.insert item method.name d.operation,
    addChanges (pathKey relative) route.uri d.overrides draft)

/-- Document a route, unless it is left out. -/
def addRoute (a : Assembly) (base : String) (resolve : Resolver) (draft : Draft)
    (route : Route) : Except Error Draft :=
  if a.isDropped base route then .ok draft
  else do
    let relative := relativeUri base route.uri
    let path := pathKey relative
    let handler := route.action.bind resolve
    let item := (Dict.find? draft.paths path).getD []
    let (item, draft) ← (a.documentedMethods route).foldlM
      (a.addMethod route relative handler) (item, draft)
    return { draft with paths := Dict.insert draft.paths path item }

/-- The head of a document. -/
def info (s : Settings) : Info :=
  { title := s.title
    description := if s.description = "" then none else some s.description
    version := s.version }

/-- The document of the routes under a prefix, and what was said on the way. -/
def documentUnder (a : Assembly) (base : String) (resolve : Resolver) (routes : List Route) :
    Except Error (Document × List Warning) := do
  let schemas ← a.entities.schemas a.now a.builders
  let draft ← routes.foldlM (a.addRoute base resolve) {}
  let (paths, moved) := draft.changes.apply draft.paths
  let document : Document :=
    { openapi := "3.0.0"
      info := info a.settings
      servers := a.settings.documentServers
      tags := a.settings.tags
      paths
      components :=
        { schemas
          securitySchemes :=
            if a.settings.sources.security then Security.schemes a.settings else [] } }
  return (document, a.entities.warnings a.now a.builders ++ draft.warnings ++ moved)

/-- The prefix of the documented routes: the given one, else the configured one,
without slashes at its end. -/
def basePrefix (s : Settings) (filter : Option String) : String :=
  Text.onString (Text.dropEndWhile (· = '/')) (filter.getD s.basePath)

end Assembly

/-- What is known about an application. -/
structure Application where
  routes : List Route := []
  resolve : Resolver := fun _ => none
  /-- What each source knows. -/
  entities : List Entities := []

namespace Application

/-- What the document of an application is assembled from. -/
def assembly (app : Application) (settings : Settings) (now : Moment) :
    Except Error Assembly := do
  let builders ← Builders.ofNames settings.host settings.pageKinds
  return { settings, builders, now, entities := .discover settings.ignored.models app.entities }

/-- The document of an assembly under a prefix, or else under the configured one. -/
def documentOf (app : Application) (a : Assembly) (filter : Option String) :
    Except Error (Document × List Warning) :=
  a.documentUnder (Assembly.basePrefix a.settings filter) app.resolve app.routes

/-- The document of an application. -/
def document (app : Application) (settings : Settings) (now : Moment)
    (filter : Option String) : Except Error (Document × List Warning) := do
  app.documentOf (← app.assembly settings now) filter

end Application

end ApiDoc
