import ApiDoc.Document.Basic
import ApiDoc.Error
import ApiDoc.Request.Template
import ApiDoc.Text.Casing

/-!
# Changes of path parameters

A handler may rename and retype the parameters of its path by position.  The
changes of all routes are collected first, since every method of a path shares
its template, and applied to the finished document.
-/

namespace ApiDoc

/-- The new name, type and other keys of one path parameter. -/
abbrev PathOverride := List (String × Json)

/-- The overrides of each path, in increasing order of the paths. -/
abbrev PathChanges := Dict (List PathOverride)

namespace PathOverride

/-- The new name, if one is given. -/
def name? (change : PathOverride) : Option String :=
  (Dict.find? change "name").bind Json.asStr?

/-- The keys that have a meaning of their own. -/
def fieldNames : List String := ["type", "name", "required", "description", "in"]

/-- The parameter after a change; keys without a meaning become extensions. -/
def apply (change : PathOverride) (p : Parameter) : Parameter :=
  let text := fun key => (Dict.find? change key).bind Json.asStr?
  { p with
    name := (text "name").getD p.name
    required := ((Dict.find? change "required").bind Json.asBool?).getD p.required
    description := (text "description").or p.description
    schema := { p.schema with type := (text "type").or p.schema.type }
    extensions :=
      Dict.insertAll p.extensions
        (change.filter fun (key, _) => !fieldNames.contains key) }

/-- Change the path parameters of an operation by position. -/
def applyAll : List PathOverride → List Parameter → List Parameter
  | _, [] => []
  | [], ps => ps
  | change :: changes, p :: ps =>
      if p.location = .path then apply change p :: applyAll changes ps
      else p :: applyAll (change :: changes) ps

/-- The overrides in the value of an annotation: the objects of a list, or one
object. -/
def ofJson : Json → List PathOverride
  | .arr entries => entries.filterMap Json.asObj?
  | .obj single => [single]
  | _ => []

/-- Equality of two lists of overrides. -/
def same (xs ys : List PathOverride) : Bool :=
  Json.sameItems (xs.map .obj) (ys.map .obj)

end PathOverride

namespace PathChanges

/-- Record the overrides of a path.  Different ones for the same path are
refused, and the first ones stay. -/
def register (changes : PathChanges) (uri : String) (overrides : List PathOverride) :
    Except Error PathChanges :=
  match Dict.find? changes uri with
  | some first =>
      if PathOverride.same first overrides then .ok changes
      else .error (.repeatedPathChange uri)
  | none => .ok (Dict.insert changes uri overrides)

/-- The path after its overrides. -/
def renamed (uri : String) (overrides : List PathOverride) : String :=
  Template.rename uri (overrides.map PathOverride.name?)

/-- Change the parameters of all operations of a path. -/
def changeItem (overrides : List PathOverride) (item : PathItem) : PathItem :=
  Dict.mapValues
    (fun o => { o with parameters := PathOverride.applyAll overrides o.parameters }) item

/-- Move one operation to another path, unless its method is documented there. -/
def moveOperation (uri target : String) (state : PathItem × List Warning)
    (entry : String × Operation) : PathItem × List Warning :=
  if Dict.has state.1 entry.1 then
    (state.1, state.2 ++ [.droppedOperation (Text.upper entry.1) target uri])
  else (Dict.insert state.1 entry.1 entry.2, state.2)

/-- Apply the overrides of one path. -/
def applyOne (state : Paths × List Warning) (change : String × List PathOverride) :
    Paths × List Warning :=
  let (paths, warnings) := state
  let (uri, overrides) := change
  match Dict.find? paths uri with
  | none => state
  | some item =>
      let rest := Dict.erase paths uri
      let target := renamed uri overrides
      let (merged, warnings) :=
        (changeItem overrides item).foldl (moveOperation uri target)
          ((Dict.find? rest target).getD [], warnings)
      (Dict.insert rest target merged, warnings)

/-- Apply all changes, in increasing order of the paths. -/
def apply (changes : PathChanges) (paths : Paths) : Paths × List Warning :=
  changes.foldl applyOne (paths, [])

end PathChanges

end ApiDoc
