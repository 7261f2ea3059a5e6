import ApiDoc.Entity
import ApiDoc.Handler
import ApiDoc.Route
import ApiDoc.Source.FieldMarks
import ApiDoc.Source.File
import ApiDoc.Source.TypeText

/-!
# Schemas and handlers in source files

Every struct is a schema class, in the order of the files; modules are part of what
they stand in.  Every method of a type, except those of a trait, is a handler.
-/

namespace ApiDoc.Source

/-- A field as a schema shows it; one that is not written, or not as a field, is left
out. -/
def Field.classField? (f : Field) : Option ClassField :=
  let marks := FieldMarks.ofAttributes f.attributes
  match f.name with
  | none => none
  | some name =>
      if marks.isSkipped || marks.isFlattened then none
      else some {
        name := marks.renamed.getD name
        typeHint := some f.type.hint
        nullable := f.type.isOption
        comment := documentation f.attributes }

/-- A struct as a schema class. -/
def Struct.schemaClass (s : Struct) : SchemaClass :=
  { name := s.name
    isAbstract := s.isGeneric
    comment := documentation s.attributes
    fields := s.fields.filterMap Field.classField? }

mutual

/-- The schema classes of an item. -/
def Item.classes : Item → List SchemaClass
  | .struct s => [s.schemaClass]
  | .module items => classesOf items
  | _ => []

def classesOf : List Item → List SchemaClass
  | [] => []
  | item :: rest => item.classes ++ classesOf rest

end

/-- A handler under the action that names it. -/
def Method.handler (owner : String) (m : Method) : String × Handler :=
  (owner ++ "@" ++ m.name,
    { owner, method := m.name, comment := documentation m.attributes })

mutual

/-- The handlers of an item.  A type without a name has none. -/
def Item.handlers : Item → List (String × Handler)
  | .methods owner methods =>
      if owner.ownerName = "" then [] else methods.map (Method.handler owner.ownerName)
  | .module items => handlersOf items
  | _ => []

def handlersOf : List Item → List (String × Handler)
  | [] => []
  | item :: rest => item.handlers ++ handlersOf rest

end

/-- What is found in the source files of a directory. -/
structure Findings where
  classes : List SchemaClass := []
  /-- Handlers by the action that names them. -/
  handlers : Dict Handler := []
deriving Inhabited

namespace Findings

/-- What the items of all files say; of several handlers of one action the last one
counts. -/
def ofItems (items : List Item) : Findings :=
  { classes := classesOf items, handlers := Dict.ofList (handlersOf items) }

/-- A source of schemas has no models. -/
def entities (f : Findings) : Entities := { classes := f.classes }

/-- The handler of an action. -/
def resolve (f : Findings) : Resolver := fun action =>
  match Route.parseAction? action with
  | none => none
  | some (owner, method) => Dict.find? f.handlers (owner ++ "@" ++ method)

end Findings

end ApiDoc.Source
