import ApiDoc.Component.Model
import ApiDoc.Component.SchemaClass

/-!
# The schemas of a document

The catalog holds the models and classes of all sources that get a schema.  A
class takes the place of a model with its name.
-/

namespace ApiDoc.Entities

/-- The concrete entities of all sources, without ignored models; a star ignores
all models. -/
def discover (ignored : List String) (sources : List Entities) : Entities :=
  { models :=
      if ignored.contains "*" then []
      else (sources.flatMap (·.models)).filter fun m =>
        !m.isAbstract && !ignored.contains m.name
    classes := (sources.flatMap (·.classes)).filter fun c => !c.isAbstract }

/-- The names that have a schema. -/
def defined (e : Entities) : List String :=
  (e.models.filter (·.columns.isSome)).map (·.name) ++ e.classes.map (·.name)

/-- The path of the component of a known name, and any other text as it is. -/
def componentPath (e : Entities) (name : String) : String :=
  if !Schema.isComponentPath name && e.defined.contains name then Schema.refPath name
  else name

/-- The schemas of the models. -/
def modelSchemas (now : Moment) (e : Entities) : Dict Schema :=
  Dict.ofList (e.models.filterMap fun m => (m.schema? now).map fun s => (m.name, s))

/-- The schemas of all entities. -/
def schemas (now : Moment) (builders : Builders) (e : Entities) :
    Except Error (Dict Schema) := do
  let classes ← e.classes.mapM fun c => do return (c.name, ← c.schema now builders)
  return Dict.insertAll (e.modelSchemas now) classes

/-- The classes that replace a schema, up to the first one that fails. -/
def replacements (now : Moment) (builders : Builders) : List String → List SchemaClass →
    List Warning
  | _, [] => []
  | names, c :: rest =>
      match c.schema now builders with
      | .error _ => []
      | .ok _ =>
          if names.contains c.name then
            .replacedSchema c.name :: replacements now builders names rest
          else replacements now builders (c.name :: names) rest

/-- What is said while the schemas are made. -/
def warnings (now : Moment) (builders : Builders) (e : Entities) : List Warning :=
  e.models.flatMap Model.warnings ++
    replacements now builders (Dict.keys (e.modelSchemas now)) e.classes

end ApiDoc.Entities
