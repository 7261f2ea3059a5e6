import ApiDoc.DataFile
import ApiDoc.Entity
import ApiDoc.Handler
import ApiDoc.Route

/-!
# Manifests

A manifest describes an application in one file: its routes, the handlers of its
actions, its models and its schema classes.
-/

namespace ApiDoc

/-- The description of an application. -/
structure Manifest where
  routes : List Route := []
  /-- Handlers by action. -/
  handlers : Dict Handler := []
  entities : Entities := {}
deriving Repr, Inhabited

/-- A method by its name. -/
def Method.ofDatum? (d : Datum) : Option Method :=
  d.text?.bind fun name => (Method.ofName name).toOption

/-- A route; its address is normalized. -/
def Route.ofDatum? (d : Datum) : Option Route := do
  let r ← Datum.record? [{ name := "uri" }, { name := "methods", alias_ := some "method" },
    { name := "action" }, { name := "middlewares", alias_ := some "middleware" },
    { name := "name" }] d
  return {
    uri := normalizeUri (← r.required? "uri" Datum.text?)
    methods := ← r.required? "methods" (Datum.list? Method.ofDatum?)
    action := ← r.defaulted? "action" none (Datum.orNone? Datum.text?)
    middlewares := ← r.defaulted? "middlewares" [] (Datum.list? Datum.text?)
    name := ← r.defaulted? "name" none (Datum.orNone? Datum.text?) }

namespace Manifest

def ofDatum? (d : Datum) : Option Manifest := do
  let r ← Datum.record? (Datum.fieldsOf ["routes", "handlers", "models", "schemas"]) d
  return {
    routes := ← r.defaulted? "routes" [] (Datum.list? Route.ofDatum?)
    handlers := ← r.defaulted? "handlers" [] (Datum.dict? Handler.ofDatum?)
    entities := {
      models := ← r.defaulted? "models" [] (Datum.list? Model.ofDatum?)
      classes := ← r.defaulted? "schemas" [] (Datum.list? SchemaClass.ofDatum?) } }

/-- The manifest in a file. -/
def ofFile (path text : String) : Except Error Manifest :=
  DataFile.read ofDatum? path text

/-- The handler of an action: under the action as it is written, else under its
short form `Type@method`.  Type and method of the action fill in missing names. -/
def resolve (m : Manifest) : Resolver := fun action =>
  match Route.parseAction? action with
  | none => none
  | some (owner, method) =>
      ((Dict.find? m.handlers action).or (Dict.find? m.handlers (owner ++ "@" ++ method))).map
        fun h => h.named owner method

end Manifest

end ApiDoc
