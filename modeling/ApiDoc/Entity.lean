import ApiDoc.Datum

/-!
# Models and schema classes

The entities of an application that get a schema: models with the columns of
their table, and classes that exist only to describe a schema.
-/

namespace ApiDoc

/-- A column of a table. -/
structure Column where
  name : String
  type : String
  nullable : Bool := false
  default : Option Json := none
  comment : Option String := none
  length : Option Nat := none
deriving Repr, Inhabited

inductive Cardinality
  | one
  | many
deriving DecidableEq, Repr, Inhabited

/-- A relation to another model, which may be unknown. -/
structure Relation where
  name : String
  target : Option String := none
  cardinality : Cardinality := .one
deriving DecidableEq, Repr, Inhabited

/-- The function behind a computed attribute. -/
structure Accessor where
  returnType : Option String := none
  nullable : Bool := false
deriving DecidableEq, Repr, Inhabited

/-- An attribute computed when a model is written. -/
structure ComputedAttribute where
  name : String
  accessor : Option Accessor := none
deriving DecidableEq, Repr, Inhabited

/-- A model; without columns it has no table. -/
structure Model where
  name : String
  isAbstract : Bool := false
  columns : Option (List Column) := none
  /-- The columns that are never shown. -/
  hidden : List String := []
  relations : List Relation := []
  computed : List ComputedAttribute := []
deriving Repr, Inhabited

/-- A field of a schema class. -/
structure ClassField where
  name : String
  typeHint : Option String := none
  nullable : Bool := false
  comment : Option String := none
  /-- A value that stands with the field, and serves as its example. -/
  value : Option Json := none
deriving Repr, Inhabited

/-- A class that describes a schema. -/
structure SchemaClass where
  name : String
  isAbstract : Bool := false
  comment : Option String := none
  fields : List ClassField := []
deriving Repr, Inhabited

/-- The models and schema classes that one source knows. -/
structure Entities where
  models : List Model := []
  classes : List SchemaClass := []
deriving Repr, Inhabited

open Datum (fieldsOf)

def Column.ofDatum? (d : Datum) : Option Column := do
  let r ← Datum.record? (fieldsOf ["name", "type", "nullable", "default", "comment", "length"]) d
  return {
    name := ← r.required? "name" Datum.text?
    type := ← r.required? "type" Datum.text?
    nullable := ← r.defaulted? "nullable" false Datum.flag?
    default := ← r.defaulted? "default" none (Datum.orNone? Datum.value?)
    comment := ← r.defaulted? "comment" none (Datum.orNone? Datum.text?)
    length := ← r.defaulted? "length" none (Datum.orNone? Datum.word?) }

def Cardinality.ofName? : String → Option Cardinality
  | "one" => some .one
  | "many" => some .many
  | _ => none

def Relation.ofDatum? (d : Datum) : Option Relation := do
  let r ← Datum.record? (fieldsOf ["name", "target", "cardinality"]) d
  return {
    name := ← r.required? "name" Datum.text?
    target := ← r.defaulted? "target" none (Datum.orNone? Datum.text?)
    cardinality := ← r.defaulted? "cardinality" .one fun d => d.text?.bind Cardinality.ofName? }

def Accessor.ofDatum? (d : Datum) : Option Accessor := do
  let r ← Datum.record? (fieldsOf ["return_type", "nullable"]) d
  return {
    returnType := ← r.defaulted? "return_type" none (Datum.orNone? Datum.text?)
    nullable := ← r.defaulted? "nullable" false Datum.flag? }

def ComputedAttribute.ofDatum? (d : Datum) : Option ComputedAttribute := do
  let r ← Datum.record? (fieldsOf ["name", "accessor"]) d
  return {
    name := ← r.required? "name" Datum.text?
    accessor := ← r.defaulted? "accessor" none (Datum.orNone? Accessor.ofDatum?) }

def Model.ofDatum? (d : Datum) : Option Model := do
  let r ← Datum.record?
    (fieldsOf ["name", "abstract", "columns", "hidden", "relations", "appends"]) d
  return {
    name := ← r.required? "name" Datum.text?
    isAbstract := ← r.defaulted? "abstract" false Datum.flag?
    columns := ← r.defaulted? "columns" none (Datum.orNone? (Datum.list? Column.ofDatum?))
    hidden := ← r.defaulted? "hidden" [] (Datum.list? Datum.text?)
    relations := ← r.defaulted? "relations" [] (Datum.list? Relation.ofDatum?)
    computed := ← r.defaulted? "appends" [] (Datum.list? ComputedAttribute.ofDatum?) }

def ClassField.ofDatum? (d : Datum) : Option ClassField := do
  let r ← Datum.record? (fieldsOf ["name", "type_hint", "nullable", "doc", "value"]) d
  return {
    name := ← r.required? "name" Datum.text?
    typeHint := ← r.defaulted? "type_hint" none (Datum.orNone? Datum.text?)
    nullable := ← r.defaulted? "nullable" false Datum.flag?
    comment := ← r.defaulted? "doc" none (Datum.orNone? Datum.text?)
    value := ← r.defaulted? "value" none (Datum.orNone? Datum.value?) }

def SchemaClass.ofDatum? (d : Datum) : Option SchemaClass := do
  let r ← Datum.record? (fieldsOf ["name", "abstract", "doc", "fields"]) d
  return {
    name := ← r.required? "name" Datum.text?
    isAbstract := ← r.defaulted? "abstract" false Datum.flag?
    comment := ← r.defaulted? "doc" none (Datum.orNone? Datum.text?)
    fields := ← r.defaulted? "fields" [] (Datum.list? ClassField.ofDatum?) }

end ApiDoc
