import ApiDoc.Entity
import ApiDoc.Error
import ApiDoc.Scalar
import ApiDoc.Schema.Basic
import ApiDoc.TypeName

/-!
# The schema of a model

A model is an object: its visible columns, its relations, and its computed
attributes, where a later property of a name replaces an earlier one.  A relation
without target and an attribute without accessor are left out with a warning, and
so is a model without table.
-/

namespace ApiDoc

namespace Column

/-- The type as the table has it, with the length of a text and the comment. -/
def describe (c : Column) : String :=
  let length :=
    match c.length, (TypeName.column c.type).type with
    | some n, "string" => "(" ++ toString n ++ ")"
    | _, _ => ""
  let comment :=
    match c.comment.filter (· ≠ "") with
    | some text => ": " ++ text
    | none => ""
  c.type ++ length ++ comment

/-- The property of a column. -/
def schema (now : Moment) (c : Column) : Schema :=
  let kind := TypeName.column c.type
  { type := some kind.type
    format := kind.format
    description := some c.describe
    nullable := some c.nullable
    default := c.default
    sample := Scalar.exampleFor now kind.type kind.format }

end Column

/-- The property of a relation: the related model, or a list of it. -/
def Relation.schema? (r : Relation) : Option Schema :=
  r.target.map fun target =>
    let model := Schema.ref (TypeName.short target)
    match r.cardinality with
    | .one => model
    | .many => .arrayOf model

namespace ComputedAttribute

/-- The type that the accessor declares, if it declares one. -/
def returnType? (a : ComputedAttribute) : Option String :=
  a.accessor.bind fun accessor => accessor.returnType.filter (· ≠ "")

/-- The property of a computed attribute; an accessor without type admits
anything. -/
def schema? (now : Moment) (a : ComputedAttribute) : Option Schema :=
  a.accessor.map fun _ =>
    match a.returnType? with
    | none => {}
    | some name =>
        if TypeName.isNative name then
          let type := TypeName.native name
          { type := some type, sample := Scalar.exampleFor now type none }
        else .ref (TypeName.short name)

/-- Whether the attribute is always there: its type is declared, without null. -/
def isRequired (a : ComputedAttribute) : Bool :=
  match a.accessor with
  | none => false
  | some accessor => a.returnType?.isSome && !accessor.nullable

end ComputedAttribute

namespace Model

/-- The columns that may be shown. -/
def visible (m : Model) (columns : List Column) : List Column :=
  columns.filter fun c => !m.hidden.contains c.name

/-- Columns, relations and computed attributes with their schemas, in this order. -/
def entries (now : Moment) (m : Model) (columns : List Column) : List (String × Schema) :=
  (m.visible columns).map (fun c => (c.name, c.schema now)) ++
    m.relations.filterMap (fun r => r.schema?.map fun s => (r.name, s)) ++
    m.computed.filterMap fun a => (a.schema? now).map fun s => (a.name, s)

/-- The names of the properties that are always there. -/
def requiredNames (m : Model) (columns : List Column) : List String :=
  ((m.visible columns).filter fun c => !c.nullable).map (·.name) ++
    (m.computed.filter ComputedAttribute.isRequired).map (·.name)

/-- The schema of a model that has a table. -/
def schema? (now : Moment) (m : Model) : Option Schema :=
  m.columns.map fun columns =>
    let names := m.requiredNames columns
    { Schema.object with
      properties := some (Dict.ofList (m.entries now columns))
      required := if names.isEmpty then none else some names }

/-- What is left out of the schema. -/
def warnings (m : Model) : List Warning :=
  if m.columns.isNone then [.modelWithoutTable m.name]
  else
    (m.relations.filter (·.target.isNone)).map (fun r => .unresolvedRelation m.name r.name) ++
      (m.computed.filter (·.accessor.isNone)).map fun a => .missingAccessor m.name a.name

end Model

end ApiDoc
