import ApiDoc.DocComment.TagBody
import ApiDoc.Entity
import ApiDoc.Reference
import ApiDoc.Scalar
import ApiDoc.Schema.Codec
import ApiDoc.TypeName

/-!
# The schema of a schema class

A class is an object with one property for each field.  The tag `Schema` of its
comment names the required ones.  A field starts from its type hint; the tag
`Property` of its comment may replace parts of that, refer to another schema, or
give the whole schema as it is.
-/

namespace ApiDoc

namespace ClassField

/-- The schema type of a hint; a field of no type holds a text. -/
def hintType (f : ClassField) : String :=
  match TypeName.native (f.typeHint.getD "string") with
  | "null" => "string"
  | type => type

/-- The schema before the tag is read. -/
def base (f : ClassField) (summary : String) : Schema :=
  { type := some f.hintType
    description := if summary = "" then none else some summary
    nullable := if f.nullable then some true else none
    sample := f.value }

/-- Replace what the tag gives; a value of an unfitting type is skipped. -/
def overlay (entries : List (String × Json)) (s : Schema) : Schema :=
  let find := fun key => Dict.find? entries key
  { s with
    type := ((find "type").bind Json.asStr?).or s.type
    description := ((find "description").map Json.plainText).or s.description
    sample := (find "example").or s.sample
    nullable := ((find "nullable").bind Json.asBool?).or s.nullable
    format := ((find "format").bind Json.asStr?).or s.format }

/-- The type of the elements of an array. -/
def elementType (entries : List (String × Json)) : String :=
  ((Dict.find? entries "arrayOf").bind Json.asStr?).getD "string"

/-- Give an array its elements, and an example with one of them. -/
def withElements (now : Moment) (entries : List (String × Json)) (s : Schema) : Schema :=
  if s.isType "array" then
    let type := elementType entries
    { s with
      sample := s.sample.or ((Scalar.exampleFor now type none).map fun e => .arr [e])
      items := some (.single (.typed type)) }
  else s

/-- Make up a missing example, and fit a given one to the type.  An object with
properties keeps what it has. -/
def withExample (now : Moment) (s : Schema) : Schema :=
  match s.type with
  | none => s
  | some type =>
      if type = "object" && s.properties.isSome then s
      else
        { s with
          sample :=
            match s.sample with
            | some value => some (Scalar.coerceExample value type)
            | none => Scalar.exampleFor now type s.format }

/-- Take the shape of a list or of what a builder gives. -/
def withShape (shape s : Schema) : Schema :=
  if shape.isType "array" then
    { s with type := shape.type, items := shape.items, sample := none }
  else
    { s with type := shape.type, properties := shape.properties, required := shape.required,
             sample := none }

/-- The schema of a field of a class. -/
def schema (now : Moment) (builders : Builders) (owner : String) (f : ClassField) :
    Except Error Schema := do
  let comment ← CommentProperties.read f.comment "Property"
  let entries := comment.entries
  match Dict.find? entries "raw" with
  | some raw =>
      match Schema.ofJson? raw with
      | some s => return s
      | none => .error (.badTag raw.compact (.badRawSchema owner f.name))
  | none =>
      let s := withElements now entries (overlay entries (f.base comment.summary))
      match (Dict.find? entries "ref").bind Json.asStr? with
      | none => return withExample now s
      | some reference =>
          match ← Reference.structured builders reference owner with
          | some shape => return withExample now (withShape shape s)
          | none => return .ref (Reference.trimmed reference)

end ClassField

namespace SchemaClass

/-- The required names of a tag that are properties. -/
def requiredNames (entries : List (String × Json)) (properties : Dict Schema) :
    List String :=
  match Dict.find? entries "required" with
  | some (.arr names) => (names.filterMap Json.asStr?).filter (Dict.has properties)
  | _ => []

/-- The schema of a class. -/
def schema (now : Moment) (builders : Builders) (c : SchemaClass) : Except Error Schema := do
  let comment ← CommentProperties.read c.comment "Schema"
  let fields ← c.fields.mapM fun f => do return (f.name, ← f.schema now builders c.name)
  let properties := Dict.ofList fields
  let names := requiredNames comment.entries properties
  return {
    Schema.object with
    properties := some properties
    required := if names.isEmpty then none else some names }

end SchemaClass

end ApiDoc
