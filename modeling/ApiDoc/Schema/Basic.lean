import ApiDoc.Json.Basic

/-!
# Schemas

A schema describes a value: its type, its bounds, the properties of an object
and the elements of an array.  While the schema of a request body is under
construction the elements are a list of slots; `Items.single` is the finished
form.  Keys without a field of their own are kept as extensions.
-/

namespace ApiDoc

/-- The elements of an array: slots under construction, or one schema. -/
inductive Items (α : Type)
  | list (slots : List α)
  | single (item : α)
deriving Repr, Inhabited

/-- A schema.  Properties and extensions have increasing keys. -/
structure Schema where
  reference : Option String := none
  type : Option String := none
  format : Option String := none
  description : Option String := none
  nullable : Option Bool := none
  enum : Option (List Json) := none
  default : Option Json := none
  sample : Option Json := none
  minimum : Option Json := none
  maximum : Option Json := none
  minLength : Option Nat := none
  maxLength : Option Nat := none
  minItems : Option Nat := none
  maxItems : Option Nat := none
  properties : Option (List (String × Schema)) := none
  items : Option (Items Schema) := none
  required : Option (List String) := none
  extensions : List (String × Json) := []
deriving Repr, Inhabited

namespace Schema

/-- What stands before the name of a component in a reference. -/
def componentPath : String := "#/components/schemas/"

/-- Whether a reference names a component. -/
def isComponentPath (target : String) : Bool :=
  componentPath.toList.isPrefixOf target.toList

/-- A reference to a component; a full reference is left as it is. -/
def refPath (target : String) : String :=
  if isComponentPath target then target else componentPath ++ target

/-- A schema with nothing but a type. -/
def typed (type : String) : Schema :=
  { type := some type }

/-- A reference to the component with this name. -/
def ref (target : String) : Schema :=
  { reference := some (refPath target) }

/-- An array of one kind of element. -/
def arrayOf (item : Schema) : Schema :=
  { type := some "array", items := some (.single item) }

/-- An object without properties. -/
def object : Schema :=
  { type := some "object", properties := some [] }

/-- A schema without any content. -/
def isEmpty (s : Schema) : Bool :=
  s.reference.isNone && s.type.isNone && s.format.isNone && s.description.isNone &&
    s.nullable.isNone && s.enum.isNone && s.default.isNone && s.sample.isNone &&
    s.minimum.isNone && s.maximum.isNone && s.minLength.isNone && s.maxLength.isNone &&
    s.minItems.isNone && s.maxItems.isNone && s.properties.isNone && s.items.isNone &&
    s.required.isNone && s.extensions.isEmpty

def isType (s : Schema) (type : String) : Bool :=
  s.type == some type

/-- The schema of an element, whichever form the elements have. -/
def item? (s : Schema) : Option Schema :=
  match s.items with
  | some (.single item) => some item
  | some (.list slots) => slots.head?
  | none => none

/-- Add a name to the required ones, once. -/
def markRequired (s : Schema) (name : String) : Schema :=
  let names := s.required.getD []
  { s with required := some (if names.contains name then names else names ++ [name]) }

end Schema

end ApiDoc
