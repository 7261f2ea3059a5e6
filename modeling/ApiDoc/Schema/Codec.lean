import ApiDoc.Json.Shape
import ApiDoc.Schema.Basic

/-!
# Schemas as JSON

`toJson` writes the fields that a schema has, in a fixed order, and then its
extensions.  `ofJson?` reads an object back, member by member; what has no field
becomes an extension.
-/

namespace ApiDoc.Schema

mutual

/-- A schema as an object. -/
def toJson : Schema → Json
  | ⟨reference, type, format, description, nullable, enum, default, sample, minimum,
      maximum, minLength, maxLength, minItems, maxItems, properties, items, required,
      extensions⟩ =>
      .obj (Json.optionalMember "$ref" .str reference ++
        Json.optionalMember "type" .str type ++
        Json.optionalMember "format" .str format ++
        Json.optionalMember "description" .str description ++
        Json.optionalMember "nullable" .bool nullable ++
        Json.optionalMember "enum" .arr enum ++
        Json.optionalMember "default" id default ++
        Json.optionalMember "example" id sample ++
        Json.optionalMember "minimum" id minimum ++
        Json.optionalMember "maximum" id maximum ++
        Json.optionalMember "minLength" .ofNat minLength ++
        Json.optionalMember "maxLength" .ofNat maxLength ++
        Json.optionalMember "minItems" .ofNat minItems ++
        Json.optionalMember "maxItems" .ofNat maxItems ++
        propertiesMember properties ++
        itemsMember items ++
        Json.optionalMember "required" (fun names => .arr (names.map .str)) required ++
        extensions)
termination_by structural s => s

def propertiesMember : Option (List (String × Schema)) → List (String × Json)
  | none => []
  | some properties => [("properties", .obj (propertyMembers properties))]
termination_by structural p => p

def propertyMembers : List (String × Schema) → List (String × Json)
  | [] => []
  | (name, s) :: rest => (name, toJson s) :: propertyMembers rest
termination_by structural p => p

def itemsMember : Option (Items Schema) → List (String × Json)
  | none => []
  | some (.list slots) => [("items", .arr (slotItems slots))]
  | some (.single item) => [("items", toJson item)]
termination_by structural i => i

def slotItems : List Schema → List Json
  | [] => []
  | s :: rest => toJson s :: slotItems rest
termination_by structural slots => slots

end

/-- Read a member that holds no schema; unknown ones become extensions. -/
def readPlain? (key : String) (value : Json) (s : Schema) : Option Schema :=
  match key with
  | "$ref" => (Json.orNull? Json.asStr? value).map fun v => { s with reference := v }
  | "type" => (Json.orNull? Json.asStr? value).map fun v => { s with type := v }
  | "format" => (Json.orNull? Json.asStr? value).map fun v => { s with format := v }
  | "description" => (Json.orNull? Json.asStr? value).map fun v => { s with description := v }
  | "nullable" => (Json.orNull? Json.asBool? value).map fun v => { s with nullable := v }
  | "enum" => (Json.orNull? Json.asArr? value).map fun v => { s with enum := v }
  | "default" => (Json.orNull? some value).map fun v => { s with default := v }
  | "example" => (Json.orNull? some value).map fun v => { s with sample := v }
  | "minimum" => (Json.orNull? some value).map fun v => { s with minimum := v }
  | "maximum" => (Json.orNull? some value).map fun v => { s with maximum := v }
  | "minLength" => (Json.orNull? Json.asWord? value).map fun v => { s with minLength := v }
  | "maxLength" => (Json.orNull? Json.asWord? value).map fun v => { s with maxLength := v }
  | "minItems" => (Json.orNull? Json.asWord? value).map fun v => { s with minItems := v }
  | "maxItems" => (Json.orNull? Json.asWord? value).map fun v => { s with maxItems := v }
  | "required" =>
      (Json.orNull? (Json.listOf? Json.asStr?) value).map fun v => { s with required := v }
  | _ => some { s with extensions := Dict.insert s.extensions key value }

mutual

/-- Read a schema from an object. -/
def ofJson? : Json → Option Schema
  | .obj members => readMembers? members {}
  | _ => none
termination_by structural j => j

def readMembers? : List (String × Json) → Schema → Option Schema
  | [], s => some s
  | (key, value) :: rest, s =>
      match (match key with
        | "properties" => (readProperties? value).map fun p => { s with properties := p }
        | "items" => (readItems? value).map fun i => { s with items := i }
        | _ => readPlain? key value s) with
      | some s => readMembers? rest s
      | none => none
termination_by structural members => members

def readProperties? : Json → Option (Option (List (String × Schema)))
  | .null => some none
  | .obj members => (readPropertyList? members []).map some
  | _ => none
termination_by structural j => j

def readPropertyList? : List (String × Json) → Dict Schema → Option (Dict Schema)
  | [], acc => some acc
  | (name, value) :: rest, acc =>
      match ofJson? value with
      | some s => readPropertyList? rest (Dict.insert acc name s)
      | none => none
termination_by structural members => members

/-- A list is read as slots, an object as one schema. -/
def readItems? : Json → Option (Option (Items Schema))
  | .null => some none
  | .arr items => (readSlots? items).map fun slots => some (.list slots)
  | .obj members => (readMembers? members {}).map fun s => some (.single s)
  | _ => none
termination_by structural j => j

def readSlots? : List Json → Option (List Schema)
  | [] => some []
  | j :: rest =>
      match ofJson? j with
      | some s => (readSlots? rest).map fun slots => s :: slots
      | none => none
termination_by structural items => items

end

end ApiDoc.Schema
