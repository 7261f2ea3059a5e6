import ApiDoc.Binary64.Numeral
import ApiDoc.Json.Printer
import ApiDoc.Json.Reader

/-!
# Scalars written as text

Annotations and rules give their values as text.  `guess` reads such a text by
its look; `coerce` reads it for a schema type, and leaves a text that cannot be
read as that type as it is.  `exampleFor` makes up a value for a type.
-/

namespace ApiDoc

/-- The date and the time of day at which a document is made, as examples show
them. -/
structure Moment where
  date : String
  time : String
deriving Repr, Inhabited

namespace Scalar

/-- The whole numbers of 64 bits with a sign. -/
def inWord (i : Int) : Bool :=
  -(Nat.pow 2 63 : Int) ≤ i && i < (Nat.pow 2 63 : Int)

/-- The value of decimal digits after an optional minus. -/
def intValue : List Char → Int
  | '-' :: cs => -(Text.digitsValue cs : Int)
  | cs => Text.digitsValue cs

/-- The number that a text without surrounding space looks like: digits, perhaps
with a point, perhaps after a minus. -/
def number? (text : List Char) : Option Number :=
  let digits := match text with
    | '-' :: rest => rest
    | _ => text
  if digits.isEmpty || !digits.all fun c => c.isDigit || c = '.' then none
  else if digits.contains '.' then
    match Binary64.ofNumeral? text with
    | some x => if x.isFinite then some (.float x) else none
    | none => none
  else
    let i := intValue text
    if inWord i then some (.int i) else none

/-- The value that a text looks like: a number, a truth value, or the text
without surrounding space. -/
def guess (raw : String) : Json :=
  let text := Text.trim raw.toList
  match number? text with
  | some n => .num n
  | none =>
      match String.ofList text with
      | "true" => .bool true
      | "false" => .bool false
      | s => .str s

/-- Read a text as a value of a schema type. -/
def coerce (raw type : String) : Json :=
  match type with
  | "integer" | "number" =>
      match guess raw with
      | .num n => .num n
      | _ => .str raw
  | "boolean" =>
      match String.ofList (Text.trim raw.toList) with
      | "true" | "1" => .bool true
      | "false" | "0" => .bool false
      | _ => .str raw
  | "array" =>
      match Json.read? raw.toList with
      | some (.arr items) => .arr items
      | _ => .arr ((Text.splitOn ',' raw.toList).map fun part => guess (String.ofList part))
  | "object" => (Json.read? raw.toList).getD (.str raw)
  | "string" => .str raw
  | _ => guess raw

/-- Adjust an example whose type disagrees with the schema type. -/
def coerceExample (value : Json) (type : String) : Json :=
  match value with
  | .str s =>
      match type with
      | "integer" | "number" | "boolean" => coerce s type
      | _ => value
  | .num n => if type = "string" then .str n.text else value
  | .bool b => if type = "string" then .str (toString b) else value
  | _ => value

/-- An example for a string of the given format. -/
def stringExample (now : Moment) : Option String → Option String
  | some "date" => some now.date
  | some "time" => some now.time
  | some "date-time" => some (now.date ++ " " ++ now.time)
  | some "email" => some "user@example.com"
  | some "uuid" => some "3fa85f64-5717-4562-b3fc-2c963f66afa6"
  | some "uri" => some "https://example.com"
  | some "binary" => none
  | _ => some "string"

/-- An example for a type and format; lists, objects and binary payloads have
none. -/
def exampleFor (now : Moment) (type : String) (format : Option String) : Option Json :=
  match type with
  | "integer" =>
      some (match format with
        | some "int64" => .num (.int 1000000000000000000)
        | some "int32" => .num (.int 1000000000)
        | _ => .num (.int 1))
  | "number" => some (.num (.float (.nearest false 1 2)))
  | "boolean" => some (.bool true)
  | "string" => (stringExample now format).map .str
  | _ => none

end Scalar

end ApiDoc
