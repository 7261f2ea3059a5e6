import ApiDoc.Text.Casing
import ApiDoc.Text.Basic

/-!
# Type names

Three tables give the schema type of a name: one for the types of programming
languages, one that tells such types from names of classes, and one for the
columns of a database.  Unknown names are strings.
-/

namespace ApiDoc.TypeName

/-- The name without surrounding space and without leading marks of nullability
and reference. -/
def bare (name : List Char) : List Char :=
  Text.trim (((Text.trim name).dropWhile (· = '?')).dropWhile (· = '&'))

/-- The last segment of a path written with `::`. -/
def lastSegment (name : List Char) : List Char :=
  match Text.cutLast? [':', ':'] name with
  | some (_, last) => last
  | none => name

/-- The schema type of a name without type arguments. -/
def nativeOfWord (word : String) : String :=
  match word with
  | "int" | "integer" | "i8" | "i16" | "i32" | "i64" | "i128" | "isize" | "u8" | "u16"
  | "u32" | "u64" | "u128" | "usize" => "integer"
  | "float" | "double" | "number" | "f32" | "f64" => "number"
  | "string" | "str" | "char" => "string"
  | "bool" | "boolean" => "boolean"
  | "array" | "vec" => "array"
  | "object" | "mixed" | "map" | "value" => "object"
  | "null" => "null"
  | _ => "string"

/-- What a type constructor makes of its argument. -/
inductive Wrapper
  /-- It maps as its argument does. -/
  | transparent
  /-- It has a schema type of its own. -/
  | opaqueAs (type : String)
deriving DecidableEq, Repr

def Wrapper.ofWord (word : String) : Wrapper :=
  match word with
  | "Option" | "Box" | "Rc" | "Arc" => .transparent
  | "Vec" | "VecDeque" | "HashSet" | "BTreeSet" => .opaqueAs "array"
  | "HashMap" | "BTreeMap" | "IndexMap" => .opaqueAs "object"
  | _ => .opaqueAs "string"

/-- Follow transparent wrappers inwards; each step shortens the name. -/
def nativeWithin : (fuel : Nat) → List Char → String
  | 0, _ => "string"
  | fuel + 1, name =>
      let name := bare name
      if name.isEmpty then "string"
      else if name = ['(', ')'] then "null"
      else if name.head? = some '[' then "array"
      else
        match Text.cutFirst? '<' name with
        | some (outer, rest) =>
            match Wrapper.ofWord (String.ofList (lastSegment outer)) with
            | .transparent => nativeWithin fuel (Text.dropEndWhile (· = '>') rest)
            | .opaqueAs type => type
        | none => nativeOfWord (Text.lower (String.ofList (lastSegment name)))

/-- The schema type of a language-level type name. -/
def native (name : String) : String :=
  nativeWithin (name.toList.length + 1) name.toList

/-- The part of a name after the last backslash or colon. -/
def short (name : String) : String :=
  Text.onString (Text.afterLast fun c => c = '\\' || c = ':') name

/-- Whether a name is a language-level scalar or container rather than a class
with a schema of its own. -/
def isNative (name : String) : Bool :=
  let name := bare name.toList
  if name.isEmpty || name = ['(', ')'] || name.head? = some '[' || name.contains '<' then true
  else
    match Text.lower (short (String.ofList name)) with
    | "int" | "integer" | "i8" | "i16" | "i32" | "i64" | "i128" | "isize" | "u8" | "u16"
    | "u32" | "u64" | "u128" | "usize" | "float" | "double" | "number" | "f32" | "f64"
    | "string" | "str" | "char" | "bool" | "boolean" | "array" | "vec" | "object" | "mixed"
    | "null" | "void" | "iterable" | "callable" | "value" => true
    | _ => false

/-- Schema type and format of a column. -/
structure Column where
  type : String
  format : Option String := none
deriving DecidableEq, Repr, Inhabited

/-- The schema type and format of a column type. -/
def column (name : String) : Column :=
  match Text.lower (Text.onString Text.trim name) with
  | "smallint" | "integer" | "int" | "tinyint" | "mediumint" | "serial" =>
      ⟨"integer", some "int32"⟩
  | "bigint" | "bigserial" => ⟨"integer", some "int64"⟩
  | "year" => ⟨"integer", none⟩
  | "decimal" | "float" => ⟨"number", some "float"⟩
  | "double" | "real" => ⟨"number", some "double"⟩
  | "date" | "date_immutable" => ⟨"string", some "date"⟩
  | "time" | "time_immutable" => ⟨"string", some "time"⟩
  | "datetime" | "datetimetz" | "datetime_immutable" | "datetimetz_immutable" | "timestamp"
  | "timestamptz" => ⟨"string", some "date-time"⟩
  | "binary" | "blob" => ⟨"object", some "binary"⟩
  | "json" | "jsonb" | "object" => ⟨"object", none⟩
  | "array" | "simple_array" | "simple-array" => ⟨"array", none⟩
  | "boolean" | "bool" => ⟨"boolean", none⟩
  | _ => ⟨"string", none⟩

end ApiDoc.TypeName
