import ApiDoc.Scalar

/-!
# Validation rules

A rule of a field is a list of constraints, in the order in which they were
written.  Downstream readers ask for the first constraint of a kind.
-/

namespace ApiDoc

/-- A constraint that carries a type. -/
inductive RuleType
  | integer
  | number
  | string
  | boolean
  | array
  | file
  | date
  | dateTime
  | email
  | uuid
  | url
deriving DecidableEq, Repr, Inhabited

namespace RuleType

def schemaType : RuleType → String
  | .integer => "integer"
  | .number => "number"
  | .boolean => "boolean"
  | .array => "array"
  | .string | .file | .date | .dateTime | .email | .uuid | .url => "string"

def format? : RuleType → Option String
  | .file => some "binary"
  | .date => some "date"
  | .dateTime => some "date-time"
  | .email => some "email"
  | .uuid => some "uuid"
  | .url => some "uri"
  | _ => none

/-- The type that a rule name carries. -/
def ofName? (name : String) : Option RuleType :=
  match name with
  | "integer" | "int" => some .integer
  | "numeric" => some .number
  | "string" => some .string
  | "boolean" | "bool" => some .boolean
  | "array" => some .array
  | "file" | "image" => some .file
  | "date" => some .date
  | "date_format" => some .dateTime
  | "email" => some .email
  | "uuid" => some .uuid
  | "url" => some .url
  | _ => none

end RuleType

/-- The side on which a bound holds values back. -/
inductive BoundSide
  | min
  | max
deriving DecidableEq, Repr, Inhabited

/-- A documented bound; only one with `enforced` refuses values. -/
structure Bound where
  side : BoundSide
  value : String
  enforced : Bool
deriving DecidableEq, Repr, Inhabited

namespace Bound

/-- How a value stands to the bound.  The look of the value decides in which
order they are compared: as numbers, as truth values, or as texts. -/
def ordering? (bound : Bound) (value : String) : Option Ordering :=
  let text := Text.trim bound.value.toList
  match Scalar.guess value with
  | .num n => n.toBinary64.compare? ((Binary64.ofNumeral? text).getD (.zero false))
  | .bool b =>
      let flag := text = "true".toList || text = ['1']
      some (compare b.toNat flag.toNat)
  | .str s => some (compare s bound.value)
  | _ => none

/-- Whether a value passes. -/
def accepts (bound : Bound) (value : String) : Bool :=
  !bound.enforced ||
    match bound.side, bound.ordering? value with
    | .min, some o => o != .lt
    | .max, some o => o != .gt
    | _, none => false

end Bound

/-- One constraint of a rule. -/
inductive Constraint
  | required
  | nullable
  | type (type : RuleType)
  | oneOf (values : List String)
  | min (value : String)
  | max (value : String)
  | documentedDefault (value : String)
  | documentedExample (value : String)
  | documentedDescription (value : String)
  | documentedRequired
  | documentedMin (bound : Bound)
  | documentedMax (bound : Bound)
  | other (name : String) (params : List String)
deriving DecidableEq, Repr, Inhabited

/-- The constraints of one field, named by its dotted path. -/
structure FieldRules where
  field : String
  constraints : List Constraint
deriving DecidableEq, Repr, Inhabited

namespace FieldRules

def isRequired (rules : FieldRules) : Bool :=
  rules.constraints.any fun c => c == .required || c == .documentedRequired

def isNullable (rules : FieldRules) : Bool :=
  rules.constraints.any (· == .nullable)

/-- The first constraint that carries a type. -/
def ruleType? (rules : FieldRules) : Option RuleType :=
  rules.constraints.findSome? fun
    | .type t => some t
    | _ => none

/-- The schema type, `string` without a constraint that carries one. -/
def schemaType (rules : FieldRules) : String :=
  (rules.ruleType?.map RuleType.schemaType).getD "string"

/-- The first format among the constraints that agree with the schema type. -/
def format? (rules : FieldRules) : Option String :=
  rules.constraints.findSome? fun
    | .type t => if t.schemaType = rules.schemaType then t.format? else none
    | _ => none

def oneOf? (rules : FieldRules) : Option (List String) :=
  rules.constraints.findSome? fun
    | .oneOf values => some values
    | _ => none

def min? (rules : FieldRules) : Option String :=
  rules.constraints.findSome? fun
    | .min v => some v
    | _ => none

def max? (rules : FieldRules) : Option String :=
  rules.constraints.findSome? fun
    | .max v => some v
    | _ => none

def default? (rules : FieldRules) : Option String :=
  rules.constraints.findSome? fun
    | .documentedDefault v => some v
    | _ => none

def example? (rules : FieldRules) : Option String :=
  rules.constraints.findSome? fun
    | .documentedExample v => some v
    | _ => none

def description? (rules : FieldRules) : Option String :=
  rules.constraints.findSome? fun
    | .documentedDescription v => some v
    | _ => none

def minBound? (rules : FieldRules) : Option Bound :=
  rules.constraints.findSome? fun
    | .documentedMin b => some b
    | _ => none

def maxBound? (rules : FieldRules) : Option Bound :=
  rules.constraints.findSome? fun
    | .documentedMax b => some b
    | _ => none

/-- Whether a value passes both bounds. -/
def accepts (rules : FieldRules) (value : String) : Bool :=
  (rules.minBound?.map (·.accepts value)).getD true &&
    (rules.maxBound?.map (·.accepts value)).getD true

end FieldRules

end ApiDoc
