import ApiDoc.Rule.Basic
import ApiDoc.Schema.Basic
import ApiDoc.Text.Digits

/-!
# The schema that the rules of one field describe

Type, format, permitted values, bounds, and the documented default, example and
description; an example is made up when none is documented.  Arrays start with
an empty list of slots for their elements.
-/

namespace ApiDoc.FieldRules

/-- A count as bounds on lengths have it: a whole number of 64 bits. -/
def count? (raw : String) : Option Nat :=
  (Text.natural? (Text.trim raw.toList)).filter (· < Nat.pow 2 64)

def isNumeric (type : String) : Bool :=
  type = "integer" || type = "number"

/-- The type as which documented bounds are read. -/
def boundType (type : String) : String :=
  if isNumeric type then type else "number"

/-- A lower or upper bound: the documented one first, else the plain one for
numbers. -/
def limit? (type : String) (plain : Option String) (documented : Option Bound) : Option Json :=
  match documented with
  | some bound => some (Scalar.coerce bound.value (boundType type))
  | none => if isNumeric type then plain.map fun raw => Scalar.coerce raw type else none

/-- A bound on a length, for the one type that has lengths of this kind. -/
def lengthLimit? (type wanted : String) (plain : Option String) : Option Nat :=
  if type = wanted then plain.bind count? else none

/-- The schema of a field. -/
def schema (now : Moment) (rules : FieldRules) : Schema :=
  let type := rules.schemaType
  { type := some type
    format := rules.format?
    description := rules.description?
    nullable := if rules.isNullable then some true else none
    enum := rules.oneOf?.map fun values => values.map fun v => Scalar.coerce v type
    default := rules.default?.map fun raw => Scalar.coerce raw type
    sample :=
      match rules.example? with
      | some raw => some (Scalar.coerce raw type)
      | none => Scalar.exampleFor now type rules.format?
    minimum := limit? type rules.min? rules.minBound?
    maximum := limit? type rules.max? rules.maxBound?
    minLength := lengthLimit? type "string" rules.min?
    maxLength := lengthLimit? type "string" rules.max?
    minItems := lengthLimit? type "array" rules.min?
    maxItems := lengthLimit? type "array" rules.max?
    items := if type = "array" then some (.list []) else none }

end ApiDoc.FieldRules
