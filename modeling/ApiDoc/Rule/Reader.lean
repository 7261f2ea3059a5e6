import ApiDoc.Error
import ApiDoc.Rule.Basic

/-!
# Reading validation rules

A rule is written as one text, in which bars separate the constraints, or as a
list with one text for each constraint.  A constraint is a name, with a payload
after the first colon.
-/

namespace ApiDoc

namespace Bound

/-- Read a bound: its value, and `fail` after a colon where it is enforced. -/
def read (side : BoundSide) (payload : List Char) : Bound :=
  match (Text.splitOn ':' payload).map Text.trim with
  | value :: flag :: _ => ⟨side, String.ofList value, flag = "fail".toList⟩
  | [value] => ⟨side, String.ofList value, false⟩
  | [] => ⟨side, "", false⟩

end Bound

namespace Constraint

/-- The parameters of a payload, cut at commas. -/
def params (payload : List Char) : List (List Char) :=
  (Text.splitOn ',' payload).map Text.trim

/-- Name and payload of a constraint. -/
def nameAndPayload (atom : List Char) : List Char × Option (List Char) :=
  match Text.cutFirst? ':' atom with
  | some (name, payload) => (Text.trim name, some payload)
  | none => (Text.trim atom, none)

/-- The constraint with a name that carries no type. -/
def ofName (name : String) (payload : Option (List Char)) : Constraint :=
  let verbatim := String.ofList (payload.getD [])
  match name, payload with
  | "required", _ => .required
  | "nullable", _ => .nullable
  | "swagger_required", _ => .documentedRequired
  | "swagger_default", _ => .documentedDefault verbatim
  | "swagger_example", _ => .documentedExample verbatim
  | "swagger_description", _ => .documentedDescription verbatim
  | "in", some p => .oneOf ((params p).map fun v => String.ofList (Text.unquote v))
  | "min", some p => .min (String.ofList (Text.trim p))
  | "max", some p => .max (String.ofList (Text.trim p))
  | "swagger_min", some p => .documentedMin (.read .min p)
  | "swagger_max", some p => .documentedMax (.read .max p)
  | _, some p => .other name ((params p).map String.ofList)
  | _, none => .other name []

/-- Read one constraint. -/
def read (atom : List Char) : Constraint :=
  let (name, payload) := nameAndPayload atom
  match RuleType.ofName? (String.ofList name) with
  | some t => .type t
  | none => ofName (String.ofList name) payload

end Constraint

namespace FieldRules

/-- Read the rule of a field. -/
def read (field : String) (rule : Json) : Except Error (List Constraint) :=
  match rule with
  | .str s =>
      .ok (((Text.splitOn '|' s.toList).filter (!Text.allBlank ·)).map Constraint.read)
  | .arr items =>
      items.mapM fun item =>
        match item with
        | .str s => .ok (Constraint.read s.toList)
        | _ => .error (.malformedRule field rule)
  | _ => .error (.malformedRule field rule)

end FieldRules

/-- The rules of a request, in the order in which the fields are written. -/
abbrev RuleSet := List FieldRules

namespace RuleSet

/-- Read the rules of all fields; the first malformed one is the error. -/
def read (rules : List (String × Json)) : Except Error RuleSet :=
  rules.mapM fun (field, rule) => do
    let constraints ← FieldRules.read field rule
    return ⟨field, constraints⟩

/-- The rules of a field. -/
def find? (rules : RuleSet) (field : String) : Option FieldRules :=
  List.find? (·.field = field) rules

end RuleSet

end ApiDoc
