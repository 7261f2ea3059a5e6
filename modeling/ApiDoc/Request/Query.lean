import ApiDoc.Document.Basic
import ApiDoc.Request.RuleSchema
import ApiDoc.Rule.Reader

/-!
# Query parameters

Each rule of a request without a body is a parameter, in the order of the
rules.  A rule `name.*` after an array rule `name` describes the elements of
that parameter; other dotted names are written with brackets.
-/

namespace ApiDoc.Query

/-- One segment of a dotted name after the first, in brackets. -/
def bracketed (segment : List Char) : List Char :=
  if segment = ['*'] then ['[', ']'] else '[' :: segment ++ [']']

/-- A dotted name as it is written in a query. -/
def bracketName (field : String) : String :=
  match Text.splitOn '.' field.toList with
  | first :: rest => String.ofList (first ++ rest.flatMap bracketed)
  | [] => ""

/-- The parameter of one rule. -/
def parameter (now : Moment) (rules : FieldRules) : Parameter :=
  let schema := rules.schema now
  { name := bracketName rules.field
    location := .query
    required := rules.isRequired
    description := schema.description
    schema := { schema with description := none } }

/-- The array that a field describes the elements of. -/
def arrayName? (field : String) : Option String :=
  (Text.dropTail? ['.', '*'] field.toList).map String.ofList

/-- Set the elements of the first array parameter with this name; nothing when
there is none. -/
def setItem? (name : String) (item : Schema) : List Parameter → Option (List Parameter)
  | [] => none
  | p :: ps =>
      if p.name = name && p.schema.isType "array" then
        some ({ p with schema := { p.schema with items := some (.single item) } } :: ps)
      else (setItem? name item ps).map fun ps => p :: ps

/-- Add one rule to the parameters so far. -/
def addRule (now : Moment) (ps : List Parameter) (rules : FieldRules) : List Parameter :=
  let refined := (arrayName? rules.field).bind fun name =>
    setItem? name { rules.schema now with description := none } ps
  refined.getD (ps ++ [parameter now rules])

/-- Elements that no rule describes are strings. -/
def finish (p : Parameter) : Parameter :=
  match p.schema.items with
  | some (.list _) =>
      { p with schema := { p.schema with items := some (.single (.typed "string")) } }
  | _ => p

/-- The parameters of a list of rules. -/
def ofRules (now : Moment) (rules : RuleSet) : List Parameter :=
  (rules.foldl (addRule now) []).map finish

/-- The query parameters that the rules of a request describe. -/
def parameters (now : Moment) (rules : List (String × Json)) :
    Except Error (List Parameter) :=
  (RuleSet.read rules).map (ofRules now)

end ApiDoc.Query
