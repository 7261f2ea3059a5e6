import ApiDoc.Source.Item
import ApiDoc.Text.Basic

/-!
# The text of a type

A type is written by its names and the types in its angle brackets: lifetimes,
references and parentheses leave no trace, and a slice or an array is its element in
square brackets.  An option is told from what it holds.
-/

namespace ApiDoc.Source

mutual

/-- The text of a type. -/
def TypeExpr.text : TypeExpr → String
  | .path _ segments => "::".intercalate (segmentTexts segments)
  | .wrapped inner => inner.text
  | .sequence element => "[" ++ element.text ++ "]"
  | .unit => "()"
  | .other => "Unknown"

def Segment.text : Segment → String
  | .mk name arguments =>
      match argumentTexts arguments with
      | [] => name
      | texts => name ++ "<" ++ ", ".intercalate texts ++ ">"

def segmentTexts : List Segment → List String
  | [] => []
  | segment :: rest => segment.text :: segmentTexts rest

/-- The texts of the types among arguments. -/
def argumentTexts : List Argument → List String
  | [] => []
  | .type t :: rest => t.text :: argumentTexts rest
  | .other :: rest => argumentTexts rest

end

/-- What an option holds: the first argument of a path that ends in `Option`. -/
def TypeExpr.option? : TypeExpr → Option TypeExpr
  | .path _ segments =>
      match segments.getLast? with
      | some (.mk "Option" (.type inner :: _)) => some inner
      | _ => none
  | _ => none

/-- The text of a type without an option around it. -/
def TypeExpr.hint (t : TypeExpr) : String :=
  (t.option?.getD t).text

def TypeExpr.isOption (t : TypeExpr) : Bool :=
  t.option?.isSome

/-- The name of the type whose methods are implemented: the last name, without what is
in angle brackets. -/
def TypeExpr.ownerName (t : TypeExpr) : String :=
  let whole := t.text.toList.takeWhile (· ≠ '<')
  String.ofList (((Text.cutLast? [':', ':'] whole).map (·.2)).getD whole)

end ApiDoc.Source
