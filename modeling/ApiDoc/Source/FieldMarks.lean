import ApiDoc.Source.Item
import ApiDoc.Text.Basic

/-!
# What attributes say

Documentation is kept as attributes with a text, one for each line.  How a field is
written is said in lists of marks under the name `serde`: the marks are the parts
between commas of the text of such a list.
-/

namespace ApiDoc.Source

/-- The documentation among attributes, one line for each; nothing without any. -/
def documentation (attributes : List Attribute) : Option String :=
  let lines := attributes.filterMap fun a =>
    match a with
    | ⟨some "doc", .text line⟩ => some line
    | _ => none
  if lines.isEmpty then none else some ("\n".intercalate lines)

/-- How a field is written. -/
structure FieldMarks where
  /-- The name it is written under. -/
  renamed : Option String := none
  /-- It is not written. -/
  isSkipped : Bool := false
  /-- Its own fields are written in its place. -/
  isFlattened : Bool := false
deriving DecidableEq, Repr, Inhabited

namespace FieldMarks

/-- The text between the first two quotes after the first equals sign. -/
def quotedValue? (cs : List Char) : Option (List Char) := do
  let (_, value) ← Text.cutFirst? '=' cs
  let (_, inside) ← Text.cutFirst? '"' value
  let (found, _) ← Text.cutFirst? '"' inside
  return found

/-- Take one mark into account; a later name replaces an earlier one. -/
def addMark (marks : FieldMarks) (part : List Char) : FieldMarks :=
  if Text.startsWith "rename".toList part && !Text.startsWith "rename_all".toList part then
    { marks with renamed := ((quotedValue? part).map String.ofList).or marks.renamed }
  else if part = "skip".toList || part = "skip_serializing".toList then
    { marks with isSkipped := true }
  else if part = "flatten".toList then { marks with isFlattened := true }
  else marks

/-- The marks in a list. -/
def parts (trees : List Tree) : List (List Char) :=
  (Text.splitOn ',' (Tree.textAll trees)).map Text.trim

/-- The marks of a field. -/
def ofAttributes (attributes : List Attribute) : FieldMarks :=
  let parts := attributes.flatMap fun a =>
    match a with
    | ⟨some "serde", .list trees⟩ => parts trees
    | _ => []
  parts.foldl addMark {}

end FieldMarks

end ApiDoc.Source
