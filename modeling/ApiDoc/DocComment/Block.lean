import ApiDoc.Text.Alphabet
import ApiDoc.Text.Nesting

/-!
# Documentation comments

A comment is prose, followed by tags.  The first paragraph of the prose is the
summary, the others are the description.  A tag is an at sign and a name, with a
body in parentheses that may go on over several lines.  The marks of block and
line comments are removed first, so that every way of writing a comment gives
the same result.
-/

namespace ApiDoc

/-- A tag of a comment, with the text between its outer parentheses. -/
structure Tag where
  name : String
  body : Option String := none
deriving DecidableEq, Repr, Inhabited

/-- A comment taken apart. -/
structure DocBlock where
  summary : String := ""
  description : String := ""
  tags : List Tag := []
deriving DecidableEq, Repr, Inhabited

namespace DocBlock

/-- Remove the first of the opening marks that a line starts with. -/
def dropOpening (line : List Char) : List Char :=
  let marks := ["/**".toList, "/*".toList, "//!".toList, "///".toList]
  (marks.findSome? fun mark => Text.dropHead? mark line).getD line

/-- The text of a line without the marks of a comment around it. -/
def stripMarks (line : List Char) : List Char :=
  let line := dropOpening (Text.trim line)
  let line := (Text.dropTail? ['*', '/'] line).getD line
  let line := Text.trimStart line
  let line := (Text.dropHead? ['*'] line).getD line
  Text.trimEnd ((Text.dropHead? [' '] line).getD line)

/-- Paragraphs are runs of lines that are not blank; `current` is the run in
front of the lines, last line first. -/
def paragraphsFrom (current : List (List Char)) :
    List (List Char) → List (List (List Char))
  | [] => if current.isEmpty then [] else [current.reverse]
  | line :: lines =>
      if Text.allBlank line then
        if current.isEmpty then paragraphsFrom [] lines
        else current.reverse :: paragraphsFrom [] lines
      else paragraphsFrom (Text.trim line :: current) lines

/-- The paragraphs of a text, each as its trimmed lines. -/
def paragraphs (lines : List (List Char)) : List (List (List Char)) :=
  paragraphsFrom [] lines

/-- The lines of the first paragraph on one line. -/
def summaryOf (lines : List (List Char)) : String :=
  match paragraphs lines with
  | first :: _ => String.ofList (Text.join [' '] first)
  | [] => ""

/-- The other paragraphs, with an empty line between them. -/
def descriptionOf (lines : List (List Char)) : String :=
  String.ofList (Text.join ['\n', '\n'] (((paragraphs lines).drop 1).map (Text.join ['\n'])))

/-- Whether a character may stand in the name of a tag. -/
def isNameChar (c : Char) : Bool :=
  Text.isAlphanumeric c || c = '_' || c = '\\'

/-- What has been read of a comment. -/
structure Scan where
  /-- Lines before the first tag, last line first. -/
  prose : List (List Char) := []
  /-- Finished tags, last one first. -/
  tags : List Tag := []
  /-- The tag whose body is still open, with its text after the parenthesis. -/
  pending : Option (String × List Char) := none
  seenTag : Bool := false
deriving Repr, Inhabited

/-- Go on with the text of a body: it ends here, or it stays open. -/
def Scan.continueBody (s : Scan) (name : String) (text : List Char) : Scan :=
  match Text.closing? .outside 1 text with
  | some (body, _) =>
      { s with tags := ⟨name, some (String.ofList body)⟩ :: s.tags, pending := none }
  | none => { s with pending := some (name, text) }

/-- A line that starts with an at sign, from the character after it. -/
def Scan.readTag (s : Scan) (text : List Char) : Scan :=
  let s := { s with seenTag := true }
  let name := String.ofList (text.takeWhile isNameChar)
  if name = "" then s
  else
    match text.dropWhile isNameChar with
    | '(' :: body => s.continueBody name body
    | _ => { s with tags := ⟨name, none⟩ :: s.tags }

/-- Read one line without comment marks. -/
def Scan.readLine (s : Scan) (line : List Char) : Scan :=
  match s.pending with
  | some (name, text) => s.continueBody name (text ++ '\n' :: line)
  | none =>
      match Text.trimStart line with
      | '@' :: rest => s.readTag rest
      | _ => if s.seenTag then s else { s with prose := line :: s.prose }

/-- The tags of a finished scan; a body that is still open is kept as it is. -/
def Scan.allTags (s : Scan) : List Tag :=
  match s.pending with
  | some (name, text) => (⟨name, some (String.ofList text)⟩ :: s.tags).reverse
  | none => s.tags.reverse

/-- Take a comment apart. -/
def parse (raw : String) : DocBlock :=
  let lines := (Text.lines raw.toList).map stripMarks
  let scan := lines.foldl Scan.readLine {}
  let prose := scan.prose.reverse
  { summary := summaryOf prose, description := descriptionOf prose, tags := scan.allTags }

def hasTag (b : DocBlock) (name : String) : Bool :=
  b.tags.any (·.name = name)

def tagsNamed (b : DocBlock) (name : String) : List Tag :=
  b.tags.filter (·.name = name)

def firstTag? (b : DocBlock) (name : String) : Option Tag :=
  b.tags.find? (·.name = name)

/-- The body of the first tag of a name. -/
def firstBody? (b : DocBlock) (name : String) : Option String :=
  (b.firstTag? name).bind (·.body)

end DocBlock

end ApiDoc
