import ApiDoc.Source.Tree
import ApiDoc.Text.Alphabet
import ApiDoc.Text.Basic

/-!
# Blanks, comments and names

The parts of a source file below its tokens.  Each reader looks at the start of the
text, and gives what it finds with the text after it.
-/

namespace ApiDoc.Source

open Text (startsIdentifier continuesIdentifier)

/-- White space between tokens, with the two marks of writing direction. -/
def isSpace (c : Char) : Bool :=
  Text.isBlank c || c.toNat = 0x200E || c.toNat = 0x200F

/-- The text up to the end of the line. -/
def line : List Char → List Char × List Char
  | [] => ([], [])
  | '\n' :: cs => ([], '\n' :: cs)
  | '\r' :: '\n' :: cs => ([], '\n' :: cs)
  | c :: cs => let (inside, rest) := line cs; (c :: inside, rest)

/-- The text up to the end of a comment in which `depth` further ones are open. -/
def comment? : (depth : Nat) → List Char → Option (List Char × List Char)
  | depth, '/' :: '*' :: cs =>
      (comment? (depth + 1) cs).map fun (inside, rest) => ('/' :: '*' :: inside, rest)
  | 0, '*' :: '/' :: cs => some ([], cs)
  | depth + 1, '*' :: '/' :: cs =>
      (comment? depth cs).map fun (inside, rest) => ('*' :: '/' :: inside, rest)
  | depth, c :: cs => (comment? depth cs).map fun (inside, rest) => (c :: inside, rest)
  | _, [] => none

/-- Whether a carriage return stands without a line feed after it. -/
def hasLoneReturn : List Char → Bool
  | [] => false
  | '\r' :: cs => cs.head? != some '\n' || hasLoneReturn cs
  | _ :: cs => hasLoneReturn cs

/-- A documentation comment: what it documents and its text. -/
structure DocText where
  /-- It documents what it stands in, and not what follows. -/
  isInner : Bool
  text : List Char

/-- The documentation comment at the start of the text. -/
def docText? : List Char → Option (DocText × List Char)
  | '/' :: '/' :: '!' :: cs => let (text, rest) := line cs; some (⟨true, text⟩, rest)
  | '/' :: '/' :: '/' :: '/' :: _ => none
  | '/' :: '/' :: '/' :: cs => let (text, rest) := line cs; some (⟨false, text⟩, rest)
  | '/' :: '*' :: '!' :: cs => (comment? 0 cs).map fun (text, rest) => (⟨true, text⟩, rest)
  | '/' :: '*' :: '*' :: '/' :: _ => none
  | '/' :: '*' :: '*' :: '*' :: _ => none
  | '/' :: '*' :: '*' :: cs => (comment? 0 cs).map fun (text, rest) => (⟨false, text⟩, rest)
  | _ => none

/-- Whether a comment is open at the start of the text. -/
def opensComment : List Char → Bool
  | '/' :: '/' :: _ | '/' :: '*' :: _ => true
  | _ => false

/-- The text after one blank or one comment that is no documentation. -/
def blank? : List Char → Option (List Char)
  | '/' :: '/' :: '!' :: _ => none
  | '/' :: '/' :: '/' :: '/' :: cs => some (line cs).2
  | '/' :: '/' :: '/' :: _ => none
  | '/' :: '/' :: cs => some (line cs).2
  | '/' :: '*' :: '!' :: _ => none
  | '/' :: '*' :: '*' :: '/' :: cs => some cs
  | '/' :: '*' :: '*' :: '*' :: cs => (comment? 0 ('*' :: '*' :: cs)).map (·.2)
  | '/' :: '*' :: '*' :: _ => none
  | '/' :: '*' :: cs => (comment? 0 cs).map (·.2)
  | c :: cs => if isSpace c then some cs else none
  | [] => none

/-- The text without the blanks and comments at its start. -/
def dropBlanks : (fuel : Nat) → List Char → List Char
  | 0, cs => cs
  | fuel + 1, cs =>
      match blank? cs with
      | some rest => dropBlanks fuel rest
      | none => cs

def startsName (c : Char) : Bool := c = '_' || startsIdentifier c

def continuesName (c : Char) : Bool := c = '_' || continuesIdentifier c

/-- The name at the start of the text. -/
def plainName? : List Char → Option (List Char × List Char)
  | c :: cs =>
      if startsName c then some (c :: cs.takeWhile continuesName, cs.dropWhile continuesName)
      else none
  | [] => none

/-- The words that stay keywords even after `r#`. -/
def reservedRaw : List String := ["_", "super", "self", "Self", "crate"]

/-- The name at the start of the text, which may be marked by `r#`. -/
def anyName? : List Char → Option (List Char × List Char)
  | 'r' :: '#' :: cs =>
      match plainName? cs with
      | some (name, rest) =>
          if reservedRaw.contains (String.ofList name) then none
          else some ('r' :: '#' :: name, rest)
      | none => none
  | cs => plainName? cs

/-- Beginnings of literals that no name may have. -/
def literalHeads : List String :=
  ["r\"", "r#\"", "r##", "b\"", "b'", "br\"", "br#", "c\"", "cr\"", "cr#"]

/-- The word at the start of the text. -/
def word? (cs : List Char) : Option (Tree × List Char) :=
  if literalHeads.any fun head => Text.startsWith head.toList cs then none
  else (anyName? cs).map fun (name, rest) => (.word (String.ofList name), rest)

/-- The text after a suffix of a literal, if there is one. -/
def dropSuffix (cs : List Char) : List Char :=
  ((plainName? cs).map (·.2)).getD cs

/-- The characters of punctuation. -/
def punctuation : List Char := "~!@#$%^&*-=+|;:,<.>/?'".toList

/-- Whether a punctuation mark is at the start of the text. -/
def startsMark (cs : List Char) : Bool :=
  !opensComment cs && cs.head?.any punctuation.contains

/-- The punctuation mark or the lifetime at the start of the text. -/
def mark? (cs : List Char) : Option (Tree × List Char) :=
  if !startsMark cs then none
  else match cs with
    | '\'' :: rest =>
        match anyName? rest with
        | some (name, after) =>
            let isRaw := Text.startsWith ['r', '#'] rest
            if after.head? = some '\'' || (after.head? = some '#' && !isRaw) then none
            else some (.lifetime (String.ofList name), after)
        | none => none
    | c :: rest => some (.mark c (startsMark rest), rest)
    | [] => none

end ApiDoc.Source
