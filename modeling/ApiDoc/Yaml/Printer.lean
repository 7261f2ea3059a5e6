import ApiDoc.Binary64.Shortest
import ApiDoc.Yaml.Plain
import ApiDoc.Yaml.Alphabet

/-!
# Writing YAML

Collections are in block style, and empty ones in flow style.  A sequence is not
indented under its key.  A text is plain where it reads back as itself, in single
quotes where it would not, and in double quotes where it has characters that need an
escape.  A text of several lines is a literal block if it can be one.
-/

namespace ApiDoc.Yaml

/-- How a text is written. -/
inductive Style
  | plain
  | single
  | double
  | literal
deriving DecidableEq, Repr, Inhabited

/-- Whether two neighbours satisfy two predicates. -/
def hasPair (p q : Char → Bool) : List Char → Bool
  | a :: b :: rest => (p a && q b) || hasPair p q (b :: rest)
  | _ => false

def isSpace (c : Char) : Bool :=
  c = ' '

/-- A character that must be escaped, or a space at the end of a line. -/
def needsEscape (cs : List Char) : Bool :=
  cs.any (!isPrintable ·) || hasPair isSpace isBreak cs

/-- A line that begins with a space. -/
def hasIndentedLine (cs : List Char) : Bool :=
  hasPair isBreak isSpace cs

/-- A space or a line break at one of the ends. -/
def hasLooseEnd (cs : List Char) : Bool :=
  let loose := fun c : Char => isSpace c || isBreak c
  cs.head?.any loose || cs.getLast?.any loose

/-- Marks of the syntax after the first character: a colon before a gap, or a comment
after one. -/
def hasInnerMark : List Char → Bool
  | a :: b :: rest =>
      (b = ':' && atGap rest) || (b = '#' && atGap [a]) || hasInnerMark (b :: rest)
  | _ => false

/-- A first character that means something else than itself. -/
def hasLeadingMark : List Char → Bool
  | [] => false
  | c :: rest =>
      ['#', ',', '[', ']', '\x7b', '\x7d', '&', '*', '!', '|', '>', '\'', '"', '%', '@',
        '`'].contains c || (['?', ':', '-'].contains c && atGap rest)

/-- Whether a text begins like the mark of a document. -/
def hasDocumentMark : List Char → Bool
  | '-' :: '-' :: '-' :: _ => true
  | '.' :: '.' :: '.' :: _ => true
  | _ => false

/-- Whether a text can stand without quotes. -/
def plainAllowed (cs : List Char) : Bool :=
  !hasLooseEnd cs && !cs.any isBreak && !needsEscape cs && !hasDocumentMark cs &&
    !hasLeadingMark cs && !hasInnerMark cs

def singleAllowed (cs : List Char) : Bool :=
  !hasIndentedLine cs && !needsEscape cs

def literalAllowed (cs : List Char) : Bool :=
  !cs.getLast?.any isSpace && !needsEscape cs

/-- Whether a plain text would read as something else. -/
def readsOtherwise (cs : List Char) : Bool :=
  Plain.ofText cs ≠ .text || Plain.hasLeadingZero cs

/-- The style of a text. -/
def Style.ofText (cs : List Char) : Style :=
  if cs.contains '\n' then if literalAllowed cs then .literal else .double
  else if !readsOtherwise cs && plainAllowed cs then .plain
  else if singleAllowed cs then .single
  else .double

def spaces (count : Nat) : List Char :=
  List.replicate count ' '

/-- A text in single quotes; the line after a break is indented. -/
def singleQuotedText (indent : Nat) (afterBreak : Bool) : List Char → List Char
  | [] => (if afterBreak then spaces indent else []) ++ ['\'']
  | c :: cs =>
      if isBreak c then c :: singleQuotedText indent true cs
      else
        (if afterBreak && !isSpace c then spaces indent else []) ++
          (if c = '\'' then ['\'', '\''] else [c]) ++ singleQuotedText indent false cs

/-- A hexadecimal number with capital letters and at least so many digits. -/
def hexText (width n : Nat) : List Char :=
  let digits := (Nat.toDigits 16 n).map Char.toUpper
  List.replicate (width - digits.length) '0' ++ digits

/-- The escape of a character. -/
def escapeText (c : Char) : List Char :=
  let letter := match c with
    | '\x00' => some '0'
    | '\x07' => some 'a'
    | '\x08' => some 'b'
    | '\t' => some 't'
    | '\n' => some 'n'
    | '\x0b' => some 'v'
    | '\x0c' => some 'f'
    | '\r' => some 'r'
    | '\x1b' => some 'e'
    | '"' => some '"'
    | '\\' => some '\\'
    | '\u0085' => some 'N'
    | '\u2028' => some 'L'
    | '\u2029' => some 'P'
    | _ => none
  let n := c.toNat
  match letter with
  | some l => ['\\', l]
  | none =>
      if n ≤ 0xFF then '\\' :: 'x' :: hexText 2 n
      else if n ≤ 0xFFFF then '\\' :: 'u' :: hexText 4 n
      else '\\' :: 'U' :: hexText 8 n

/-- A character in double quotes. -/
def doubleQuotedChar (c : Char) : List Char :=
  if !isPrintable c || isBreak c || c = '"' || c = '\\' then escapeText c else [c]

/-- The head of a literal block: its indent, if the text begins with a space or a
break, and what happens to the break at its end. -/
def literalHead (cs : List Char) : List Char :=
  let hint := if cs.head?.any fun c => isSpace c || isBreak c then ['2'] else []
  let chomp :=
    match cs.reverse with
    | a :: rest =>
        if !isBreak a then ['-']
        else if rest.head?.all isBreak then ['+']
        else []
    | [] => ['-']
  '|' :: hint ++ chomp

/-- The lines of a literal block; empty ones are not indented. -/
def literalLines (indent : Nat) (atStart : Bool) : List Char → List Char
  | [] => []
  | c :: cs =>
      if isBreak c then c :: literalLines indent true cs
      else (if atStart then spaces indent else []) ++ c :: literalLines indent false cs

/-- A text in its style.  What does not fit one line is indented to a column, and ends
its last line. -/
def textScalar (indent : Nat) (s : String) : List Char :=
  let cs := s.toList
  match Style.ofText cs with
  | .plain => cs
  | .single => '\'' :: singleQuotedText indent false cs
  | .double => '"' :: cs.flatMap doubleQuotedChar ++ ['"']
  | .literal => literalHead cs ++ '\n' :: literalLines indent true cs

/-- End a line, unless the text has ended it. -/
def endLine (cs : List Char) : List Char :=
  if cs.getLast?.any isBreak then cs else cs ++ ['\n']

/-- Numbers have no plus sign in their exponents. -/
def numberLayout : Binary64.Layout := ⟨false⟩

/-- A number; infinities and the missing number cannot occur in a value. -/
def numberText : Number → List Char
  | .int i => (toString i).toList
  | .float x => (x.text numberLayout).toList

/-- A key that is too long, or has several lines, needs a mark of its own. -/
def isSimpleKey (key : String) : Bool :=
  !key.toList.any isBreak && key.utf8ByteSize ≤ 128

/-- A value on one line, or a text in a block. -/
def scalarText (indent : Nat) : Json → List Char
  | .null => ['n', 'u', 'l', 'l']
  | .bool b => (toString b).toList
  | .num n => numberText n
  | .str s => textScalar indent s
  | .arr _ => ['[', ']']
  | .obj _ => ['\x7b', '\x7d']

mutual

/-- A value after the mark of a sequence item or a long key, in a collection at some
indent; what follows on further lines is indented by two more. -/
def itemText (indent : Nat) : Json → List Char
  | .arr (j :: items) => ' ' :: itemsText (indent + 2) true (j :: items)
  | .obj (m :: members) => ' ' :: membersText (indent + 2) true (m :: members)
  | j => ' ' :: endLine (scalarText (indent + 2) j)
termination_by structural j => j

/-- A value after its key in a mapping at some indent. -/
def valueText (indent : Nat) : Json → List Char
  | .arr (j :: items) => '\n' :: itemsText indent false (j :: items)
  | .obj (m :: members) => '\n' :: membersText (indent + 2) false (m :: members)
  | j => ' ' :: endLine (scalarText (indent + 2) j)
termination_by structural j => j

/-- The items of a sequence; the first one may stand on a line that has begun. -/
def itemsText (indent : Nat) (begun : Bool) : List Json → List Char
  | [] => []
  | j :: items =>
      (if begun then [] else spaces indent) ++ '-' :: itemText indent j ++
        itemsText indent false items
termination_by structural items => items

/-- The entries of a mapping; the first one may stand on a line that has begun. -/
def membersText (indent : Nat) (begun : Bool) : List (String × Json) → List Char
  | [] => []
  | (key, j) :: members =>
      (if begun then [] else spaces indent) ++
        (if isSimpleKey key then textScalar (indent + 2) key ++ ':' :: valueText indent j
          else
            '?' :: ' ' :: endLine (textScalar (indent + 2) key) ++ spaces indent ++
              ':' :: itemText indent j) ++
        membersText indent false members
termination_by structural members => members

end

/-- A value as a document. -/
def render (j : Json) : String :=
  String.ofList (match j with
    | .arr (j :: items) => itemsText 0 false (j :: items)
    | .obj (m :: members) => membersText 0 false (m :: members)
    | j => endLine (scalarText 2 j))

end ApiDoc.Yaml
