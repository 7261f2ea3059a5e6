import ApiDoc.Binary64.Numeral
import ApiDoc.Yaml.Alphabet

/-!
# The lexemes of YAML

Each reader takes the text after the mark that opens a lexeme, and gives what the
lexeme says with the text after it; it gives nothing for a malformed lexeme.  Line
breaks are normalized before.

A scalar that goes over several lines is folded: a single line break between words
is a space, and further ones are kept.  What stands between two words of such a
scalar is a gap.
-/

namespace ApiDoc.Yaml

/-- What stands between two words of a scalar. -/
inductive Gap
  /-- Blanks, in reverse. -/
  | blanks (cs : List Char)
  /-- Line breaks: the first one, unless it is escaped, and the others in reverse. -/
  | lines (first : Option Char) (more : List Char)
deriving Repr, Inhabited

namespace Gap

/-- Nothing between two characters. -/
def none : Gap := .blanks []

/-- The text that a gap leaves. -/
def text : Gap → List Char
  | .blanks cs => cs.reverse
  | .lines (some '\n') [] => [' ']
  | .lines (some '\n') more => more.reverse
  | .lines first more => first.toList ++ more.reverse

/-- A gap with one more blank; blanks after a line break do not count. -/
def addBlank (c : Char) : Gap → Gap
  | .blanks cs => .blanks (c :: cs)
  | g => g

/-- A gap with one more line break; blanks before the first one do not count. -/
def addBreak (c : Char) : Gap → Gap
  | .blanks _ => .lines (some c) []
  | .lines first more => .lines first (c :: more)

/-- Whether there is a line break in it. -/
def hasBreak : Gap → Bool
  | .blanks _ => false
  | .lines .. => true

/-- The start of a word: something stands before it. -/
def isWide : Gap → Bool
  | .blanks [] => false
  | _ => true

end Gap

/-- The mark of the start or the end of a document, as it stands at the beginning of
a line. -/
def atDocumentMark : List Char → Bool
  | '-' :: '-' :: '-' :: rest => atGap rest
  | '.' :: '.' :: '.' :: rest => atGap rest
  | _ => false

/-- The column after a character. -/
def nextColumn (c : Char) (column : Nat) : Nat :=
  if isBreak c then 0 else column + 1

/-- What a flow collection marks with. -/
def isFlowMark (c : Char) : Bool :=
  c = ',' || c = '[' || c = ']' || c = '\x7b' || c = '\x7d'

/-- Where the scan of a plain scalar stands before a character that is no gap. -/
inductive PlainStop
  | stop
  | error
  | go
deriving DecidableEq

/-- Whether a plain scalar ends before this text, in a flow collection or outside. -/
def plainStop (flow : Bool) : List Char → PlainStop
  | ':' :: rest =>
      if flow && (rest.head?.any fun c => isFlowMark c || c = '?') then .error
      else if atGap rest then .stop
      else .go
  | c :: _ => if flow && isFlowMark c then .stop else .go
  | [] => .stop

/-- A plain scalar up to its end: its characters in reverse, and whether lines were
passed after its last word.  Outside flow collections every line of it begins at
column `least` or later. -/
def plainScalar (flow : Bool) (least : Int) (column : Nat) (gap : Gap) (acc : List Char) :
    List Char → Option (List Char × Bool × List Char)
  | [] => some (acc, gap.hasBreak, [])
  | c :: rest =>
      if isBlank c then
        if gap.hasBreak && (column : Int) < least && c = '\t' then none
        else plainScalar flow least (column + 1) (gap.addBlank c) acc rest
      else if isBreak c then plainScalar flow least 0 (gap.addBreak c) acc rest
      else if gap.isWide &&
          ((gap.hasBreak && !flow && (column : Int) < least) || c = '#' ||
            (column = 0 && atDocumentMark (c :: rest))) then
        some (acc, gap.hasBreak, c :: rest)
      else
        match plainStop flow (c :: rest) with
        | .error => none
        | .stop => some (acc, gap.hasBreak, c :: rest)
        | .go =>
            plainScalar flow least (column + 1) Gap.none (c :: (gap.text.reverse ++ acc)) rest

/-- A scalar in single quotes, where a quote is written twice. -/
def singleQuoted (column : Nat) (gap : Gap) (acc : List Char) :
    List Char → Option (List Char × List Char)
  | [] => none
  | '\'' :: '\'' :: rest =>
      singleQuoted (column + 2) Gap.none ('\'' :: (gap.text.reverse ++ acc)) rest
  | c :: rest =>
      if isBlank c then singleQuoted (column + 1) (gap.addBlank c) acc rest
      else if isBreak c then singleQuoted 0 (gap.addBreak c) acc rest
      else if column = 0 && atDocumentMark (c :: rest) then none
      else if c = '\'' then some (gap.text.reverse ++ acc, rest)
      else singleQuoted (column + 1) Gap.none (c :: (gap.text.reverse ++ acc)) rest

/-- The character behind an escape of one letter. -/
def escape? : Char → Option Char
  | '0' => some '\x00'
  | 'a' => some '\x07'
  | 'b' => some '\x08'
  | 't' | '\t' => some '\t'
  | 'n' => some '\n'
  | 'v' => some '\x0b'
  | 'f' => some '\x0c'
  | 'r' => some '\r'
  | 'e' => some '\x1b'
  | ' ' => some ' '
  | '"' => some '"'
  | '\'' => some '\''
  | '/' => some '/'
  | '\\' => some '\\'
  | 'N' => some '\u0085'
  | '_' => some '\u00a0'
  | 'L' => some '\u2028'
  | 'P' => some '\u2029'
  | _ => none

/-- The value of a hexadecimal digit. -/
def hexDigit? (c : Char) : Option Nat :=
  if c.isDigit then some (c.toNat - '0'.toNat)
  else if 'a' ≤ c && c ≤ 'f' then some (c.toNat - 'a'.toNat + 10)
  else if 'A' ≤ c && c ≤ 'F' then some (c.toNat - 'A'.toNat + 10)
  else none

/-- The character with a code; surrogates are none. -/
def charOf? (code : Nat) : Option Char :=
  if h : code.isValidChar then some (Char.ofNatAux code h) else none

/-- How many digits an escape has. -/
def escapeWidth? : Char → Option Nat
  | 'x' => some 2
  | 'u' => some 4
  | 'U' => some 8
  | _ => none

/-- What is being read inside double quotes. -/
inductive QuotedMode
  | plain
  /-- After a backslash. -/
  | escape
  /-- In the digits of an escape. -/
  | code (left value : Nat)
deriving Repr, Inhabited

/-- A scalar in double quotes.  A backslash before a line break joins two lines. -/
def doubleQuoted (column : Nat) (mode : QuotedMode) (gap : Gap) (acc : List Char) :
    List Char → Option (List Char × List Char)
  | [] => none
  | c :: rest =>
      let next := nextColumn c column
      match mode with
      | .escape =>
          if isBreak c then doubleQuoted next .plain (.lines Option.none []) acc rest
          else
            match escapeWidth? c with
            | some width => doubleQuoted next (.code width 0) gap acc rest
            | Option.none =>
                match escape? c with
                | some e => doubleQuoted next .plain gap (e :: acc) rest
                | Option.none => Option.none
      | .code left value =>
          match hexDigit? c with
          | Option.none => Option.none
          | some d =>
              let value := 16 * value + d
              if left ≤ 1 then
                match charOf? value with
                | some e => doubleQuoted next .plain gap (e :: acc) rest
                | Option.none => Option.none
              else doubleQuoted next (.code (left - 1) value) gap acc rest
      | .plain =>
          if isBlank c then doubleQuoted next .plain (gap.addBlank c) acc rest
          else if isBreak c then doubleQuoted next .plain (gap.addBreak c) acc rest
          else if column = 0 && atDocumentMark (c :: rest) then Option.none
          else
            let acc := gap.text.reverse ++ acc
            if c = '"' then some (acc, rest)
            else if c = '\\' then doubleQuoted next .escape Gap.none acc rest
            else doubleQuoted next .plain Gap.none (c :: acc) rest

/-- One line of a text, with the break that ends it. -/
structure Line where
  text : List Char
  mark : Option Char
deriving Repr, Inhabited

/-- Put one more character in front of the first line. -/
def growLine (c : Char) : List Line → List Line
  | [] => [⟨[c], none⟩]
  | line :: lines => { line with text := c :: line.text } :: lines

/-- The lines of a text; the last one may be empty. -/
def splitLines : List Char → List Line
  | [] => [⟨[], none⟩]
  | c :: cs =>
      if isBreak c then ⟨[], some c⟩ :: splitLines cs else growLine c (splitLines cs)

def joinLines (lines : List Line) : List Char :=
  lines.flatMap fun line => line.text ++ line.mark.toList

/-- The head of a block scalar: what happens to the breaks at its end, and how far
it is indented, if that is given. -/
structure BlockHead where
  /-- Keep all breaks (`true`), none (`false`), or one. -/
  keep : Option Bool := none
  indent : Option Nat := none
deriving Repr, Inhabited

/-- A mark of the head and its digit, in either order. -/
def blockHead : List Char → Option (BlockHead × List Char) :=
  let keep? := fun c : Char => if c = '+' then some true else if c = '-' then some false else none
  let digit? := fun c : Char => if c.isDigit then some (c.toNat - '0'.toNat) else none
  fun cs =>
    match cs with
    | [] => some ({}, [])
    | c :: rest =>
        match keep? c, digit? c with
        | some keep, _ =>
            match rest with
            | d :: more =>
                match digit? d with
                | some 0 => none
                | some n => some ({ keep, indent := some n }, more)
                | none => some ({ keep }, rest)
            | [] => some ({ keep }, [])
        | none, some 0 => none
        | none, some n =>
            match rest with
            | d :: more =>
                match keep? d with
                | some keep => some ({ keep, indent := some n }, more)
                | none => some ({ indent := some n }, rest)
            | [] => some ({ indent := some n }, [])
        | none, none => some ({}, cs)

/-- The text after the head of a block scalar must be blank or a comment. -/
def isHeadEnd (cs : List Char) : Bool :=
  match cs.dropWhile isBlank with
  | [] => true
  | c :: _ => c = '#'

/-- The leading lines of a block scalar that are nothing but spaces, up to a given
indent: their breaks, the greatest indent, and the other lines.  A tab in the place
of a space is an error. -/
def blankLines (indent : Option Nat) (widest : Nat) (breaks : List Char) :
    List Line → Option (List Char × Nat × List Line)
  | [] => some (breaks.reverse, widest, [])
  | line :: rest =>
      let spaces := (line.text.takeWhile (· = ' ')).length
      let width := match indent with
        | some n => min n spaces
        | none => spaces
      let body := line.text.drop width
      let widest := max widest width
      let inside := match indent with
        | some n => decide (width < n)
        | none => true
      if inside && body.head? = some '\t' then none
      else
        match body, line.mark with
        | [], some c => blankLines indent widest (c :: breaks) rest
        | _, _ => some (breaks.reverse, widest, line :: rest)

/-- What a block scalar holds so far. -/
structure Block where
  acc : List Char := []
  /-- The break of the last line. -/
  last : List Char := []
  /-- The breaks of the blank lines after it. -/
  breaks : List Char := []
  /-- The last line begins with a blank. -/
  indented : Bool := false
deriving Repr, Inhabited

/-- Add a line and its break.  In a folded scalar, a single break between two lines
that are not indented further is a space. -/
def Block.addLine (literal : Bool) (b : Block) (text : List Char) (mark : Option Char) : Block :=
  let indented := text.head?.any isBlank
  let fold := !literal && b.last = ['\n'] && !b.indented && !indented
  let join := if fold then (if b.breaks.isEmpty then [' '] else []) else b.last
  { acc := b.acc ++ join ++ b.breaks ++ text
    last := mark.toList
    breaks := []
    indented }

/-- The text of a finished block scalar. -/
def Block.finish (keep : Option Bool) (b : Block) : List Char :=
  match keep with
  | some false => b.acc
  | none => b.acc ++ b.last
  | some true => b.acc ++ b.last ++ b.breaks

/-- The lines of a block scalar that are indented by at least `indent`.  Blank lines
belong to it whatever their indent. -/
def blockLines (literal : Bool) (indent : Nat) (b : Block) :
    List Line → Option (Block × List Line)
  | [] => some (b, [])
  | line :: rest =>
      let spaces := (line.text.takeWhile (· = ' ')).length
      let width := min indent spaces
      let body := line.text.drop width
      match body, line.mark with
      | [], some c => blockLines literal indent { b with breaks := b.breaks ++ [c] } rest
      | [], none => some (b, line :: rest)
      | c :: _, mark =>
          if width < indent then if c = '\t' then none else some (b, line :: rest)
          else blockLines literal indent (b.addLine literal body mark) rest

/-- A block scalar after its mark; `outer` is the indent around it. -/
def blockScalar (literal : Bool) (outer : Int) (cs : List Char) :
    Option (List Char × List Char) := do
  let (head, cs) ← blockHead cs
  match splitLines cs with
  | [] => none
  | first :: lines =>
      if !isHeadEnd first.text then none
      else
        let given := head.indent.map fun n => if 0 ≤ outer then outer.toNat + n else n
        let (breaks, widest, lines) ← blankLines given 0 [] lines
        let indent := given.getD (max widest (max (outer + 1).toNat 1))
        let (b, rest) ← blockLines literal indent { breaks } lines
        return (b.finish head.keep, joinLines rest)

/-- The name of an anchor or an alias, with the text after it. -/
def anchorName (cs : List Char) : Option (String × List Char) :=
  let name := cs.takeWhile isWordChar
  let rest := cs.dropWhile isWordChar
  let ends := atGap rest ||
    rest.head?.any fun c => ['?', ':', ',', ']', '\x7d', '%', '@', '`'].contains c
  if name.isEmpty || !ends then none else some (String.ofList name, rest)

/-- The characters of a tag; commas and square brackets only between pointed
brackets. -/
def isTagChar (verbatim : Bool) (c : Char) : Bool :=
  isWordChar c || [';', '/', '?', ':', '@', '&', '=', '+', '$', '.', '%', '!', '~', '*', '\'',
    '(', ')'].contains c || (verbatim && [',', '[', ']'].contains c)

/-- A tag as it is written: a handle and the rest. -/
structure TagName where
  handle : String
  suffix : String
deriving DecidableEq, Repr, Inhabited

/-- A tag after its mark. -/
def tagName (flow : Bool) (cs : List Char) : Option (TagName × List Char) := do
  let (name, rest) ← match cs with
    | '<' :: cs =>
        let uri := cs.takeWhile (isTagChar true)
        match cs.dropWhile (isTagChar true) with
        | '>' :: rest =>
            if uri.isEmpty then none else some (⟨"", String.ofList uri⟩, rest)
        | _ => none
    | _ =>
        let word := cs.takeWhile isWordChar
        match cs.dropWhile isWordChar with
        | '!' :: cs =>
            let suffix := cs.takeWhile (isTagChar false)
            if suffix.isEmpty then none
            else some (⟨String.ofList ('!' :: word ++ ['!']), String.ofList suffix⟩,
              cs.dropWhile (isTagChar false))
        | _ =>
            let suffix := cs.takeWhile (isTagChar false)
            let name : TagName :=
              if suffix.isEmpty then ⟨"", "!"⟩ else ⟨"!", String.ofList suffix⟩
            some (name, cs.dropWhile (isTagChar false))
  if atGap rest || (flow && rest.head? = some ',') then some (name, rest) else none

end ApiDoc.Yaml
