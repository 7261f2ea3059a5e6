import ApiDoc.Yaml.Lexeme

/-!
# The tokens of YAML

The layout of a text becomes tokens of its own: a collection in block style opens
where an entry is indented further than what is around it, and closes where the
indent falls back.  A mapping in block style shows itself late, by the colon after
its first key; so the scanner remembers where a key may have begun, and puts the
tokens of the key in front of it when the colon comes.
-/

namespace ApiDoc.Yaml

/-- A token. -/
inductive Token
  | version
  | tagHandle (handle uri : String)
  | documentStart
  | documentEnd
  | blockSequenceStart
  | blockMappingStart
  | blockEnd
  | flowSequenceStart
  | flowSequenceEnd
  | flowMappingStart
  | flowMappingEnd
  | blockEntry
  | flowEntry
  | key
  | value
  | aliasTo (name : String)
  | anchor (name : String)
  | tag (name : TagName)
  /-- A scalar; `plain` if it has no quotes and no mark. -/
  | scalar (text : List Char) (plain : Bool)
deriving DecidableEq, Repr, Inhabited

/-- A place where a key may begin. -/
structure KeyPlace where
  /-- The number of tokens before it. -/
  position : Nat
  line : Nat
  column : Nat
  offset : Nat
  /-- It must be a key, because of its indent. -/
  required : Bool
deriving Repr, Inhabited

/-- The state of the scanner. -/
structure Scanner where
  rest : List Char
  line : Nat := 0
  column : Nat := 0
  offset : Nat := 0
  /-- The indents of the open block collections, the innermost first. -/
  indents : List Nat := []
  /-- For each open flow collection, the key that may have begun around it. -/
  outerKeys : List (Option KeyPlace) := []
  /-- The key that may have begun in the innermost collection. -/
  keyPlace : Option KeyPlace := none
  /-- Whether a key may begin here. -/
  keyAllowed : Bool := true
  /-- The tokens in reverse. -/
  tokens : List Token := []
deriving Repr, Inhabited

namespace Scanner

/-- The innermost indent, or one column before the first. -/
def indent (s : Scanner) : Int :=
  match s.indents with
  | [] => -1
  | n :: _ => n

def inFlow (s : Scanner) : Bool :=
  !s.outerKeys.isEmpty

/-- Pass one character. -/
def pass (s : Scanner) (c : Char) : Scanner :=
  { s with
    line := if isBreak c then s.line + 1 else s.line
    column := nextColumn c s.column
    offset := s.offset + 1 }

/-- Pass the text up to `rest`, which is a tail of it. -/
def moveTo (s : Scanner) (rest : List Char) : Scanner :=
  let passed := s.rest.take (s.rest.length - rest.length)
  { passed.foldl pass s with rest }

def emit (s : Scanner) (t : Token) : Scanner :=
  { s with tokens := t :: s.tokens }

/-- Put a token in front of those after a position. -/
def emitAt (s : Scanner) (position : Nat) (t : Token) : Scanner :=
  let later := s.tokens.take (s.tokens.length - position)
  let earlier := s.tokens.drop (s.tokens.length - position)
  { s with tokens := later ++ t :: earlier }

/-- Pass blanks, comments and line breaks.  A tab counts as a blank only where no
key may begin. -/
def skipGap (s : Scanner) : (comment : Bool) → List Char → Scanner
  | _, [] => { s with rest := [] }
  | comment, c :: rest =>
      if isBreak c then
        let s := s.pass c
        skipGap (if s.inFlow then s else { s with keyAllowed := true }) false rest
      else if comment then skipGap (s.pass c) true rest
      else if c = ' ' || (c = '\t' && (s.inFlow || !s.keyAllowed)) ||
          (c = '\ufeff' && s.offset = 0) then
        skipGap (s.pass c) false rest
      else if c = '#' then skipGap (s.pass c) true rest
      else { s with rest := c :: rest }

/-- A key must be on one line, and not too far from its colon. -/
def isStale (s : Scanner) (k : KeyPlace) : Bool :=
  k.line < s.line || k.offset + 1024 < s.offset

/-- Forget a place where a key can no longer begin; a required key is missing then. -/
def refresh? (s : Scanner) : Option KeyPlace → Option (Option KeyPlace)
  | none => some none
  | some k =>
      if s.isStale k then if k.required then none else some none
      else some (some k)

def dropStale? (s : Scanner) : Option Scanner := do
  return { s with
    keyPlace := ← s.refresh? s.keyPlace
    outerKeys := ← s.outerKeys.mapM s.refresh? }

/-- Close the block collections that are indented further than a column. -/
def unroll (s : Scanner) (column : Int) : Scanner :=
  if s.inFlow then s
  else
    let closed := s.indents.takeWhile fun n : Nat => column < (n : Int)
    { s with
      indents := s.indents.dropWhile fun n : Nat => column < (n : Int)
      tokens := closed.map (fun _ => Token.blockEnd) ++ s.tokens }

/-- Open a block collection if a column is indented further than what is around
it; its token goes to a position. -/
def roll (s : Scanner) (column position : Nat) (t : Token) : Scanner :=
  if !s.inFlow && s.indent < column then
    { s.emitAt position t with indents := column :: s.indents }
  else s

/-- Give up the key that may have begun here; a required one is missing then. -/
def removeKey? (s : Scanner) : Option Scanner :=
  match s.keyPlace with
  | some k => if k.required then none else some { s with keyPlace := none }
  | none => some s

/-- Remember that a key may begin here. -/
def saveKey? (s : Scanner) : Option Scanner :=
  if s.keyAllowed then do
    let s ← s.removeKey?
    return { s with
      keyPlace := some
        { position := s.tokens.length
          line := s.line
          column := s.column
          offset := s.offset
          required := !s.inFlow && s.indent = s.column } }
  else some s

/-- Emit a token after some characters, without a key before it. -/
def emitMark? (s : Scanner) (t : Token) (keyAllowed : Bool) (rest : List Char) :
    Option Scanner := do
  let s ← s.removeKey?
  return ({ s with keyAllowed }.emit t).moveTo rest

/-- Emit a token that may be a key, or a part of one. -/
def emitNode? (s : Scanner) (t : Token) (rest : List Char) : Option Scanner := do
  let s ← s.saveKey?
  return ({ s with keyAllowed := false }.emit t).moveTo rest

def openFlow? (s : Scanner) (t : Token) (rest : List Char) : Option Scanner := do
  let s ← s.saveKey?
  let s := { s with outerKeys := s.keyPlace :: s.outerKeys, keyPlace := none }
  return ({ s with keyAllowed := true }.emit t).moveTo rest

def closeFlow? (s : Scanner) (t : Token) (rest : List Char) : Option Scanner := do
  let s ← s.removeKey?
  let s := match s.outerKeys with
    | [] => s
    | k :: outerKeys => { s with keyPlace := k, outerKeys }
  return ({ s with keyAllowed := false }.emit t).moveTo rest

/-- An entry or a key with a mark of its own opens a collection in block style. -/
def openBlock? (s : Scanner) (t : Token) : Option Scanner :=
  if s.inFlow then some s
  else if s.keyAllowed then some (s.roll s.column s.tokens.length t)
  else none

/-- The colon after a key, or one that stands alone. -/
def value? (s : Scanner) (rest : List Char) : Option Scanner :=
  match s.keyPlace with
  | some k =>
      let s := (s.emitAt k.position .key).roll k.column k.position .blockMappingStart
      some (({ s with keyPlace := none, keyAllowed := false }.emit .value).moveTo rest)
  | none => do
      let s ← s.openBlock? .blockMappingStart
      return ({ s with keyAllowed := !s.inFlow }.emit .value).moveTo rest

/-- The mark at the start or the end of a document. -/
def document? (s : Scanner) (t : Token) (rest : List Char) : Option Scanner := do
  (s.unroll (-1)).emitMark? t false rest

/-- The rest of a line after a directive. -/
def directiveEnd? (cs : List Char) : Option (List Char) :=
  let cs := cs.dropWhile isBlank
  let cs := if cs.head? = some '#' then cs.dropWhile (!isBreak ·) else cs
  if atLineEnd cs then some cs else none

/-- A directive: the version of YAML, or a handle for tags. -/
def directive? (s : Scanner) (cs : List Char) : Option Scanner := do
  let s ← (s.unroll (-1)).removeKey?
  let s := { s with keyAllowed := false }
  let name := cs.takeWhile isWordChar
  let args := (cs.dropWhile isWordChar).dropWhile isBlank
  match String.ofList name with
  | "YAML" =>
      match args with
      | '1' :: '.' :: more =>
          if ["1", "2"].contains (String.ofList (more.takeWhile Char.isDigit)) then
            return (s.emit .version).moveTo (← directiveEnd? (more.dropWhile Char.isDigit))
          else none
      | _ => none
  | "TAG" =>
      match args with
      | '!' :: more =>
          let word := more.takeWhile isWordChar
          let (handle, more) ← match more.dropWhile isWordChar with
            | '!' :: more => some ('!' :: word ++ ['!'], more)
            | more => if word.isEmpty then some (['!'], more) else none
          let uri := (more.dropWhile isBlank).takeWhile (isTagChar true)
          let tail := (more.dropWhile isBlank).dropWhile (isTagChar true)
          if !more.head?.any isBlank || uri.isEmpty || !atGap tail then none
          else
            return (s.emit (.tagHandle (String.ofList handle) (String.ofList uri))).moveTo
              (← directiveEnd? tail)
      | _ => none
  | _ => none

def anchored? (s : Scanner) (t : String → Token) (cs : List Char) : Option Scanner := do
  let (name, rest) ← anchorName cs
  s.emitNode? (t name) rest

/-- A block scalar: no key may end in it, and one may begin after it. -/
def block? (s : Scanner) (literal : Bool) (cs : List Char) : Option Scanner := do
  let (text, rest) ← blockScalar literal s.indent cs
  s.emitMark? (.scalar text false) true rest

/-- A scalar without marks.  After its last line a key may begin again. -/
def plain? (s : Scanner) : Option Scanner := do
  let s ← s.saveKey?
  let (text, lines, rest) ← plainScalar s.inFlow (s.indent + 1) s.column Gap.none [] s.rest
  return ({ s with keyAllowed := lines }.emit (.scalar text.reverse true)).moveTo rest

/-- Whether a plain scalar may begin with a character before a text. -/
def startsPlain (flow : Bool) (c : Char) (rest : List Char) : Bool :=
  if isBlank c then false
  else if c = '-' then !rest.head?.any isBlank
  else if c = '?' || c = ':' then !flow && !atGap rest
  else !([',', '[', ']', '\x7b', '\x7d', '#', '&', '*', '!', '|', '>', '\'', '"', '%', '@',
    '`'].contains c)

/-- The next token of a text that is not at its end. -/
def next? (s : Scanner) (c : Char) (rest : List Char) : Option Scanner :=
  let spaced := atGap rest
  if s.column = 0 && c = '%' then s.directive? rest
  else if s.column = 0 && atDocumentMark s.rest then
    s.document? (if c = '-' then .documentStart else .documentEnd) (rest.drop 2)
  else
    match c with
    | '[' => s.openFlow? .flowSequenceStart rest
    | '\x7b' => s.openFlow? .flowMappingStart rest
    | ']' => s.closeFlow? .flowSequenceEnd rest
    | '\x7d' => s.closeFlow? .flowMappingEnd rest
    | ',' => s.emitMark? .flowEntry true rest
    | '*' => s.anchored? .aliasTo rest
    | '&' => s.anchored? .anchor rest
    | '!' => do
        let (name, rest) ← tagName s.inFlow rest
        s.emitNode? (.tag name) rest
    | '\'' => do
        let (text, rest) ← singleQuoted (s.column + 1) Gap.none [] rest
        s.emitNode? (.scalar text.reverse false) rest
    | '"' => do
        let (text, rest) ← doubleQuoted (s.column + 1) .plain Gap.none [] rest
        s.emitNode? (.scalar text.reverse false) rest
    | _ =>
        if c = '-' && spaced then do
          (← s.openBlock? .blockSequenceStart).emitMark? .blockEntry true rest
        else if c = '?' && (s.inFlow || spaced) then do
          (← s.openBlock? .blockMappingStart).emitMark? .key (!s.inFlow) rest
        else if c = ':' && (s.inFlow || spaced) then s.value? rest
        else if c = '|' && !s.inFlow then s.block? true rest
        else if c = '>' && !s.inFlow then s.block? false rest
        else if startsPlain s.inFlow c rest then s.plain?
        else none

/-- All tokens up to the end.  Every token takes at least one character. -/
def all? : (fuel : Nat) → Scanner → Option (List Token)
  | 0, _ => none
  | fuel + 1, s => do
      let s ← (s.skipGap false s.rest).dropStale?
      match s.rest with
      | [] => return (← (s.unroll (-1)).removeKey?).tokens.reverse
      | c :: rest => all? fuel (← (s.unroll s.column).next? c rest)

end Scanner

/-- The tokens of a text. -/
def Token.scan? (text : List Char) : Option (List Token) :=
  if text.all isAllowed then
    let text := normalizeBreaks text
    Scanner.all? (text.length + 1) { rest := text }
  else none

end ApiDoc.Yaml
