import ApiDoc.DocComment.Block
import ApiDoc.Error
import ApiDoc.Scalar

/-!
# Bodies of tags

A body is an object of JSON, or a list of entries `key: value`.  Each line holds
entries separated by commas; a piece that does not open with a key belongs to
the value before it.  Values are lists in brackets, JSON objects, quoted texts,
or scalars that are read by their look.
-/

namespace ApiDoc.TagBody

def isQuote (c : Char) : Bool :=
  c = '"' || c = '\''

/-- Leave out one quote at the start. -/
def dropQuote : List Char → List Char
  | c :: cs => if isQuote c then cs else c :: cs
  | [] => []

def startsKey (c : Char) : Bool :=
  c.isAlpha || c = '_' || c = '$'

def continuesKey (c : Char) : Bool :=
  Text.isWord c || c = '.' || c = '-' || c = '$'

/-- Whether a piece opens with a key and a colon; one quote may stand on either
side of the key. -/
def opensWithKey (piece : List Char) : Bool :=
  match dropQuote (Text.trimStart piece) with
  | c :: cs =>
      startsKey c &&
        (Text.trimStart (dropQuote (cs.dropWhile continuesKey))).head? == some ':'
  | [] => false

/-- The pieces of a text between line breaks and commas outside brackets and
strings; the flag says that a comma stands in front. -/
def pieces (text : List Char) : List (Bool × List Char) :=
  (Text.splitTop '\n' text).flatMap fun line =>
    match Text.splitTop ',' line with
    | first :: rest => (false, first) :: rest.map fun piece => (true, piece)
    | [] => []

/-- Lengthen an entry by a piece without a key. -/
def extendEntry (entry : List Char) (afterComma : Bool) (piece : List Char) : List Char :=
  let entry := if afterComma then entry ++ [','] else entry
  if piece.isEmpty then entry else entry ++ ' ' :: piece

/-- Group pieces into entries, last entry first.  A piece without a key before
the first entry is an error. -/
def groupFrom (entries : List (List Char)) :
    List (Bool × List Char) → Except (List Char) (List (List Char))
  | [] => .ok entries
  | (afterComma, piece) :: rest =>
      if opensWithKey piece then groupFrom (Text.trim piece :: entries) rest
      else
        match entries, Text.trim piece with
        | entry :: entries, piece =>
            groupFrom (extendEntry entry afterComma piece :: entries) rest
        | [], [] => groupFrom [] rest
        | [], piece => .error piece

/-- The entries of a body. -/
def entries (text : List Char) : Except (List Char) (List (List Char)) :=
  (groupFrom [] (pieces text)).map List.reverse

/-- The text between the first and the last character. -/
def inner (raw : List Char) : List Char :=
  (raw.drop 1).dropLast

/-- Whether a text stands between two different characters. -/
def enclosed (opening closing : Char) (raw : List Char) : Bool :=
  raw.head? == some opening && raw.getLast? == some closing

/-- Read a value; nothing for braces that do not hold JSON. -/
def value? : (fuel : Nat) → List Char → Option Json
  | 0, _ => none
  | fuel + 1, raw =>
      if enclosed '[' ']' raw then
        match Text.trim (inner raw) with
        | [] => some (.arr [])
        | items =>
            (((Text.splitTop ',' items).mapM fun item => value? fuel (Text.trim item))).map .arr
      else if enclosed '\x7b' '\x7d' raw then Json.read? raw
      else if 2 ≤ raw.length && (enclosed '"' '"' raw || enclosed '\'' '\'' raw) then
        some (.str (String.ofList (Text.replaceAll ['\\', '"'] ['"'] (inner raw))))
      else if raw = "null".toList then some .null
      else some (Scalar.guess (String.ofList raw))

/-- Key and value of an entry. -/
def entry (body : List Char) (text : List Char) : Except Error (String × Json) :=
  match Text.cutFirst? ':' text with
  | none => .error (.badTag (String.ofList body) (.missingKey (String.ofList text)))
  | some (key, raw) =>
      let raw := Text.trim raw
      match value? (raw.length + 1) raw with
      | some j => .ok (String.ofList (Text.unquote (Text.trim key)), j)
      | none => .error (.badTag (String.ofList body) .badJson)

/-- Leave out parentheses around the whole body. -/
def unwrap (text : List Char) : List Char :=
  match Text.parenthesized? text with
  | some (body, []) => Text.trim body
  | _ => text

/-- Read a body as a map; a repeated key keeps its place and takes the later
value. -/
def parse (body : String) : Except Error (List (String × Json)) :=
  let text := unwrap (Text.trim body.toList)
  if text.isEmpty then .ok []
  else if enclosed '\x7b' '\x7d' text then
    match Json.read? text with
    | some (.obj members) => .ok members
    | some _ => .error (.badTag (String.ofList text) .notAnObject)
    | none => .error (.badTag (String.ofList text) .badJson)
  else
    match entries text with
    | .error piece => .error (.badTag (String.ofList text) (.missingKey (String.ofList piece)))
    | .ok es => (es.mapM (entry text)).map Dict.merged

end ApiDoc.TagBody

namespace ApiDoc

/-- What a comment says, with the body of one of its tags. -/
structure CommentProperties where
  deprecated : Bool := false
  summary : String := ""
  description : String := ""
  entries : List (String × Json) := []
deriving Repr, Inhabited

namespace CommentProperties

/-- Read a comment and the first of its tags with the given name; a blank
comment says nothing. -/
def read (raw : Option String) (tag : String) : Except Error CommentProperties :=
  match raw.filter fun text => !Text.allBlank text.toList with
  | none => .ok {}
  | some raw => do
      let block := DocBlock.parse raw
      let entries ← match block.firstBody? tag with
        | some body => TagBody.parse body
        | none => .ok []
      return {
        deprecated := block.hasTag "deprecated"
        summary := block.summary
        description := block.description
        entries }

end CommentProperties

end ApiDoc
