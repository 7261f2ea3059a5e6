import ApiDoc.Binary64.Shortest
import ApiDoc.Json.Basic

/-!
# Writing JSON

Two layouts: `compact` on one line without spaces, `pretty` with two spaces of
indentation for each level.  Both write members in their order, repeated keys
included, and leave characters outside the controls, the quote and the
backslash as they are.
-/

namespace ApiDoc

/-- Numbers of extraordinary size have a sign before their exponent. -/
def Number.layout : Binary64.Layout := ⟨true⟩

def Number.text : Number → String
  | .int i => toString i
  | .float x => x.text layout

namespace Json

def hexDigit (n : Nat) : Char :=
  if n < 10 then Char.ofNat ('0'.toNat + n) else Char.ofNat ('a'.toNat + (n - 10))

/-- The text of one character inside a string. -/
def escape (c : Char) : List Char :=
  match c with
  | '"' => ['\\', '"']
  | '\\' => ['\\', '\\']
  | '\x08' => ['\\', 'b']
  | '\x0c' => ['\\', 'f']
  | '\n' => ['\\', 'n']
  | '\r' => ['\\', 'r']
  | '\t' => ['\\', 't']
  | c =>
      let n := c.toNat
      if n < 0x20 then ['\\', 'u', '0', '0', hexDigit (n / 16), hexDigit (n % 16)] else [c]

/-- A string between quotes. -/
def quoted (s : String) : String :=
  String.ofList ('"' :: s.toList.flatMap escape ++ ['"'])

mutual

/-- On one line, without spaces. -/
def compact : Json → String
  | .null => "null"
  | .bool b => toString b
  | .num n => n.text
  | .str s => quoted s
  | .arr items => "[" ++ compactItems items ++ "]"
  | .obj members => "\x7b" ++ compactMembers members ++ "\x7d"
termination_by structural j => j

def compactItems : List Json → String
  | [] => ""
  | [j] => compact j
  | j :: rest => compact j ++ "," ++ compactItems rest
termination_by structural items => items

def compactMembers : List (String × Json) → String
  | [] => ""
  | [(k, j)] => quoted k ++ ":" ++ compact j
  | (k, j) :: rest => quoted k ++ ":" ++ compact j ++ "," ++ compactMembers rest
termination_by structural members => members

end

/-- A new line with its indentation. -/
def newLine (level : Nat) : String :=
  "\n" ++ String.ofList (List.replicate (2 * level) ' ')

mutual

/-- With a line for each item and member. -/
def prettyAt (level : Nat) : Json → String
  | .arr [] => "[]"
  | .obj [] => "\x7b\x7d"
  | .arr items => "[" ++ prettyItems (level + 1) items ++ newLine level ++ "]"
  | .obj members => "\x7b" ++ prettyMembers (level + 1) members ++ newLine level ++ "\x7d"
  | .null => "null"
  | .bool b => toString b
  | .num n => n.text
  | .str s => quoted s
termination_by structural j => j

def prettyItems (level : Nat) : List Json → String
  | [] => ""
  | [j] => newLine level ++ prettyAt level j
  | j :: rest => newLine level ++ prettyAt level j ++ "," ++ prettyItems level rest
termination_by structural items => items

def prettyMembers (level : Nat) : List (String × Json) → String
  | [] => ""
  | [(k, j)] => newLine level ++ quoted k ++ ": " ++ prettyAt level j
  | (k, j) :: rest =>
      newLine level ++ quoted k ++ ": " ++ prettyAt level j ++ "," ++ prettyMembers level rest
termination_by structural members => members

end

/-- The indented layout from the first column. -/
def pretty (j : Json) : String :=
  prettyAt 0 j

/-- The text of a value where a string stands for itself. -/
def plainText : Json → String
  | .str s => s
  | j => compact j

end Json

end ApiDoc
