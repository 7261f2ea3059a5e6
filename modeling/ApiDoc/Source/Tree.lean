/-!
# Token trees

A source file is read in two steps: first as a list of trees, in which brackets
match and comments are gone, and then by its grammar.  A documentation comment is
kept as the attribute it stands for.
-/

namespace ApiDoc.Source

/-- The three kinds of brackets. -/
inductive Bracket
  | round
  | square
  | curly
deriving DecidableEq, Repr, Inhabited

/-- What a literal stands for, as far as the grammar asks. -/
inductive Literal
  /-- A text, with its value. -/
  | text (value : String)
  /-- A whole number, with or without a suffix. -/
  | whole (suffixed : Bool)
  /-- A number with a fraction or an exponent. -/
  | fraction
  /-- A character, bytes, or a text with an end mark. -/
  | other
deriving DecidableEq, Repr, Inhabited

/-- A token, or a list of trees in brackets. -/
inductive Tree
  /-- A keyword, a name, or a name marked as such by `r#`. -/
  | word (name : String)
  /-- A lifetime, without its quote. -/
  | lifetime (name : String)
  | literal (written : String) (value : Literal)
  /-- A punctuation mark; it is joint when another one follows at once. -/
  | mark (c : Char) (joint : Bool)
  | group (bracket : Bracket) (inner : List Tree)
deriving Repr, Inhabited

/-- The marks before and after the inside of a group. -/
def Bracket.marks (isEmpty : Bool) : Bracket → List Char × List Char
  | .round => (['('], [')'])
  | .square => (['['], [']'])
  | .curly => (['\x7b', ' '], if isEmpty then ['\x7d'] else [' ', '\x7d'])

namespace Tree

/-- Whether the next tree is written right after this one. -/
def isJoint : Tree → Bool
  | mark _ joint => joint
  | _ => false

mutual

/-- The text of a tree. -/
def text : Tree → List Char
  | word name => name.toList
  | lifetime name => '\'' :: name.toList
  | literal written _ => written.toList
  | mark c _ => [c]
  | group bracket inner =>
      let (before, after) := bracket.marks inner.isEmpty
      before ++ textAll inner ++ after

/-- The text of a list of trees: a space between neighbours, except after a joint
mark. -/
def textAll : List Tree → List Char
  | [] => []
  | tree :: rest =>
      tree.text ++ (if rest.isEmpty || tree.isJoint then [] else [' ']) ++ textAll rest

end

mutual

/-- The number of tokens and groups. -/
def size : Tree → Nat
  | group _ inner => sizeAll inner + 1
  | _ => 1

def sizeAll : List Tree → Nat
  | [] => 0
  | tree :: rest => tree.size + sizeAll rest

end

end Tree

end ApiDoc.Source
