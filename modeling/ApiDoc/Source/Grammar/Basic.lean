import ApiDoc.Source.Item
import ApiDoc.Source.Parse

/-!
# The parts of the grammar

Types, patterns, expressions, statements and items contain each other.  A grammar holds
a parser for each of them; every rule is written as a function of such a grammar, which
it uses for what is nested.
-/

namespace ApiDoc.Source

/-- What the surroundings of an expression have to know about it. -/
inductive Shape
  | range
  | comparison
  /-- It ends a statement or an arm of a match without a mark after it. -/
  | block
  /-- The call of a macro in curly brackets. -/
  | bracedCall
  | other
deriving DecidableEq, Repr, Inhabited

/-- The parsers of the parts that contain each other. -/
structure Grammar where
  /-- A type; with `plus` it may be a sum of bounds. -/
  type : (plus : Bool) → Parse TypeExpr
  /-- A bound of a type; whether it is a trait.  It may be a list of captures, and it
  may be constant, where that is allowed. -/
  bound : (captures constant : Bool) → Parse Bool
  /-- A pattern without alternatives; whether it is a range with an open end. -/
  pattern : Parse Bool
  /-- An operand of an expression; a struct literal may stand in it where that is
  allowed. -/
  operand : (structs : Bool) → Parse Shape
  /-- The operators of some level or above after an operand, with their operands. -/
  operators : (left : Shape) → (structs : Bool) → (level : Nat) → Parse Shape
  /-- An expression at the start of a statement or of an arm of a match. -/
  leading : Parse Shape
  /-- The statements of a block, to its end. -/
  statements : Parse Unit
  /-- What is imported; it may start with two colons where that is allowed. -/
  importTree : (rooted : Bool) → Parse Unit
  item : Parse Item

/-- The grammar without any sentence. -/
def Grammar.empty : Grammar where
  type _ := failure
  bound _ _ := failure
  pattern := failure
  operand _ := failure
  operators _ _ _ := failure
  leading := failure
  statements := failure
  importTree _ := failure
  item := failure

namespace Grammar

open Parse

/-- An expression. -/
def expr (g : Grammar) (structs : Bool) : Parse Shape := do
  g.operators (← g.operand structs) structs 0

/-- A path without arguments: whether it starts with two colons, and its names. -/
def namePath : Parse (Bool × List String) := do
  let rooted ← marks? "::"
  let isName : Ahead := fun ts =>
    Ahead.name ts || Ahead.wordOf ["super", "self", "Self", "crate"] ts
  let first ← check isName *> anyWord
  let more ← repeatWhile (Ahead.marks "::") do
    marks "::"
    check isName
    anyWord
  return (rooted, first :: more)

/-- The inside of an attribute. -/
def attributeBody (g : Grammar) : Parse Attribute := do
  let name ← do
    if ← word? "unsafe" then pure (some "unsafe")
    else match ← namePath with
      | (false, [name]) => pure (some name)
      | _ => pure none
  match ← get with
  | .group _ inner :: rest => set rest; return ⟨name, .list inner⟩
  | _ =>
      if ← marks? "=" then
        match ← get with
        | [.literal _ (.text value)] => set ([] : List Tree); return ⟨name, .text value⟩
        | ts =>
            if Ahead.marks "#" ts && Ahead.after 1 (Ahead.group .square) ts then failure
            let _ ← g.expr true
            return ⟨name, .other⟩
      else return ⟨name, .none⟩

/-- The attributes in front of something. -/
def outerAttributes (g : Grammar) : Parse (List Attribute) :=
  repeatWhile (Ahead.marks "#") do
    marks "#"
    within .square g.attributeBody

/-- The attributes of what they stand in. -/
def innerAttributes (g : Grammar) : Parse (List Attribute) :=
  repeatWhile (fun ts => Ahead.marks "#" ts && Ahead.after 1 (Ahead.marks "!") ts) do
    drop 2
    within .square g.attributeBody

/-- A block of statements. -/
def block (g : Grammar) : Parse Unit := within .curly g.statements

/-- A block of statements that may start with attributes. -/
def body (g : Grammar) : Parse (List Attribute) :=
  within .curly do
    let attributes ← g.innerAttributes
    g.statements
    return attributes

/-- The visibility of an item or a field: whether none is written. -/
def visibility : Parse Bool := do
  if !(← word? "pub") then return true
  match ← get with
  | .group .round [.word w] :: rest =>
      if ["crate", "self", "super"].contains w then set rest
  | .group .round (.word "in" :: path) :: rest =>
      let _ ← whole namePath path
      set rest
  | _ => pure ()
  return false

/-- A calling convention: `extern` with or without its name. -/
def convention? : Parse Bool := do
  if ← word? "extern" then
    if ← next Ahead.text then drop 1
    return true
  else return false

end Grammar

end ApiDoc.Source
