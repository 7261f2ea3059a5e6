import ApiDoc.Source.Grammar.Items
import ApiDoc.Source.Nesting

/-!
# Reading source files

The grammar is tied by a count of how deep its rules may be nested; every nesting but a
few takes a tree, so twice the number of trees is enough.
-/

namespace ApiDoc.Source

/-- The grammar of sentences in which rules are nested at most so deep. -/
def grammar : (depth : Nat) → Grammar
  | 0 => .empty
  | depth + 1 =>
      let g := grammar depth
      { type := g.typeRule
        bound := g.boundRule
        pattern := g.patternRule
        operand := g.operandRule
        operators := g.operatorsRule
        leading := g.leadingRule
        statements := g.statementsRule
        importTree := g.importRule
        item := g.itemRule }

/-- Parse all the trees of a text. -/
def parse? (p : Grammar → Parse α) (cs : List Char) : Option α :=
  (trees? cs).bind fun ts =>
    ((Parse.whole (p (grammar (2 * Tree.sizeAll ts + 8))) ts).run []).map (·.1)

/-- A text without the line that names its interpreter. -/
def dropInterpreter (cs : List Char) : List Char :=
  match cs with
  | '#' :: '!' :: rest =>
      if (dropBlanks rest.length rest).head? = some '[' then cs
      else rest.dropWhile (· ≠ '\n')
  | _ => cs

/-- The items of a source file. -/
def items? (cs : List Char) : Option (List Item) :=
  let cs := (Text.dropHead? [Char.ofNat 0xFEFF] cs).getD cs
  parse? (fun g => do
    let _ ← g.innerAttributes
    Parse.toEnd g.item) (dropInterpreter cs)

/-- The only struct of a text. -/
def struct? (cs : List Char) : Option Struct :=
  parse? (fun g => g.structItem) cs

end ApiDoc.Source
