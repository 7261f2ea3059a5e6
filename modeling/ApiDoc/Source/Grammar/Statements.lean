import ApiDoc.Source.Grammar.Expressions

/-!
# Statements

A statement is a declaration of a variable, an item, the call of a macro, or an
expression.  A semicolon may be missing after the last one, and after a block.
-/

namespace ApiDoc.Source.Grammar

open Parse

/-- Whether the trees between two positions end in curly brackets. -/
def endsInBlock (before after : List Tree) : Bool :=
  match (before.take (before.length - after.length)).getLast? with
  | some (.group .curly _) => true
  | _ => false

/-- The declaration of a variable, from its keyword on. -/
def declaration (g : Grammar) : Parse Unit := do
  word "let"
  let _ ← g.pattern
  if ← marks? ":" then let _ ← g.type true
  if ← marks? "=" then
    let before ← get
    let _ ← g.expr true
    if !endsInBlock before (← get) && (← word? "else") then g.block
  marks ";"

/-- The call of a macro that is a whole statement. -/
inductive MacroStatement
  /-- It defines something, as an item. -/
  | item
  /-- It has its arguments in curly brackets, and nothing goes on after it; what
  stands behind it is given. -/
  | call (rest : List Tree)

/-- Whether a statement is the call of a macro. -/
def macroStatement? (ts : List Tree) : Option MacroStatement :=
  match namePath.run ts with
  | some (_, rest) =>
      if !Ahead.marks "!" rest then none
      else if Ahead.after 1 (fun ts => Ahead.name ts || Ahead.word "try" ts) rest then some .item
      else if Ahead.after 1 (Ahead.group .curly) rest &&
          !Ahead.after 2 (fun ts => Ahead.point ts || Ahead.marks "?" ts) rest then
        some (.call (rest.drop 2))
      else none
  | none => none

/-- Whether an item starts here, and not an expression. -/
def startsItem : Ahead := fun ts =>
  let then_ := fun (word : String) (p : Ahead) => Ahead.word word ts && Ahead.after 1 p ts
  let callable := Ahead.wordOf ["unsafe", "extern", "fn"]
  Ahead.wordOf ["pub", "extern", "use", "fn", "mod", "type", "struct", "enum", "trait", "impl",
      "macro"] ts ||
    then_ "crate" (fun ts => !Ahead.marks "::" ts) ||
    then_ "static" (fun ts => Ahead.word "mut" ts || Ahead.name ts) ||
    then_ "const" (fun ts =>
      !(Ahead.group .curly ts || Ahead.wordOf ["static", "move"] ts || Ahead.marks "|" ts ||
        (Ahead.word "async" ts && !Ahead.after 1 callable ts))) ||
    then_ "unsafe" (fun ts => !Ahead.group .curly ts) ||
    then_ "async" callable ||
    then_ "union" Ahead.name ||
    then_ "auto" (Ahead.word "trait") ||
    then_ "default" (Ahead.wordOf ["unsafe", "impl"])

/-- A statement: whether a further one needs a semicolon before it. -/
def statement (g : Grammar) : Parse Bool := do
  let _ ← g.outerAttributes
  let ts ← get
  match macroStatement? ts with
  | some .item =>
      let _ ← g.item
      return false
  | some (.call rest) =>
      set rest
      let _ ← marks? ";"
      return false
  | none =>
      if Ahead.word "let" ts then
        g.declaration
        return false
      else if startsItem ts then
        let _ ← g.item
        return false
      else
        let shape ← g.leading
        if ← marks? ";" then return false
        else return shape != .block && shape != .bracedCall

def statementsFuel (g : Grammar) : (fuel : Nat) → Parse Unit
  | 0 => return ()
  | fuel + 1 => do
      let _ ← repeatWhile (Ahead.marks ";") (drop 1)
      if ← atEnd then return ()
      let needsMark ← g.statement
      if ← atEnd then return ()
      if needsMark then failure
      statementsFuel g fuel

/-- Statements up to the end. -/
def statementsRule (g : Grammar) : Parse Unit := do
  g.statementsFuel ((← get).length + 1)

end ApiDoc.Source.Grammar
