import ApiDoc.Source.Grammar.Patterns
import ApiDoc.Text.Basic

/-!
# Expressions

An expression is an operand with operators after it.  Operators of a higher level bind
stronger.  A range is no operand of another operator, and comparisons do not follow one
another.  In front of a block a struct literal needs parentheses.
-/

namespace ApiDoc.Source.Grammar

open Parse

/-- The levels of operators with a name of their own. -/
def assignLevel : Nat := 1
def rangeLevel : Nat := 2
def compareLevel : Nat := 6
def castLevel : Nat := 13

/-- The operators between two operands, with their levels; longer ones come first. -/
def binaryOperators : List (String × Nat) :=
  [("+=", 1), ("-=", 1), ("*=", 1), ("/=", 1), ("%=", 1), ("^=", 1), ("&=", 1), ("|=", 1),
    ("<<=", 1), (">>=", 1), ("&&", 4), ("||", 3), ("<<", 10), (">>", 10), ("==", 6), ("<=", 6),
    ("!=", 6), (">=", 6), ("+", 11), ("-", 11), ("*", 12), ("/", 12), ("%", 12), ("^", 8),
    ("&", 9), ("|", 7), ("<", 6), (">", 6)]

/-- The operator that stands next. -/
def binaryOperator? (ts : List Tree) : Option (String × Nat) :=
  binaryOperators.find? fun entry => Ahead.marks entry.1 ts

def assigns : Ahead := fun ts => Ahead.marks "=" ts && !Ahead.marks "=>" ts

/-- The level of what stands next, zero for no operator. -/
def levelAhead (ts : List Tree) : Nat :=
  match binaryOperator? ts with
  | some (_, level) => level
  | none =>
      if assigns ts then assignLevel
      else if Ahead.marks ".." ts then rangeLevel
      else if Ahead.word "as" ts then castLevel
      else 0

/-- Operators that bind stronger than one of a level, after its right operand. -/
def strongerOperators (g : Grammar) (structs : Bool) (level : Nat) :
    (fuel : Nat) → Shape → Parse Unit
  | 0, _ => return ()
  | fuel + 1, right => do
      let before ← get
      let ahead := levelAhead before
      if ahead > level || (ahead = level && level = assignLevel) then
        let right ← g.operators right structs ahead
        if (← get).length < before.length then
          strongerOperators g structs level fuel right

/-- The right operand of an operator. -/
def rightOperand (g : Grammar) (structs : Bool) (level : Nat) : Parse Unit := do
  let right ← g.operand structs
  g.strongerOperators structs level (← get).length right

/-- Whether a range has no end here. -/
def endsRange (structs : Bool) : Ahead := fun ts =>
  ts.isEmpty || Ahead.point ts || (!structs && Ahead.group .curly ts) || Ahead.word "as" ts ||
    [",", ";", "?", "=>", "=", "+", "/", "%", "^", ">", "<=", "!=", "-=", "*=", "&=", "|=",
      "<<="].any fun text => Ahead.marks text ts

/-- A range from its mark on. -/
def rangeFrom (g : Grammar) (structs : Bool) : Parse Unit := do
  let closed ← rangeMark
  if closed || !(← next (endsRange structs)) then g.rightOperand structs rangeLevel

/-- What may not follow a cast. -/
def followsCast : Ahead := fun ts =>
  Ahead.point ts || Ahead.marks "?" ts || Ahead.group .square ts || Ahead.group .round ts

/-- The operators of some level or above after an operand. -/
def operatorsRule (g : Grammar) (left : Shape) (structs : Bool) (level : Nat) :
    Parse Shape := do
  let ts ← get
  if left = .range then return left
  match binaryOperator? ts with
  | some (text, found) =>
      if found < level then return left
      let compares := found = compareLevel
      if compares && left = .comparison then failure
      drop text.length
      g.rightOperand structs found
      g.operators (if compares then .comparison else .other) structs level
  | none =>
      if assignLevel ≥ level && assigns ts then
        drop 1
        g.rightOperand structs assignLevel
        g.operators .other structs level
      else if rangeLevel ≥ level && Ahead.marks ".." ts then
        g.rangeFrom structs
        return .range
      else if castLevel ≥ level && Ahead.word "as" ts then
        drop 1
        let _ ← g.type false
        check fun ts => !followsCast ts
        g.operators .other structs level
      else return left

/-- Whether an expression may start here. -/
def startsExpr : Ahead := fun ts =>
  let alone := fun (text : String) (longer : List String) =>
    Ahead.marks text ts && longer.all fun longer => !Ahead.marks longer ts
  (Ahead.anyWord ts && !Ahead.word "as" ts) || Ahead.anyGroup ts || Ahead.literal ts ||
    Ahead.lifetime ts || alone "!" ["!="] || alone "-" ["-=", "->"] || alone "*" ["*="] ||
    alone "|" ["|="] || alone "&" ["&="] || alone ".." [] || alone "<" ["<=", "<<="] ||
    alone "::" [] || alone "#" []

/-- Whether parameters in angle brackets start here, and not a path. -/
def startsParameters : Ahead := fun ts =>
  let follows : Ahead := fun ts =>
    Ahead.marks ">" ts || Ahead.marks "," ts ||
      (Ahead.marks ":" ts && !Ahead.marks "::" ts) || Ahead.marks "=" ts
  Ahead.marks "<" ts &&
    (Ahead.after 1 (Ahead.marks ">") ts || Ahead.after 1 (Ahead.marks "#") ts ||
      (Ahead.after 1 (fun ts => Ahead.lifetime ts || Ahead.name ts) ts &&
        Ahead.after 2 follows ts) ||
      Ahead.after 1 (Ahead.word "const") ts)

/-- The arguments of a call. -/
def callArguments (g : Grammar) : Parse Unit := do
  let _ ← within .round (commaList (g.expr true))

/-- A field number with points between its parts, as in `0.1`. -/
def isIndexChain (written : String) : Bool :=
  (Text.splitOn '.' written.toList).all fun part =>
    part.head?.any Char.isDigit && part.all fun c => c.isDigit || c = '_'

/-- What follows the point after an expression. -/
def memberAccess (g : Grammar) : Parse Unit := do
  match ← get with
  | .literal written .fraction :: rest =>
      if isIndexChain written then set rest else failure
  | ts =>
      if Ahead.word "await" ts then drop 1
      else
        let isName ← member
        let turbofish ← do
          if isName && (← next (Ahead.marks "::")) then
            check (Ahead.after 2 (Ahead.marks "<"))
            let _ ← g.arguments
            pure true
          else pure false
        if turbofish || (isName && (← next (Ahead.group .round))) then g.callArguments

/-- Calls, fields, indices and question marks after an operand. -/
def trailers (g : Grammar) : (fuel : Nat) → Shape → Parse Shape
  | 0, shape => return shape
  | fuel + 1, shape => do
      let ts ← get
      if Ahead.group .round ts then
        g.callArguments
        trailers g fuel .other
      else if Ahead.group .square ts then
        let _ ← within .square (g.expr true)
        trailers g fuel .other
      else if Ahead.point ts && shape != .range then
        drop 1
        g.memberAccess
        trailers g fuel .other
      else if Ahead.marks "?" ts && shape != .range then
        drop 1
        trailers g fuel .other
      else return shape

/-- The fields of a struct literal; after two points comes what has the others. -/
def literalFields (g : Grammar) : (fuel : Nat) → Parse Unit
  | 0 => return ()
  | fuel + 1 => do
      if ← atEnd then return ()
      if ← marks? ".." then
        if !(← atEnd) then let _ ← g.expr true
      else
        let _ ← g.outerAttributes
        let isName ← member
        if !isName || (← next (Ahead.marks ":")) then
          marks ":"
          let _ ← g.expr true
        if ← atEnd then return ()
        marks ","
        literalFields g fuel

/-- A path, the call of a macro, or a struct literal. -/
def pathExpr (g : Grammar) (structs : Bool) : Parse Shape := do
  let found ← g.anyPath true
  let ts ← get
  if callsMacro found ts then
    drop 1
    return if ← anyGroup then .bracedCall else .other
  else if structs && Ahead.group .curly ts then
    within .curly do g.literalFields ((← get).length + 1)
    return .other
  else return .other

/-- A function without a name. -/
def closure (g : Grammar) (structs : Bool) : Parse Unit := do
  let _ ← g.boundLifetimes?
  let _ ← word? "const"
  let _ ← word? "static"
  let _ ← word? "async"
  let _ ← word? "move"
  marks "|"
  let _ ← listUntil (Ahead.marks "|") (marks ",") do
    let _ ← g.outerAttributes
    let _ ← g.pattern
    if ← marks? ":" then let _ ← g.type true
  marks "|"
  if ← marks? "->" then
    let _ ← g.type true
    g.block
  else let _ ← g.expr structs

/-- The condition of a branch, or what is matched or iterated. -/
def head (g : Grammar) : Parse Unit := do
  let _ ← g.expr false

/-- A branch with those after it. -/
def branches (g : Grammar) : (fuel : Nat) → Parse Unit
  | 0 => failure
  | fuel + 1 => do
      word "if"
      g.head
      g.block
      if ← word? "else" then
        if ← next (Ahead.word "if") then branches g fuel else g.block

/-- An arm of a match. -/
def matchArm (g : Grammar) : Parse Unit := do
  let _ ← g.outerAttributes
  let _ ← g.patterns
  if ← word? "if" then let _ ← g.expr true
  marks "=>"
  let shape ← g.leading
  if shape != .block && !(← atEnd) then marks ","
  else let _ ← marks? ","

/-- A loop, or a block that may have a label. -/
def labelled (g : Grammar) : Parse Unit := do
  if ← word? "while" then
    g.head
    let _ ← g.body
  else if ← word? "for" then
    let _ ← g.patterns
    word "in"
    g.head
    let _ ← g.body
  else if ← word? "loop" then
    let _ ← g.body
  else
    let _ ← g.body

/-- An expression that ends in a block, if one starts here. -/
def blockLike? (g : Grammar) : Parse Bool := do
  let ts ← get
  let curly := Ahead.after 1 (Ahead.group .curly) ts
  if Ahead.word "if" ts then g.branches ts.length
  else if Ahead.wordOf ["while", "loop"] ts || Ahead.group .curly ts ||
      (Ahead.word "for" ts && !Ahead.after 1 startsParameters ts) then g.labelled
  else if Ahead.word "match" ts then
    drop 1
    g.head
    within .curly do
      let _ ← g.innerAttributes
      let _ ← toEnd g.matchArm
  else if Ahead.word "try" ts && curly then
    drop 1
    g.block
  else if Ahead.word "unsafe" ts || (Ahead.word "const" ts && curly) then
    drop 1
    let _ ← g.body
  else if Ahead.lifetime ts then
    drop 1
    marks ":"
    check fun ts => Ahead.wordOf ["while", "for", "loop"] ts || Ahead.group .curly ts
    g.labelled
  else return false
  return true

/-- An expression at the start of a statement or an arm of a match.  A block ends it
there, unless a point or a question mark follows. -/
def leadingRule (g : Grammar) : Parse Shape := do
  let _ ← g.outerAttributes
  if ← g.blockLike? then
    if ← next fun ts => Ahead.point ts || Ahead.marks "?" ts then
      let shape ← g.trailers (← get).length .block
      g.operators shape true 0
    else return .block
  else g.expr true

/-- Elements in parentheses or square brackets, the latter also as one element with a
count. -/
def collection (g : Grammar) (counted : Bool) : Parse Unit := do
  if !(← atEnd) then
    let _ ← g.expr true
    if counted && (← marks? ";") then let _ ← g.expr true
    else if !(← atEnd) then
      marks ","
      let _ ← commaList (g.expr true)

/-- The rest of a jump: a value may follow. -/
def jumpValue (g : Grammar) (curly : Bool) : Parse Unit := do
  if ← next fun ts => startsExpr ts && (curly || !Ahead.group .curly ts) then
    let _ ← g.expr true

/-- Whether a function without a name starts here. -/
def startsClosure : Ahead := fun ts =>
  Ahead.marks "|" ts || Ahead.wordOf ["move", "static"] ts ||
    (Ahead.word "for" ts && Ahead.after 1 startsParameters ts) ||
    (Ahead.word "const" ts && !Ahead.after 1 (Ahead.group .curly) ts) ||
    (Ahead.word "async" ts &&
      Ahead.after 1 (fun ts => Ahead.marks "|" ts || Ahead.word "move" ts) ts)

/-- Whether a block that runs later starts here. -/
def startsAsync : Ahead := fun ts =>
  Ahead.word "async" ts && (Ahead.after 1 (Ahead.group .curly) ts ||
    (Ahead.after 1 (Ahead.word "move") ts && Ahead.after 2 (Ahead.group .curly) ts))

/-- An operand without signs before and trailers after it. -/
def atom (g : Grammar) (structs : Bool) : Parse Shape := do
  let ts ← get
  if Ahead.literal ts then
    literal
    return .other
  else if startsAsync ts then
    drop 1
    let _ ← word? "move"
    g.block
    return .other
  else if startsClosure ts then
    g.closure structs
    return .other
  else if Ahead.pathStart ts || Ahead.marks "<" ts || Ahead.word "Self" ts ||
      (Ahead.word "try" ts &&
        Ahead.after 1 (fun ts => Ahead.marks "!" ts || Ahead.marks "::" ts) ts) then
    g.pathExpr structs
  else if Ahead.group .round ts then
    within .round (g.collection false)
    return .other
  else if ← word? "break" then
    if ← lifetime? then check fun ts => !Ahead.marks ":" ts
    g.jumpValue structs
    return .other
  else if ← word? "continue" then
    let _ ← lifetime?
    return .other
  else if Ahead.wordOf ["return", "yield"] ts then
    drop 1
    g.jumpValue true
    return .other
  else if ← word? "become" then
    let _ ← g.expr true
    return .other
  else if Ahead.group .square ts then
    within .square (g.collection true)
    return .other
  else if ← word? "let" then
    let _ ← g.patterns
    marks "="
    let left ← g.operand structs
    let _ ← g.operators left structs compareLevel
    return .other
  else if ← g.blockLike? then return .block
  else if Ahead.marks ".." ts then
    g.rangeFrom structs
    return .range
  else
    word "_"
    return .other

/-- An operand with its signs and trailers. -/
def operandRule (g : Grammar) (structs : Bool) : Parse Shape := do
  let _ ← g.outerAttributes
  let ts ← get
  if Ahead.marks "&" ts then
    drop 1
    if ← next (fun ts => Ahead.word "raw" ts && Ahead.after 1 (Ahead.wordOf ["mut", "const"]) ts)
    then drop 2
    else let _ ← word? "mut"
    let _ ← g.operand structs
    return .other
  else if Ahead.marks "*" ts || Ahead.marks "!" ts || Ahead.marks "-" ts then
    drop 1
    let _ ← g.operand structs
    return .other
  else
    let shape ← g.atom structs
    g.trailers (← get).length shape

end ApiDoc.Source.Grammar
