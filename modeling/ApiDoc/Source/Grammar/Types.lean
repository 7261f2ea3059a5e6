import ApiDoc.Source.Grammar.Basic

/-!
# Paths and types

Arguments of a path stand in angle brackets; in an expression two colons come before
them.  Only the bound of a type takes arguments in parentheses.
-/

namespace ApiDoc.Source.Grammar

open Parse

/-- A constant as an argument: a literal, a name or a block. -/
def constantArgument (g : Grammar) : Parse Unit := do
  if ← next Ahead.literal then literal
  else if ← next Ahead.name then drop 1
  else let _ ← g.body

/-- An argument in angle brackets. -/
def argument (g : Grammar) : Parse Argument := do
  let ts ← get
  if Ahead.lifetime ts && !Ahead.after 1 (Ahead.marks "+") ts then
    drop 1
    return .other
  if Ahead.literal ts || Ahead.group .curly ts then
    g.constantArgument
    return .other
  let type ← g.type true
  match type with
  | .path .plain [_] =>
      if ← marks? "=" then
        if ← next (fun ts => Ahead.literal ts || Ahead.group .curly ts) then g.constantArgument
        else let _ ← g.type true
        return .other
      else if ← marks? ":" then
        let _ ← chain "+" (fun ts => Ahead.marks "," ts || Ahead.marks ">" ts) (g.bound false true)
        return .other
      else return .type type
  | _ => return .type type

/-- Arguments in angle brackets. -/
def arguments (g : Grammar) : Parse (List Argument) := do
  let _ ← marks? "::"
  marks "<"
  let found ← listUntil (Ahead.marks ">") (marks ",") g.argument
  marks ">"
  return found

/-- A name in a path. -/
def segment (g : Grammar) (inExpr : Bool) : Parse Segment := do
  if ← next (Ahead.wordOf ["super", "self", "crate", "try"]) then
    return .mk (← anyWord) []
  let name ← if ← next (Ahead.word "Self") then anyWord else name
  let ts ← get
  let direct := !inExpr && Ahead.marks "<" ts && !Ahead.marks "<=" ts && !Ahead.marks "<<=" ts
  if direct || (Ahead.marks "::" ts && Ahead.after 2 (Ahead.marks "<") ts) then
    return .mk name (← g.arguments)
  else return .mk name []

/-- A path: whether it starts with two colons, and its names. -/
def path (g : Grammar) (inExpr : Bool) : Parse (PathOrigin × List Segment) := do
  let rooted ← marks? "::"
  let first ← g.segment inExpr
  let more ← repeatWhile
    (fun ts => Ahead.marks "::" ts && !Ahead.after 2 (Ahead.group .round) ts) do
      marks "::"
      g.segment inExpr
  return (if rooted then .rooted else .plain, first :: more)

/-- A path that may start with a type in angle brackets. -/
def anyPath (g : Grammar) (inExpr : Bool) : Parse (PathOrigin × List Segment) := do
  if ← marks? "<" then
    let _ ← g.type true
    let before ← do
      if ← word? "as" then pure (← g.path false).2 else pure []
    marks ">"
    marks "::"
    let first ← g.segment inExpr
    let more ← repeatWhile (Ahead.marks "::") do
      marks "::"
      g.segment inExpr
    return (.qualified, before ++ first :: more)
  else g.path inExpr

/-- Whether no name of a path has arguments. -/
def isNamePath (segments : List Segment) : Bool :=
  segments.all fun
    | .mk _ arguments => arguments.isEmpty

/-- Whether the call of a macro follows a path. -/
def callsMacro (found : PathOrigin × List Segment) : Ahead := fun ts =>
  found.1 != .qualified && isNamePath found.2 && Ahead.marks "!" ts && !Ahead.marks "!=" ts

/-- The type after an arrow. -/
def returnType (g : Grammar) (plus : Bool) : Parse Unit := do
  if ← marks? "->" then let _ ← g.type plus

/-- Bounds of a parameter in angle brackets. -/
def parameterBounds (g : Grammar) : Parse Unit := do
  if ← marks? ":" then
    let stop : Ahead := fun ts =>
      ts.isEmpty || Ahead.marks "," ts || Ahead.marks ">" ts || Ahead.marks "=" ts
    let _ ← chain "+" stop (g.bound false true)

/-- A parameter in angle brackets. -/
def parameter (g : Grammar) : Parse Unit := do
  let _ ← g.outerAttributes
  if ← lifetime? then
    if ← marks? ":" then
      let stop : Ahead := fun ts => ts.isEmpty || Ahead.marks "," ts || Ahead.marks ">" ts
      let _ ← chain "+" stop lifetime
  else if ← word? "const" then
    let _ ← name
    marks ":"
    let _ ← g.type true
    if ← marks? "=" then g.constantArgument
  else
    let _ ← name
    g.parameterBounds
    if ← marks? "=" then let _ ← g.type true

/-- Parameters in angle brackets, if there are any: their number. -/
def parameters (g : Grammar) : Parse Nat := do
  if ← marks? "<" then
    let found ← listUntil (Ahead.marks ">") (marks ",") do
      if ← next (Ahead.word "_") then drop 1 else g.parameter
    marks ">"
    return found.length
  else return 0

/-- Lifetimes for which a bound holds, if there are any. -/
def boundLifetimes? (g : Grammar) : Parse Bool := do
  if ← word? "for" then
    marks "<"
    let _ ← listUntil (Ahead.marks ">") (marks ",") g.parameter
    marks ">"
    return true
  else return false

/-- Conditions on the parameters, if there are any. -/
def conditions (g : Grammar) : Parse Unit := do
  if ← word? "where" then
    let endsBounds : Ahead := fun ts =>
      ts.isEmpty || Ahead.group .curly ts || Ahead.marks "," ts || Ahead.marks ";" ts ||
        (Ahead.marks ":" ts && !Ahead.marks "::" ts) || Ahead.marks "=" ts
    let _ ← chain "," endsBounds do
      if ← next (fun ts => Ahead.lifetime ts && Ahead.after 1 (Ahead.marks ":") ts) then
        drop 2
        let _ ← chain "+" endsBounds lifetime
      else
        let _ ← g.boundLifetimes?
        let _ ← g.type true
        marks ":"
        let _ ← chain "+" endsBounds (g.bound false true)

/-- A trait as a bound. -/
def traitBound (g : Grammar) (constant : Bool) : Parse Unit := do
  let lifetimes ← g.boundLifetimes?
  if ← next (fun ts => Ahead.marks "~" ts || Ahead.word "const" ts || Ahead.group .square ts) then
    if !constant then failure
    if ← next (Ahead.group .square) then within .square (word "const")
    else
      let _ ← marks? "~"
      word "const"
  if ← marks? "?" then
    if lifetimes || (← next (Ahead.word "for")) then failure
  let (_, segments) ← g.path false
  let open_ := match segments.getLast? with
    | some (.mk _ []) => true
    | _ => false
  if ← next (fun ts => open_ && (Ahead.group .round ts ||
      (Ahead.marks "::" ts && Ahead.after 2 (Ahead.group .round) ts))) then
    let _ ← marks? "::"
    let _ ← within .round (commaList (g.type true))
    g.returnType false

/-- A bound. -/
def boundRule (g : Grammar) (captures constant : Bool) : Parse Bool := do
  if ← lifetime? then return false
  else if ← word? "use" then
    if !captures then failure
    marks "<"
    let _ ← listUntil (Ahead.marks ">") (marks ",") do
      if !(← lifetime?) then
        check fun ts => Ahead.name ts || Ahead.word "Self" ts
        drop 1
    marks ">"
    return false
  else
    if ← next (Ahead.group .round) then within .round (g.traitBound constant)
    else g.traitBound constant
    return true

/-- Whether a bound may stand after a plus sign. -/
def startsBound (constant : Bool) : Ahead := fun ts =>
  Ahead.anyWord ts || Ahead.marks "::" ts || Ahead.marks "?" ts || Ahead.lifetime ts ||
    Ahead.group .round ts || (constant && Ahead.group .square ts)

/-- Bounds after a first one; a plus sign may stand after the last. -/
def moreBounds (g : Grammar) (captures constant : Bool) : (fuel : Nat) → Parse (List Bool)
  | 0 => return []
  | fuel + 1 => do
      if ← marks? "+" then
        if ← next (startsBound constant) then
          return (← g.bound captures constant) :: (← moreBounds g captures constant fuel)
      return []

/-- The bounds of a type that is known by them; at least one is a trait. -/
def objectBounds (g : Grammar) (plus captures constant : Bool) : Parse Unit := do
  let first ← g.bound captures constant
  let more ← if plus then g.moreBounds captures constant (← get).length else pure []
  if !(first || more.any id) then failure

/-- The name of an argument, which may be missing. -/
def argumentName (first : Bool) : Ahead := fun ts =>
  (Ahead.name ts || Ahead.word "_" ts || (first && Ahead.word "self" ts)) &&
    Ahead.after 1 (Ahead.marks ":") ts && !Ahead.after 1 (Ahead.marks "::") ts

/-- An argument of a function type. -/
def functionArgument (g : Grammar) (first : Bool) : Parse Unit := do
  let mutable ← do
    if first && (← next fun ts => Ahead.word "mut" ts && Ahead.after 1 (Ahead.word "self") ts)
    then word? "mut" else pure false
  if ← next (argumentName first) then
    drop 2
    let _ ← g.type true
  else if mutable then word "self"
  else let _ ← g.type true

/-- The arguments of a function type; points at the end stand for any others. -/
def functionArguments (g : Grammar) (first : Bool) : (fuel : Nat) → Parse Unit
  | 0 => return ()
  | fuel + 1 => do
      if ← atEnd then return ()
      let _ ← g.outerAttributes
      let points : Ahead := fun ts =>
        Ahead.marks "..." ts || ((Ahead.name ts || Ahead.word "_" ts) &&
          Ahead.after 1 (Ahead.marks ":") ts && Ahead.after 2 (Ahead.marks "...") ts)
      if ← next points then
        if !(← next (Ahead.marks "...")) then drop 2
        drop 3
        let _ ← marks? ","
      else
        g.functionArgument first
        if ← atEnd then return ()
        marks ","
        functionArguments g false fuel

/-- A function type. -/
def functionType (g : Grammar) : Parse Unit := do
  let _ ← word? "unsafe"
  let _ ← convention?
  word "fn"
  within .round do g.functionArguments true ((← get).length + 1)
  g.returnType false

/-- A type that starts with a path. -/
def pathType (g : Grammar) (plus lifetimes : Bool) : Parse TypeExpr := do
  let (origin, segments) ← g.anyPath false
  if origin = .qualified then return .path origin segments
  else if ← next (callsMacro (origin, segments)) then
    drop 1
    let _ ← anyGroup
    return .other
  else if lifetimes || (plus && (← next (Ahead.marks "+"))) then
    if plus then let _ ← g.moreBounds false false (← get).length
    return .other
  else return .path origin segments

/-- Bounds with a plus sign before each. -/
def addedBounds (g : Grammar) : Parse Unit := do
  let _ ← repeatWhile (Ahead.marks "+") do
    marks "+"
    g.bound false false

/-- A type in parentheses, or a tuple. -/
def roundType (g : Grammar) (plus : Bool) : Parse TypeExpr := do
  let inner ← group .round
  if inner.isEmpty then return .unit
  else if Ahead.lifetime inner then
    whole (g.objectBounds true false true) inner
    return .wrapped .other
  else if Ahead.marks "?" inner then
    whole (g.traitBound false) inner
    g.addedBounds
    return .other
  else
    let (first, isTuple) ← whole (do
      let first ← g.type true
      if ← atEnd then return (first, false)
      marks ","
      let _ ← commaList (g.type true)
      return (first, true)) inner
    if isTuple then return .other
    if plus && (← next (Ahead.marks "+")) then
      match first with
      | .path origin _ =>
          if origin != .qualified then
            g.addedBounds
            return .other
      | _ => pure ()
    return .wrapped first

/-- A type. -/
def typeRule (g : Grammar) (plus : Bool) : Parse TypeExpr := do
  let lifetimes ← g.boundLifetimes?
  let ts ← get
  let startsPath := Ahead.name ts || Ahead.wordOf ["super", "self", "Self", "crate"] ts
  let startsFunction := Ahead.wordOf ["fn", "unsafe", "extern"] ts
  if lifetimes && !startsPath && !startsFunction then failure
  if Ahead.group .round ts then g.roundType plus
  else if startsFunction then
    g.functionType
    return .other
  else if startsPath || Ahead.marks "::" ts || Ahead.marks "<" ts then g.pathType plus lifetimes
  else if Ahead.word "dyn" ts then
    drop 1
    let _ ← marks? "*"
    g.objectBounds plus false true
    return .other
  else if Ahead.group .square ts then
    within .square do
      let element ← g.type true
      if ← marks? ";" then let _ ← g.expr true
      return .sequence element
  else if Ahead.marks "*" ts then
    drop 1
    check (Ahead.wordOf ["const", "mut"])
    drop 1
    let _ ← g.type false
    return .other
  else if Ahead.marks "&" ts then
    drop 1
    let _ ← lifetime?
    let _ ← word? "mut"
    return .wrapped (← g.type false)
  else if Ahead.marks "!" ts || Ahead.word "_" ts then
    drop 1
    return .other
  else if Ahead.word "impl" ts then
    drop 1
    g.objectBounds plus true true
    return .other
  else if Ahead.lifetime ts then
    g.objectBounds true false true
    return .other
  else failure

end ApiDoc.Source.Grammar
