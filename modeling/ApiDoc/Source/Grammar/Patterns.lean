import ApiDoc.Source.Grammar.Types

/-!
# Patterns

A pattern tells whether it is a range with an open end, because such a range needs
parentheses inside a slice.
-/

namespace ApiDoc.Source.Grammar

open Parse

/-- Patterns with bars between neighbours; one more may stand in front. -/
def patterns (g : Grammar) : Parse Bool := do
  let leading ← marks? "|"
  let openRange ← g.pattern
  let bar : Ahead := fun ts =>
    Ahead.marks "|" ts && !Ahead.marks "||" ts && !Ahead.marks "|=" ts
  let more ← repeatWhile bar do
    marks "|"
    g.pattern
  return openRange && !leading && more.isEmpty

/-- The mark of a range: whether its end belongs to it. -/
def rangeMark : Parse Bool := do
  if ← marks? "..=" then return true
  else
    check fun ts => !Ahead.marks "..." ts
    marks ".."
    return false

/-- The mark of a range in a pattern, where three points are allowed. -/
def patternRangeMark : Parse Bool := do
  if ← marks? "..." then return true else rangeMark

/-- The end of a range in a pattern: whether there is one. -/
def rangeEnd? (g : Grammar) : Parse Bool := do
  let ts ← get
  if ts.isEmpty || Ahead.marks "|" ts || Ahead.marks "=" ts ||
      (Ahead.marks ":" ts && !Ahead.marks "::" ts) || Ahead.marks "," ts ||
      Ahead.marks ";" ts || Ahead.word "if" ts then
    return false
  else if Ahead.literal ts then
    literal
    return true
  else if Ahead.pathStart ts || Ahead.word "Self" ts || Ahead.marks "<" ts then
    let _ ← g.anyPath true
    return true
  else
    word "const"
    let _ ← g.body
    return true

/-- The rest of a range in a pattern, after its start: whether its end is open. -/
def patternRange (g : Grammar) : Parse Bool := do
  let closed ← patternRangeMark
  let ends ← g.rangeEnd?
  if closed && !ends then failure
  return !ends

/-- The name or the number of a field: whether it is a name. -/
def member : Parse Bool := do
  if ← next Ahead.name then
    drop 1
    return true
  else match ← get with
    | .literal _ (.whole false) :: rest =>
        set rest
        return false
    | _ => failure

/-- A field in a pattern of a struct. -/
def fieldPattern (g : Grammar) : Parse Unit := do
  let boxed ← word? "box"
  let byReference ← word? "ref"
  let mutable ← word? "mut"
  let marked := boxed || byReference || mutable
  let isName ← if marked then do let _ ← name; pure true else member
  if !isName || (!marked && (← next (Ahead.marks ":"))) then
    marks ":"
    let _ ← g.patterns

/-- The fields in a pattern of a struct; two points at the end stand for the others. -/
def fieldPatterns (g : Grammar) : (fuel : Nat) → Parse Unit
  | 0 => return ()
  | fuel + 1 => do
      if ← atEnd then return ()
      let _ ← g.outerAttributes
      if ← marks? ".." then return ()
      g.fieldPattern
      if ← atEnd then return ()
      marks ","
      fieldPatterns g fuel

/-- A pattern that starts with a path. -/
def pathPattern (g : Grammar) : Parse Bool := do
  let found ← g.anyPath true
  let ts ← get
  if callsMacro found ts then
    drop 1
    let _ ← anyGroup
    return false
  else if Ahead.group .curly ts then
    within .curly do g.fieldPatterns ((← get).length + 1)
    return false
  else if Ahead.group .round ts then
    let _ ← within .round (commaList g.patterns)
    return false
  else if Ahead.marks ".." ts then g.patternRange
  else return false

/-- Whether a pattern starts with a path that is more than one name. -/
def startsPathPattern : Ahead := fun ts =>
  let follows : Ahead := fun ts =>
    Ahead.marks "::" ts || Ahead.marks "!" ts || Ahead.group .curly ts ||
      Ahead.group .round ts || Ahead.marks ".." ts
  (Ahead.name ts && Ahead.after 1 follows ts) ||
    (Ahead.word "self" ts && Ahead.after 1 (Ahead.marks "::") ts) ||
    Ahead.marks "::" ts || Ahead.marks "<" ts || Ahead.wordOf ["Self", "super", "crate"] ts

/-- A pattern without alternatives. -/
def patternRule (g : Grammar) : Parse Bool := do
  let ts ← get
  if startsPathPattern ts then g.pathPattern
  else if Ahead.word "_" ts then
    drop 1
    return false
  else if Ahead.word "box" ts then
    drop 1
    let _ ← g.pattern
    return false
  else if Ahead.literal ts then
    literal
    if ← next (Ahead.marks "..") then g.patternRange else return false
  else if Ahead.word "const" ts then
    drop 1
    let _ ← g.body
    if ← next (Ahead.marks "..") then g.patternRange else return false
  else if Ahead.wordOf ["ref", "mut", "self"] ts || Ahead.name ts then
    let _ ← word? "ref"
    let _ ← word? "mut"
    if !(← word? "self") then let _ ← name
    if ← marks? "@" then let _ ← g.pattern
    return false
  else if Ahead.marks "&" ts then
    drop 1
    let _ ← word? "mut"
    let _ ← g.pattern
    return false
  else if Ahead.group .round ts then
    let _ ← within .round (commaList g.patterns)
    return false
  else if Ahead.group .square ts then
    let elements ← within .square (commaList g.patterns)
    if elements.any id then failure
    return false
  else
    let closed ← rangeMark
    let ends ← g.rangeEnd?
    if closed && !ends then failure
    return ends

end ApiDoc.Source.Grammar
