import ApiDoc.Source.Grammar.Statements

/-!
# Items

Structs and methods are kept; of every other item it is only checked that it is well
formed.
-/

namespace ApiDoc.Source.Grammar

open Parse

/-- A field with a name. -/
def namedField (g : Grammar) : Parse Field := do
  let attributes ← g.outerAttributes
  let _ ← visibility
  let unnamed ← next (Ahead.word "_")
  let name ← nameOrBlank
  marks ":"
  let nested : Ahead := fun ts =>
    Ahead.word "struct" ts || (Ahead.word "union" ts && Ahead.after 1 (Ahead.group .curly) ts)
  if unnamed && (← next nested) then
    drop 1
    let _ ← within .curly (commaList (do
      let _ ← g.outerAttributes
      let _ ← visibility
      let _ ← nameOrBlank
      marks ":"
      g.type true))
    return { name := some name, attributes, type := .other }
  else return { name := some name, attributes, type := ← g.type true }

/-- A field of a tuple. -/
def tupleField (g : Grammar) : Parse Field := do
  let attributes ← g.outerAttributes
  let _ ← visibility
  return { attributes, type := ← g.type true }

def namedFields (g : Grammar) : Parse (List Field) := within .curly (commaList g.namedField)

def tupleFields (g : Grammar) : Parse (List Field) := within .round (commaList g.tupleField)

/-- A struct, from its keyword on. -/
def struct (g : Grammar) (attributes : List Attribute) : Parse Struct := do
  word "struct"
  let name ← name
  let isGeneric := (← g.parameters) > 0
  let conditional ← next (Ahead.word "where")
  g.conditions
  if !conditional && (← next (Ahead.group .round)) then
    let fields ← g.tupleFields
    g.conditions
    marks ";"
    return { name, isGeneric, attributes, fields }
  else if ← next (Ahead.group .curly) then
    return { name, isGeneric, attributes, fields := ← g.namedFields }
  else
    marks ";"
    return { name, isGeneric, attributes }

/-- A struct with its attributes and its visibility. -/
def structItem (g : Grammar) : Parse Struct := do
  let attributes ← g.outerAttributes
  let _ ← visibility
  g.struct attributes

/-- A case of an enumeration. -/
def variant (g : Grammar) : Parse Unit := do
  let _ ← g.outerAttributes
  let _ ← visibility
  let _ ← name
  if ← next (Ahead.group .curly) then let _ ← g.namedFields
  else if ← next (Ahead.group .round) then let _ ← g.tupleFields
  if ← marks? "=" then let _ ← g.expr true

/-- What a method is called on; nothing is taken when it is none. -/
def receiver (g : Grammar) : Parse Unit := do
  let byReference ← marks? "&"
  if byReference then let _ ← lifetime?
  let _ ← word? "mut"
  word "self"
  if !byReference && (← marks? ":") then let _ ← g.type true

/-- An argument of a function: whether it stands for any others. -/
def functionParameter (g : Grammar) (first : Bool) : Parse Bool := do
  let ts ← get
  if ← marks? "..." then return true
  match g.receiver.run ts with
  | some (_, rest) =>
      if !first then failure
      set rest
      return false
  | none =>
      if Ahead.name ts && Ahead.after 1 (Ahead.marks "<") ts then
        let _ ← g.type true
        return false
      else
        let _ ← g.pattern
        marks ":"
        if ← marks? "..." then return true
        let _ ← g.type true
        return false

/-- The arguments of a function; nothing stands after one for any others. -/
def functionParameters (g : Grammar) (first : Bool) : (fuel : Nat) → Parse Unit
  | 0 => return ()
  | fuel + 1 => do
      if ← atEnd then return ()
      let _ ← g.outerAttributes
      let isLast ← g.functionParameter first
      if ← atEnd then return ()
      marks ","
      if !isLast then functionParameters g false fuel

/-- A function up to its body: its name.  A word for safe functions may be allowed. -/
def signature (g : Grammar) (safe : Bool) : Parse String := do
  let _ ← word? "const"
  let _ ← word? "async"
  if !(← word? "unsafe") && safe then let _ ← word? "safe"
  let _ ← convention?
  word "fn"
  let name ← name
  let _ ← g.parameters
  within .round do g.functionParameters true ((← get).length + 1)
  g.returnType true
  g.conditions
  return name

/-- Whether a function starts here. -/
def startsFunction (safe : Bool) : Ahead := fun ts =>
  let skip := fun (p : Ahead) (ts : List Tree) => if p ts then ts.drop 1 else ts
  let ts := skip (Ahead.word "async") (skip (Ahead.word "const") ts)
  let ts := skip (fun ts => Ahead.word "unsafe" ts || (safe && Ahead.word "safe" ts)) ts
  let ts := if Ahead.word "extern" ts then skip Ahead.text (ts.drop 1) else ts
  Ahead.word "fn" ts

/-- A function: its name and the attributes in its body, if it has one. -/
def function (g : Grammar) (safe : Bool) : Parse (String × Option (List Attribute)) := do
  let name ← g.signature safe
  if ← marks? ";" then return (name, none)
  else return (name, some (← g.body))

/-- A constant, from its keyword on. -/
def constant (g : Grammar) : Parse Unit := do
  word "const"
  let _ ← nameOrBlank
  let _ ← g.parameters
  marks ":"
  let _ ← g.type true
  if ← marks? "=" then let _ ← g.expr true
  g.conditions
  marks ";"

/-- A variable with a fixed place, from its keyword on. -/
def static (g : Grammar) (typed : Bool) : Parse Unit := do
  word "static"
  let _ ← word? "mut"
  let _ ← name
  if typed || (← next (Ahead.marks ":")) then
    marks ":"
    let _ ← g.type true
    if ← marks? "=" then let _ ← g.expr true
  else
    marks "="
    let _ ← g.expr true
  marks ";"

/-- Where the conditions of a type name stand. -/
inductive ConditionPlace
  | beforeDefinition
  | afterDefinition
  | both
deriving DecidableEq

/-- A name for a type, from its keyword on. -/
def typeName (g : Grammar) (place : ConditionPlace) : Parse Unit := do
  word "type"
  let _ ← name
  let _ ← g.parameters
  if ← marks? ":" then
    let stop : Ahead := fun ts =>
      Ahead.word "where" ts || Ahead.marks "=" ts || Ahead.marks ";" ts
    let _ ← listUntil stop (marks "+") (g.bound false true)
  let early ← next (Ahead.word "where")
  if place != .afterDefinition then g.conditions
  if ← marks? "=" then let _ ← g.type true
  if place = .afterDefinition || (place = .both && !early) then g.conditions
  marks ";"

/-- The call of a macro as an item. -/
def macroCall (named : Bool) : Parse Unit := do
  let _ ← namePath
  marks "!"
  if named && (← next fun ts => Ahead.name ts || Ahead.word "try" ts) then drop 1
  let curly ← anyGroup
  if !curly then marks ";"

/-- An item inside a trait. -/
def traitItem (g : Grammar) : Parse Unit := do
  let _ ← g.outerAttributes
  let inherited ← visibility
  let isDefault ← word? "default"
  let ts ← get
  if startsFunction false ts then
    let _ ← g.function false
  else if Ahead.word "const" ts then g.constant
  else if Ahead.word "type" ts then g.typeName .afterDefinition
  else
    if !inherited || isDefault then failure
    check Ahead.pathStart
    macroCall false

/-- An item of another language's library. -/
def foreignItem (g : Grammar) : Parse Unit := do
  let _ ← g.outerAttributes
  let inherited ← visibility
  let ts ← get
  if startsFunction true ts then
    let _ ← g.function true
  else if Ahead.word "static" ts || (Ahead.wordOf ["unsafe", "safe"] ts &&
      Ahead.after 1 (Ahead.word "static") ts) then
    if !Ahead.word "static" ts then drop 1
    g.static true
  else if Ahead.word "type" ts then g.typeName .both
  else
    if !inherited then failure
    check Ahead.pathStart
    macroCall false

/-- A block of items of another language's library. -/
def foreignBlock (g : Grammar) : Parse Unit := do
  let _ ← word? "unsafe"
  check (Ahead.word "extern")
  let _ ← convention?
  within .curly do
    let _ ← g.innerAttributes
    let _ ← toEnd g.foreignItem

/-- The import of a library. -/
def libraryImport : Parse Unit := do
  drop 2
  if !(← word? "self") then let _ ← name
  if ← word? "as" then let _ ← nameOrBlank
  marks ";"

/-- A trait, up to its name. -/
def traitHead (g : Grammar) : Parse Unit := do
  word "trait"
  let _ ← name
  let _ ← g.parameters

/-- The rest of a trait, after its name. -/
def traitBody (g : Grammar) : Parse Unit := do
  if ← marks? ":" then
    let stop : Ahead := fun ts => Ahead.word "where" ts || Ahead.group .curly ts
    let _ ← listUntil stop (marks "+") (g.bound false true)
  g.conditions
  within .curly do
    let _ ← g.innerAttributes
    let _ ← toEnd g.traitItem

/-- A trait, or a name for a sum of traits. -/
def trait (g : Grammar) : Parse Unit := do
  g.traitHead
  if ← marks? "=" then
    let stop : Ahead := fun ts => Ahead.word "where" ts || Ahead.marks ";" ts
    let _ ← listUntil stop (marks "+") (g.bound false true)
    g.conditions
    marks ";"
  else g.traitBody

/-- An item inside an implementation; only methods with a body are kept. -/
def implItem (g : Grammar) : Parse (Option Method) := do
  let attributes ← g.outerAttributes
  let inherited ← visibility
  let isDefault ← do
    if ← next (fun ts => Ahead.word "default" ts && !Ahead.after 1 (Ahead.marks "!") ts) then
      word? "default"
    else pure false
  let ts ← get
  if startsFunction false ts then
    let (name, inner) ← g.function false
    return inner.map fun inner => { name, attributes := attributes ++ inner }
  else
    if Ahead.word "const" ts then g.constant
    else if Ahead.word "type" ts then g.typeName .afterDefinition
    else
      if !inherited || isDefault then failure
      check Ahead.pathStart
      macroCall false
    return none

/-- An implementation. -/
def implementation (g : Grammar) (inherited : Bool) : Parse Item := do
  let _ ← word? "default"
  let _ ← word? "unsafe"
  word "impl"
  if ← next startsParameters then let _ ← g.parameters
  let constant ← next fun ts =>
    Ahead.word "const" ts || (Ahead.marks "?" ts && Ahead.after 1 (Ahead.word "const") ts)
  if constant then
    let _ ← marks? "?"
    word "const"
  let negative ← next fun ts => Ahead.marks "!" ts && !Ahead.after 1 (Ahead.group .curly) ts
  if negative then drop 1
  let first ← g.type true
  let ofTrait ← word? "for"
  if ofTrait then let _ ← g.type true
  g.conditions
  let found ← within .curly do
    let _ ← g.innerAttributes
    toEnd g.implItem
  if !inherited || constant || ofTrait then return .other
  else return .methods (if negative then .other else first) (found.filterMap id)

/-- A module. -/
def module (g : Grammar) : Parse Item := do
  let _ ← word? "unsafe"
  word "mod"
  if !(← word? "try") then let _ ← name
  if ← marks? ";" then return .other
  else
    within .curly do
      let _ ← g.innerAttributes
      return .module (← toEnd g.item)

/-- What is imported. -/
def importRule (g : Grammar) (rooted : Bool) : Parse Unit := do
  let ts ← get
  if Ahead.name ts || Ahead.wordOf ["self", "super", "crate", "try"] ts then
    drop 1
    if ← marks? "::" then g.importTree false
    else if ← word? "as" then let _ ← nameOrBlank
  else if Ahead.marks "*" ts then drop 1
  else
    let _ ← within .curly (commaList do
      let starts ← if rooted then marks? "::" else pure false
      g.importTree (rooted && !starts))

/-- A definition of a macro with a keyword of its own. -/
def macroDefinition : Parse Unit := do
  word "macro"
  let _ ← name
  if ← next (Ahead.group .round) then drop 1
  let _ ← group .curly

/-- An item after its attributes and its visibility. -/
def itemAfter (g : Grammar) (attributes : List Attribute) (inherited : Bool) : Parse Item := do
  let ts ← get
  let second := fun (p : Ahead) => Ahead.after 1 p ts
  if startsFunction false ts then
    let _ ← g.function false
    return .other
  else if Ahead.word "extern" ts then
    if second (Ahead.word "crate") then libraryImport
    else
      if !inherited then failure
      g.foreignBlock
    return .other
  else if ← word? "use" then
    let rooted ← marks? "::"
    g.importTree !rooted
    marks ";"
    return .other
  else if Ahead.word "static" ts then
    g.static false
    return .other
  else if Ahead.word "const" ts then
    g.constant
    return .other
  else if Ahead.word "unsafe" ts then
    if second (fun ts => Ahead.word "trait" ts ||
        (Ahead.word "auto" ts && Ahead.after 1 (Ahead.word "trait") ts)) then
      drop 1
      let _ ← word? "auto"
      g.traitHead
      g.traitBody
      return .other
    else if second (Ahead.word "impl") then g.implementation inherited
    else if second (Ahead.word "extern") then
      if !inherited then failure
      g.foreignBlock
      return .other
    else g.module
  else if Ahead.word "mod" ts then g.module
  else if Ahead.word "type" ts then
    g.typeName .beforeDefinition
    return .other
  else if Ahead.word "struct" ts then return .struct (← g.struct attributes)
  else if ← word? "enum" then
    let _ ← name
    let _ ← g.parameters
    g.conditions
    let _ ← within .curly (commaList g.variant)
    return .other
  else if Ahead.word "union" ts && second Ahead.name then
    drop 2
    let _ ← g.parameters
    g.conditions
    let _ ← g.namedFields
    return .other
  else if Ahead.word "trait" ts then
    g.trait
    return .other
  else if Ahead.word "auto" ts && second (Ahead.word "trait") then
    drop 1
    g.traitHead
    g.traitBody
    return .other
  else if Ahead.word "impl" ts || (Ahead.word "default" ts && !second (Ahead.marks "!")) then
    g.implementation inherited
  else if Ahead.word "macro" ts then
    macroDefinition
    return .other
  else
    if !inherited then failure
    check Ahead.pathStart
    macroCall true
    return .other

/-- An item. -/
def itemRule (g : Grammar) : Parse Item := do
  let attributes ← g.outerAttributes
  let inherited ← visibility
  g.itemAfter attributes inherited

end ApiDoc.Source.Grammar
