import ApiDoc.Source.Tree

/-!
# Parsing token trees

A parser takes trees from the front of a list, and gives nothing when they do not
fit.  Which way to go is decided by looking ahead at the list; a parser that failed is
tried again differently only where that is said.
-/

namespace ApiDoc.Source

/-- A reader of the front of a list of trees. -/
abbrev Parse (α : Type) := StateT (List Tree) Option α

/-- A test of what stands next. -/
abbrev Ahead := List Tree → Bool

namespace Ahead

/-- The words that are no names. -/
def keywords : List String :=
  ["_", "abstract", "as", "async", "await", "become", "box", "break", "const", "continue",
    "crate", "do", "dyn", "else", "enum", "extern", "false", "final", "fn", "for", "if",
    "impl", "in", "let", "loop", "macro", "match", "mod", "move", "mut", "override", "priv",
    "pub", "ref", "return", "Self", "self", "static", "struct", "super", "trait", "true",
    "try", "type", "typeof", "unsafe", "unsized", "use", "virtual", "where", "while", "yield"]

/-- A word, keyword or not. -/
def anyWord : Ahead
  | .word _ :: _ => true
  | _ => false

def word (name : String) : Ahead
  | .word w :: _ => w = name
  | _ => false

def wordOf (names : List String) : Ahead
  | .word w :: _ => names.contains w
  | _ => false

/-- A word that is no keyword. -/
def name : Ahead
  | .word w :: _ => !keywords.contains w
  | _ => false

def lifetime : Ahead
  | .lifetime _ :: _ => true
  | _ => false

def group (bracket : Bracket) : Ahead
  | .group b _ :: _ => b = bracket
  | _ => false

def anyGroup : Ahead
  | .group .. :: _ => true
  | _ => false

/-- Marks in a row, each but the last joint. -/
def marksOf : List Char → Ahead
  | [], _ => true
  | [c], .mark d _ :: _ => c = d
  | c :: cs, .mark d joint :: rest => c = d && joint && marksOf cs rest
  | _, _ => false

def marks (text : String) : Ahead := marksOf text.toList

def text : Ahead
  | .literal _ (.text _) :: _ => true
  | _ => false

/-- A number literal. -/
def number : Ahead
  | .literal _ (.whole _) :: _ | .literal _ .fraction :: _ => true
  | _ => false

/-- A literal: also a truth value, or a number with a minus sign. -/
def literal : Ahead
  | .literal .. :: _ => true
  | .word w :: _ => w = "true" || w = "false"
  | .mark '-' _ :: rest => number rest
  | _ => false

/-- The test, some trees further on. -/
def after (count : Nat) (p : Ahead) : Ahead := fun ts => p (ts.drop count)

/-- The word that starts a path inside the crate, or two colons. -/
def pathStart : Ahead := fun ts =>
  name ts || wordOf ["self", "super", "crate"] ts || marks "::" ts

/-- A single point. -/
def point : Ahead := fun ts => marks "." ts && !marks ".." ts

end Ahead

namespace Parse

/-- What stands next passes a test. -/
def next (p : Ahead) : Parse Bool := return p (← get)

def atEnd : Parse Bool := return (← get).isEmpty

def drop (count : Nat) : Parse Unit := modify (·.drop count)

/-- Fail unless a test holds. -/
def check (p : Ahead) : Parse Unit := do
  if !p (← get) then failure

def marks (text : String) : Parse Unit := do
  check (Ahead.marks text)
  drop text.length

/-- Take marks if they stand next. -/
def marks? (text : String) : Parse Bool := do
  if ← next (Ahead.marks text) then
    drop text.length
    return true
  else return false

def word (name : String) : Parse Unit := do
  check (Ahead.word name)
  drop 1

/-- Take a word if it stands next. -/
def word? (name : String) : Parse Bool := do
  if ← next (Ahead.word name) then
    drop 1
    return true
  else return false

def anyWord : Parse String := do
  match ← get with
  | .word w :: rest => set rest; return w
  | _ => failure

/-- A word that is no keyword. -/
def name : Parse String := do
  check Ahead.name
  anyWord

/-- A name or an underscore. -/
def nameOrBlank : Parse String := do
  if ← next (Ahead.word "_") then anyWord else name

def lifetime : Parse Unit := do
  check Ahead.lifetime
  drop 1

def lifetime? : Parse Bool := do
  if ← next Ahead.lifetime then
    drop 1
    return true
  else return false

/-- A literal, with a minus sign that belongs to it. -/
def literal : Parse Unit := do
  check Ahead.literal
  if ← next (Ahead.marks "-") then drop 2 else drop 1

/-- The trees of a group. -/
def group (bracket : Bracket) : Parse (List Tree) := do
  match ← get with
  | .group b inner :: rest =>
      if b = bracket then
        set rest
        return inner
      else failure
  | _ => failure

/-- A group of any kind: whether its brackets are curly. -/
def anyGroup : Parse Bool := do
  match ← get with
  | .group b _ :: rest => set rest; return b = .curly
  | _ => failure

/-- Parse a list of trees to its end. -/
def whole (p : Parse α) (ts : List Tree) : Parse α :=
  match p.run ts with
  | some (a, []) => pure a
  | _ => failure

/-- Parse the inside of a group to its end. -/
def within (bracket : Bracket) (p : Parse α) : Parse α := do
  whole p (← group bracket)

/-- Parse again and again while a test holds. -/
def whileFuel (go : Ahead) (p : Parse α) : (fuel : Nat) → Parse (List α)
  | 0 => return []
  | fuel + 1 => do
      if ← next go then return (← p) :: (← whileFuel go p fuel) else return []

def repeatWhile (go : Ahead) (p : Parse α) : Parse (List α) := do
  whileFuel go p (← get).length

/-- Parse up to the end. -/
def toEnd (p : Parse α) : Parse (List α) :=
  repeatWhile (fun ts => !ts.isEmpty) p

def listFuel (stop : Ahead) (separator : Parse Unit) (p : Parse α) : (fuel : Nat) → Parse (List α)
  | 0 => return []
  | fuel + 1 => do
      if ← next stop then return []
      let a ← p
      if ← next stop then return [a]
      separator
      return a :: (← listFuel stop separator p fuel)

/-- Elements with a separator between neighbours, which may also stand after the last
one. -/
def listUntil (stop : Ahead) (separator : Parse Unit) (p : Parse α) : Parse (List α) := do
  listFuel stop separator p ((← get).length + 1)

/-- Elements with commas up to the end. -/
def commaList (p : Parse α) : Parse (List α) :=
  listUntil List.isEmpty (marks ",") p

def chainFuel (separator : String) (stop : Ahead) (p : Parse α) : (fuel : Nat) →
    Parse (List α)
  | 0 => return []
  | fuel + 1 => do
      if ← next stop then return []
      let a ← p
      if ← marks? separator then return a :: (← chainFuel separator stop p fuel)
      else return [a]

/-- Elements with marks between neighbours; after one without the marks the list
ends. -/
def chain (separator : String) (stop : Ahead) (p : Parse α) : Parse (List α) := do
  chainFuel separator stop p ((← get).length + 1)

end Parse

end ApiDoc.Source
