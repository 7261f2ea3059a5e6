import ApiDoc.Binary64.Basic
import ApiDoc.Dict

/-!
# JSON values

Numbers are whole, in the range of 64-bit words with or without a sign, or
binary64.  The members of an object keep the order in which they were written.
A text may repeat a key; `merged` is the value such a text stands for, where a
key keeps its first place and its last value.
-/

namespace ApiDoc

/-- A JSON number; `1` and `1.0` differ. -/
inductive Number
  | int (value : Int)
  | float (value : Binary64)
deriving DecidableEq, Repr, Inhabited

/-- A JSON value. -/
inductive Json
  | null
  | bool (value : Bool)
  | num (value : Number)
  | str (value : String)
  | arr (items : List Json)
  | obj (members : List (String × Json))
deriving Repr, Inhabited

/-- Equality by value: `0.0` and `-0.0` are the same number. -/
def Number.same : Number → Number → Bool
  | .int a, .int b => a == b
  | .float a, .float b => a.compare? b == some .eq
  | _, _ => false

/-- The closest binary number. -/
def Number.toBinary64 : Number → Binary64
  | .int i => .ofInt i
  | .float x => x

namespace Json

/-- A whole number as a value. -/
def ofNat (n : Nat) : Json :=
  .num (.int n)

def asStr? : Json → Option String
  | .str s => some s
  | _ => none

def asBool? : Json → Option Bool
  | .bool b => some b
  | _ => none

def asArr? : Json → Option (List Json)
  | .arr items => some items
  | _ => none

def asObj? : Json → Option (List (String × Json))
  | .obj members => some members
  | _ => none

/-- A whole number that fits 64 bits without a sign. -/
def asWord? : Json → Option Nat
  | .num (.int i) => if 0 ≤ i && i < (Nat.pow 2 64 : Int) then some i.toNat else none
  | _ => none

/-- A number without a sign as a value: missing ones are `null`. -/
def ofOption (f : α → Json) : Option α → Json
  | none => .null
  | some a => f a

/-- The member of an object. -/
def member? (j : Json) (key : String) : Option Json :=
  match j with
  | .obj members => Dict.find? members key
  | _ => none

mutual

/-- Keep one member of each key, with its first place and its last value. -/
def merged : Json → Json
  | .arr items => .arr (mergedItems items)
  | .obj members => .obj (Dict.merged (mergedMembers members))
  | j => j
termination_by structural j => j

def mergedItems : List Json → List Json
  | [] => []
  | j :: rest => merged j :: mergedItems rest
termination_by structural items => items

def mergedMembers : List (String × Json) → List (String × Json)
  | [] => []
  | (k, j) :: rest => (k, merged j) :: mergedMembers rest
termination_by structural members => members

end

mutual

/-- Equality of values, in which the order of members plays no part. -/
def same : Json → Json → Bool
  | .null, .null => true
  | .bool a, .bool b => a == b
  | .num a, .num b => a.same b
  | .str a, .str b => a == b
  | .arr xs, .arr ys => sameItems xs ys
  | .obj xs, .obj ys => xs.length == ys.length && sameMembers xs ys
  | _, _ => false
termination_by structural j => j

def sameItems : List Json → List Json → Bool
  | [], [] => true
  | x :: xs, y :: ys => same x y && sameItems xs ys
  | _, _ => false
termination_by structural items => items

/-- Every member on the left has an equal one on the right. -/
def sameMembers : List (String × Json) → List (String × Json) → Bool
  | [], _ => true
  | (k, x) :: xs, ys =>
      (match Dict.find? ys k with
        | some y => same x y
        | none => false) && sameMembers xs ys
termination_by structural members => members

end

end Json

end ApiDoc
