import ApiDoc.Binary64.Numeral
import ApiDoc.Json.Basic

/-!
# What a plain scalar stands for

A scalar without quotes is null, a truth value, a whole number in one of four
bases, a binary number, or else a text.  Decimal digits after a leading zero are a
text.
-/

namespace ApiDoc.Yaml

/-- The meaning of a plain scalar. -/
inductive Plain
  | null
  | bool (value : Bool)
  | int (value : Int)
  | float (value : Binary64)
  | text
deriving DecidableEq, Repr, Inhabited

namespace Plain

def isNull (cs : List Char) : Bool :=
  ["null", "Null", "NULL", "~"].contains (String.ofList cs)

def bool? (cs : List Char) : Option Bool :=
  match String.ofList cs with
  | "true" | "True" | "TRUE" => some true
  | "false" | "False" | "FALSE" => some false
  | _ => none

/-- The value of a digit in the bases up to sixteen. -/
def digit? (base : Nat) (c : Char) : Option Nat :=
  let n :=
    if c.isDigit then c.toNat - '0'.toNat
    else if 'a' ≤ c && c ≤ 'f' then c.toNat - 'a'.toNat + 10
    else if 'A' ≤ c && c ≤ 'F' then c.toNat - 'A'.toNat + 10
    else base
  if n < base then some n else none

/-- The number written by digits of a base, of which there is at least one. -/
def digits? (base : Nat) (cs : List Char) : Option Nat :=
  if cs.isEmpty then none
  else cs.foldl (fun acc c => acc.bind fun n => (digit? base c).map (base * n + ·)) (some 0)

/-- Decimal digits after a leading zero, perhaps after a sign. -/
def hasLeadingZero (cs : List Char) : Bool :=
  match (Binary64.takeSign cs).2 with
  | '0' :: c :: rest => (c :: rest).all Char.isDigit
  | _ => false

/-- A whole number without its sign: digits after the mark of a base, or decimal
digits. -/
def size? (cs : List Char) : Option Nat :=
  match cs with
  | '0' :: 'x' :: rest => digits? 16 rest
  | '0' :: 'o' :: rest => digits? 8 rest
  | '0' :: 'b' :: rest => digits? 2 rest
  | _ => if hasLeadingZero cs then none else digits? 10 cs

/-- A whole number of at most 128 bits. -/
def int? (cs : List Char) : Option Int :=
  match Binary64.takeSign cs with
  | (true, rest) => ((size? rest).filter (· ≤ Nat.pow 2 127)).map fun n => -(n : Int)
  | (false, rest) => ((size? rest).filter (· < Nat.pow 2 128)).map fun n => (n : Int)

/-- A binary number; infinities and the missing number have names of their own. -/
def float? (cs : List Char) : Option Binary64 :=
  let (negative, rest) := Binary64.takeSign cs
  let signed := negative || rest.length < cs.length
  if [".inf", ".Inf", ".INF"].contains (String.ofList rest) then some (.infinite negative)
  else if !signed && [".nan", ".NaN", ".NAN"].contains (String.ofList rest) then some .nan
  else if hasLeadingZero cs || (Binary64.takeSign rest).2.length < rest.length then none
  else (Binary64.ofNumeral? cs).filter Binary64.isFinite

/-- The meaning of a scalar. -/
def ofText (cs : List Char) : Plain :=
  if cs.isEmpty || isNull cs then .null
  else
    match bool? cs, int? cs, float? cs with
    | some b, _, _ => .bool b
    | none, some i, _ => .int i
    | none, none, some x => .float x
    | none, none, none => .text

/-- A whole number as a value, if 64 bits hold it. -/
def intValue? (i : Int) : Option Json :=
  if -(Nat.pow 2 63 : Int) ≤ i && i < (Nat.pow 2 64 : Int) then some (.num (.int i)) else none

/-- A binary number as a value; one that is not finite is no number. -/
def floatValue (x : Binary64) : Json :=
  if x.isFinite then .num (.float x) else .null

/-- The value of a scalar; a whole number may be too large for one. -/
def value? (cs : List Char) : Option Json :=
  match ofText cs with
  | .null => some .null
  | .bool b => some (.bool b)
  | .int i => intValue? i
  | .float x => some (floatValue x)
  | .text => some (.str (String.ofList cs))

end Plain

end ApiDoc.Yaml
