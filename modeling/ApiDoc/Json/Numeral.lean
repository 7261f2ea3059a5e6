import ApiDoc.Binary64.Numeral
import ApiDoc.Json.Basic

/-!
# JSON numerals

A numeral without fraction and exponent is whole when it fits 64 bits.  Any
other numeral keeps the leading digits that fit a 64-bit word; its value is that
word times or divided by one power of ten, rounded after each of the two steps.
For up to fifteen digits and small exponents this is the correctly rounded
value; for longer numerals it can be one unit off in the last place.
-/

namespace ApiDoc.Json.Numeral

/-- The largest word without a sign. -/
def wordMax : Nat := Nat.pow 2 64 - 1

/-- Append one digit when the word has room for it. -/
def push? (word : Nat) (c : Char) : Option Nat :=
  let next := 10 * word + (c.toNat - '0'.toNat)
  if next ≤ wordMax then some next else none

/-- Read digits while the word has room; the digits left over come second. -/
def fill (word : Nat) : List Char → Nat × List Char
  | [] => (word, [])
  | c :: cs =>
      match push? word c with
      | some next => fill next cs
      | none => (word, c :: cs)

/-- The binary number closest to a power of ten. -/
def tenPow (k : Nat) : Binary64 :=
  .nearest false (Nat.pow 10 k) 1

/-- Divide by `10 ^ k` in steps of at most `10 ^ 308`. -/
def shrink (fuel : Nat) (x : Binary64) (k : Nat) : Binary64 :=
  match fuel with
  | 0 => .zero false
  | fuel + 1 =>
      if k ≤ 308 then x.div (tenPow k)
      else if x.isZero then x
      else shrink fuel (x.div (tenPow 308)) (k - 308)

/-- A word times a power of ten; nothing when the result is out of range. -/
def scale? (negative : Bool) (word : Nat) (exponent : Int) : Option Binary64 :=
  let x := Binary64.ofInt word
  let size :=
    if exponent < 0 then shrink 5 x (-exponent).toNat
    else if exponent ≤ 308 then x.mul (tenPow exponent.toNat)
    else if x.isZero then x
    else .infinite false
  if size.isFinite then some (if negative then size.neg else size) else none

/-- The largest exponent that is read. -/
def exponentMax : Nat := Nat.pow 2 31 - 1

/-- The value of an exponent after `e`, with the text after it; the flag says
whether it is beyond the readable ones. -/
def exponent? (cs : List Char) : Option (Int × Bool × List Char) :=
  let (negative, rest) := Binary64.takeSign cs
  let ds := rest.takeWhile Char.isDigit
  if ds.isEmpty then none
  else
    let size := Text.digitsValue ds
    some (if negative then -(size : Int) else size, size > exponentMax,
      rest.dropWhile Char.isDigit)

/-- Finish a numeral that is not whole: an exponent may follow. -/
def finish? (negative : Bool) (word : Nat) (exponent : Int) (cs : List Char) :
    Option (Number × List Char) :=
  let whole := fun (e : Int) (rest : List Char) =>
    (scale? negative word e).map fun x => (Number.float x, rest)
  match cs with
  | c :: more =>
      if c = 'e' || c = 'E' then
        match exponent? more with
        | none => none
        | some (e, huge, rest) =>
            if huge then
              if word != 0 && 0 < e then none
              else some (.float (.zero negative), rest)
            else whole (exponent + e) rest
      else whole exponent cs
  | [] => whole exponent cs

/-- The fraction after a point: digits are taken while the word has room. -/
def fraction? (negative : Bool) (word : Nat) (exponent : Int) (cs : List Char) :
    Option (Number × List Char) :=
  let ds := cs.takeWhile Char.isDigit
  let (filled, rest) := fill word ds
  if ds.isEmpty then none
  else
    finish? negative filled (exponent - (ds.length - rest.length : Nat))
      (cs.dropWhile Char.isDigit)

/-- A whole number; a minus before zero and a size beyond the words make it
binary. -/
def whole (negative : Bool) (word : Nat) : Number :=
  if negative then
    if word == 0 || word > Nat.pow 2 63 then .float (Binary64.ofInt word).neg
    else .int (-(word : Int))
  else .int word

/-- Read a numeral after its sign. -/
def unsigned? (negative : Bool) (cs : List Char) : Option (Number × List Char) :=
  let ds := cs.takeWhile Char.isDigit
  let rest := cs.dropWhile Char.isDigit
  if ds.isEmpty || (ds.head? = some '0' && ds.length > 1) then none
  else
    let (word, left) := fill 0 ds
    let exponent : Int := left.length
    match rest with
    | '.' :: more => fraction? negative word exponent more
    | c :: _ =>
        if c = 'e' || c = 'E' || !left.isEmpty then finish? negative word exponent rest
        else some (whole negative word, rest)
    | [] =>
        if left.isEmpty then some (whole negative word, rest)
        else finish? negative word exponent rest

/-- Read a numeral at the start of a text. -/
def read? : List Char → Option (Number × List Char)
  | '-' :: cs => unsigned? true cs
  | cs => unsigned? false cs

end ApiDoc.Json.Numeral
