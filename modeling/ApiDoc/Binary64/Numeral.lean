import ApiDoc.Binary64.Basic
import ApiDoc.Text.Digits

/-!
# Decimal numerals as binary numbers

`ofDecimal` is the correctly rounded value of `digits * 10 ^ scale`; the two
guards in front of it keep the powers of ten small where the answer is zero or
infinite anyway.  `ofNumeral?` reads a numeral: a sign, digits with a point in
any place, an exponent; or a name of infinity or of a missing number.
-/

namespace ApiDoc.Binary64

/-- The number closest to `digits * 10 ^ scale`. -/
def ofDecimal (negative : Bool) (digits : Nat) (scale : Int) : Binary64 :=
  if digits == 0 then zero negative
  else if (digits.log2 * 3 / 10 : Nat) + scale > 310 then .infinite negative
  else if ((digits.log2 + 1) * 4 / 13 + 1 : Nat) + scale < -330 then zero negative
  else if 0 ≤ scale then nearest negative (digits * Nat.pow 10 scale.toNat) 1
  else nearest negative digits (Nat.pow 10 (-scale).toNat)

/-- A sign in front, and whether it was a minus. -/
def takeSign : List Char → Bool × List Char
  | '-' :: cs => (true, cs)
  | '+' :: cs => (false, cs)
  | cs => (false, cs)

/-- The exponent part of a numeral, to its end. -/
def exponentValue? : List Char → Option Int
  | [] => some 0
  | c :: cs =>
      if c = 'e' || c = 'E' then
        let (negative, ds) := takeSign cs
        if ds.isEmpty || !ds.all Char.isDigit then none
        else
          let size : Int := Text.digitsValue ds
          some (if negative then -size else size)
      else none

/-- Read a numeral without its sign. -/
def ofUnsigned? (negative : Bool) (cs : List Char) : Option Binary64 :=
  let lower := String.ofList (cs.map Char.toLower)
  if lower = "inf" || lower = "infinity" then some (.infinite negative)
  else if lower = "nan" then some .nan
  else
    let whole := cs.takeWhile Char.isDigit
    let rest := cs.dropWhile Char.isDigit
    let (fraction, rest) :=
      match rest with
      | '.' :: more => (more.takeWhile Char.isDigit, more.dropWhile Char.isDigit)
      | _ => ([], rest)
    if whole.isEmpty && fraction.isEmpty then none
    else (exponentValue? rest).map fun exponent =>
      ofDecimal negative (Text.digitsValue (whole ++ fraction)) (exponent - fraction.length)

/-- Read a numeral. -/
def ofNumeral? (cs : List Char) : Option Binary64 :=
  let (negative, rest) := takeSign cs
  ofUnsigned? negative rest

end ApiDoc.Binary64
