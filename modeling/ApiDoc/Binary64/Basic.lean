/-!
# Binary floating-point numbers of 64 bits

A finite number is kept as a sign, a whole mantissa and a power of two, so that
its value is exact and every operation is arithmetic on whole numbers followed
by one rounding.  `nearest` is that rounding: of the two neighbouring numbers
the closer one, and of two equally close ones the one with an even mantissa.
-/

namespace ApiDoc

/-- A number of the binary64 format; `finite s m e` has the size `m * 2 ^ e`. -/
inductive Binary64
  | nan
  | infinite (negative : Bool)
  | finite (negative : Bool) (mantissa : Nat) (exponent : Int)
deriving DecidableEq, Repr, Inhabited

namespace Binary64

/-- The exponent of the numbers closest to zero. -/
def leastExponent : Int := -1074

/-- The exponent of the largest numbers. -/
def greatestExponent : Int := 971

def zero (negative : Bool) : Binary64 :=
  .finite negative 0 leastExponent

def isZero : Binary64 → Bool
  | .finite _ m _ => m == 0
  | _ => false

def isFinite : Binary64 → Bool
  | .finite .. => true
  | _ => false

/-- Numerator and denominator of `num / den / 2 ^ e`. -/
def scaled (num den : Nat) (e : Int) : Nat × Nat :=
  if 0 ≤ e then (num, den * Nat.pow 2 e.toNat) else (num * Nat.pow 2 (-e).toNat, den)

/-- The whole number closest to `n / d`; halves go to the even neighbour. -/
def roundHalfEven (n d : Nat) : Nat :=
  let q := n / d
  let r := n % d
  if 2 * r < d || (2 * r == d && q % 2 == 0) then q else q + 1

/-- The exponent at which `num / den` has a mantissa of 53 bits. -/
def fullExponent (num den : Nat) : Int :=
  let guess : Int := (num.log2 : Int) - den.log2 - 52
  let (n, d) := scaled num den guess
  if n / d < Nat.pow 2 52 then guess - 1 else guess

/-- The number closest to `num / den`, for a positive denominator. -/
def nearest (negative : Bool) (num den : Nat) : Binary64 :=
  if num == 0 then zero negative
  else
    let e := max leastExponent (fullExponent num den)
    let (n, d) := scaled num den e
    let m := roundHalfEven n d
    let (m, e) := if m == Nat.pow 2 53 then (Nat.pow 2 52, e + 1) else (m, e)
    if e > greatestExponent then .infinite negative else .finite negative m e

/-- The number closest to a whole number. -/
def ofInt (i : Int) : Binary64 :=
  nearest (i < 0) i.natAbs 1

/-- The number closest to `num * 2 ^ e / den`. -/
def nearestScaled (negative : Bool) (num den : Nat) (e : Int) : Binary64 :=
  let (n, d) := scaled num den (-e)
  nearest negative n d

/-- The product of two finite numbers, rounded once; anything else is not a number. -/
def mul : Binary64 → Binary64 → Binary64
  | .finite s m e, .finite t n f => nearestScaled (s != t) (m * n) 1 (e + f)
  | _, _ => .nan

/-- The quotient of two finite numbers, rounded once, for a divisor other than zero. -/
def div : Binary64 → Binary64 → Binary64
  | .finite s m e, .finite t n f => nearestScaled (s != t) m n (e - f)
  | _, _ => .nan

def neg : Binary64 → Binary64
  | .nan => .nan
  | .infinite s => .infinite !s
  | .finite s m e => .finite (!s) m e

/-- The signed mantissa of a finite number at a smaller exponent. -/
def mantissaAt (negative : Bool) (m : Nat) (e least : Int) : Int :=
  let size : Int := m * Nat.pow 2 (e - least).toNat
  if negative then -size else size

/-- Order by value; nothing compares with what is not a number. -/
def compare? : Binary64 → Binary64 → Option Ordering
  | .nan, _ | _, .nan => none
  | .infinite s, .infinite t => some (if s == t then .eq else if s then .lt else .gt)
  | .infinite s, .finite .. => some (if s then .lt else .gt)
  | .finite .., .infinite t => some (if t then .gt else .lt)
  | .finite s m e, .finite t n f =>
      let least := min e f
      some (compare (mantissaAt s m e least) (mantissaAt t n f least))

end Binary64

end ApiDoc
