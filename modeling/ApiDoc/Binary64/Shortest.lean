import ApiDoc.Binary64.Basic

/-!
# The shortest decimal that reads back

Every finite number is the rounding of an interval of decimals.  `shortest`
looks for the coarsest decimal grid with a point in that interval, and takes
the point closest to the number.  `text` lays the digits out: with a point
where the number is of ordinary size, with an exponent where it is not.
-/

namespace ApiDoc.Binary64

/-- The decimals that round to a positive number: `low` to `high` around
`value`, all over `den`, with or without the two ends. -/
structure Interval where
  low : Nat
  value : Nat
  high : Nat
  den : Nat
  closed : Bool

/-- The interval of `m * 2 ^ e`; below a power of two it is half as wide. -/
def interval (m : Nat) (e : Int) : Interval :=
  let below := if m == Nat.pow 2 52 && e > leastExponent then 1 else 2
  let up := if 2 ≤ e then Nat.pow 2 (e - 2).toNat else 1
  let den := if 2 ≤ e then 1 else Nat.pow 2 (2 - e).toNat
  { low := (4 * m - below) * up
    value := 4 * m * up
    high := (4 * m + 2) * up
    den := den
    closed := m % 2 == 0 }

/-- Whether `digits * 10 ^ scale` lies in the interval. -/
def Interval.holds (i : Interval) (digits : Nat) (scale : Int) : Bool :=
  let point := digits * i.den * Nat.pow 10 scale.toNat
  let unit := Nat.pow 10 (-scale).toNat
  if i.closed then i.low * unit ≤ point && point ≤ i.high * unit
  else i.low * unit < point && point < i.high * unit

/-- The point of the grid `10 ^ scale` that is in the interval and closest to
its value. -/
def Interval.onGrid? (i : Interval) (scale : Int) : Option Nat :=
  let size := i.den * Nat.pow 10 scale.toNat
  let value := i.value * Nat.pow 10 (-scale).toNat
  let down := value / size
  let rest := value % size
  let downFirst := 2 * rest < size || (2 * rest == size && down % 2 == 0)
  let (first, second) := if downFirst then (down, down + 1) else (down + 1, down)
  if i.holds first scale then some first
  else if i.holds second scale then some second
  else none

/-- Try the grids from coarse to fine. -/
def Interval.coarsest (i : Interval) : Nat → Int → Nat × Int
  | 0, scale => (0, scale)
  | fuel + 1, scale =>
      match i.onGrid? scale with
      | some digits => (digits, scale)
      | none => i.coarsest fuel (scale - 1)

/-- Digits and scale of the shortest decimal that rounds to `m * 2 ^ e`. -/
def shortest (m : Nat) (e : Int) : Nat × Int :=
  let start := ((m.log2 : Int) + 1 + e) * 30103 / 100000 + 1
  (interval m e).coarsest 24 start

/-- How numbers of extraordinary size are written. -/
structure Layout where
  /-- Write a plus sign before a positive exponent. -/
  plusSign : Bool

/-- Digits without a point for `count` zeros. -/
def zeros (count : Nat) : List Char :=
  List.replicate count '0'

/-- Lay out positive digits: a point for sizes from `1e-5` up to `1e16`, an
exponent outside. -/
def Layout.positive (layout : Layout) (digits : Nat) (scale : Int) : List Char :=
  let ds := (toString digits).toList
  let point : Int := ds.length + scale
  if 0 ≤ scale && point ≤ 16 then ds ++ zeros scale.toNat ++ ['.', '0']
  else if 0 < point && point ≤ 16 then ds.take point.toNat ++ '.' :: ds.drop point.toNat
  else if -5 < point && point ≤ 0 then '0' :: '.' :: zeros (-point).toNat ++ ds
  else
    let exponent := point - 1
    let sign := if exponent < 0 then ['-'] else if layout.plusSign then ['+'] else []
    let fraction := if ds.length = 1 then [] else '.' :: ds.drop 1
    ds.take 1 ++ fraction ++ 'e' :: sign ++ (toString exponent.natAbs).toList

/-- The text of a number. -/
def text (layout : Layout) : Binary64 → String
  | .nan => "NaN"
  | .infinite negative => if negative then "-inf" else "inf"
  | .finite negative m e =>
      let size :=
        if m == 0 then ['0', '.', '0']
        else
          let (digits, scale) := shortest m e
          layout.positive digits scale
      String.ofList (if negative then '-' :: size else size)

end ApiDoc.Binary64
