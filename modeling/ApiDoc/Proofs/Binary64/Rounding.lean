import ApiDoc.Binary64.Basic
import Mathlib.Algebra.Order.Group.Nat
import Mathlib.Algebra.Order.Ring.Int
import Mathlib.Order.Compare
import Mathlib.Tactic.Ring

/-!
# Rounding whole numbers

A whole number below `2 ^ 53` in size is a binary number; a larger one is rounded to a
multiple of a power of two.  Rounding keeps the order of whole numbers, up to those that
become the same binary number.

Sizes are compared in units of the smallest positive number, so that no fraction is
needed; an infinite number counts as `2 ^ 1024`, which is what the largest rounded numbers
would be.
-/

namespace ApiDoc.Binary64

/-! ## Halves -/

section RoundHalfEven

variable {n m d : Nat}

theorem roundHalfEven_cases (n d : Nat) :
    roundHalfEven n d = n / d ∧ 2 * (n % d) ≤ d ∨
      roundHalfEven n d = n / d + 1 ∧ d ≤ 2 * (n % d) := by
  rw [roundHalfEven]
  split
  · next hdown =>
      refine .inl ⟨rfl, ?_⟩
      simp only [Bool.or_eq_true, Bool.and_eq_true, decide_eq_true_eq, beq_iff_eq] at hdown
      omega
  · next hup =>
      refine .inr ⟨rfl, ?_⟩
      simp only [Bool.or_eq_true, Bool.and_eq_true, decide_eq_true_eq, beq_iff_eq] at hup
      omega

theorem div_le_roundHalfEven (n d : Nat) : n / d ≤ roundHalfEven n d := by
  rcases roundHalfEven_cases n d with ⟨heq, -⟩ | ⟨heq, -⟩ <;> omega

theorem roundHalfEven_le (n d : Nat) : roundHalfEven n d ≤ n / d + 1 := by
  rcases roundHalfEven_cases n d with ⟨heq, -⟩ | ⟨heq, -⟩ <;> omega

theorem roundHalfEven_one (n : Nat) : roundHalfEven n 1 = n := by
  rcases roundHalfEven_cases n 1 with ⟨heq, -⟩ | ⟨-, hhalf⟩
  · rw [heq, Nat.div_one]
  · omega

/-- Rounding to a multiple keeps the order. -/
theorem roundHalfEven_mono (h : n ≤ m) (d : Nat) : roundHalfEven n d ≤ roundHalfEven m d := by
  rcases (Nat.div_le_div_right h : n / d ≤ m / d).lt_or_eq with hlt | heq
  · calc roundHalfEven n d
      _ ≤ n / d + 1 := roundHalfEven_le n d
      _ ≤ m / d := hlt
      _ ≤ roundHalfEven m d := div_le_roundHalfEven m d
  · -- With one quotient the remainders are in order, and so are the decisions to go up.
    have hmod : n % d ≤ m % d := by
      have hn := Nat.div_add_mod n d
      have hm := Nat.div_add_mod m d
      rw [heq] at hn
      omega
    simp only [roundHalfEven, heq, Bool.or_eq_true, Bool.and_eq_true, decide_eq_true_eq,
      beq_iff_eq]
    split <;> split <;> omega

end RoundHalfEven

/-! ## The rounded number -/

/-- How many binary places are lost by a number with a mantissa of 53 bits. -/
def lostPlaces (n : Nat) : Nat :=
  n.log2 - 52

/-- The whole number that is closest to `n` among those with 53 significant bits. -/
def rounded (n : Nat) : Nat :=
  roundHalfEven n (2 ^ lostPlaces n) * 2 ^ lostPlaces n

section Rounded

variable {n m : Nat}

theorem rounded_of_lt (h : n < 2 ^ 53) : rounded n = n := by
  have hnone : lostPlaces n = 0 := by
    by_cases hn : n = 0
    · subst hn
      rfl
    · have hlog : n.log2 < 53 := (Nat.log2_lt hn).mpr h
      rw [lostPlaces]
      omega
  rw [rounded, hnone, Nat.pow_zero, roundHalfEven_one, Nat.mul_one]

theorem lostPlaces_add (h : 2 ^ 52 ≤ n) : lostPlaces n + 52 = n.log2 := by
  have hn : n ≠ 0 := by omega
  have hlog : 52 ≤ n.log2 := (Nat.le_log2 hn).mpr h
  rw [lostPlaces]
  omega

/-- The quotient that is rounded has 53 bits. -/
theorem quotient_bounds (h : 2 ^ 52 ≤ n) :
    2 ^ 52 ≤ n / 2 ^ lostPlaces n ∧ n / 2 ^ lostPlaces n < 2 ^ 53 := by
  have hn : n ≠ 0 := by omega
  have hlog := lostPlaces_add h
  have hpos : 0 < 2 ^ lostPlaces n := Nat.two_pow_pos _
  constructor
  · rw [Nat.le_div_iff_mul_le hpos, ← Nat.pow_add]
    have hsum : 52 + lostPlaces n = n.log2 := by omega
    rw [hsum]
    exact Nat.log2_self_le hn
  · rw [Nat.div_lt_iff_lt_mul hpos, ← Nat.pow_add]
    have hsum : 53 + lostPlaces n = n.log2 + 1 := by omega
    rw [hsum]
    exact Nat.lt_log2_self

theorem mantissa_bounds (h : 2 ^ 52 ≤ n) :
    2 ^ 52 ≤ roundHalfEven n (2 ^ lostPlaces n) ∧
      roundHalfEven n (2 ^ lostPlaces n) ≤ 2 ^ 53 := by
  have hquotient := quotient_bounds h
  have hlow := div_le_roundHalfEven n (2 ^ lostPlaces n)
  have hhigh := roundHalfEven_le n (2 ^ lostPlaces n)
  omega

/-- A number is rounded within its binary places. -/
theorem rounded_bounds (h : 2 ^ 52 ≤ n) :
    2 ^ n.log2 ≤ rounded n ∧ rounded n ≤ 2 ^ (n.log2 + 1) := by
  have hmantissa := mantissa_bounds h
  have hlog := lostPlaces_add h
  constructor
  · calc 2 ^ n.log2
      _ = 2 ^ 52 * 2 ^ lostPlaces n := by rw [← hlog, Nat.pow_add, Nat.mul_comm]
      _ ≤ rounded n := Nat.mul_le_mul_right _ hmantissa.1
  · calc rounded n
      _ ≤ 2 ^ 53 * 2 ^ lostPlaces n := Nat.mul_le_mul_right _ hmantissa.2
      _ = 2 ^ (n.log2 + 1) := by rw [← hlog, ← Nat.pow_add]; congr 1; omega

theorem rounded_mono (h : n ≤ m) : rounded n ≤ rounded m := by
  rcases Nat.lt_or_ge m (2 ^ 53) with hm | hm
  · rw [rounded_of_lt hm, rounded_of_lt (Nat.lt_of_le_of_lt h hm)]
    exact h
  · have hmlog := rounded_bounds (n := m) (by omega)
    rcases Nat.lt_or_ge n (2 ^ 52) with hn | hn
    · have hfirst : 2 ^ 53 ≤ 2 ^ m.log2 :=
        Nat.pow_le_pow_right (by decide) ((Nat.le_log2 (by omega)).mpr hm)
      rw [rounded_of_lt (by omega)]
      omega
    · have hlog : n.log2 ≤ m.log2 :=
        (Nat.le_log2 (by omega)).mpr (Nat.le_trans (Nat.log2_self_le (by omega)) h)
      rcases hlog.lt_or_eq with hlt | heq
      · calc rounded n
          _ ≤ 2 ^ (n.log2 + 1) := (rounded_bounds hn).2
          _ ≤ 2 ^ m.log2 := Nat.pow_le_pow_right (by decide) hlt
          _ ≤ rounded m := hmlog.1
      · have hlost : lostPlaces n = lostPlaces m := by rw [lostPlaces, lostPlaces, heq]
        rw [rounded, rounded, hlost]
        exact Nat.mul_le_mul_right _ (roundHalfEven_mono h _)

/-- Numbers that are not exact stay above those that are. -/
theorem le_rounded (h : 2 ^ 53 ≤ n) : 2 ^ 53 ≤ rounded n := by
  calc 2 ^ 53
    _ = rounded (2 ^ 53) := by decide +kernel
    _ ≤ rounded n := rounded_mono h

end Rounded

/-! ## Sizes in units of the smallest positive number -/

/-- A size with a sign. -/
def signed (negative : Bool) (size : Nat) : Int :=
  if negative then -(size : Int) else size

@[simp] theorem signed_false (size : Nat) : signed false size = size := rfl

@[simp] theorem signed_true (size : Nat) : signed true size = -(size : Int) := rfl

/-- The size of an infinite number: that of the number after the largest finite one. -/
def overflow : Nat :=
  2 ^ 53 * 2 ^ (greatestExponent - leastExponent).toNat

/-- The value of a number, in units of the smallest positive one. -/
def units : Binary64 → Int
  | .nan => 0
  | .infinite negative => signed negative overflow
  | .finite negative mantissa exponent =>
      mantissaAt negative mantissa exponent leastExponent

/-- What the mantissa and the exponent of a number are as arithmetic leaves them: the mantissa
has 53 bits, unless the exponent is the least. -/
structure Fits (mantissa : Nat) (exponent : Int) : Prop where
  lt : mantissa < 2 ^ 53
  least : leastExponent ≤ exponent
  greatest : exponent ≤ greatestExponent
  full : exponent ≠ leastExponent → 2 ^ 52 ≤ mantissa

/-- A number as arithmetic leaves it. -/
def Canonical : Binary64 → Prop
  | .nan => False
  | .infinite _ => True
  | .finite _ mantissa exponent => Fits mantissa exponent

section Units

variable {x y : Binary64} {negative : Bool} {mantissa : Nat} {exponent least : Int}

theorem natAbs_signed (negative : Bool) (size : Nat) : (signed negative size).natAbs = size := by
  cases negative with
  | false => exact Int.natAbs_natCast size
  | true => exact (Int.natAbs_neg _).trans (Int.natAbs_natCast size)

theorem signed_mul (negative : Bool) (size factor : Nat) :
    signed negative (size * factor) = signed negative size * factor := by
  cases negative <;> simp [signed]

theorem mantissaAt_eq (negative : Bool) (mantissa : Nat) (exponent least : Int) :
    mantissaAt negative mantissa exponent least =
      signed negative (mantissa * 2 ^ (exponent - least).toNat) := by
  rw [mantissaAt, signed]
  push_cast
  rfl

/-- At a smaller exponent the mantissa is a multiple. -/
theorem mantissaAt_lower {lower : Int} (hlower : lower ≤ least) (hleast : least ≤ exponent) :
    mantissaAt negative mantissa exponent lower =
      mantissaAt negative mantissa exponent least * ((2 ^ (least - lower).toNat : Nat) : Int) := by
  have hplaces : (exponent - lower).toNat =
      (exponent - least).toNat + (least - lower).toNat := by omega
  rw [mantissaAt_eq, mantissaAt_eq, ← signed_mul, hplaces, Nat.pow_add, Nat.mul_assoc]

/-- The units of a number follow from its mantissa at any exponent in between. -/
theorem units_finite (hleast : leastExponent ≤ least) (hexponent : least ≤ exponent) :
    (finite negative mantissa exponent).units =
      mantissaAt negative mantissa exponent least *
        ((2 ^ (least - leastExponent).toNat : Nat) : Int) :=
  mantissaAt_lower hleast hexponent

/-- A finite number is smaller in size than an infinite one. -/
theorem Fits.natAbs_units_lt (h : Fits mantissa exponent) (negative : Bool) :
    (finite negative mantissa exponent).units.natAbs < overflow := by
  have hplaces : (exponent - leastExponent).toNat ≤ (greatestExponent - leastExponent).toNat := by
    have hgreatest := h.greatest
    omega
  rw [units, mantissaAt_eq, natAbs_signed]
  exact Nat.mul_lt_mul_of_lt_of_le h.lt (Nat.pow_le_pow_right (by decide) hplaces)
    (Nat.two_pow_pos _)

theorem compare_mul_right (a b : Int) {factor : Int} (h : 0 < factor) :
    compare (a * factor) (b * factor) = compare a b := by
  rcases lt_trichotomy a b with hlt | rfl | hgt
  · rw [compare_lt_iff_lt.mpr hlt, compare_lt_iff_lt]
    exact Int.mul_lt_mul_of_pos_right hlt h
  · rw [compare_eq_iff_eq.mpr rfl, compare_eq_iff_eq.mpr rfl]
  · rw [compare_gt_iff_gt.mpr hgt, compare_gt_iff_gt]
    exact Int.mul_lt_mul_of_pos_right hgt h

theorem overflow_pos : 0 < overflow :=
  Nat.mul_pos (Nat.two_pow_pos _) (Nat.two_pow_pos _)

/-- A finite number is on that side of an infinite one that the sign of the latter says. -/
theorem compare_overflow {value : Int} (h : value.natAbs < overflow) (negative : Bool) :
    compare (signed negative overflow) value = if negative then .lt else .gt := by
  cases negative with
  | false =>
      apply compare_gt_iff_gt.mpr
      rw [signed_false]
      omega
  | true =>
      apply compare_lt_iff_lt.mpr
      rw [signed_true]
      omega

/-- Numbers are compared by their values. -/
theorem compare?_eq (hx : x.Canonical) (hy : y.Canonical) :
    compare? x y = some (compare x.units y.units) := by
  match x, y with
  | .infinite s, .infinite t =>
      have hpos := overflow_pos
      cases s <;> cases t
      · exact congrArg some (compare_eq_iff_eq.mpr rfl).symm
      · refine congrArg some (compare_gt_iff_gt.mpr ?_).symm
        rw [units, units, signed_false, signed_true]
        omega
      · refine congrArg some (compare_lt_iff_lt.mpr ?_).symm
        rw [units, units, signed_false, signed_true]
        omega
      · exact congrArg some (compare_eq_iff_eq.mpr rfl).symm
  | .infinite s, .finite t n f =>
      rw [units, compare_overflow (Fits.natAbs_units_lt hy t), compare?]
  | .finite s m e, .infinite t =>
      rw [units, Std.OrientedOrd.eq_swap, compare_overflow (Fits.natAbs_units_lt hx s), compare?]
      cases t <;> rfl
  | .finite s m e, .finite t n f =>
      rw [units_finite (le_min hx.least hy.least) (min_le_left e f),
        units_finite (le_min hx.least hy.least) (min_le_right e f),
        compare_mul_right _ _ (Int.natCast_pos.mpr (Nat.two_pow_pos _))]
      rfl

theorem signed_inj {s t : Bool} {size other : Nat} (hne : size ≠ 0)
    (h : signed s size = signed t other) : s = t ∧ size = other := by
  cases s <;> cases t <;> simp only [signed_false, signed_true] at h <;> simp <;> omega

theorem Fits.exponent_le {n m : Nat} {e f : Int} (hn : Fits n e) (hm : Fits m f)
    (h : n * 2 ^ (e - leastExponent).toNat = m * 2 ^ (f - leastExponent).toNat) : f ≤ e := by
  by_contra hlt
  have hleast := hn.least
  have hplaces : (f - leastExponent).toNat =
      (e - leastExponent).toNat + 1 + (f - e - 1).toNat := by omega
  have hfull : 2 ^ 52 ≤ m := hm.full (by omega)
  have hpos : 0 < 2 ^ (e - leastExponent).toNat := Nat.two_pow_pos _
  have hsame : n = m * 2 * 2 ^ (f - e - 1).toNat := by
    apply Nat.eq_of_mul_eq_mul_right hpos
    rw [h, hplaces, Nat.pow_add, Nat.pow_succ]
    ring
  have hlarge : m * 2 ≤ n := hsame ▸ Nat.le_mul_of_pos_right _ (Nat.two_pow_pos _)
  have hn := hn.lt
  omega

/-- Two canonical numbers of one value are the same, but for the sign of zero. -/
theorem eq_of_units_eq (hx : x.Canonical) (hy : y.Canonical) (hne : x.units ≠ 0)
    (h : x.units = y.units) : x = y := by
  match x, y with
  | .infinite s, .infinite t =>
      obtain ⟨rfl, -⟩ := signed_inj overflow_pos.ne' h
      rfl
  | .infinite s, .finite t n f =>
      have hlt := Fits.natAbs_units_lt hy t
      rw [← h, units, natAbs_signed] at hlt
      exact absurd hlt (Nat.lt_irrefl _)
  | .finite s m e, .infinite t =>
      have hlt := Fits.natAbs_units_lt hx s
      rw [h, units, natAbs_signed] at hlt
      exact absurd hlt (Nat.lt_irrefl _)
  | .finite s m e, .finite t n f =>
      rw [units, units, mantissaAt_eq, mantissaAt_eq] at h
      have hsize : m * 2 ^ (e - leastExponent).toNat ≠ 0 := by
        intro hzero
        apply hne
        rw [units, mantissaAt_eq, hzero]
        cases s <;> rfl
      obtain ⟨rfl, hsame⟩ := signed_inj hsize h
      obtain rfl : e = f := le_antisymm (hy.exponent_le hx hsame.symm) (hx.exponent_le hy hsame)
      rw [Nat.eq_of_mul_eq_mul_right (Nat.two_pow_pos _) hsame]

end Units

/-! ## Rounding -/

/-- The number of units in one. -/
def unitsPerOne : Nat :=
  2 ^ (-leastExponent).toNat

/-- The size of the number that a whole number becomes. -/
def roundedUnits (n : Nat) : Nat :=
  min (rounded n * unitsPerOne) overflow

/-- A number with a mantissa that may be too large by one, and an exponent without upper
bound. -/
def settled (negative : Bool) (mantissa : Nat) (exponent : Int) : Binary64 :=
  let (m, e) := if mantissa == 2 ^ 53 then (2 ^ 52, exponent + 1) else (mantissa, exponent)
  if e > greatestExponent then .infinite negative else .finite negative m e

section Settled

variable {mantissa : Nat} {exponent : Int}

/-- A number with a full mantissa is finite, unless it is as large as the infinite ones. -/
theorem full_spec (negative : Bool) (hfull : 2 ^ 52 ≤ mantissa) (hlt : mantissa < 2 ^ 53)
    (hleast : leastExponent ≤ exponent) :
    let x : Binary64 :=
      if exponent > greatestExponent then .infinite negative
      else .finite negative mantissa exponent
    x.Canonical ∧
      x.units =
        signed negative (min (mantissa * 2 ^ (exponent - leastExponent).toNat) overflow) := by
  intro x
  by_cases hexponent : exponent > greatestExponent
  · have hlarge : overflow ≤ mantissa * 2 ^ (exponent - leastExponent).toNat := by
      have hplaces : (exponent - leastExponent).toNat =
          (greatestExponent - leastExponent).toNat + 1 +
            (exponent - greatestExponent - 1).toNat := by
        rw [greatestExponent, leastExponent] at *
        omega
      calc overflow
        _ = 2 ^ 52 * 2 ^ ((greatestExponent - leastExponent).toNat + 1) := by
          rw [overflow, Nat.pow_succ]
          ring
        _ ≤ mantissa * 2 ^ (exponent - leastExponent).toNat := by
          apply Nat.mul_le_mul hfull
          apply Nat.pow_le_pow_right (by decide)
          omega
    have hx : x = .infinite negative := if_pos hexponent
    rw [hx, min_eq_right hlarge]
    exact ⟨trivial, rfl⟩
  · have hx : x = .finite negative mantissa exponent := if_neg hexponent
    have hfits : Fits mantissa exponent :=
      ⟨hlt, hleast, Int.not_lt.mp hexponent, fun _ => hfull⟩
    have hsmall := hfits.natAbs_units_lt negative
    rw [units, mantissaAt_eq, natAbs_signed] at hsmall
    rw [hx, min_eq_left hsmall.le, units, mantissaAt_eq]
    exact ⟨hfits, rfl⟩

theorem settled_spec (negative : Bool) (hfull : 2 ^ 52 ≤ mantissa) (hle : mantissa ≤ 2 ^ 53)
    (hleast : leastExponent ≤ exponent) :
    (settled negative mantissa exponent).Canonical ∧
      (settled negative mantissa exponent).units =
        signed negative (min (mantissa * 2 ^ (exponent - leastExponent).toNat) overflow) := by
  rw [settled]
  by_cases htop : mantissa = 2 ^ 53
  · have hplaces : (exponent + 1 - leastExponent).toNat = (exponent - leastExponent).toNat + 1 := by
      omega
    have hsize : mantissa * 2 ^ (exponent - leastExponent).toNat =
        2 ^ 52 * 2 ^ (exponent + 1 - leastExponent).toNat := by
      rw [hplaces, htop, Nat.pow_succ]
      ring
    rw [if_pos (beq_iff_eq.mpr htop), hsize]
    exact full_spec negative (by decide) (by decide) (by omega)
  · rw [if_neg (by simpa using htop)]
    exact full_spec negative hfull (by omega) hleast

theorem settled_of_gt (negative : Bool) (mantissa : Nat) (h : greatestExponent < exponent) :
    settled negative mantissa exponent = .infinite negative := by
  rw [settled]
  by_cases htop : mantissa = 2 ^ 53
  · rw [if_pos (beq_iff_eq.mpr htop)]
    exact if_pos (show exponent + 1 > greatestExponent by omega)
  · rw [if_neg (by simpa using htop)]
    exact if_pos h

end Settled

section Nearest

variable {n : Nat}

theorem scaled_one (n : Nat) :
    scaled n 1 ((n.log2 : Int) - 52) = (n * 2 ^ (52 - n.log2), 2 ^ lostPlaces n) := by
  rw [scaled, lostPlaces]
  split
  · have hup : ((n.log2 : Int) - 52).toNat = n.log2 - 52 := by omega
    have hdown : 52 - n.log2 = 0 := by omega
    rw [hup, hdown, Nat.pow_zero, Nat.mul_one, Nat.one_mul]
    rfl
  · have hup : n.log2 - 52 = 0 := by omega
    have hdown : (-((n.log2 : Int) - 52)).toNat = 52 - n.log2 := by omega
    rw [hup, hdown, Nat.pow_zero]
    rfl

/-- The quotient that is rounded has 53 bits, whether places are lost or added. -/
theorem scaledQuotient_bounds (h : n ≠ 0) :
    2 ^ 52 ≤ n * 2 ^ (52 - n.log2) / 2 ^ lostPlaces n ∧
      n * 2 ^ (52 - n.log2) / 2 ^ lostPlaces n < 2 ^ 53 := by
  rcases Nat.lt_or_ge n (2 ^ 52) with hlt | hge
  · have hlog : n.log2 < 52 := (Nat.log2_lt h).mpr hlt
    have hlost : lostPlaces n = 0 := by rw [lostPlaces]; omega
    have hlow : 2 ^ n.log2 ≤ n := Nat.log2_self_le h
    have hhigh : n < 2 ^ (n.log2 + 1) := Nat.lt_log2_self
    rw [hlost, Nat.pow_zero, Nat.div_one]
    constructor
    · calc 2 ^ 52
        _ = 2 ^ n.log2 * 2 ^ (52 - n.log2) := by rw [← Nat.pow_add]; congr 1; omega
        _ ≤ n * 2 ^ (52 - n.log2) := Nat.mul_le_mul_right _ hlow
    · calc n * 2 ^ (52 - n.log2)
        _ < 2 ^ (n.log2 + 1) * 2 ^ (52 - n.log2) :=
          Nat.mul_lt_mul_of_pos_right hhigh (Nat.two_pow_pos _)
        _ = 2 ^ 53 := by rw [← Nat.pow_add]; congr 1; omega
  · have hlog := lostPlaces_add hge
    have hadded : 52 - n.log2 = 0 := by omega
    rw [hadded, Nat.pow_zero, Nat.mul_one]
    exact quotient_bounds hge

theorem fullExponent_one (h : n ≠ 0) : fullExponent n 1 = (n.log2 : Int) - 52 := by
  have hguess : (n.log2 : Int) - Nat.log2 1 - 52 = n.log2 - 52 := by
    have hone : Nat.log2 1 = 0 := by decide
    omega
  have hfull : ¬ n * 2 ^ (52 - n.log2) / 2 ^ lostPlaces n < Nat.pow 2 52 :=
    Nat.not_lt.mpr (scaledQuotient_bounds h).1
  rw [fullExponent, hguess, scaled_one]
  exact if_neg hfull

/-- A whole number has a mantissa of 53 bits at its own exponent. -/
theorem nearest_one (h : n ≠ 0) (negative : Bool) :
    nearest negative n 1 =
      settled negative (roundHalfEven (n * 2 ^ (52 - n.log2)) (2 ^ lostPlaces n))
        (n.log2 - 52) := by
  have hexponent : max leastExponent ((n.log2 : Int) - 52) = n.log2 - 52 := by
    rw [leastExponent]
    omega
  rw [nearest, if_neg (by simpa using h), fullExponent_one h, hexponent]
  dsimp only
  rw [scaled_one]
  rfl

theorem scaledMantissa_units (n : Nat) :
    roundHalfEven (n * 2 ^ (52 - n.log2)) (2 ^ lostPlaces n) *
        2 ^ ((n.log2 : Int) - 52 - leastExponent).toNat =
      rounded n * unitsPerOne := by
  rw [rounded, unitsPerOne, lostPlaces]
  rcases Nat.lt_or_ge n.log2 52 with hlt | hge
  · have hlost : n.log2 - 52 = 0 := by omega
    have hplaces : (-leastExponent).toNat =
        52 - n.log2 + ((n.log2 : Int) - 52 - leastExponent).toNat := by
      rw [leastExponent]
      omega
    rw [hlost, Nat.pow_zero, roundHalfEven_one, roundHalfEven_one, Nat.mul_one, hplaces,
      Nat.pow_add, Nat.mul_assoc]
  · have hadded : 52 - n.log2 = 0 := by omega
    have hplaces : ((n.log2 : Int) - 52 - leastExponent).toNat =
        n.log2 - 52 + (-leastExponent).toNat := by
      rw [leastExponent]
      omega
    rw [hadded, Nat.pow_zero, Nat.mul_one, hplaces, Nat.pow_add, Nat.mul_assoc]

/-- A whole number becomes the rounded one, or infinite. -/
theorem nearest_spec (negative : Bool) (n : Nat) :
    (nearest negative n 1).Canonical ∧
      (nearest negative n 1).units = signed negative (roundedUnits n) := by
  by_cases hn : n = 0
  · subst hn
    refine ⟨⟨by decide, le_refl _, by decide, fun hne => absurd rfl hne⟩, ?_⟩
    rw [roundedUnits, rounded_of_lt (by decide), Nat.zero_mul, Nat.zero_min]
    cases negative <;> rfl
  · have hquotient := scaledQuotient_bounds hn
    have hlow := div_le_roundHalfEven (n * 2 ^ (52 - n.log2)) (2 ^ lostPlaces n)
    have hhigh := roundHalfEven_le (n * 2 ^ (52 - n.log2)) (2 ^ lostPlaces n)
    have hleast : leastExponent ≤ (n.log2 : Int) - 52 := by
      rw [leastExponent]
      omega
    rw [nearest_one hn, roundedUnits, ← scaledMantissa_units]
    exact settled_spec negative (by omega) (by omega) hleast

end Nearest

/-! ## Whole numbers in order -/

section Order

variable {n m : Nat} {i j : Int}

theorem roundedUnits_mono : Monotone roundedUnits :=
  fun _ _ hle => min_le_min_right _ (Nat.mul_le_mul_right _ (rounded_mono hle))

theorem exact_le_overflow : 2 ^ 53 * unitsPerOne ≤ overflow := by
  refine Nat.mul_le_mul_left _ (Nat.pow_le_pow_right (by decide) ?_)
  decide

theorem unitsPerOne_pos : 0 < unitsPerOne :=
  Nat.two_pow_pos _

theorem roundedUnits_of_lt (h : n < 2 ^ 53) : roundedUnits n = n * unitsPerOne := by
  rw [roundedUnits, rounded_of_lt h]
  exact min_eq_left ((Nat.mul_le_mul_right _ h.le).trans exact_le_overflow)

theorem le_roundedUnits (h : 2 ^ 53 ≤ n) : 2 ^ 53 * unitsPerOne ≤ roundedUnits n :=
  le_min (Nat.mul_le_mul_right _ (le_rounded h)) exact_le_overflow

/-- Nothing else is rounded to a number that is exact. -/
theorem eq_of_roundedUnits_eq (hn : n < 2 ^ 53) (h : roundedUnits n = roundedUnits m) : n = m := by
  rw [roundedUnits_of_lt hn] at h
  rcases Nat.lt_or_ge m (2 ^ 53) with hm | hm
  · rw [roundedUnits_of_lt hm] at h
    exact Nat.eq_of_mul_eq_mul_right unitsPerOne_pos h
  · have hlarge := le_roundedUnits hm
    rw [← h] at hlarge
    exact absurd (Nat.le_of_mul_le_mul_right hlarge unitsPerOne_pos) (Nat.not_le.mpr hn)

theorem canonical_ofInt (i : Int) : (ofInt i).Canonical :=
  (nearest_spec _ _).1

theorem units_ofInt (i : Int) : (ofInt i).units = signed (i < 0) (roundedUnits i.natAbs) :=
  (nearest_spec _ _).2

theorem signed_zero (negative : Bool) : signed negative 0 = 0 := by
  cases negative <;> rfl

/-- A sign in front of a size makes the number that is closest to the whole number. -/
theorem units_nearest (negative : Bool) (n : Nat) :
    (nearest negative n 1).units = (ofInt (signed negative n)).units := by
  rw [(nearest_spec negative n).2, units_ofInt, natAbs_signed]
  cases n with
  | zero => rw [roundedUnits_of_lt (by decide), Nat.zero_mul, signed_zero, signed_zero]
  | succ k =>
      have hsign : decide (signed negative (k + 1) < 0) = negative := by
        cases negative with
        | false => exact decide_eq_false (by rw [signed_false]; omega)
        | true => exact decide_eq_true (by rw [signed_true]; omega)
      rw [hsign]

/-- A sign puts sizes that grow in the order of the whole numbers. -/
theorem signed_mono {size : Nat → Nat} (hsize : Monotone size) (h : i ≤ j) :
    signed (i < 0) (size i.natAbs) ≤ signed (j < 0) (size j.natAbs) := by
  rcases Int.lt_or_le i 0 with hi | hi <;> rcases Int.lt_or_le j 0 with hj | hj
  · have hle := hsize (show j.natAbs ≤ i.natAbs by omega)
    rw [decide_eq_true hi, decide_eq_true hj, signed_true, signed_true]
    omega
  · rw [decide_eq_true hi, decide_eq_false hj.not_gt, signed_true, signed_false]
    omega
  · omega
  · have hle := hsize (show i.natAbs ≤ j.natAbs by omega)
    rw [decide_eq_false hi.not_gt, decide_eq_false hj.not_gt, signed_false, signed_false]
    omega

theorem units_ofInt_mono (h : i ≤ j) : (ofInt i).units ≤ (ofInt j).units := by
  rw [units_ofInt, units_ofInt]
  exact signed_mono roundedUnits_mono h

theorem roundedUnits_eq_zero_iff : roundedUnits n = 0 ↔ n = 0 := by
  have hzero : roundedUnits 0 = 0 := (roundedUnits_of_lt (by decide)).trans (Nat.zero_mul _)
  constructor
  · intro h
    exact (eq_of_roundedUnits_eq (by decide) (hzero.trans h.symm)).symm
  · rintro rfl
    exact hzero

theorem units_ofInt_eq_zero_iff : (ofInt i).units = 0 ↔ i = 0 := by
  rw [units_ofInt, ← Int.natAbs_eq_zero, natAbs_signed, roundedUnits_eq_zero_iff,
    Int.natAbs_eq_zero]

/-- A number below `2 ^ 53` in size is the only whole number that becomes what it becomes. -/
theorem eq_of_ofInt_eq (hi : i.natAbs < 2 ^ 53) (h : ofInt i = ofInt j) : i = j := by
  have hunits := congrArg units h
  rw [units_ofInt, units_ofInt] at hunits
  have hsize : i.natAbs = j.natAbs := by
    apply eq_of_roundedUnits_eq hi
    rw [← natAbs_signed (i < 0) (roundedUnits i.natAbs), hunits, natAbs_signed]
  by_cases hzero : roundedUnits i.natAbs = 0
  · have hi := roundedUnits_eq_zero_iff.mp hzero
    omega
  · have hsign := decide_eq_decide.mp (signed_inj hzero hunits).1
    omega

/-- Rounding keeps the order of whole numbers, up to those that become one binary number. -/
theorem units_ofInt_le_iff : (ofInt i).units ≤ (ofInt j).units ↔ i ≤ j ∨ ofInt i = ofInt j := by
  constructor
  · intro h
    by_cases hle : i ≤ j
    · exact .inl hle
    · have hsame : (ofInt i).units = (ofInt j).units :=
        le_antisymm h (units_ofInt_mono (by omega))
      by_cases hzero : (ofInt i).units = 0
      · have hi := units_ofInt_eq_zero_iff.mp hzero
        have hj := units_ofInt_eq_zero_iff.mp (hsame.symm.trans hzero)
        omega
      · exact .inr (eq_of_units_eq (canonical_ofInt i) (canonical_ofInt j) hzero hsame)
  · rintro (hle | heq)
    · exact units_ofInt_mono hle
    · rw [heq]

end Order

end ApiDoc.Binary64
