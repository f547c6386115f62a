-- SUMMARY: IEEE 754 binary64 rounding: the double nearest a rational (round to nearest, ties to even, with subnormals and overflow to an infinity), and an exact IEEE value rounded as a double operation rounds its exact result.
import HopperKV.Lib.Scalar
import Mathlib.Algebra.Order.Field.Rat

/-!
# Rounding to binary64

A `double` operation returns its exact result rounded to the nearest binary64
value, ties to even. `Binary64.round` rounds a rational to 53 bits of
significand, with no place below `2 ^ -1074`, and to an infinity from `2 ^ 1024`
on. `Binary64.rnd` rounds an exact `Ieee ℚ`, so that `rnd (a + b)` is the
`double` sum of two `double`s. Zero keeps no sign, as in `Ieee`.
-/

namespace Binary64

open Ieee

/-- The integer nearest `n / d`, ties to even. -/
def roundDivEven (n d : ℕ) : ℕ :=
  if 2 * (n % d) < d then n / d
  else if d < 2 * (n % d) then n / d + 1
  else if n / d % 2 = 0 then n / d
  else n / d + 1

/-- `⌊log₂ (n / d)⌋` for positive `n` and `d`: the difference of the two
    leading bits, or one less when `n / d` is below its power of two. -/
def log2Div (n d : ℕ) : ℤ :=
  if d * 2 ^ n.log2 ≤ n * 2 ^ d.log2 then (n.log2 : ℤ) - d.log2
  else (n.log2 : ℤ) - d.log2 - 1

/-- The exponent of the last place of the binary64 values near `n / d`:
    52 places below the leading bit, and never below `2 ^ -1074`. -/
def ulpExp (n d : ℕ) : ℤ := max (log2Div n d - 52) (-1074)

/-- `n / d` rounded to a multiple of `2 ^ e`, ties to even. -/
def roundAt (n d : ℕ) (e : ℤ) : ℚ :=
  if 0 ≤ e then (roundDivEven n (d * 2 ^ e.toNat) : ℚ) * 2 ^ e.toNat
  else (roundDivEven (n * 2 ^ (-e).toNat) d : ℚ) / 2 ^ (-e).toNat

/-- The `double` nearest `x`, ties to even; a magnitude that rounds to
    `2 ^ 1024` or more is an infinity. -/
def round (x : ℚ) : Ieee ℚ :=
  let v := roundAt x.num.natAbs x.den (ulpExp x.num.natAbs x.den)
  if (2 : ℚ) ^ 1024 ≤ v then (if 0 < x then posInf else negInf)
  else fin (if 0 ≤ x then v else -v)

/-- The rounding of a `double` operation, applied to its exact result:
    infinities and NaN are kept. -/
def rnd : Ieee ℚ → Ieee ℚ
  | fin x => round x
  | a => a

end Binary64
