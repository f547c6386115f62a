-- SUMMARY: The C++ scalar types: `double` as IEEE 754 values computed without rounding (an ordered field, the two infinities and NaN), and `uint64_t` and `uint32_t` as arithmetic modulo 2^64 and 2^32.
import Mathlib.Algebra.Order.Field.Basic
import Mathlib.Algebra.Order.Monoid.WithTop
import Mathlib.Algebra.Order.Floor.Ring
import Mathlib.Data.Fintype.Fin
import Mathlib.Data.Prod.Lex
import Mathlib.Tactic.Linarith

/-!
# Scalars: `double`, `uint64_t` and `uint32_t`

`U64` is `uint64_t`: `Fin (2 ^ 64)`, whose `+` and `-` wrap around as the
unsigned C++ operators do. `U32` is `uint32_t` the same way, with its shifts.

## Exact IEEE 754 values

`Ieee F` is the set of values that a C++ `double` takes, computed without
rounding. A finite value is an element of the ordered field `F`; the two
infinities and NaN follow the rules of IEEE 754 for `+`, `-`, `*` and `/`.

Zero carries no sign, so a non-zero value divided by zero is the infinity of
the sign of the dividend, and `0 / 0` is NaN; there is one NaN. Both are exact
on values computed without rounding, so a result over `Ieee` is one over exact
arithmetic. Where rounding decides a property, `Binary64.rnd` rounds each
operation; what rests on the sign of a zero (a rate of `-0.0`) is left out.

Comparisons return `Bool`, as in C++: every comparison with NaN is `false`, and
`==` (here `Ieee.equal`) is not reflexive on NaN. The C++ library functions
`std::min` and `std::abs` are `Ieee.stdMin` and `Ieee.abs`.

`Ieee.weight` places a value in `ℤ × F`, ordered lexicographically: the
sign of an infinity first, then the finite part. A sum of weights can stand
for a sum of values that may be infinite (`weight_add_lt_of_sub_lt`).
-/

/-- `uint64_t`: addition and subtraction are taken modulo `2 ^ 64`. -/
abbrev U64 := Fin (2 ^ 64)

/-- The modulus of `U64` is not zero, which is what its numerals need. One
    named proof is shared by every numeral, in every module. -/
instance U64.neZero : NeZero (2 ^ 64 : ℕ) := ⟨by decide⟩

/-- `uint32_t`: arithmetic and shifts are taken modulo `2 ^ 32`. -/
abbrev U32 := Fin (2 ^ 32)

/-- The modulus of `U32` is not zero. -/
instance U32.neZero : NeZero (2 ^ 32 : ℕ) := ⟨by decide⟩

/-- An `int` converted to `uint32_t`: its value modulo `2 ^ 32`. -/
def U32.ofInt (z : ℤ) : U32 := ⟨(z % 2 ^ 32).toNat, by omega⟩

theorem U32.val_ofInt {z : ℤ} (h₀ : 0 ≤ z) (h₁ : z < 2 ^ 32) : ((U32.ofInt z).val : ℤ) = z := by
  simp only [U32.ofInt]
  omega

theorem U32.val_shiftLeft_one (p : U32) : (p <<< (1 : U32)).val = 2 * p.val % 2 ^ 32 := by
  simp only [HShiftLeft.hShiftLeft, ShiftLeft.shiftLeft, Fin.shiftLeft]
  rw [Nat.shiftLeft_eq']
  simp [Nat.shiftLeft_eq, Nat.mul_comm]

theorem U32.val_shiftRight_three (p : U32) : (p >>> (3 : U32)).val = p.val / 8 := by
  simp only [HShiftRight.hShiftRight, ShiftRight.shiftRight, Fin.shiftRight]
  simp [Nat.shiftRight_eq_div_pow]
  omega

/-- A `long long` converted to `uint64_t`: its value modulo `2 ^ 64`. -/
def U64.ofInt (z : ℤ) : U64 := ⟨(z % 2 ^ 64).toNat, by omega⟩

theorem U64.val_ofInt {z : ℤ} (h₀ : 0 ≤ z) (h₁ : z < 2 ^ 64) : ((U64.ofInt z).val : ℤ) = z := by
  simp only [U64.ofInt]
  omega

/-- A `double` computed exactly: a finite value, an infinity, or NaN. -/
inductive Ieee (F : Type*) where
  | fin (x : F)
  | posInf
  | negInf
  | nan
  deriving DecidableEq

namespace Ieee

set_option linter.unusedSectionVars false

variable {F : Type*} [Field F] [LinearOrder F]

-- ---------------------------------------------------------------------------
-- Arithmetic
-- ---------------------------------------------------------------------------

/-- Negation. -/
def neg : Ieee F → Ieee F
  | fin x => fin (-x)
  | posInf => negInf
  | negInf => posInf
  | nan => nan

/-- Addition: opposite infinities give NaN. -/
def add : Ieee F → Ieee F → Ieee F
  | fin x, fin y => fin (x + y)
  | fin _, posInf => posInf
  | fin _, negInf => negInf
  | posInf, fin _ => posInf
  | negInf, fin _ => negInf
  | posInf, posInf => posInf
  | negInf, negInf => negInf
  | posInf, negInf => nan
  | negInf, posInf => nan
  | nan, _ => nan
  | fin _, nan => nan
  | posInf, nan => nan
  | negInf, nan => nan

/-- The product of an infinity of sign `pos` and the finite value `x`: an
    infinity, or NaN when `x` is zero. -/
def infMul (pos : Bool) (x : F) : Ieee F :=
  if x = 0 then nan
  else if 0 < x then (if pos then posInf else negInf)
  else (if pos then negInf else posInf)

/-- Multiplication: an infinity times zero is NaN. -/
def mul : Ieee F → Ieee F → Ieee F
  | fin x, fin y => fin (x * y)
  | fin x, posInf => infMul true x
  | fin x, negInf => infMul false x
  | posInf, fin y => infMul true y
  | negInf, fin y => infMul false y
  | posInf, posInf => posInf
  | negInf, negInf => posInf
  | posInf, negInf => negInf
  | negInf, posInf => negInf
  | nan, _ => nan
  | fin _, nan => nan
  | posInf, nan => nan
  | negInf, nan => nan

/-- Division: a non-zero value divided by zero is an infinity, `0 / 0` and
    `∞ / ∞` are NaN, and a finite value divided by an infinity is zero. -/
def div : Ieee F → Ieee F → Ieee F
  | fin x, fin y =>
    if y = 0 then (if 0 < x then posInf else if x < 0 then negInf else nan)
    else fin (x / y)
  | fin _, posInf => fin 0
  | fin _, negInf => fin 0
  | posInf, fin y => if y < 0 then negInf else posInf
  | negInf, fin y => if y < 0 then posInf else negInf
  | posInf, posInf => nan
  | posInf, negInf => nan
  | negInf, posInf => nan
  | negInf, negInf => nan
  | nan, _ => nan
  | fin _, nan => nan
  | posInf, nan => nan
  | negInf, nan => nan

instance : Neg (Ieee F) := ⟨neg⟩
instance : Add (Ieee F) := ⟨add⟩
instance : Sub (Ieee F) := ⟨fun a b => add a (neg b)⟩
instance : Mul (Ieee F) := ⟨mul⟩
instance : Div (Ieee F) := ⟨div⟩

/-- The `double` value of an unsigned integer: every `uint64_t` is exact here. -/
def ofNat (n : ℕ) : Ieee F := fin n

-- ---------------------------------------------------------------------------
-- Comparisons
-- ---------------------------------------------------------------------------

/-- C++ `<`: false as soon as one side is NaN. -/
def lt : Ieee F → Ieee F → Bool
  | fin x, fin y => decide (x < y)
  | negInf, fin _ => true
  | negInf, posInf => true
  | fin _, posInf => true
  | _, _ => false

/-- C++ `==`: an infinity equals itself, NaN equals nothing. -/
def equal : Ieee F → Ieee F → Bool
  | fin x, fin y => decide (x = y)
  | posInf, posInf => true
  | negInf, negInf => true
  | _, _ => false

instance : LT (Ieee F) := ⟨fun a b => lt a b = true⟩
instance : LE (Ieee F) := ⟨fun a b => (lt a b || equal a b) = true⟩

instance (a b : Ieee F) : Decidable (a < b) := inferInstanceAs (Decidable (lt a b = true))
instance (a b : Ieee F) : Decidable (a ≤ b) :=
  inferInstanceAs (Decidable ((lt a b || equal a b) = true))

/-- `std::min(a, b)`, which is `(b < a) ? b : a`: with NaN it returns its first
    argument. -/
def stdMin (a b : Ieee F) : Ieee F := if b < a then b else a

/-- `std::abs`. -/
def abs : Ieee F → Ieee F
  | fin x => fin |x|
  | posInf => posInf
  | negInf => posInf
  | nan => nan

/-- A value that is neither an infinity nor NaN. -/
def IsFin : Ieee F → Prop
  | fin _ => True
  | _ => False

instance : DecidablePred (IsFin : Ieee F → Prop) := fun a =>
  match a with
  | fin _ => isTrue trivial
  | posInf => isFalse id
  | negInf => isFalse id
  | nan => isFalse id

-- ---------------------------------------------------------------------------
-- The simp set: finite values compute in `F`
-- ---------------------------------------------------------------------------

theorem sub_def (a b : Ieee F) : a - b = add a (neg b) := rfl

@[simp] theorem fin_add_fin (x y : F) : fin x + fin y = fin (x + y) := rfl
@[simp] theorem fin_sub_fin (x y : F) : fin x - fin y = fin (x - y) := by
  show add (fin x) (neg (fin y)) = _
  simp [add, neg, sub_eq_add_neg]
@[simp] theorem fin_mul_fin (x y : F) : fin x * fin y = fin (x * y) := rfl
@[simp] theorem neg_fin (x : F) : -(fin x) = fin (-x) := rfl
@[simp] theorem fin_div_fin {x y : F} (hy : y ≠ 0) : fin x / fin y = fin (x / y) := by
  show div _ _ = _
  simp [div, hy]
@[simp] theorem fin_inj {x y : F} : fin x = fin y ↔ x = y := ⟨fun h => by cases h; rfl, by rintro rfl; rfl⟩
@[simp] theorem fin_lt_fin {x y : F} : fin x < fin y ↔ x < y := by
  show lt _ _ = true ↔ _
  simp [lt]
@[simp] theorem fin_le_fin {x y : F} : fin x ≤ fin y ↔ x ≤ y := by
  show (lt _ _ || equal _ _) = true ↔ _
  simp [lt, equal, le_iff_lt_or_eq]
@[simp] theorem equal_fin_fin (x y : F) : equal (fin x) (fin y) = decide (x = y) := rfl
@[simp] theorem equal_fin_posInf (x : F) : equal (fin x) posInf = false := rfl
@[simp] theorem abs_fin (x : F) : abs (fin x) = fin |x| := rfl
@[simp] theorem ofNat_eq (n : ℕ) : (ofNat n : Ieee F) = fin (n : F) := rfl
@[simp] theorem isFin_fin (x : F) : IsFin (fin x) := trivial

theorem IsFin.exists_eq {a : Ieee F} (h : a.IsFin) : ∃ x, a = fin x := by
  cases a with
  | fin x => exact ⟨x, rfl⟩
  | posInf | negInf | nan => exact absurd h id

@[simp] theorem stdMin_fin_fin (x y : F) : stdMin (fin x) (fin y) = fin (min x y) := by
  unfold stdMin
  split
  · rename_i h
    simp only [fin_lt_fin] at h
    simp [min_eq_right h.le]
  · rename_i h
    simp only [fin_lt_fin, not_lt] at h
    simp [min_eq_left h]

/-- Division of a positive value by zero is `+∞`. -/
theorem fin_div_zero_of_pos {x : F} (hx : 0 < x) : fin x / fin 0 = (posInf : Ieee F) := by
  show div _ _ = _
  simp [div, hx]

/-- Scaling both sides of a quotient by a positive factor keeps it, also
    when the divisor is zero. -/
theorem fin_mul_div_fin_mul [IsStrictOrderedRing F] {x y k : F} (hk : 0 < k) :
    fin (x * k) / fin (y * k) = fin x / fin y := by
  by_cases hy : y = 0
  case pos =>
    -- the sign of `x * k` is that of `x`, which picks the same value over zero
    have hneg : x * k < 0 ↔ x < 0 :=
      ⟨fun h => lt_of_not_ge fun hx => (mul_nonneg hx hk.le).not_gt h, fun h => mul_neg_of_neg_of_pos h hk⟩
    show div _ _ = div _ _
    simp only [div, hy, zero_mul, if_true, mul_pos_iff_of_pos_right hk, hneg]
  case neg =>
    rw [fin_div_fin (mul_ne_zero hy hk.ne'), fin_div_fin hy, mul_div_mul_right _ _ hk.ne']

@[simp] theorem fin_lt_posInf (x : F) : fin x < (posInf : Ieee F) := rfl
@[simp] theorem not_posInf_lt (a : Ieee F) : ¬ posInf < a := by
  cases a <;> simp [LT.lt, lt]

/-- `+∞` is never the result of `std::min` with a smaller first argument. -/
@[simp] theorem stdMin_fin_posInf (x : F) : stdMin (fin x) posInf = fin x := by
  simp [stdMin]
@[simp] theorem stdMin_posInf_fin (x : F) : stdMin posInf (fin x) = fin x := by
  simp [stdMin]
@[simp] theorem stdMin_posInf_posInf : stdMin (posInf : Ieee F) posInf = posInf := by
  simp [stdMin]

@[simp] theorem not_lt_nan (a : Ieee F) : ¬ a < nan := by
  cases a <;> simp [LT.lt, lt]
@[simp] theorem not_nan_lt (a : Ieee F) : ¬ nan < a := by
  cases a <;> simp [LT.lt, lt]
@[simp] theorem not_lt_negInf (a : Ieee F) : ¬ a < negInf := by
  cases a <;> simp [LT.lt, lt]

-- ---------------------------------------------------------------------------
-- Weights
-- ---------------------------------------------------------------------------

/-- The weight of a value: the sign of an infinity, then the finite part. -/
def weight : Ieee F → ℤ × F
  | fin x => (0, x)
  | posInf => (1, 0)
  | negInf => (-1, 0)
  | nan => (0, 0)

@[simp] theorem weight_fin (x : F) : weight (fin x) = (0, x) := rfl

/-- A difference is finite because both sides are, an infinity whose sign is
    that of the difference of the infinity parts of the weights, or NaN. -/
theorem sub_cases (a b : Ieee F) :
    (∃ x y, a = fin x ∧ b = fin y) ∨
      (a - b = posInf ∧ 0 < (weight a).1 - (weight b).1) ∨
      (a - b = negInf ∧ (weight a).1 - (weight b).1 < 0) ∨ a - b = nan := by
  cases a <;> cases b <;> simp [weight, sub_def, add, neg]

/-- If `c - d < a - b`, then the weights of `b` and `c` add up to less than
    those of `a` and `d`: moving from `a` to `b` and from `d` to `c` lowers
    the total weight, whatever the infinities among them. -/
theorem weight_add_lt_of_sub_lt [IsStrictOrderedRing F] {a b c d : Ieee F} (h : c - d < a - b) :
    toLex (weight b + weight c) < toLex (weight a + weight d) := by
  rw [Prod.Lex.toLex_lt_toLex]
  rcases sub_cases a b with ⟨x, y, rfl, rfl⟩ | ⟨hab, hw⟩ | ⟨hab, -⟩ | hab
  case inl =>
    rcases sub_cases c d with ⟨u, v, rfl, rfl⟩ | ⟨hcd, -⟩ | ⟨-, hw'⟩ | hcd
    · -- all four finite: the differences compare in `F`
      simp only [fin_sub_fin, fin_lt_fin] at h
      right
      simp only [weight_fin, Prod.fst_add, Prod.snd_add, zero_add, true_and]
      linarith
    · exact absurd (hcd ▸ h) (not_posInf_lt _)
    · left
      simp only [weight_fin, Prod.fst_add, zero_add]
      omega
    · exact absurd (hcd ▸ h) (not_nan_lt _)
  case inr.inl =>
    rcases sub_cases c d with ⟨u, v, rfl, rfl⟩ | ⟨hcd, -⟩ | ⟨-, hw'⟩ | hcd
    · left
      simp only [weight_fin, Prod.fst_add, add_zero]
      omega
    · exact absurd (hcd ▸ h) (not_posInf_lt _)
    · left
      simp only [Prod.fst_add]
      omega
    · exact absurd (hcd ▸ h) (not_nan_lt _)
  case inr.inr.inl => exact absurd (hab ▸ h) (not_lt_negInf _)
  case inr.inr.inr => exact absurd (hab ▸ h) (not_lt_nan _)

/-! ## Values that are finite or `+∞`

Many `double`s of the allocator are quotients of finite values that are never
`0 / 0`: each is a value of `F` or `+∞`, which is `WithTop F`. On such values
the comparisons, `std::min` and the differences that the allocator tests are
those of `WithTop F`. -/

section Extended

/-- The finite part of a value, `0` for an infinity or NaN. -/
def val : Ieee F → F
  | fin x => x
  | _ => 0

@[simp] theorem val_fin (x : F) : (fin x).val = x := rfl

theorem IsFin.eq_fin {a : Ieee F} (h : a.IsFin) : a = fin a.val := by
  obtain ⟨x, rfl⟩ := h.exists_eq
  rfl

/-- A value of `F` or `+∞`, as a `double`. -/
def ofTop (x : WithTop F) : Ieee F := WithTop.recTopCoe posInf fin x

@[simp] theorem ofTop_top : ofTop (⊤ : WithTop F) = posInf := rfl
@[simp] theorem ofTop_coe (x : F) : ofTop (x : WithTop F) = fin x := rfl

/-- `a / b` read in `WithTop F`, for the quotients that are never `0 / 0`. -/
def divTop (a b : F) : WithTop F := if b = 0 then ⊤ else ((a / b : F) : WithTop F)

theorem divTop_of_ne {a b : F} (hb : b ≠ 0) : divTop a b = ((a / b : F) : WithTop F) := if_neg hb

theorem divTop_zero (a : F) : divTop a 0 = ⊤ := if_pos rfl

/-- A quotient that is not `0 / 0` nor a negative value over zero. -/
theorem fin_div_fin_eq_ofTop {a b : F} (h : b = 0 → 0 < a) : fin a / fin b = ofTop (divTop a b) := by
  by_cases hb : b = 0
  case pos =>
    subst hb
    rw [divTop_zero, ofTop_top, fin_div_zero_of_pos (h rfl)]
  case neg =>
    rw [divTop_of_ne hb, ofTop_coe, fin_div_fin hb]

@[simp] theorem ofTop_lt_ofTop {x y : WithTop F} : ofTop x < ofTop y ↔ x < y := by
  show lt _ _ = true ↔ _
  induction x using WithTop.recTopCoe <;> induction y using WithTop.recTopCoe <;> simp [lt]

@[simp] theorem ofTop_le_ofTop {x y : WithTop F} : ofTop x ≤ ofTop y ↔ x ≤ y := by
  show (lt _ _ || equal _ _) = true ↔ _
  induction x using WithTop.recTopCoe <;> induction y using WithTop.recTopCoe <;>
    simp [lt, equal, le_iff_lt_or_eq]

@[simp] theorem stdMin_ofTop (x y : WithTop F) : stdMin (ofTop x) (ofTop y) = ofTop (min x y) := by
  unfold stdMin
  split
  · rename_i h
    rw [min_eq_right (ofTop_lt_ofTop.mp h).le]
  · rename_i h
    rw [min_eq_left (not_lt.mp (mt ofTop_lt_ofTop.mpr h))]

@[simp] theorem ofTop_add_fin (x : WithTop F) (d : F) :
    ofTop x + fin d = ofTop (x + (d : WithTop F)) := by
  induction x using WithTop.recTopCoe
  · rfl
  · rfl

end Extended

/-! ## Conversions to integer types

A `double` converted to an integer type is truncated toward zero; the
conversion is undefined when the truncated value is out of the type's range,
or when the value is an infinity or NaN. -/

section Convert

variable [FloorRing F]

/-- Truncation toward zero. -/
def truncate (x : F) : ℤ := if 0 ≤ x then ⌊x⌋ else ⌈x⌉

/-- The conversion to an integer type whose values are those of `[lo, hi)`;
    `none` where it is undefined. -/
def toInt (lo hi : ℤ) : Ieee F → Option ℤ
  | fin x => if lo ≤ truncate x ∧ truncate x < hi then some (truncate x) else none
  | _ => none

/-- `(long long)x`. -/
def toLongLong (x : Ieee F) : Option ℤ := toInt (-2 ^ 63) (2 ^ 63) x

/-- `(uint64_t)x`. -/
def toU64 (x : Ieee F) : Option U64 := (toInt 0 (2 ^ 64) x).map U64.ofInt

theorem truncate_of_nonneg {x : F} (hx : 0 ≤ x) : truncate x = ⌊x⌋ := if_pos hx

/-- Truncation keeps an integer lower bound of a value. -/
theorem le_truncate [IsStrictOrderedRing F] {n : ℤ} {x : F} (hn : 0 ≤ n) (h : (n : F) ≤ x) :
    n ≤ truncate x := by
  have hx : (0 : F) ≤ x := le_trans (by exact_mod_cast hn) h
  rw [truncate_of_nonneg hx]
  exact Int.le_floor.mpr h

theorem truncate_mono {x y : F} (hx : 0 ≤ x) (hxy : x ≤ y) : truncate x ≤ truncate y := by
  rw [truncate_of_nonneg hx, truncate_of_nonneg (le_trans hx hxy)]
  exact Int.floor_mono hxy

theorem toInt_eq_some {lo hi n : ℤ} {a : Ieee F} (h : toInt lo hi a = some n) :
    ∃ x, a = fin x ∧ n = truncate x ∧ lo ≤ n ∧ n < hi := by
  cases a with
  | fin x =>
    simp only [toInt] at h
    split at h
    · rename_i hr
      cases h
      exact ⟨x, rfl, rfl, hr⟩
    · cases h
  | posInf | negInf | nan => cases h

end Convert

end Ieee

/-- A `uint64_t` passed where a `long long` is expected: two's complement. -/
def U64.toLongLong (u : U64) : ℤ := if u.val < 2 ^ 63 then u.val else u.val - 2 ^ 64

theorem U64.toLongLong_of_lt {u : U64} (h : u.val < 2 ^ 63) : u.toLongLong = u.val := if_pos h
