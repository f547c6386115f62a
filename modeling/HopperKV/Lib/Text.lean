-- SUMMARY: Decimal text as programs write and read it: the digits of a number, left padding to a field width as std::setw and std::setfill and Python's format specs do it, and the value of a run of digits, with the round trip between the two.
import Mathlib.Data.Int.Init
import Mathlib.Order.Basic

/-!
# Decimal text

A text is a `List Char`. The decimal digits of a natural number are
`Nat.toDigits 10 n`, most significant first and without leading zeros: what
`std::to_string` and `operator<<` write for an unsigned value, and what
Python's `str` gives for an `int` that is not negative; `intText` writes a
sign in front of a negative one. The value of a run of
digits is `Nat.ofDigitChars 10 l 0`, the loop `v = v * 10 + (c - '0')`.

`padLeft w c s` is `s` right-aligned in a field of `w` characters and filled
with `c`: `std::setw(w) << std::setfill(c)` in front of an output, which
pads in front of a sign too, and Python's zero padding of a number that is
not negative. Python pads a negative number after its sign (`pyZeroPad`).

The rules: the length of a padded text, and that the padded digits of `n`
read back as `n` (`ofDigitChars_padLeft_toDigits`).
-/

namespace Text

/-- `s` right-aligned in a field of `w` characters, filled with `c`. -/
def padLeft (w : ℕ) (c : Char) (s : List Char) : List Char :=
  List.replicate (w - s.length) c ++ s

/-- The decimal text of an integer: `std::to_string` and `operator<<` of an
    `int`, and Python's `str` of an `int`. -/
def intText (z : ℤ) : List Char :=
  if z < 0 then '-' :: Nat.toDigits 10 z.natAbs else Nat.toDigits 10 z.toNat

/-- Python's `f"{z:0{w}}"` for an `int` `z` and a width `w` that is not
    negative: the sign first, then the digits padded with zeros to the width. -/
def pyZeroPad (w : ℕ) (z : ℤ) : List Char :=
  if z < 0 then '-' :: padLeft (w - 1) '0' (Nat.toDigits 10 z.natAbs)
  else padLeft w '0' (Nat.toDigits 10 z.toNat)

variable {w : ℕ} {c : Char} {s : List Char}

theorem length_padLeft : (padLeft w c s).length = max w s.length := by
  simp only [padLeft, List.length_append, List.length_replicate]
  omega

theorem length_padLeft_of_le (h : s.length ≤ w) : (padLeft w c s).length = w := by
  rw [length_padLeft]
  exact Nat.max_eq_left h

theorem mem_padLeft {x : Char} (h : x ∈ padLeft w c s) : x = c ∨ x ∈ s := by
  rcases List.mem_append.mp h with h | h
  · exact .inl (List.eq_of_mem_replicate h)
  · exact .inr h

theorem isDigit_of_mem_padLeft_toDigits {n : ℕ} {x : Char} (h : x ∈ padLeft w '0' (Nat.toDigits 10 n)) :
    x.isDigit := by
  rcases mem_padLeft h with rfl | h
  · rfl
  · exact Nat.isDigit_of_mem_toDigits (by decide) (by decide) h

/-- Leading zeros do not change the value. -/
theorem ofDigitChars_padLeft_toDigits (w n : ℕ) :
    Nat.ofDigitChars 10 (padLeft w '0' (Nat.toDigits 10 n)) 0 = n := by
  rw [padLeft, Nat.ofDigitChars_append, Nat.ofDigitChars_replicate_zero, Nat.mul_zero,
    Nat.ofDigitChars_ten_toDigits]

theorem pyZeroPad_ofNat (w n : ℕ) : pyZeroPad w n = padLeft w '0' (Nat.toDigits 10 n) := by
  rw [pyZeroPad, if_neg (Int.not_lt.mpr (Int.natCast_nonneg n)), Int.toNat_natCast]

theorem intText_ofNat (n : ℕ) : intText n = Nat.toDigits 10 n := by
  rw [intText, if_neg (Int.not_lt.mpr (Int.natCast_nonneg n)), Int.toNat_natCast]

end Text
