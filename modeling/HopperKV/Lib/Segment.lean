-- SUMMARY: The straight segment between two points of an ordered field: its value is a convex combination of the end values, and it is antitone when the right end is lower.
import Mathlib.Algebra.Order.Field.Basic
import Mathlib.Tactic.FieldSimp
import Mathlib.Tactic.Linarith
import Mathlib.Tactic.Ring

/-!
# Segments

`segment x y a b c` is the value at `c` of the straight line through `(a, x)`
and `(b, y)`, written as the weighted sum `x * (b - c) / (b - a) +
y * (c - a) / (b - a)` that a linear interpolation computes. Between `a` and
`b` it lies between `x` and `y`, and when `y ≤ x` it does not increase in `c`.
-/

namespace Segment

set_option linter.unusedSectionVars false

variable {F : Type*} [Field F] [LinearOrder F] [IsStrictOrderedRing F]

/-- The line through `(a, x)` and `(b, y)` at `c`. -/
def segment (x y a b c : F) : F := x * ((b - c) / (b - a)) + y * ((c - a) / (b - a))

/-- The segment as a start value plus a slope. -/
theorem segment_eq (x y : F) {a b : F} (hab : a < b) (c : F) :
    segment x y a b c = x + (y - x) * ((c - a) / (b - a)) := by
  have hba : b - a ≠ 0 := sub_ne_zero.mpr hab.ne'
  unfold segment
  field_simp
  ring

@[simp] theorem segment_left (x y : F) {a b : F} (hab : a < b) : segment x y a b a = x := by
  simp [segment_eq x y hab]

@[simp] theorem segment_right (x y : F) {a b : F} (hab : a < b) : segment x y a b b = y := by
  have hba : b - a ≠ 0 := sub_ne_zero.mpr hab.ne'
  simp [segment_eq x y hab, div_self hba]

/-- The fraction of the way from `a` to `b` that `c` lies at is in `[0, 1]`. -/
theorem frac_mem {a b c : F} (hab : a < b) (hac : a ≤ c) (hcb : c ≤ b) :
    0 ≤ (c - a) / (b - a) ∧ (c - a) / (b - a) ≤ 1 := by
  have hba : 0 < b - a := sub_pos.mpr hab
  exact ⟨div_nonneg (sub_nonneg.mpr hac) hba.le, (div_le_one hba).mpr (by linarith)⟩

/-- Between its ends, a segment that goes down lies below its left value. -/
theorem segment_le_left {x y a b c : F} (hxy : y ≤ x) (hab : a < b) (hac : a ≤ c) (hcb : c ≤ b) :
    segment x y a b c ≤ x := by
  rw [segment_eq x y hab]
  have := (frac_mem hab hac hcb).1
  nlinarith

/-- Between its ends, a segment that goes down lies above its right value. -/
theorem right_le_segment {x y a b c : F} (hxy : y ≤ x) (hab : a < b) (hac : a ≤ c) (hcb : c ≤ b) :
    y ≤ segment x y a b c := by
  rw [segment_eq x y hab]
  have := (frac_mem hab hac hcb).2
  nlinarith

/-- A segment that goes down is antitone. -/
theorem segment_antitone {x y a b c c' : F} (hxy : y ≤ x) (hab : a < b) (hc : c ≤ c') :
    segment x y a b c' ≤ segment x y a b c := by
  rw [segment_eq x y hab, segment_eq x y hab]
  have hba : 0 < b - a := sub_pos.mpr hab
  have hfrac : (c - a) / (b - a) ≤ (c' - a) / (b - a) :=
    div_le_div_of_nonneg_right (by linarith) hba.le
  nlinarith

end Segment
