-- SUMMARY: MissRatioCurve (mrc.h): piecewise-linear interpolation of a miss-ratio curve, exact and with each double operation rounded to binary64, its memoised query, and check_sanity with its error messages.
import HopperKV.Lib.StdAlgo
import HopperKV.Engine.Resrc
import HopperKV.Lib.Binary64

/-!
# Miss-ratio curves

`hare::MissRatioCurve` holds the ticks (cache sizes) and the miss ratio at each
tick. `get_miss_ratio_const` interpolates linearly between neighbouring ticks,
from the point `(0, 1)` below the first tick, and returns the last miss ratio
above the last tick (`conservative_estimation_if_out_of_range` is true).
`get_miss_ratio` memoises the results in an `unordered_map`.

The structure keeps two facts as fields. The first two make every vector
access of `get_miss_ratio_const` defined: without them each query reads past
the end of a vector. The third states that the memo only holds values that
`get_miss_ratio_const` computed, which is how `get_miss_ratio` fills it.

The asserts of `get_miss_ratio_const` and `interpolate` are not part of the
value: the allocator is built in Release mode, where `assert` does nothing.
`MissRatioCurve.AssertsHold` states them separately.
-/

namespace Hare

open Ieee

set_option linter.unusedSectionVars false

variable {F : Type} [Field F] [LinearOrder F]

-- ---------------------------------------------------------------------------
-- Interpolation
-- ---------------------------------------------------------------------------

/-- `MissRatioCurve::interpolate(l_val, r_val, l_dist, r_dist)`, each `double`
    conversion and operation rounded by `rnd`: the weight of `l_val` is
    `r_dist / (l_dist + r_dist)`. The distances are added as `uint64_t` before
    the conversion to `double`, and `params::mrc::disable_interpolation_near_inf`
    is false, so the early return is dead. -/
def interpolateWith (rnd : Ieee F → Ieee F) (lVal rVal : Ieee F) (lDist rDist : U64) : Ieee F :=
  let totalDist : Ieee F := rnd (ofNat (lDist + rDist).val)
  let lRatio := rnd (rnd (ofNat rDist.val) / totalDist)
  let rRatio := rnd (rnd (ofNat lDist.val) / totalDist)
  rnd (rnd (lVal * lRatio) + rnd (rVal * rRatio))

/-- `interpolate` computed without rounding. -/
def interpolate (lVal rVal : Ieee F) (lDist rDist : U64) : Ieee F :=
  interpolateWith id lVal rVal lDist rDist

/-- Rounding by `id` is the exact `interpolate`. -/
@[simp] theorem interpolateWith_id (lVal rVal : Ieee F) (lDist rDist : U64) :
    interpolateWith id lVal rVal lDist rDist = interpolate lVal rVal lDist rDist := rfl

/-- The body of `MissRatioCurve::get_miss_ratio_const` on the two vectors,
    with `interpolate` rounding by `rnd`. The defaults of `getD`, `headD` and
    `getLastD` are read only where the C++ code reads past the end of a
    vector. -/
def missRatioAtWith (rnd : Ieee F → Ieee F) (ticks : List U64) (missRatios : List (Ieee F))
    (cacheSize : U64) : Ieee F :=
  if ticks.getLastD 0 < cacheSize then missRatios.getLastD nan
  else if cacheSize < ticks.headD 0 then
    interpolateWith rnd (fin 1) (missRatios.headD nan) cacheSize (ticks.headD 0 - cacheSize)
  else
    let tickIdx := StdAlgo.lowerBound ticks cacheSize
    if cacheSize = ticks.getD tickIdx 0 then missRatios.getD tickIdx nan
    else
      interpolateWith rnd (missRatios.getD (tickIdx - 1) nan) (missRatios.getD tickIdx nan)
        (cacheSize - ticks.getD (tickIdx - 1) 0) (ticks.getD tickIdx 0 - cacheSize)

/-- `get_miss_ratio_const` computed without rounding. -/
def missRatioAt (ticks : List U64) (missRatios : List (Ieee F)) (cacheSize : U64) : Ieee F :=
  missRatioAtWith id ticks missRatios cacheSize

-- ---------------------------------------------------------------------------
-- The curve
-- ---------------------------------------------------------------------------

/-- `hare::MissRatioCurve`. -/
structure MissRatioCurve (F : Type) [Field F] [LinearOrder F] where
  ticks : List U64
  missRatios : List (Ieee F)
  /-- `miss_ratio_map`, the memo of `get_miss_ratio`. -/
  missRatioMap : List (U64 × Ieee F)
  ticks_ne_nil : ticks ≠ []
  length_le : ticks.length ≤ missRatios.length
  map_sound : ∀ p ∈ missRatioMap, p.2 = missRatioAt ticks missRatios p.1

namespace MissRatioCurve

/-- The constructor `MissRatioCurve(ticks, miss_ratios)`: the memo is empty. -/
def ofVectors (ticks : List U64) (missRatios : List (Ieee F)) (h₁ : ticks ≠ [])
    (h₂ : ticks.length ≤ missRatios.length) : MissRatioCurve F where
  ticks := ticks
  missRatios := missRatios
  missRatioMap := []
  ticks_ne_nil := h₁
  length_le := h₂
  map_sound := by simp

/-- `get_miss_ratio_const(cache_size)`. -/
def getMissRatioConst (m : MissRatioCurve F) (cacheSize : U64) : Ieee F :=
  missRatioAt m.ticks m.missRatios cacheSize

/-- `get_miss_ratio_const(cache_size)` in binary64: every conversion and
    operation of `interpolate` rounds to the nearest `double`. -/
def getMissRatioConstBinary64 (m : MissRatioCurve ℚ) (cacheSize : U64) : Ieee ℚ :=
  missRatioAtWith Binary64.rnd m.ticks m.missRatios cacheSize

/-- The curve after `miss_ratio_map.emplace(cache_size, miss_ratio)`. -/
def memoize (m : MissRatioCurve F) (cacheSize : U64) : MissRatioCurve F where
  ticks := m.ticks
  missRatios := m.missRatios
  missRatioMap := (cacheSize, m.getMissRatioConst cacheSize) :: m.missRatioMap
  ticks_ne_nil := m.ticks_ne_nil
  length_le := m.length_le
  map_sound := by
    rintro p (_ | ⟨_, hp⟩)
    · rfl
    · exact m.map_sound p hp

/-- `get_miss_ratio(cache_size)`: a value found in the memo is returned as it
    is; otherwise the value is computed and memoised. -/
def getMissRatio (m : MissRatioCurve F) (cacheSize : U64) : Ieee F × MissRatioCurve F :=
  match m.missRatioMap.lookup cacheSize with
  | some v => (v, m)
  | none => (m.getMissRatioConst cacheSize, m.memoize cacheSize)

@[simp] theorem memoize_ticks (m : MissRatioCurve F) (c : U64) : (m.memoize c).ticks = m.ticks := rfl
@[simp] theorem memoize_missRatios (m : MissRatioCurve F) (c : U64) :
    (m.memoize c).missRatios = m.missRatios := rfl

/-- The memo never changes an answer: `get_miss_ratio` returns what
    `get_miss_ratio_const` computes. -/
@[simp] theorem getMissRatio_fst (m : MissRatioCurve F) (c : U64) :
    (m.getMissRatio c).1 = m.getMissRatioConst c := by
  unfold getMissRatio
  split
  · rename_i v hv
    obtain ⟨l₁, l₂, hl, -⟩ := List.lookup_eq_some_iff.mp hv
    exact m.map_sound (c, v) (by simp [hl])
  · rfl

/-- A query changes only the memo. -/
@[simp] theorem getMissRatio_snd_getMissRatioConst (m : MissRatioCurve F) (c : U64) :
    (m.getMissRatio c).2.getMissRatioConst = m.getMissRatioConst := by
  unfold getMissRatio
  split <;> rfl

@[simp] theorem getMissRatio_snd_ticks (m : MissRatioCurve F) (c : U64) :
    (m.getMissRatio c).2.ticks = m.ticks := by
  unfold getMissRatio
  split <;> rfl

@[simp] theorem getMissRatio_snd_missRatios (m : MissRatioCurve F) (c : U64) :
    (m.getMissRatio c).2.missRatios = m.missRatios := by
  unfold getMissRatio
  split <;> rfl

theorem missRatios_ne_nil (m : MissRatioCurve F) : m.missRatios ≠ [] := by
  intro h
  have := m.length_le
  simp [h, List.length_eq_zero_iff, m.ticks_ne_nil] at this

-- ---------------------------------------------------------------------------
-- Asserts and sanity
-- ---------------------------------------------------------------------------

/-- The asserts that `get_miss_ratio_const(cache_size)` evaluates, on the path
    it takes: `interpolate` asserts `l_val >= r_val`, and the segment branch
    asserts the four bounds on `tick_idx` (the dereference `*tick_it` before
    them needs `tick_idx < ticks.size()` as well). -/
def AssertsHold (m : MissRatioCurve F) (cacheSize : U64) : Prop :=
  if m.ticks.getLastD 0 < cacheSize then True
  else if cacheSize < m.ticks.headD 0 then m.missRatios.headD nan ≤ fin 1
  else
    let tickIdx := StdAlgo.lowerBound m.ticks cacheSize
    tickIdx < m.ticks.length ∧
      (cacheSize ≠ m.ticks.getD tickIdx 0 →
        0 < tickIdx ∧ m.ticks.getD (tickIdx - 1) 0 < cacheSize ∧ cacheSize < m.ticks.getD tickIdx 0 ∧
          m.missRatios.getD tickIdx nan ≤ m.missRatios.getD (tickIdx - 1) nan)

/-- The loop of `check_sanity` over the pairs `(ticks[i], miss_ratios[i])`:
    `min_tick` and `max_mr` are the previous tick and miss ratio. -/
def checkSanityLoop (maxTick : U64) : List (U64 × Ieee F) → U64 → Ieee F → Except String Unit
  | [], _, _ => .ok ()
  | (t, mr) :: rest, minTick, maxMr =>
    if t < minTick ∨ maxTick < t then .error "tick is out of range"
    else if mr < fin 0 ∨ maxMr < mr then .error "miss_ratio is out of range"
    else checkSanityLoop maxTick rest t mr

/-- `check_sanity()`, with the message of the `std::logic_error` it throws. -/
def checkSanity (m : MissRatioCurve F) : Except String Unit :=
  if m.ticks.isEmpty then .error "ticks is empty"
  else if m.ticks.length ≠ m.missRatios.length then
    .error "ticks.size() and miss_ratios.size() mismatches"
  else checkSanityLoop (m.ticks.getLastD 0) (m.ticks.zip m.missRatios) (m.ticks.headD 0) (fin 1)

/-- The properties that `check_sanity` is written to ensure: equal lengths,
    non-decreasing ticks, and miss ratios that are finite, in `[0, 1]` and
    non-increasing. (`check_sanity` itself lets a NaN miss ratio through,
    since every comparison with NaN is false.) -/
structure Sane (m : MissRatioCurve F) : Prop where
  length_eq : m.ticks.length = m.missRatios.length
  ticks_sorted : m.ticks.Pairwise (· ≤ ·)
  vals : ∃ vs : List F, m.missRatios = vs.map fin ∧ (∀ v ∈ vs, 0 ≤ v ∧ v ≤ 1) ∧ vs.Pairwise (· ≥ ·)

end MissRatioCurve

end Hare
