-- SUMMARY: On a sane curve, get_miss_ratio_const computed exactly is the piecewise-linear curve through (0, 1) and the ticks: its value on each region, its asserts, its range [0, 1], and that it is non-increasing; the memo never changes an answer; in binary64 a flat curve dips between its ticks.
import HopperKV.Engine.Mrc
import HopperKV.Lib.Segment
import Mathlib.Data.List.GetD

/-!
# Soundness of the miss-ratio curve

On a curve that satisfies `MissRatioCurve.Sane`, `get_miss_ratio_const`
computes the piecewise-linear function through `(0, 1)` and the points
`(ticks[i], miss_ratios[i])`, constant after the last tick.

The proof first reads the code on each of its three branches
(`getMissRatioConst_above`, `getMissRatioConst_below`,
`getMissRatioConst_between`): on a sorted vector `std::lower_bound` is the
partition point, so in the last branch the cache size is a tick or lies
strictly between two neighbouring ticks. Monotonicity then compares the
positions `lower_bound` returns for two sizes (`getMissRatioConst_antitone`).
-/

namespace Hare

open Ieee Segment

set_option linter.unusedSectionVars false

variable {F : Type} [Field F] [LinearOrder F] [IsStrictOrderedRing F]

-- ---------------------------------------------------------------------------
-- Interpolation of finite values
-- ---------------------------------------------------------------------------

/-- `interpolate` between the ticks `a < b` at `c` is the segment through them,
    read in `F`. -/
theorem interpolate_fin (x y : F) {a b c : U64} (hab : a < b) (hac : a ≤ c) (hcb : c ≤ b) :
    interpolate (fin x) (fin y) (c - a) (b - c) = fin (segment x y (a.val : F) b.val c.val) := by
  have hca : (c - a).val = c.val - a.val := Fin.sub_val_of_le hac
  have hbc : (b - c).val = b.val - c.val := Fin.sub_val_of_le hcb
  have hsum : ((c - a) + (b - c)).val = b.val - a.val := by
    have : a.val ≤ c.val := hac
    have : c.val ≤ b.val := hcb
    rw [Fin.val_add, hca, hbc, show c.val - a.val + (b.val - c.val) = b.val - a.val by omega]
    exact Nat.mod_eq_of_lt (by have := b.isLt; omega)
  have hne : ((b.val - a.val : ℕ) : F) ≠ 0 := by
    have : a.val < b.val := hab
    exact Nat.cast_ne_zero.mpr (by omega)
  simp only [interpolate, interpolateWith, id, ofNat_eq, hsum, hca, hbc, fin_div_fin hne, fin_mul_fin, fin_add_fin,
    fin_inj, Segment.segment]
  have : a.val ≤ c.val := hac
  have : c.val ≤ b.val := hcb
  push_cast [Nat.cast_sub (show a.val ≤ b.val by omega), Nat.cast_sub ‹a.val ≤ c.val›,
    Nat.cast_sub ‹c.val ≤ b.val›]
  ring

theorem val_cast_lt {a b : U64} (h : a < b) : ((a.val : ℕ) : F) < b.val :=
  Nat.cast_lt.mpr (Fin.lt_def.mp h)

theorem val_cast_le {a b : U64} (h : a ≤ b) : ((a.val : ℕ) : F) ≤ b.val :=
  Nat.cast_le.mpr (Fin.le_def.mp h)

-- ---------------------------------------------------------------------------
-- The vectors of a sane curve
-- ---------------------------------------------------------------------------

namespace MissRatioCurve

variable {m : MissRatioCurve F}

/-- The tick at position `i`, read in `F`. -/
abbrev tick (m : MissRatioCurve F) (i : ℕ) : F := ((m.ticks.getD i 0).val : F)

theorem ticks_length_pos (m : MissRatioCurve F) : 0 < m.ticks.length :=
  List.length_pos_iff.mpr m.ticks_ne_nil

theorem headD_ticks (m : MissRatioCurve F) : m.ticks.headD 0 = m.ticks.getD 0 0 := by
  cases h : m.ticks with
  | nil => exact absurd h m.ticks_ne_nil
  | cons a l => rfl

theorem getLastD_ticks (m : MissRatioCurve F) :
    m.ticks.getLastD 0 = m.ticks.getD (m.ticks.length - 1) 0 := by
  rw [List.getLastD_eq_getLast?, List.getLast?_eq_getElem?, List.getD_eq_getElem?_getD]

/-- Sorted ticks, read at positions. -/
theorem Sane.tick_mono (hs : m.Sane) {i j : ℕ} (hij : i ≤ j) (hj : j < m.ticks.length) :
    m.ticks.getD i 0 ≤ m.ticks.getD j 0 := by
  rw [List.getD_eq_getElem _ _ (by omega), List.getD_eq_getElem _ _ hj]
  rcases Nat.lt_or_eq_of_le hij with h | rfl
  · exact List.pairwise_iff_getElem.mp hs.ticks_sorted i j (by omega) hj h
  · exact le_rfl

/-- Every tick is at most the last one. -/
theorem Sane.le_last (hs : m.Sane) {i : ℕ} (hi : i < m.ticks.length) :
    m.ticks.getD i 0 ≤ m.ticks.getLastD 0 := by
  rw [getLastD_ticks]
  exact hs.tick_mono (by omega) (by have := m.ticks_length_pos; omega)

theorem getD_map_fin {vs : List F} {i : ℕ} (hi : i < vs.length) :
    (vs.map fin).getD i nan = fin (vs.getD i 0) := by
  rw [List.getD_eq_getElem _ _ (by simpa using hi), List.getElem_map, List.getD_eq_getElem _ _ hi]

/-- The miss ratios of a curve as values of `F`, with the facts of a sane
    curve read at positions. -/
structure ValuesOf (m : MissRatioCurve F) (vs : List F) : Prop where
  eq : m.missRatios = vs.map fin
  length_eq : vs.length = m.ticks.length
  range : ∀ i, i < vs.length → 0 ≤ vs.getD i 0 ∧ vs.getD i 0 ≤ 1
  anti : ∀ i j, i ≤ j → j < vs.length → vs.getD j 0 ≤ vs.getD i 0

/-- The values behind the miss ratios of a sane curve. -/
theorem Sane.valuesOf (hs : m.Sane) {vs : List F} (h : m.missRatios = vs.map fin) :
    m.ValuesOf vs := by
  obtain ⟨ws, hws, hrange, hsorted⟩ := hs.vals
  have hvw : vs = ws := (List.map_injective_iff.mpr fun _ _ => Ieee.fin.inj) (h.symm.trans hws)
  subst hvw
  refine ⟨h, by simpa [h] using hs.length_eq.symm, fun i hi => ?_, fun i j hij hj => ?_⟩
  · rw [List.getD_eq_getElem _ _ hi]
    exact hrange _ (List.getElem_mem hi)
  · rw [List.getD_eq_getElem _ _ hj, List.getD_eq_getElem _ _ (by omega)]
    rcases Nat.lt_or_eq_of_le hij with h | rfl
    · exact List.pairwise_iff_getElem.mp hsorted i j (by omega) hj h
    · exact le_rfl

theorem Sane.exists_valuesOf (hs : m.Sane) : ∃ vs, m.ValuesOf vs := by
  obtain ⟨vs, h, -⟩ := hs.vals
  exact ⟨vs, hs.valuesOf h⟩

namespace ValuesOf

variable {vs : List F}

theorem lt_length (hv : m.ValuesOf vs) {i : ℕ} (hi : i < m.ticks.length) : i < vs.length :=
  hv.length_eq ▸ hi

theorem getD_fin (hv : m.ValuesOf vs) {i : ℕ} (hi : i < m.ticks.length) :
    m.missRatios.getD i nan = fin (vs.getD i 0) := by
  rw [hv.eq, getD_map_fin (hv.lt_length hi)]

theorem headD_fin (hv : m.ValuesOf vs) : m.missRatios.headD nan = fin (vs.getD 0 0) := by
  rw [← hv.getD_fin m.ticks_length_pos]
  cases h : m.missRatios with
  | nil => exact absurd h m.missRatios_ne_nil
  | cons r rs => rfl

theorem getLastD_fin (hv : m.ValuesOf vs) :
    m.missRatios.getLastD nan = fin (vs.getD (m.ticks.length - 1) 0) := by
  have hn := m.ticks_length_pos
  rw [← hv.getD_fin (by omega), List.getLastD_eq_getLast?, List.getLast?_eq_getElem?,
    List.getD_eq_getElem?_getD, hv.eq, List.length_map, hv.length_eq]

/-- Every miss ratio is at least the last one. -/
theorem last_le (hv : m.ValuesOf vs) {i : ℕ} (hi : i < m.ticks.length) :
    vs.getD (m.ticks.length - 1) 0 ≤ vs.getD i 0 :=
  hv.anti _ _ (by omega) (hv.lt_length (by omega))

end ValuesOf

-- ---------------------------------------------------------------------------
-- Where std::lower_bound stops
-- ---------------------------------------------------------------------------

/-- The partition point of the ticks, read with `getD`. -/
theorem Sane.lowerBound_getD (hs : m.Sane) (c : U64) :
    StdAlgo.lowerBound m.ticks c ≤ m.ticks.length ∧
      (∀ i, i < m.ticks.length → i < StdAlgo.lowerBound m.ticks c → m.ticks.getD i 0 < c) ∧
      (∀ i, i < m.ticks.length → StdAlgo.lowerBound m.ticks c ≤ i → c ≤ m.ticks.getD i 0) := by
  obtain ⟨hlen, hbelow, habove⟩ := StdAlgo.lowerBound_spec (v := c) hs.ticks_sorted
  refine ⟨hlen, fun i hi hik => ?_, fun i hi hik => ?_⟩
  · rw [List.getD_eq_getElem _ _ hi]; exact hbelow i hi hik
  · rw [List.getD_eq_getElem _ _ hi]; exact habove i hi hik

/-- A position with the partition property, read with `getD`, is the one
    `std::lower_bound` returns. -/
theorem Sane.lowerBound_eq (hs : m.Sane) {c : U64} {p : ℕ} (hp : p ≤ m.ticks.length)
    (hbelow : ∀ i, i < m.ticks.length → i < p → m.ticks.getD i 0 < c)
    (habove : ∀ i, i < m.ticks.length → p ≤ i → c ≤ m.ticks.getD i 0) :
    StdAlgo.lowerBound m.ticks c = p := by
  apply StdAlgo.lowerBound_eq hs.ticks_sorted hp
  · intro i hi hip
    rw [← List.getD_eq_getElem _ 0 hi]
    exact hbelow i hi hip
  · intro i hi hpi
    rw [← List.getD_eq_getElem _ 0 hi]
    exact habove i hi hpi

/-- Up to the last tick, `lower_bound` stops at a tick. -/
theorem Sane.lowerBound_lt (hs : m.Sane) {c : U64} (hl : c ≤ m.ticks.getLastD 0) :
    StdAlgo.lowerBound m.ticks c < m.ticks.length := by
  obtain ⟨hk, hbelow, -⟩ := hs.lowerBound_getD c
  have hn := m.ticks_length_pos
  rcases Nat.lt_or_eq_of_le hk with hk | hk
  · exact hk
  · have hlast := hbelow (m.ticks.length - 1) (by omega) (by omega)
    rw [← getLastD_ticks] at hlast
    exact absurd hl (not_le.mpr hlast)

/-- Below the first tick, `lower_bound` stops at the first position. -/
theorem Sane.lowerBound_eq_zero (hs : m.Sane) {c : U64} (h : c < m.ticks.headD 0) :
    StdAlgo.lowerBound m.ticks c = 0 := by
  obtain ⟨-, hbelow, -⟩ := hs.lowerBound_getD c
  by_contra hk
  have h0 := hbelow 0 m.ticks_length_pos (Nat.pos_of_ne_zero hk)
  rw [← headD_ticks] at h0
  exact absurd h (not_lt.mpr h0.le)

-- ---------------------------------------------------------------------------
-- The three branches of `get_miss_ratio_const`
-- ---------------------------------------------------------------------------

section Branches

variable {vs : List F}

/-- Above the last tick, the last miss ratio. -/
theorem getMissRatioConst_above (m : MissRatioCurve F) {c : U64} (h : m.ticks.getLastD 0 < c) :
    m.getMissRatioConst c = m.missRatios.getLastD nan := by
  unfold getMissRatioConst missRatioAt missRatioAtWith
  simp only [interpolateWith_id]
  exact if_pos h

/-- Below the first tick, the segment from `(0, 1)` to the first point. -/
theorem getMissRatioConst_below (hs : m.Sane) (hv : m.ValuesOf vs) {c : U64}
    (h : c < m.ticks.headD 0) :
    m.getMissRatioConst c = fin (segment 1 (vs.getD 0 0) 0 (m.tick 0) c.val) := by
  have hlast : ¬ m.ticks.getLastD 0 < c := by
    have := hs.le_last m.ticks_length_pos
    rw [← headD_ticks] at this
    exact not_lt.mpr (le_trans h.le this)
  -- the code interpolates from the tick `0` at distance `cache_size`
  have hc0 : c - 0 = c := Fin.ext (by rw [Fin.sub_val_of_le (Fin.zero_le c)]; simp)
  have key := interpolate_fin (1 : F) (vs.getD 0 0) (lt_of_le_of_lt (Fin.zero_le c) h)
    (Fin.zero_le c) h.le
  rw [hc0] at key
  simp only [getMissRatioConst, missRatioAt, missRatioAtWith, interpolateWith_id, if_neg hlast, if_pos h, hv.headD_fin, key, tick,
    ← headD_ticks]
  simp

/-- At a tick, the miss ratio at the position `lower_bound` finds. -/
theorem getMissRatioConst_tick (hs : m.Sane) (hv : m.ValuesOf vs) {c : U64} {k : ℕ}
    (h0 : m.ticks.headD 0 ≤ c) (hl : c ≤ m.ticks.getLastD 0)
    (hk : StdAlgo.lowerBound m.ticks c = k) (heq : c = m.ticks.getD k 0) :
    m.getMissRatioConst c = fin (vs.getD k 0) := by
  have hkn : k < m.ticks.length := hk ▸ hs.lowerBound_lt hl
  simp only [getMissRatioConst, missRatioAt, missRatioAtWith, interpolateWith_id, if_neg (not_lt.mpr hl), if_neg (not_lt.mpr h0), hk,
    if_pos heq, hv.getD_fin hkn]

/-- Off the ticks and within their range, the segment between the two
    neighbouring ticks: `lower_bound` stops strictly after the first position,
    at a tick above the cache size, and the tick before is below it. -/
theorem getMissRatioConst_between (hs : m.Sane) (hv : m.ValuesOf vs) {c : U64} {k : ℕ}
    (h0 : m.ticks.headD 0 ≤ c) (hl : c ≤ m.ticks.getLastD 0)
    (hk : StdAlgo.lowerBound m.ticks c = k) (hne : c ≠ m.ticks.getD k 0) :
    0 < k ∧ m.ticks.getD (k - 1) 0 < c ∧ c < m.ticks.getD k 0 ∧
      m.getMissRatioConst c =
        fin (segment (vs.getD (k - 1) 0) (vs.getD k 0) (m.tick (k - 1)) (m.tick k) c.val) := by
  have hkn : k < m.ticks.length := hk ▸ hs.lowerBound_lt hl
  obtain ⟨-, hbelow, habove⟩ := hs.lowerBound_getD c
  rw [hk] at hbelow habove
  have hk0 : 0 < k := by
    apply Nat.pos_of_ne_zero
    rintro rfl
    apply hne
    have hle : c ≤ m.ticks.getD 0 0 := habove 0 m.ticks_length_pos le_rfl
    rw [← headD_ticks] at hle ⊢
    exact le_antisymm hle h0
  have hlo : m.ticks.getD (k - 1) 0 < c := hbelow (k - 1) (by omega) (by omega)
  have hhi : c < m.ticks.getD k 0 := lt_of_le_of_ne (habove k hkn le_rfl) hne
  refine ⟨hk0, hlo, hhi, ?_⟩
  simp only [getMissRatioConst, missRatioAt, missRatioAtWith, interpolateWith_id, if_neg (not_lt.mpr hl), if_neg (not_lt.mpr h0), hk,
    if_neg hne, hv.getD_fin hkn, hv.getD_fin (show k - 1 < m.ticks.length by omega)]
  exact interpolate_fin _ _ (lt_trans hlo hhi) hlo.le hhi.le

/-- Up to the last tick the value is finite and lies between the miss ratio
    at the position `lower_bound` finds and the one before it (`1` before the
    first position). -/
theorem getMissRatioConst_bounds (hs : m.Sane) (hv : m.ValuesOf vs) {c : U64} {k : ℕ}
    (hl : c ≤ m.ticks.getLastD 0) (hk : StdAlgo.lowerBound m.ticks c = k) :
    ∃ x, m.getMissRatioConst c = fin x ∧ vs.getD k 0 ≤ x ∧ x ≤ 1 ∧
      (0 < k → x ≤ vs.getD (k - 1) 0) := by
  have hkn : k < m.ticks.length := hk ▸ hs.lowerBound_lt hl
  have hvk := hv.range k (hv.lt_length hkn)
  by_cases h0 : c < m.ticks.headD 0
  case pos =>
    -- below the first tick: the segment from `(0, 1)` down to the first point
    obtain rfl : k = 0 := hk ▸ hs.lowerBound_eq_zero h0
    have hc : (c.val : F) ≤ m.tick 0 := val_cast_le (headD_ticks m ▸ h0.le)
    have hpos : (0 : F) < m.tick 0 :=
      lt_of_le_of_lt (Nat.cast_nonneg _) (val_cast_lt (headD_ticks m ▸ h0))
    refine ⟨_, getMissRatioConst_below hs hv h0, right_le_segment hvk.2 hpos (Nat.cast_nonneg _) hc,
      segment_le_left hvk.2 hpos (Nat.cast_nonneg _) hc, fun h => absurd h (lt_irrefl 0)⟩
  case neg =>
    by_cases heq : c = m.ticks.getD k 0
    case pos =>
      exact ⟨_, getMissRatioConst_tick hs hv (not_lt.mp h0) hl hk heq, le_rfl, hvk.2,
        fun _ => hv.anti _ _ (by omega) (hv.lt_length hkn)⟩
    case neg =>
      obtain ⟨hk0, hlo, hhi, hval⟩ := getMissRatioConst_between hs hv (not_lt.mp h0) hl hk heq
      have hanti := hv.anti (k - 1) k (by omega) (hv.lt_length hkn)
      have hab := val_cast_lt (F := F) (lt_trans hlo hhi)
      have hac := val_cast_le (F := F) hlo.le
      have hcb := val_cast_le (F := F) hhi.le
      refine ⟨_, hval, right_le_segment hanti hab hac hcb, ?_,
        fun _ => segment_le_left hanti hab hac hcb⟩
      exact le_trans (segment_le_left hanti hab hac hcb) (hv.range (k - 1) (hv.lt_length (by omega))).2

end Branches

-- ---------------------------------------------------------------------------
-- The curve as a whole
-- ---------------------------------------------------------------------------

/-- Every value lies in `[0, 1]`. -/
theorem Sane.getMissRatioConst_mem (hs : m.Sane) (c : U64) :
    ∃ x, m.getMissRatioConst c = fin x ∧ 0 ≤ x ∧ x ≤ 1 := by
  obtain ⟨vs, hv⟩ := hs.exists_valuesOf
  have hn := m.ticks_length_pos
  by_cases hl : c ≤ m.ticks.getLastD 0
  case pos =>
    obtain ⟨x, hx, hkx, hx1, -⟩ := getMissRatioConst_bounds hs hv hl rfl
    exact ⟨x, hx, le_trans (hv.range _ (hv.lt_length (hs.lowerBound_lt hl))).1 hkx, hx1⟩
  case neg =>
    rw [getMissRatioConst_above m (not_le.mp hl), hv.getLastD_fin]
    exact ⟨_, rfl, hv.range _ (hv.lt_length (by omega))⟩

/-- At a tick, the miss ratio of the first position that holds it. -/
theorem Sane.getMissRatioConst_first (hs : m.Sane) {c : U64} {i : ℕ} (hi : i < m.ticks.length)
    (hti : m.ticks.getD i 0 = c) (hfirst : ∀ j, j < i → m.ticks.getD j 0 ≠ c) :
    m.getMissRatioConst c = m.missRatios.getD i nan := by
  obtain ⟨vs, hv⟩ := hs.exists_valuesOf
  -- every earlier tick is at most `c` and differs from it, every later one is at least `c`
  have hk : StdAlgo.lowerBound m.ticks c = i := by
    apply hs.lowerBound_eq hi.le
    · intro j hj hji
      exact lt_of_le_of_ne (hti ▸ hs.tick_mono hji.le hi) (hfirst j hji)
    · intro j hj hij
      exact hti ▸ hs.tick_mono hij hj
  have h0 : m.ticks.headD 0 ≤ c := by
    rw [headD_ticks, ← hti]
    exact hs.tick_mono (Nat.zero_le i) hi
  have hl : c ≤ m.ticks.getLastD 0 := hti ▸ hs.le_last hi
  rw [getMissRatioConst_tick hs hv h0 hl hk hti.symm, hv.getD_fin hi]

/-- Strictly between two neighbouring ticks, the segment through them. -/
theorem Sane.getMissRatioConst_of_between (hs : m.Sane) {vs : List F} (hv : m.ValuesOf vs)
    {c : U64} {i : ℕ} (hi : i + 1 < m.ticks.length) (hlo : m.ticks.getD i 0 < c)
    (hhi : c < m.ticks.getD (i + 1) 0) :
    m.getMissRatioConst c =
      fin (segment (vs.getD i 0) (vs.getD (i + 1) 0) (m.tick i) (m.tick (i + 1)) c.val) := by
  have hk : StdAlgo.lowerBound m.ticks c = i + 1 := by
    apply hs.lowerBound_eq hi.le
    · intro j hj hji
      exact lt_of_le_of_lt (hs.tick_mono (by omega) (by omega)) hlo
    · intro j hj hij
      exact le_of_lt (lt_of_lt_of_le hhi (hs.tick_mono hij hj))
  have h0 : m.ticks.headD 0 ≤ c := by
    rw [headD_ticks]
    exact le_of_lt (lt_of_le_of_lt (hs.tick_mono (Nat.zero_le i) (by omega)) hlo)
  have hl : c ≤ m.ticks.getLastD 0 := le_of_lt (lt_of_lt_of_le hhi (hs.le_last hi))
  obtain ⟨-, -, -, hval⟩ := getMissRatioConst_between hs hv h0 hl hk (ne_of_lt hhi)
  simpa using hval

/-- On a sane curve the asserts of `get_miss_ratio_const` hold at every cache
    size. -/
theorem Sane.assertsHold (hs : m.Sane) (c : U64) : m.AssertsHold c := by
  obtain ⟨vs, hv⟩ := hs.exists_valuesOf
  unfold AssertsHold
  split_ifs with hl h0
  · -- below the first tick `interpolate` asserts `1 >= miss_ratios.front()`
    rw [hv.headD_fin, fin_le_fin]
    exact (hv.range 0 (hv.lt_length m.ticks_length_pos)).2
  · dsimp only
    have hkn := hs.lowerBound_lt (not_lt.mp hl)
    refine ⟨hkn, fun hne => ?_⟩
    obtain ⟨hk0, hlo, hhi, -⟩ := getMissRatioConst_between hs hv (not_lt.mp h0) (not_lt.mp hl) rfl hne
    refine ⟨hk0, hlo, hhi, ?_⟩
    rw [hv.getD_fin hkn, hv.getD_fin (by omega), fin_le_fin]
    exact hv.anti _ _ (by omega) (hv.lt_length hkn)

/-- Two sizes that `lower_bound` sends to one position, below the tick there,
    lie on one segment. -/
theorem getMissRatioConst_antitone_same (hs : m.Sane) {vs : List F} (hv : m.ValuesOf vs)
    {c c' : U64} {k : ℕ} (hcc : c ≤ c') (hl' : c' ≤ m.ticks.getLastD 0)
    (hk : StdAlgo.lowerBound m.ticks c = k) (hk' : StdAlgo.lowerBound m.ticks c' = k)
    (hne : c' ≠ m.ticks.getD k 0) :
    m.getMissRatioConst c' ≤ m.getMissRatioConst c := by
  have hkn : k < m.ticks.length := hk' ▸ hs.lowerBound_lt hl'
  have hlt' : c' < m.ticks.getD k 0 :=
    lt_of_le_of_ne ((hs.lowerBound_getD c').2.2 k hkn hk'.le) hne
  have hlt : c < m.ticks.getD k 0 := lt_of_le_of_lt hcc hlt'
  rcases Nat.eq_zero_or_pos k with rfl | hk0
  case inl =>
    -- both below the first tick
    have hv0 := hv.range 0 (hv.lt_length m.ticks_length_pos)
    have hpos : (0 : F) < m.tick 0 := lt_of_le_of_lt (Nat.cast_nonneg _) (val_cast_lt hlt)
    rw [← headD_ticks] at hlt hlt'
    rw [getMissRatioConst_below hs hv hlt, getMissRatioConst_below hs hv hlt', fin_le_fin]
    exact segment_antitone hv0.2 hpos (val_cast_le hcc)
  case inr =>
    -- both strictly inside the segment that ends at tick `k`
    have h0 : m.ticks.headD 0 ≤ c := by
      by_contra hc
      have := hs.lowerBound_eq_zero (not_le.mp hc)
      omega
    obtain ⟨-, hlo, hhi, hval⟩ :=
      getMissRatioConst_between hs hv h0 (le_trans hcc hl') hk (ne_of_lt hlt)
    obtain ⟨-, -, -, hval'⟩ := getMissRatioConst_between hs hv (le_trans h0 hcc) hl' hk' hne
    rw [hval, hval', fin_le_fin]
    exact segment_antitone (hv.anti _ _ (by omega) (hv.lt_length hkn))
      (val_cast_lt (lt_trans hlo hhi)) (val_cast_le hcc)

/-- The curve does not increase. -/
theorem Sane.getMissRatioConst_antitone (hs : m.Sane) {c c' : U64} (hcc : c ≤ c') :
    m.getMissRatioConst c' ≤ m.getMissRatioConst c := by
  obtain ⟨vs, hv⟩ := hs.exists_valuesOf
  by_cases hl' : c' ≤ m.ticks.getLastD 0
  case neg =>
    -- above the last tick the curve is flat at the last miss ratio, its lowest value
    rw [getMissRatioConst_above m (not_le.mp hl'), hv.getLastD_fin]
    by_cases hl : c ≤ m.ticks.getLastD 0
    case pos =>
      obtain ⟨x, hx, hkx, -⟩ := getMissRatioConst_bounds hs hv hl rfl
      rw [hx, fin_le_fin]
      exact le_trans (hv.last_le (hs.lowerBound_lt hl)) hkx
    case neg =>
      rw [getMissRatioConst_above m (not_le.mp hl), hv.getLastD_fin, fin_le_fin]
  case pos =>
    have hkn' := hs.lowerBound_lt hl'
    rcases Nat.lt_or_eq_of_le (StdAlgo.lowerBound_mono hs.ticks_sorted hcc) with hlt | heq
    case inl =>
      -- `c'` lies past the tick at which the segment of `c` ends
      obtain ⟨x, hx, hkx, -, -⟩ := getMissRatioConst_bounds hs hv (le_trans hcc hl') rfl
      obtain ⟨x', hx', -, -, hxk'⟩ := getMissRatioConst_bounds hs hv hl' rfl
      rw [hx, hx', fin_le_fin]
      calc x' ≤ vs.getD (StdAlgo.lowerBound m.ticks c' - 1) 0 := hxk' (by omega)
        _ ≤ vs.getD (StdAlgo.lowerBound m.ticks c) 0 := hv.anti _ _ (by omega) (by
            have := hv.lt_length hkn'; omega)
        _ ≤ x := hkx
    case inr =>
      by_cases ht : c' = m.ticks.getD (StdAlgo.lowerBound m.ticks c') 0
      case pos =>
        -- `c'` is the tick itself, the lowest value of the segment of `c`
        have h0' : m.ticks.headD 0 ≤ c' := by
          rw [headD_ticks, ht]
          exact hs.tick_mono (Nat.zero_le _) hkn'
        obtain ⟨x, hx, hkx, -⟩ := getMissRatioConst_bounds hs hv (le_trans hcc hl') heq
        rw [hx, getMissRatioConst_tick hs hv h0' hl' rfl ht, fin_le_fin]
        exact hkx
      case neg =>
        exact getMissRatioConst_antitone_same hs hv hcc hl' heq rfl ht

-- ---------------------------------------------------------------------------
-- The memo
-- ---------------------------------------------------------------------------

/-- The curve after a sequence of `get_miss_ratio` calls. -/
def queries : MissRatioCurve F → List U64 → MissRatioCurve F
  | m, [] => m
  | m, c :: cs => queries (m.getMissRatio c).2 cs

@[simp] theorem queries_getMissRatioConst (m : MissRatioCurve F) (cs : List U64) :
    (m.queries cs).getMissRatioConst = m.getMissRatioConst := by
  induction cs generalizing m with
  | nil => rfl
  | cons c cs ih => rw [queries, ih, getMissRatio_snd_getMissRatioConst]

/-- What `MissRatioCurve` promises on a sane curve: `get_miss_ratio_const`
    is the piecewise-linear curve through `(0, 1)` and the ticks, flat after
    the last tick, with values in `[0, 1]`, asserts that hold, and no
    increase; and `get_miss_ratio` answers the same after any queries. -/
structure IsSoundCurve (m : MissRatioCurve F) : Prop where
  mem_unit : ∀ c, ∃ x, m.getMissRatioConst c = fin x ∧ 0 ≤ x ∧ x ≤ 1
  at_first_tick : ∀ c i, i < m.ticks.length → m.ticks.getD i 0 = c →
    (∀ j, j < i → m.ticks.getD j 0 ≠ c) → m.getMissRatioConst c = m.missRatios.getD i nan
  below_first_tick : ∀ vs : List F, m.missRatios = vs.map fin → ∀ c, c < m.ticks.headD 0 →
    m.getMissRatioConst c = fin (segment 1 (vs.getD 0 0) 0 (m.tick 0) c.val)
  between_ticks : ∀ vs : List F, m.missRatios = vs.map fin → ∀ c i, i + 1 < m.ticks.length →
    m.ticks.getD i 0 < c → c < m.ticks.getD (i + 1) 0 →
    m.getMissRatioConst c =
      fin (segment (vs.getD i 0) (vs.getD (i + 1) 0) (m.tick i) (m.tick (i + 1)) c.val)
  above_last_tick : ∀ c, m.ticks.getLastD 0 < c → m.getMissRatioConst c = m.missRatios.getLastD nan
  asserts : ∀ c, m.AssertsHold c
  antitone : ∀ c c', c ≤ c' → m.getMissRatioConst c' ≤ m.getMissRatioConst c
  memo : ∀ cs c, ((m.queries cs).getMissRatio c).1 = m.getMissRatioConst c

theorem getMissRatioConst_sound (m : MissRatioCurve F) (hs : m.Sane) : m.IsSoundCurve where
  mem_unit := hs.getMissRatioConst_mem
  at_first_tick _ _ hi hti hfirst := hs.getMissRatioConst_first hi hti hfirst
  below_first_tick _ hvs _ h := getMissRatioConst_below hs (hs.valuesOf hvs) h
  between_ticks _ hvs _ _ hi hlo hhi := hs.getMissRatioConst_of_between (hs.valuesOf hvs) hi hlo hhi
  above_last_tick _ h := getMissRatioConst_above m h
  asserts := hs.assertsHold
  antitone _ _ h := hs.getMissRatioConst_antitone h
  memo cs c := by rw [getMissRatio_fst, queries_getMissRatioConst]

-- ---------------------------------------------------------------------------
-- `check_sanity`
-- ---------------------------------------------------------------------------

/-- The loop of `check_sanity` passes sorted ticks between `minTick` and
    `maxTick` whose miss ratios are finite, in `[0, maxMr]` and
    non-increasing. -/
theorem checkSanityLoop_eq_ok (maxTick : U64) :
    ∀ (ps : List (U64 × F)) (minTick : U64) (maxMr : F),
      (∀ p ∈ ps, minTick ≤ p.1 ∧ p.1 ≤ maxTick ∧ 0 ≤ p.2 ∧ p.2 ≤ maxMr) →
      ps.Pairwise (fun p q => p.1 ≤ q.1 ∧ q.2 ≤ p.2) →
      checkSanityLoop maxTick (ps.map fun p => (p.1, fin p.2)) minTick (fin maxMr) = .ok ()
  | [], _, _, _, _ => rfl
  | (t, v) :: ps, minTick, maxMr, hb, hp => by
    obtain ⟨h₁, h₂, h₃, h₄⟩ := hb (t, v) List.mem_cons_self
    rw [List.pairwise_cons] at hp
    have hrest : ∀ p ∈ ps, t ≤ p.1 ∧ p.1 ≤ maxTick ∧ 0 ≤ p.2 ∧ p.2 ≤ v := fun p hp' =>
      have hb' := hb p (List.mem_cons_of_mem _ hp')
      ⟨(hp.1 p hp').1, hb'.2.1, hb'.2.2.1, (hp.1 p hp').2⟩
    simp only [List.map_cons, checkSanityLoop]
    rw [if_neg (by simp only [not_or, not_lt]; exact ⟨h₁, h₂⟩),
      if_neg (by simp only [fin_lt_fin, not_or, not_lt]; exact ⟨h₃, h₄⟩)]
    exact checkSanityLoop_eq_ok maxTick ps t v hrest hp.2

omit [Field F] [LinearOrder F] [IsStrictOrderedRing F] in
/-- Zipping two ordered lists orders the pairs in both components. -/
theorem pairwise_zip {α β : Type*} {R : α → α → Prop} {S : β → β → Prop} :
    ∀ {l₁ : List α} {l₂ : List β}, l₁.Pairwise R → l₂.Pairwise S →
      (l₁.zip l₂).Pairwise fun p q => R p.1 q.1 ∧ S p.2 q.2
  | [], _, _, _ => by simp
  | _ :: _, [], _, _ => by simp
  | a :: l₁, b :: l₂, h₁, h₂ => by
    rw [List.pairwise_cons] at h₁ h₂
    rw [List.zip_cons_cons, List.pairwise_cons]
    refine ⟨fun q hq => ?_, pairwise_zip h₁.2 h₂.2⟩
    obtain ⟨x, y⟩ := q
    exact ⟨h₁.1 x (List.of_mem_zip hq).1, h₂.1 y (List.of_mem_zip hq).2⟩

/-- A sane curve passes `check_sanity`. -/
theorem Sane.checkSanity_eq_ok (hs : m.Sane) : m.checkSanity = .ok () := by
  obtain ⟨vs, hvs, hrange, hanti⟩ := hs.vals
  have hzip : m.ticks.zip m.missRatios = (m.ticks.zip vs).map fun p => (p.1, fin p.2) := by
    rw [hvs, List.zip_map_right]
    rfl
  have hbounds : ∀ p ∈ m.ticks.zip vs,
      m.ticks.headD 0 ≤ p.1 ∧ p.1 ≤ m.ticks.getLastD 0 ∧ 0 ≤ p.2 ∧ p.2 ≤ 1 := by
    intro p hp
    obtain ⟨ht, hv⟩ := List.of_mem_zip hp
    obtain ⟨i, hi, hti⟩ := List.getElem_of_mem ht
    have hd : m.ticks.getD i 0 = p.1 := (List.getD_eq_getElem _ _ hi).trans hti
    refine ⟨?_, ?_, hrange _ hv⟩
    · rw [headD_ticks, ← hd]
      exact hs.tick_mono (Nat.zero_le i) hi
    · rw [← hd]
      exact hs.le_last hi
  unfold checkSanity
  rw [if_neg (by simpa using m.ticks_ne_nil), if_neg (by rw [hs.length_eq]; exact not_not.mpr rfl),
    hzip]
  exact checkSanityLoop_eq_ok _ _ _ _ hbounds (pairwise_zip hs.ticks_sorted hanti)

/-- The curve of `test_basic` in `test_mrc.cpp`. -/
def testBasic : MissRatioCurve ℚ :=
  ofVectors [10, 20, 40, 80] [fin (9 / 10), fin (8 / 10), fin (7 / 10), fin (6 / 10)]
    (by simp) (by simp)

theorem testBasic_isSoundCurve : testBasic.Sane ∧ testBasic.IsSoundCurve := by
  have hs : testBasic.Sane :=
    ⟨rfl, by decide, ⟨[9 / 10, 8 / 10, 7 / 10, 6 / 10], rfl, by norm_num, by norm_num⟩⟩
  exact ⟨hs, getMissRatioConst_sound testBasic hs⟩

/-- A flat curve through ticks 1 and 4, both at the `double` nearest 0.9. -/
def flatPair : MissRatioCurve ℚ :=
  ofVectors [1, 4] [Binary64.round (9 / 10), Binary64.round (9 / 10)] (by simp) (by simp)

/-- In binary64 the flat segment dips: at cache size 3 the weights round to
    the doubles nearest 1/3 and 2/3, and the sum rounds to
    0.8999999999999999, below the value 0.9 at tick 4. The curve passes
    check_sanity, yet the double result is neither the linear interpolation
    nor non-increasing. -/
theorem getMissRatioConstBinary64_dips :
    flatPair.checkSanity = .ok () ∧
      flatPair.getMissRatioConstBinary64 3 = fin (2026619832316723 / 2251799813685248) ∧
      flatPair.getMissRatioConstBinary64 3 < flatPair.getMissRatioConstBinary64 4 := by
  decide +kernel

end MissRatioCurve

end Hare
