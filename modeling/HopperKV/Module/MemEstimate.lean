-- SUMMARY: mem_estimate of ghost.cpp: the jemalloc size classes that jemalloc_size rounds up to, the loop of prev_power_of_two and where it terminates, and the memory cost that estimate gives a key and a value.
import HopperKV.Lib.Scalar
import HopperKV.Lib.Loop
import Mathlib.Data.Nat.Log

/-!
# The memory cost of a key and a value

`ghost::access_key` and `ghost::update_kv_size` hand the ghost cache the
memory that Redis spends on a key and its value, as `mem_estimate::estimate`
computes it: a dictionary entry, the key's SDS string, and the value, as one
EMBSTR object up to 44 bytes and as an object and an SDS string above. Every
allocation is rounded up by `jemalloc_size` to a jemalloc size class.

`jemalloc_size` reads a table of thirteen rows, with bounds from `64` to
`262144` and the step of each row below its bound, and above the table it
rounds to an eighth of `prev_power_of_two(s)`. The size classes are the values
that it can return (`IsSizeClass`). For `s < 2 ^ 31` it returns the least size
class that is at least `s` (`jemallocSizeNat_least`, `jemallocSize_eq`).

`prev_power_of_two` doubles `p` while `p << 1 <= x`. On `uint32_t` the double
of `2 ^ 31` is `0`, so for `x >= 2 ^ 31` the loop never ends
(`prevPowerOfTwo_eq_none`). It runs here with fuel (`Loop.run`), and 31 rounds
suffice below `2 ^ 31`. `jemalloc_size(2 ^ 31 - 1)` is `2 ^ 31`, on which
`jemalloc_size` does not return.

`ceil_to_multiple` computes in `size_t`, where nothing here overflows, and
`jemalloc_size` converts its result back to `uint32_t`.
-/

namespace Hopper.Ghost.MemEstimate

-- ---------------------------------------------------------------------------
-- The functions of `mem_estimate`
-- ---------------------------------------------------------------------------

/-- `ceil_to_multiple(x, m)`, in `size_t`. -/
def ceilToMultiple (x m : ℕ) : ℕ := (x + m - 1) / m * m

/-- One round of the loop of `prev_power_of_two(x)`. -/
def prevPowerOfTwoStep (x p : U32) : Loop.Step U32 :=
  if p <<< (1 : U32) ≤ x then .next (p <<< (1 : U32)) else .done p

/-- `prev_power_of_two(x)`, with at most `fuel` rounds. -/
def prevPowerOfTwo (fuel : ℕ) (x : U32) : Option U32 := Loop.run (prevPowerOfTwoStep x) fuel 1

/-- The rows `if (s <= bound) return ceil_to_multiple(s, step);` of
    `jemalloc_size`, in their order. -/
def sizeClassTable : List (ℕ × ℕ) :=
  [(64, 8), (128, 16), (256, 32), (512, 64), (1024, 128), (2048, 256), (4096, 512), (8192, 1024),
    (16384, 2048), (32768, 4096), (65536, 8192), (131072, 16384), (262144, 32768)]

/-- The first row whose bound is at least `s`, and its rounding of `s`. -/
def tableLookup (s : ℕ) : List (ℕ × ℕ) → Option ℕ
  | [] => none
  | (bound, step) :: rows => if s ≤ bound then some (ceilToMultiple s step) else tableLookup s rows

/-- `jemalloc_size(s)`: `none` where `prev_power_of_two` does not return. -/
def jemallocSize (fuel : ℕ) (s : U32) : Option U32 :=
  if s = 0 then some 0
  else
    match tableLookup s.val sizeClassTable with
    | some v => some (Fin.ofNat _ v)
    | none =>
      (prevPowerOfTwo fuel s).map fun base =>
        let step : U32 := base >>> (3 : U32)
        Fin.ofNat _ (ceilToMultiple s.val step.val)

/-- The SDS header of a key: `sdshdr5`, `sdshdr8`, `sdshdr16` or `sdshdr32`. -/
def keySdsHeader (keyLen : U32) : U32 :=
  if keyLen < 32 then 1 else if keyLen < 256 then 3 else if keyLen < 65536 then 5 else 9

/-- The SDS header of a RAW value. -/
def valueSdsHeader (valueLen : U32) : U32 :=
  if valueLen < 256 then 3 else if valueLen < 65536 then 5 else 9

/-- `estimate(key_len, value_len)`: `none` where a `jemalloc_size` does not
    return. -/
def estimate (fuel : ℕ) (keyLen valueLen : U32) : Option U32 := do
  let dictEntry ← jemallocSize fuel 24
  let keySds ← jemallocSize fuel (keySdsHeader keyLen + keyLen + 1)
  let (valueObj, valueSds) ←
    if valueLen ≤ 44 then
      -- EMBSTR: the object, `sdshdr8`, the value and its terminator together
      (jemallocSize fuel (16 + 3 + valueLen + 1)).map fun o => (o, 0)
    else do
      let o ← jemallocSize fuel 16
      let sds ← jemallocSize fuel (valueSdsHeader valueLen + valueLen + 1)
      pure (o, sds)
  let hashTableOverhead : U32 := 10
  pure (dictEntry + keySds + valueObj + valueSds + hashTableOverhead)

-- ---------------------------------------------------------------------------
-- The size classes
-- ---------------------------------------------------------------------------

/-- The classes of the rows of a table whose first row starts above `lo`: in
    each row, the multiples of its step up to its bound and above the bound
    of the row before. -/
def inRows : ℕ → List (ℕ × ℕ) → ℕ → Prop
  | _, [], _ => False
  | lo, (bound, step) :: rows, x => (lo < x ∧ x ≤ bound ∧ step ∣ x) ∨ inRows bound rows x

/-- The size classes of `jemalloc_size`: `0`, the classes of the table, and
    above it the multiples of an eighth of the largest power of two that is at
    most the value. -/
def IsSizeClass (x : ℕ) : Prop :=
  x = 0 ∨ inRows 0 sizeClassTable x ∨ (262144 < x ∧ 2 ^ Nat.log 2 x / 8 ∣ x)

/-- A table whose bounds grow and are multiples of their steps. -/
def RowsOk : ℕ → List (ℕ × ℕ) → Prop
  | _, [] => True
  | lo, (bound, step) :: rows => lo < bound ∧ 0 < step ∧ step ∣ bound ∧ RowsOk bound rows

/-- The bound of the last row. -/
def lastBound : ℕ → List (ℕ × ℕ) → ℕ
  | lo, [] => lo
  | _, (bound, _) :: rows => lastBound bound rows

/-- What `jemalloc_size` computes, in `ℕ`. -/
def jemallocSizeNat (s : ℕ) : ℕ :=
  if s = 0 then 0 else (tableLookup s sizeClassTable).getD (ceilToMultiple s (2 ^ Nat.log 2 s / 8))

theorem rowsOk_sizeClassTable : RowsOk 0 sizeClassTable := by
  simp only [RowsOk, sizeClassTable]
  decide

theorem lastBound_sizeClassTable : lastBound 0 sizeClassTable = 262144 := rfl

-- ---------------------------------------------------------------------------
-- Rounding up to a multiple
-- ---------------------------------------------------------------------------

section Ceil

variable {x m : ℕ}

theorem le_ceilToMultiple (hm : 0 < m) : x ≤ ceilToMultiple x m := by
  unfold ceilToMultiple
  have := Nat.lt_div_mul_add (a := x + m - 1) hm
  omega

theorem dvd_ceilToMultiple : m ∣ ceilToMultiple x m := Dvd.intro_left _ rfl

/-- The rounding is the least multiple of `m` that is at least `x`. -/
theorem ceilToMultiple_le {y : ℕ} (hm : 0 < m) (hxy : x ≤ y) (hy : m ∣ y) :
    ceilToMultiple x m ≤ y := by
  obtain ⟨k, rfl⟩ := hy
  have hq : (x + m - 1) / m ≤ k := by
    rw [Nat.div_le_iff_le_mul_add_pred hm]
    omega
  unfold ceilToMultiple
  calc (x + m - 1) / m * m ≤ k * m := Nat.mul_le_mul_right m hq
    _ = m * k := Nat.mul_comm k m

end Ceil

-- ---------------------------------------------------------------------------
-- The table
-- ---------------------------------------------------------------------------

theorem le_lastBound : ∀ {lo : ℕ} {rows : List (ℕ × ℕ)}, RowsOk lo rows → lo ≤ lastBound lo rows
  | _, [], _ => le_rfl
  | _, (_, _) :: _, ⟨hlo, _, _, hrows⟩ => hlo.le.trans (le_lastBound hrows)

/-- A class of the table lies in its range. -/
theorem inRows_le : ∀ {lo x : ℕ} {rows : List (ℕ × ℕ)}, RowsOk lo rows → inRows lo rows x →
    lo < x ∧ x ≤ lastBound lo rows
  | _, _, [], _, h => h.elim
  | _, _, (_, _) :: _, ⟨_, _, _, hrows⟩, .inl ⟨hx, hxb, _⟩ => ⟨hx, hxb.trans (le_lastBound hrows)⟩
  | _, _, (_, _) :: _, ⟨hlo, _, _, hrows⟩, .inr h => ⟨hlo.trans (inRows_le hrows h).1, (inRows_le hrows h).2⟩

/-- Above its last bound, no row of the table applies. -/
theorem tableLookup_eq_none {s : ℕ} : ∀ {lo : ℕ} {rows : List (ℕ × ℕ)}, RowsOk lo rows →
    lastBound lo rows < s → tableLookup s rows = none
  | _, [], _, _ => rfl
  | _, (bound, _) :: _, ⟨_, _, _, hrows⟩, hs => by
    have : ¬ s ≤ bound := by have := le_lastBound hrows; simp only [lastBound] at hs; omega
    simp only [tableLookup, if_neg this]
    exact tableLookup_eq_none hrows hs

/-- Within the table, `tableLookup` gives the least class that is at least
    `s`: the rounding of the first row whose bound is at least `s`. -/
theorem tableLookup_least {s : ℕ} : ∀ {lo : ℕ} {rows : List (ℕ × ℕ)}, RowsOk lo rows → lo < s →
    s ≤ lastBound lo rows → ∃ v, tableLookup s rows = some v ∧ inRows lo rows v ∧ s ≤ v ∧
      ∀ w, s ≤ w → (inRows lo rows w ∨ lastBound lo rows < w) → v ≤ w
  | _, [], _, hlo, hs => absurd hs (by simp only [lastBound]; omega)
  | lo, (bound, step) :: rows, ⟨hlo, hstep, hdvd, hrows⟩, hs, hsl => by
    by_cases hb : s ≤ bound
    case pos =>
      -- the row of `s`: its rounding stays in the row, below every later class
      have hv := ceilToMultiple_le hstep hb hdvd
      refine ⟨ceilToMultiple s step, by simp only [tableLookup, if_pos hb],
        .inl ⟨hs.trans_le (le_ceilToMultiple hstep), hv, dvd_ceilToMultiple⟩,
        le_ceilToMultiple hstep, ?_⟩
      intro w hw hw'
      simp only [inRows, lastBound] at hw'
      rcases hw' with (⟨-, -, hwd⟩ | hw') | hw'
      · exact ceilToMultiple_le hstep hw hwd
      · exact hv.trans (inRows_le hrows hw').1.le
      · exact hv.trans ((le_lastBound hrows).trans hw'.le)
    case neg =>
      -- a later row: no class of this row is at least `s`
      obtain ⟨v, hv, hin, hsv, hleast⟩ := tableLookup_least hrows (lt_of_not_ge hb) hsl
      refine ⟨v, by simp only [tableLookup, if_neg hb, hv], .inr hin, hsv, ?_⟩
      intro w hw hw'
      simp only [inRows, lastBound] at hw'
      rcases hw' with (⟨-, hwb, -⟩ | hw') | hw'
      · omega
      · exact hleast w hw (.inl hw')
      · exact hleast w hw (.inr hw')

-- ---------------------------------------------------------------------------
-- The least size class
-- ---------------------------------------------------------------------------

/-- The classes above the table, in the octave of `2 ^ k`: the multiples of
    `2 ^ k / 8` up to `2 ^ (k + 1)`. -/
theorem isSizeClass_of_octave {k v : ℕ} (hv0 : 262144 < v) (hk : 2 ≤ k) (hlo : 2 ^ k ≤ v)
    (hhi : v ≤ 2 ^ (k + 1)) (hv : 2 ^ k / 8 ∣ v) : IsSizeClass v := by
  refine .inr (.inr ⟨hv0, ?_⟩)
  rcases hhi.lt_or_eq with hlt | heq
  · have hlog : Nat.log 2 v = k := (Nat.log_eq_iff (.inr ⟨by norm_num, by omega⟩)).mpr ⟨hlo, hlt⟩
    rwa [hlog]
  · -- the top of the octave is a power of two, a multiple of its own eighth
    subst heq
    have h8 : 8 ∣ 2 ^ (k + 1) := by
      rw [show (8 : ℕ) = 2 ^ 3 by norm_num]
      exact Nat.pow_dvd_pow 2 (by omega)
    rw [Nat.log_pow (by norm_num)]
    exact Nat.div_dvd_of_dvd h8

/-- Above the table, the rounding to an eighth of the octave of `s` is the
    least size class that is at least `s`. -/
theorem octave_least {s : ℕ} (hs : 262144 < s) :
    IsSizeClass (ceilToMultiple s (2 ^ Nat.log 2 s / 8)) ∧ s ≤ ceilToMultiple s (2 ^ Nat.log 2 s / 8) ∧
      ∀ w, IsSizeClass w → s ≤ w → ceilToMultiple s (2 ^ Nat.log 2 s / 8) ≤ w := by
  set k := Nat.log 2 s
  have hk : 18 ≤ k := Nat.le_log_of_pow_le (by norm_num) (by norm_num; omega)
  have hlo : 2 ^ k ≤ s := Nat.pow_log_le_self 2 (by omega)
  have hhi : s < 2 ^ (k + 1) := Nat.lt_pow_succ_log_self (by norm_num) s
  have h8 : 8 = 2 ^ 3 := by norm_num
  have hstep : 2 ^ k / 8 = 2 ^ (k - 3) := by rw [h8, Nat.pow_div (by omega) (by norm_num)]
  have hpos : 0 < 2 ^ k / 8 := by rw [hstep]; positivity
  have htop : 2 ^ k / 8 ∣ 2 ^ (k + 1) := by rw [hstep]; exact Nat.pow_dvd_pow 2 (by omega)
  have hsv := le_ceilToMultiple (x := s) hpos
  have hvtop := ceilToMultiple_le hpos hhi.le htop
  refine ⟨isSizeClass_of_octave (hs.trans_le hsv) (by omega) (hlo.trans hsv) hvtop
    dvd_ceilToMultiple, hsv, ?_⟩
  rintro w (rfl | hin | ⟨-, hwd⟩) hsw
  · omega
  · have := (inRows_le rowsOk_sizeClassTable hin).2
    rw [lastBound_sizeClassTable] at this
    omega
  · -- a class in the octave of `s` is a multiple of its step; one above is past its top
    by_cases hw : w < 2 ^ (k + 1)
    · have hlog : Nat.log 2 w = k :=
        (Nat.log_eq_iff (.inr ⟨by norm_num, by omega⟩)).mpr ⟨hlo.trans hsw, hw⟩
      rw [hlog] at hwd
      exact ceilToMultiple_le hpos hsw hwd
    · omega

/-- `jemalloc_size` gives the least size class that is at least its argument. -/
theorem jemallocSizeNat_least (s : ℕ) :
    IsSizeClass (jemallocSizeNat s) ∧ s ≤ jemallocSizeNat s ∧
      ∀ w, IsSizeClass w → s ≤ w → jemallocSizeNat s ≤ w := by
  by_cases hs0 : s = 0
  case pos =>
    subst hs0
    exact ⟨.inl rfl, le_rfl, fun _ _ _ => Nat.zero_le _⟩
  by_cases hs : s ≤ 262144
  case pos =>
    -- in the table
    obtain ⟨v, hv, hin, hsv, hleast⟩ :=
      tableLookup_least rowsOk_sizeClassTable (Nat.pos_of_ne_zero hs0) (by rwa [lastBound_sizeClassTable])
    have hjs : jemallocSizeNat s = v := by simp [jemallocSizeNat, hs0, hv]
    rw [hjs]
    refine ⟨.inr (.inl hin), hsv, ?_⟩
    rintro w (rfl | hin' | ⟨hw0, -⟩) hsw
    · omega
    · exact hleast w hsw (.inl hin')
    · exact hleast w hsw (.inr (by rwa [lastBound_sizeClassTable]))
  case neg =>
    -- above the table
    have hnone : tableLookup s sizeClassTable = none :=
      tableLookup_eq_none rowsOk_sizeClassTable (by rw [lastBound_sizeClassTable]; omega)
    have hjs : jemallocSizeNat s = ceilToMultiple s (2 ^ Nat.log 2 s / 8) := by
      simp [jemallocSizeNat, hs0, hnone]
    rw [hjs]
    exact octave_least (by omega)

theorem le_jemallocSizeNat (s : ℕ) : s ≤ jemallocSizeNat s := (jemallocSizeNat_least s).2.1

theorem jemallocSizeNat_le {s w : ℕ} (hw : IsSizeClass w) (hsw : s ≤ w) : jemallocSizeNat s ≤ w :=
  (jemallocSizeNat_least s).2.2 w hw hsw

theorem jemallocSizeNat_mono {s s' : ℕ} (h : s ≤ s') : jemallocSizeNat s ≤ jemallocSizeNat s' :=
  jemallocSizeNat_le (jemallocSizeNat_least s').1 (h.trans (le_jemallocSizeNat s'))

/-- A size class is rounded to itself. -/
theorem IsSizeClass.jemallocSizeNat_eq {x : ℕ} (h : IsSizeClass x) : jemallocSizeNat x = x :=
  le_antisymm (jemallocSizeNat_le h le_rfl) (le_jemallocSizeNat x)

theorem jemallocSizeNat_idem (s : ℕ) : jemallocSizeNat (jemallocSizeNat s) = jemallocSizeNat s :=
  (jemallocSizeNat_least s).1.jemallocSizeNat_eq

theorem isSizeClass_two_pow {k : ℕ} (hk : 19 ≤ k) : IsSizeClass (2 ^ k) := by
  have h19 : 2 ^ 19 ≤ 2 ^ k := Nat.pow_le_pow_right (by norm_num) hk
  have hk1 : k - 1 + 1 = k := by omega
  have hdvd : 2 ^ (k - 1) / 8 ∣ 2 ^ k := by
    rw [show (8 : ℕ) = 2 ^ 3 by norm_num, Nat.pow_div (by omega) (by norm_num)]
    exact Nat.pow_dvd_pow 2 (by omega)
  exact isSizeClass_of_octave (k := k - 1) (by omega) (by omega)
    (Nat.pow_le_pow_right (by norm_num) (by omega)) (by rw [hk1]) hdvd

theorem jemallocSizeNat_le_two_pow {s k : ℕ} (hk : 19 ≤ k) (hs : s ≤ 2 ^ k) :
    jemallocSizeNat s ≤ 2 ^ k :=
  jemallocSizeNat_le (isSizeClass_two_pow hk) hs

-- ---------------------------------------------------------------------------
-- The loop of `prev_power_of_two`
-- ---------------------------------------------------------------------------

theorem log_two_eq {x i : ℕ} (hlo : 2 ^ i ≤ x) (hhi : x < 2 ^ (i + 1)) : Nat.log 2 x = i :=
  (Nat.log_eq_iff (.inr ⟨by norm_num, by have := Nat.one_le_two_pow (n := i); omega⟩)).mpr ⟨hlo, hhi⟩

/-- The double of a power of two below `2 ^ 31` does not wrap. -/
theorem shiftLeft_one_pow {p : U32} {i : ℕ} (hp : p.val = 2 ^ i) (hi : i < 31) :
    (p <<< (1 : U32)).val = 2 ^ (i + 1) := by
  rw [U32.val_shiftLeft_one, hp, ← Nat.pow_succ', Nat.mod_eq_of_lt]
  exact Nat.pow_lt_pow_right (by norm_num) (by omega)

/-- A round on `p = 2 ^ i` with `i < 31` compares `2 ^ (i + 1)` with `x`. -/
theorem prevPowerOfTwoStep_pow {x p : U32} {i : ℕ} (hp : p.val = 2 ^ i) (hi : i < 31) :
    prevPowerOfTwoStep x p = if 2 ^ (i + 1) ≤ x.val then .next (p <<< (1 : U32)) else .done p := by
  simp only [prevPowerOfTwoStep, Fin.le_iff_val_le_val, shiftLeft_one_pow hp hi]

/-- The loop of `prev_power_of_two`, from `p = 2 ^ i` with `x < 2 ^ (i + k + 1)`,
    returns within `k + 1` rounds the largest power of two that is at most `x`. -/
theorem prevPowerOfTwo_run {x : U32} (hx : x.val < 2 ^ 31) :
    ∀ (k i : ℕ) (p : U32), p.val = 2 ^ i → 2 ^ i ≤ x.val → x.val < 2 ^ (i + k + 1) →
      ∃ q : U32, Loop.run (prevPowerOfTwoStep x) (k + 1) p = some q ∧ q.val = 2 ^ Nat.log 2 x.val := by
  intro k
  induction k with
  | zero =>
    intro i p hp hi hk
    rw [Nat.add_zero] at hk
    have hi31 : i < 31 := (Nat.pow_lt_pow_iff_right (by norm_num)).mp (hi.trans_lt hx)
    have hstep : prevPowerOfTwoStep x p = .done p := by
      rw [prevPowerOfTwoStep_pow hp hi31, if_neg (by omega)]
    exact ⟨p, Loop.run_succ_of_done 0 hstep, by rw [hp, log_two_eq hi hk]⟩
  | succ k ih =>
    intro i p hp hi hk
    have hi31 : i < 31 := (Nat.pow_lt_pow_iff_right (by norm_num)).mp (hi.trans_lt hx)
    by_cases h : 2 ^ (i + 1) ≤ x.val
    case pos =>
      -- the loop goes on with `2 ^ (i + 1)`
      rw [Loop.run_succ_of_next (k + 1) (by rw [prevPowerOfTwoStep_pow hp hi31, if_pos h])]
      exact ih (i + 1) _ (shiftLeft_one_pow hp hi31) h (by rwa [show i + 1 + k + 1 = i + (k + 1) + 1 by omega])
    case neg =>
      have hstep : prevPowerOfTwoStep x p = .done p := by
        rw [prevPowerOfTwoStep_pow hp hi31, if_neg h]
      exact ⟨p, Loop.run_succ_of_done _ hstep, by rw [hp, log_two_eq hi (by omega)]⟩

/-- Below `2 ^ 31`, `prev_power_of_two` returns within 31 rounds. -/
theorem prevPowerOfTwo_eq {x : U32} (hx0 : x ≠ 0) (hx : x.val < 2 ^ 31) {fuel : ℕ} (hfuel : 31 ≤ fuel) :
    ∃ q : U32, prevPowerOfTwo fuel x = some q ∧ q.val = 2 ^ Nat.log 2 x.val := by
  have hx1 : 2 ^ 0 ≤ x.val := by
    have : x.val ≠ 0 := fun h => hx0 (Fin.ext h)
    rw [pow_zero]; omega
  obtain ⟨q, hq, hqv⟩ := prevPowerOfTwo_run hx 30 0 1 rfl hx1 hx
  refine ⟨q, ?_, hqv⟩
  have := Loop.run_add hq (fuel - 31)
  rwa [show 30 + 1 + (fuel - 31) = fuel by omega] at this

/-- From `2 ^ 31` on, `prev_power_of_two` never returns: `p` runs through the
    powers of two up to `2 ^ 31`, whose double wraps to `0`, and `0 << 1 <= x`. -/
theorem prevPowerOfTwo_eq_none {x : U32} (hx : 2 ^ 31 ≤ x.val) (fuel : ℕ) :
    prevPowerOfTwo fuel x = none := by
  refine Loop.run_eq_none (fun p : U32 => p.val = 0 ∨ ∃ i ≤ 31, p.val = 2 ^ i) ?_ fuel 1
    (.inr ⟨0, by norm_num, rfl⟩)
  intro p hp
  have hq : (p <<< (1 : U32)).val = 0 ∨ ∃ i ≤ 31, (p <<< (1 : U32)).val = 2 ^ i := by
    rcases hp with h0 | ⟨i, hi, hpi⟩
    · left; rw [U32.val_shiftLeft_one, h0]; rfl
    · rcases hi.lt_or_eq with hi | rfl
      · exact .inr ⟨i + 1, hi, shiftLeft_one_pow hpi hi⟩
      · left; rw [U32.val_shiftLeft_one, hpi]; norm_num
  have hle : (p <<< (1 : U32)).val ≤ x.val := by
    rcases hq with h0 | ⟨i, hi, hqi⟩
    · omega
    · rw [hqi]; exact (Nat.pow_le_pow_right (by norm_num) hi).trans hx
  exact ⟨_, by simp only [prevPowerOfTwoStep, Fin.le_iff_val_le_val, if_pos hle], hq⟩

-- ---------------------------------------------------------------------------
-- `jemalloc_size`
-- ---------------------------------------------------------------------------

/-- Below `2 ^ 31`, `jemalloc_size` returns what `jemallocSizeNat` computes,
    which fits in `uint32_t`. -/
theorem jemallocSize_eq {s : U32} (hs : s.val < 2 ^ 31) {fuel : ℕ} (hfuel : 31 ≤ fuel) :
    ∃ v : U32, jemallocSize fuel s = some v ∧ v.val = jemallocSizeNat s.val := by
  have hlt : jemallocSizeNat s.val < 2 ^ 32 :=
    (jemallocSizeNat_le_two_pow (k := 31) (by norm_num) hs.le).trans_lt (by norm_num)
  suffices h : jemallocSize fuel s = some (Fin.ofNat _ (jemallocSizeNat s.val)) from
    ⟨_, h, by rw [Fin.val_ofNat, Nat.mod_eq_of_lt hlt]⟩
  by_cases hs0 : s = 0
  case pos =>
    subst hs0
    rfl
  have hv0 : s.val ≠ 0 := fun h => hs0 (Fin.ext h)
  cases ht : tableLookup s.val sizeClassTable with
  | some v =>
    have hjs : jemallocSizeNat s.val = v := by simp [jemallocSizeNat, hv0, ht]
    rw [hjs]
    simp only [jemallocSize, if_neg hs0, ht]
  | none =>
    -- above the table: the step is an eighth of `prev_power_of_two(s)`
    obtain ⟨q, hq, hqv⟩ := prevPowerOfTwo_eq hs0 hs hfuel
    have hjs : jemallocSizeNat s.val = ceilToMultiple s.val (2 ^ Nat.log 2 s.val / 8) := by
      simp [jemallocSizeNat, hv0, ht]
    rw [hjs]
    simp only [jemallocSize, if_neg hs0, ht, hq, Option.map_some, U32.val_shiftRight_three, hqv]

-- ---------------------------------------------------------------------------
-- `estimate`
-- ---------------------------------------------------------------------------

/-- What `estimate` computes, in `ℕ`: the sum of the sizes of an entry's
    allocations. -/
def estimateNat (keyLen valueLen : U32) : ℕ :=
  jemallocSizeNat 24 + jemallocSizeNat ((keySdsHeader keyLen).val + keyLen.val + 1) +
    (if valueLen ≤ 44 then jemallocSizeNat (16 + 3 + valueLen.val + 1)
      else jemallocSizeNat 16 + jemallocSizeNat ((valueSdsHeader valueLen).val + valueLen.val + 1)) +
    10

theorem keySdsHeader_le (k : U32) : (keySdsHeader k).val ≤ 9 := by
  unfold keySdsHeader
  split_ifs <;> decide

theorem valueSdsHeader_le (v : U32) : (valueSdsHeader v).val ≤ 9 := by
  unfold valueSdsHeader
  split_ifs <;> decide

theorem three_le_valueSdsHeader (v : U32) : 3 ≤ (valueSdsHeader v).val := by
  unfold valueSdsHeader
  split_ifs <;> decide

/-- A longer key never has a shorter SDS header. -/
theorem keySdsHeader_mono {k k' : U32} (h : k ≤ k') : (keySdsHeader k).val ≤ (keySdsHeader k').val := by
  rw [Fin.le_iff_val_le_val] at h
  unfold keySdsHeader
  split_ifs <;> simp_all [Fin.lt_def] <;> omega

theorem valueSdsHeader_mono {v v' : U32} (h : v ≤ v') :
    (valueSdsHeader v).val ≤ (valueSdsHeader v').val := by
  rw [Fin.le_iff_val_le_val] at h
  unfold valueSdsHeader
  split_ifs <;> simp_all [Fin.lt_def] <;> omega

theorem le_44_iff {v : U32} : v ≤ 44 ↔ v.val ≤ 44 := Fin.le_iff_val_le_val

/-- Up to `2 ^ 29` bytes, the sizes that `estimate` hands to `jemalloc_size`
    do not wrap. -/
theorem keyArg_val {k : U32} (hk : k.val ≤ 2 ^ 29) :
    (keySdsHeader k + k + 1).val = (keySdsHeader k).val + k.val + 1 := by
  have := keySdsHeader_le k
  simp only [Fin.val_add]
  simp
  omega

theorem rawArg_val {v : U32} (hv : v.val ≤ 2 ^ 29) :
    (valueSdsHeader v + v + 1).val = (valueSdsHeader v).val + v.val + 1 := by
  have := valueSdsHeader_le v
  simp only [Fin.val_add]
  simp
  omega

theorem embstrArg_val {v : U32} (hv : v ≤ 44) : (16 + 3 + v + 1 : U32).val = 16 + 3 + v.val + 1 := by
  rw [le_44_iff] at hv
  simp only [Fin.val_add]
  simp
  omega

/-- The sum of the allocations and the hash table's overhead, without wrap. -/
theorem val_sum {a b c d : U32} (h : a.val + b.val + c.val + d.val + 10 < 2 ^ 32) :
    (a + b + c + d + 10).val = a.val + b.val + c.val + d.val + 10 := by
  simp only [Fin.val_add]
  simp
  omega

/-- Up to `2 ^ 29` bytes of key and of value, `estimate` returns what
    `estimateNat` computes: no size wraps in `uint32_t`. -/
theorem estimate_eq {k v : U32} (hk : k.val ≤ 2 ^ 29) (hv : v.val ≤ 2 ^ 29) {fuel : ℕ}
    (hfuel : 31 ≤ fuel) : ∃ e : U32, estimate fuel k v = some e ∧ e.val = estimateNat k v := by
  have hkey := keyArg_val hk
  have hkh := keySdsHeader_le k
  obtain ⟨a, ha, hav⟩ := jemallocSize_eq (s := 24) (by decide) hfuel
  obtain ⟨b, hb, hbv⟩ := jemallocSize_eq (s := keySdsHeader k + k + 1) (by omega) hfuel
  have ha24 : a.val = 24 := by rw [hav]; decide
  replace hav : a.val = jemallocSizeNat 24 := hav
  have hb30 : b.val ≤ 2 ^ 30 := by
    rw [hbv]; exact jemallocSizeNat_le_two_pow (by norm_num) (by omega)
  unfold estimateNat
  rw [← hkey, ← hbv, ← hav]
  by_cases hv44 : v ≤ 44
  case pos =>
    -- EMBSTR: one allocation of at most 64 bytes
    have hobj := embstrArg_val hv44
    have hv44' := le_44_iff.mp hv44
    obtain ⟨c, hc, hcv⟩ := jemallocSize_eq (s := 16 + 3 + v + 1) (by omega) hfuel
    have hc64 : c.val ≤ 64 := by
      rw [hcv, hobj]
      exact (jemallocSizeNat_mono (show 16 + 3 + v.val + 1 ≤ 64 by omega)).trans (by decide)
    refine ⟨a + b + c + 0 + 10, ?_, ?_⟩
    · simp only [estimate, ha, hb, hc, if_pos hv44, Option.map_some, Option.bind_eq_bind,
        Option.bind_some, Option.pure_def]
    · rw [if_pos hv44, ← hobj, ← hcv, val_sum (by simp; omega)]
      simp
  case neg =>
    -- RAW: an object and an SDS string
    have hsds := rawArg_val hv
    have hvh := valueSdsHeader_le v
    obtain ⟨c, hc, hcv⟩ := jemallocSize_eq (s := 16) (by decide) hfuel
    obtain ⟨d, hd, hdv⟩ := jemallocSize_eq (s := valueSdsHeader v + v + 1) (by omega) hfuel
    have hc16 : c.val = 16 := by rw [hcv]; decide
    replace hcv : c.val = jemallocSizeNat 16 := hcv
    have hd30 : d.val ≤ 2 ^ 30 := by
      rw [hdv]; exact jemallocSizeNat_le_two_pow (by norm_num) (by omega)
    refine ⟨a + b + c + d + 10, ?_, ?_⟩
    · simp only [estimate, ha, hb, hc, hd, if_neg hv44, Option.bind_eq_bind, Option.bind_some,
        Option.pure_def]
    · rw [if_neg hv44, ← hsds, ← hdv, ← hcv, val_sum (by omega)]
      omega

/-- The estimate covers the key and the value. -/
theorem le_estimateNat (k v : U32) : k.val + v.val ≤ estimateNat k v := by
  have := le_jemallocSizeNat ((keySdsHeader k).val + k.val + 1)
  unfold estimateNat
  split_ifs
  · have := le_jemallocSizeNat (16 + 3 + v.val + 1); omega
  · have := le_jemallocSizeNat ((valueSdsHeader v).val + v.val + 1); omega

theorem estimateNat_mono_key {k k' : U32} (h : k ≤ k') (v : U32) : estimateNat k v ≤ estimateNat k' v := by
  have hk := Fin.le_iff_val_le_val.mp h
  have := jemallocSizeNat_mono
    (show (keySdsHeader k).val + k.val + 1 ≤ (keySdsHeader k').val + k'.val + 1 by
      have := keySdsHeader_mono h; omega)
  unfold estimateNat
  omega

/-- The cost grows with the value, also across the EMBSTR threshold: one
    allocation of at most 64 bytes against an object of 16 bytes and an SDS
    string of at least 49. -/
theorem estimateNat_mono_value (k : U32) {v v' : U32} (h : v ≤ v') :
    estimateNat k v ≤ estimateNat k v' := by
  have hv := Fin.le_iff_val_le_val.mp h
  unfold estimateNat
  by_cases h1 : v ≤ 44 <;> by_cases h2 : v' ≤ 44
  · rw [if_pos h1, if_pos h2]
    have := jemallocSizeNat_mono (show 16 + 3 + v.val + 1 ≤ 16 + 3 + v'.val + 1 by omega)
    omega
  · -- EMBSTR against RAW
    rw [if_pos h1, if_neg h2]
    rw [le_44_iff] at h1 h2
    have hembstr : jemallocSizeNat (16 + 3 + v.val + 1) ≤ 64 :=
      (jemallocSizeNat_mono (show 16 + 3 + v.val + 1 ≤ 64 by omega)).trans (by decide)
    have hobj : jemallocSizeNat 16 = 16 := by decide
    have := le_jemallocSizeNat ((valueSdsHeader v').val + v'.val + 1)
    have := three_le_valueSdsHeader v'
    omega
  · rw [le_44_iff] at h1 h2
    omega
  · rw [if_neg h1, if_neg h2]
    have := jemallocSizeNat_mono
      (show (valueSdsHeader v).val + v.val + 1 ≤ (valueSdsHeader v').val + v'.val + 1 by
        have := valueSdsHeader_mono h; omega)
    omega

-- ---------------------------------------------------------------------------
-- The memory-cost model
-- ---------------------------------------------------------------------------

/-- The memory-cost model over-approximates and is monotone. Below `2 ^ 31`,
    `jemalloc_size` returns the least size class at or above its argument, so
    it is monotone, and it is idempotent where its result stays below `2 ^ 31`.
    Up to `2 ^ 29` bytes of key and of value, `estimate` returns the sum of its
    allocations without wrapping, which covers the key and the value and grows
    with both. -/
theorem memEstimate_sound :
    (∀ s : U32, s.val < 2 ^ 31 → ∀ fuel, 31 ≤ fuel → ∃ v : U32, jemallocSize fuel s = some v ∧
      IsSizeClass v.val ∧ s.val ≤ v.val ∧ ∀ w, IsSizeClass w → s.val ≤ w → v.val ≤ w) ∧
    (∀ s s' : U32, s ≤ s' → s'.val < 2 ^ 31 → ∀ fuel, 31 ≤ fuel → ∃ v v' : U32,
      jemallocSize fuel s = some v ∧ jemallocSize fuel s' = some v' ∧ v ≤ v') ∧
    (∀ s : U32, s.val < 2 ^ 31 → ∀ fuel, 31 ≤ fuel → ∃ v : U32, jemallocSize fuel s = some v ∧
      (v.val < 2 ^ 31 → jemallocSize fuel v = some v)) ∧
    (∀ k v : U32, k.val ≤ 2 ^ 29 → v.val ≤ 2 ^ 29 → ∀ fuel, 31 ≤ fuel → ∃ e : U32,
      estimate fuel k v = some e ∧ e.val = estimateNat k v ∧ k.val + v.val ≤ e.val) ∧
    (∀ k k' v v' : U32, k ≤ k' → v ≤ v' → k'.val ≤ 2 ^ 29 → v'.val ≤ 2 ^ 29 → ∀ fuel, 31 ≤ fuel →
      ∃ e e' : U32, estimate fuel k v = some e ∧ estimate fuel k' v' = some e' ∧ e ≤ e') := by
  refine ⟨?least, ?mono, ?idem, ?cover, ?estimateMono⟩
  case least =>
    intro s hs fuel hfuel
    obtain ⟨v, hv, hvv⟩ := jemallocSize_eq hs hfuel
    exact ⟨v, hv, hvv ▸ jemallocSizeNat_least s.val⟩
  case mono =>
    intro s s' h hs' fuel hfuel
    have hle := Fin.le_iff_val_le_val.mp h
    obtain ⟨v, hv, hvv⟩ := jemallocSize_eq (hle.trans_lt hs') hfuel
    obtain ⟨v', hv', hvv'⟩ := jemallocSize_eq hs' hfuel
    refine ⟨v, v', hv, hv', ?_⟩
    rw [Fin.le_iff_val_le_val, hvv, hvv']
    exact jemallocSizeNat_mono hle
  case idem =>
    -- a size class is rounded to itself, when `jemalloc_size` returns on it
    intro s hs fuel hfuel
    obtain ⟨v, hv, hvv⟩ := jemallocSize_eq hs hfuel
    refine ⟨v, hv, fun hv31 => ?_⟩
    obtain ⟨w, hw, hwv⟩ := jemallocSize_eq hv31 hfuel
    rw [hw, Option.some.injEq, Fin.ext_iff, hwv, hvv, jemallocSizeNat_idem]
  case cover =>
    intro k v hk hv fuel hfuel
    obtain ⟨e, he, hev⟩ := estimate_eq hk hv hfuel
    exact ⟨e, he, hev, hev ▸ le_estimateNat k v⟩
  case estimateMono =>
    intro k k' v v' hkk hvv hk' hv' fuel hfuel
    obtain ⟨e, he, hev⟩ :=
      estimate_eq ((Fin.le_iff_val_le_val.mp hkk).trans hk') ((Fin.le_iff_val_le_val.mp hvv).trans hv') hfuel
    obtain ⟨e', he', hev'⟩ := estimate_eq hk' hv' hfuel
    refine ⟨e, e', he, he', ?_⟩
    rw [Fin.le_iff_val_le_val, hev, hev']
    calc estimateNat k v ≤ estimateNat k' v := estimateNat_mono_key hkk v
      _ ≤ estimateNat k' v' := estimateNat_mono_value k' hvv

/-- `jemalloc_size` is not idempotent below `2 ^ 31`: it rounds `2 ^ 31 - 1`
    up to `2 ^ 31`, on which it does not return. -/
theorem jemallocSize_not_idempotent :
    jemallocSize 31 2147483647 = some 2147483648 ∧ ∀ fuel, jemallocSize fuel 2147483648 = none := by
  refine ⟨by decide, fun fuel => ?_⟩
  have hs : (2147483648 : U32) ≠ 0 := by decide
  have hnone : tableLookup (2147483648 : U32).val sizeClassTable = none :=
    tableLookup_eq_none rowsOk_sizeClassTable (by decide)
  simp only [jemallocSize, if_neg hs, hnone, prevPowerOfTwo_eq_none (show 2 ^ 31 ≤ (2147483648 : U32).val by decide),
    Option.map_none]

end Hopper.Ghost.MemEstimate
