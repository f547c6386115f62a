-- SUMMARY: HOPPER.STATS on the Redis side: the checks of collect_mem_stats, and reply_ghost_stats, which calibrates bytes_startup and bytes_per_key and turns the ghost cache's curve into ticks, hit counts and miss counts; the ticks it replies are sorted and start at bytes_startup.
import HopperKV.Lib.Scalar

/-!
# `HOPPER.STATS`: the ghost cache's curve

The ghost cache (the gcache library, outside this repository) simulates LRU
caches of every size and reports a curve: for growing numbers of the most
recently used keys, their bytes and the hits and misses that a cache of them
would have had. `reply_ghost_stats` turns that curve into three arrays:

* `ghost.ticks`: `bytes_startup`, then for each entry its bytes scaled by a
  memory amplification factor, plus `bytes_startup`;
* `ghost.hit_cnt`: `0`, then the hits of each entry;
* `ghost.miss_cnt`: the accesses counted by the first entry, then the misses
  of each entry.

The first point is a cache of no key, which misses every access.
`bytes_startup` and the bytes per key are calibrated from the memory
statistics of Redis, with a fixed overhead and a fallback to
`avg_kv_size + max_per_key_overhead` when the memory per key looks abnormal.

Every conversion of a `double` to an integer is modelled with its undefined
cases (`Ieee.toLongLong`, `Ieee.toU64`), so `replyGhostStats` is partial.
`replyGhostStats_ticks` says what the ticks are whenever the reply is defined.
The ticks start at `bytes_startup` and never decrease, because the bytes per
key, and with them the amplification factor, are never negative.
-/

namespace Hopper

open Ieee

variable {F : Type} [Field F] [LinearOrder F]

/-- `stats::MemStats`. `avg_kv_size` is the running average of the sizes of
    keys and values that `stats.cpp` keeps. -/
structure MemStats (F : Type) where
  totalAllocated : ℤ
  keysCount : ℤ
  startupAllocated : ℤ
  clientsNormal : ℤ
  functionsCaches : ℤ
  avgKvSize : Ieee F

/-- One of the checks that end `collect_mem_stats`. A field that `MEMORY
    STATS` did not report keeps its initial value `-1`. -/
def checkField (name : String) (v : ℤ) : Except String Unit :=
  if v < 0 then .error ("ERR Fail to fetch <" ++ name ++ ">") else .ok ()

/-- The checks of `collect_mem_stats` on the fields read from `MEMORY STATS`. -/
def collectMemStats (ms : MemStats F) : Except String (MemStats F) := do
  checkField "total.allocated" ms.totalAllocated
  checkField "keys.count" ms.keysCount
  checkField "startup.allocated" ms.startupAllocated
  checkField "clients.normal" ms.clientsNormal
  checkField "functions.caches" ms.functionsCaches
  pure ms

/-- The memory statistics that pass `collect_mem_stats`. -/
structure MemStats.Valid (ms : MemStats F) : Prop where
  totalAllocated : 0 ≤ ms.totalAllocated
  keysCount : 0 ≤ ms.keysCount
  startupAllocated : 0 ≤ ms.startupAllocated
  clientsNormal : 0 ≤ ms.clientsNormal
  functionsCaches : 0 ≤ ms.functionsCaches

theorem checkField_eq_ok {name : String} {v : ℤ} (h : checkField name v = .ok ()) : 0 ≤ v := by
  unfold checkField at h
  split at h
  · cases h
  · omega

omit [Field F] [LinearOrder F] in
theorem collectMemStats_eq_ok {ms ms' : MemStats F} (h : collectMemStats ms = .ok ms') :
    ms' = ms ∧ ms.Valid := by
  simp only [collectMemStats, bind, Except.bind] at h
  split at h
  · cases h
  · rename_i h₁
    split at h
    · cases h
    · rename_i h₂
      split at h
      · cases h
      · rename_i h₃
        split at h
        · cases h
        · rename_i h₄
          split at h
          · cases h
          · rename_i h₅
            cases h
            exact ⟨rfl, checkField_eq_ok h₁, checkField_eq_ok h₂, checkField_eq_ok h₃,
              checkField_eq_ok h₄, checkField_eq_ok h₅⟩

/-- An entry of the ghost cache's curve: a cache of the `count` most recently
    used keys, `size` bytes of keys and values, would have had `hitCnt` hits
    and `missCnt` misses. -/
structure CurveEntry where
  count : ℕ
  size : ℕ
  hitCnt : U64
  missCnt : U64
  deriving DecidableEq, Repr, Inhabited

namespace Ghost

/-! ## Calibration -/

/-- `heuristic::calib_fixed`. -/
def calibFixed : Bool := true
/-- `heuristic::calib_abnormal`. -/
def calibAbnormal : Bool := true
/-- `heuristic::calib_small_cache`. -/
def calibSmallCache : Bool := false
/-- `heuristic::min_total_allocated`. -/
def minTotalAllocated : ℤ := 20 * 1024 * 1024
/-- `heuristic::max_per_key_overhead`. -/
def maxPerKeyOverhead : ℕ := 300
/-- `heuristic::mem_fixed_overhead`. -/
def memFixedOverhead : U64 := 1 * 1024 * 1024
/-- `heuristic::small_cache_threshold`. -/
def smallCacheThreshold : U64 := 4 * 1024 * 1024
/-- `heuristic::small_cache_overhead`. -/
def smallCacheOverhead : U64 := 2 * 1024 * 1024

/-- `bytes_startup` after the small-cache or fixed overhead is added. The sum
    of the three sizes is a `long long` converted to `uint64_t`, and every
    comparison with `total_allocated` is between `uint64_t` values. -/
def startupBytes (ms : MemStats F) : U64 :=
  let bytesStartup := U64.ofInt (ms.startupAllocated + ms.clientsNormal + ms.functionsCaches)
  let total := U64.ofInt ms.totalAllocated
  if calibSmallCache && decide ((total - bytesStartup).val < smallCacheThreshold.val) then
    if (bytesStartup + smallCacheOverhead).val < total.val then bytesStartup + smallCacheOverhead
    else bytesStartup
  else if calibFixed then
    if (bytesStartup + memFixedOverhead).val < total.val then bytesStartup + memFixedOverhead
    else bytesStartup
  else bytesStartup

/-- `bytes_startup` and `bytes_per_key` after the abnormal-case fallback;
    `none` where the fallback's `bytes_startup` is out of the range of
    `uint64_t`. -/
def calibrate [FloorRing F] (ms : MemStats F) : Option (U64 × Ieee F) :=
  let bytesStartup := startupBytes ms
  let bytesPerKey : Ieee F :=
    ofNat (U64.ofInt ms.totalAllocated - bytesStartup).val / fin (ms.keysCount : F)
  if calibAbnormal && (decide (ms.totalAllocated < minTotalAllocated) &&
      decide (ms.avgKvSize + ofNat maxPerKeyOverhead < bytesPerKey)) then
    let bytesPerKey := ms.avgKvSize + ofNat maxPerKeyOverhead
    (toU64 (fin (ms.totalAllocated : F) - bytesPerKey * fin (ms.keysCount : F))).map
      fun bytesStartup => (bytesStartup, bytesPerKey)
  else some (bytesStartup, bytesPerKey)

/-- The loop that sets `mem_amplify` from each entry with no more keys than
    Redis holds, up to the first entry with more. -/
def amplifyLoop (bytesPerKey : Ieee F) (keysCount : ℤ) : Ieee F → List CurveEntry → Ieee F
  | memAmplify, [] => memAmplify
  | memAmplify, e :: es =>
    if keysCount < e.count then memAmplify
    else amplifyLoop bytesPerKey keysCount (bytesPerKey / (ofNat e.size / ofNat e.count)) es

/-! ## The reply -/

/-- The tick of an entry, as `ReplyWithLongLong` converts it. -/
def entryTick [FloorRing F] (bytesStartup : U64) (memAmplify : Ieee F) (e : CurveEntry) :
    Option ℤ :=
  let dataMem := ofNat e.size * memAmplify
  let mem := dataMem + ofNat bytesStartup.val
  let mem :=
    if calibSmallCache && decide (dataMem < ofNat smallCacheThreshold.val) then
      if calibFixed then mem + ofNat smallCacheOverhead.val - ofNat memFixedOverhead.val
      else mem + ofNat smallCacheOverhead.val
    else mem
  toLongLong mem

/-- The entries `ghost.ticks`, `ghost.hit_cnt` and `ghost.miss_cnt`: three
    nulls, or three arrays. -/
inductive GhostReply where
  | null
  | lists (ticks hitCnt missCnt : List ℤ)
  deriving DecidableEq, Repr

/-- `ghost::reply_ghost_stats`, given the curve that `get_cache_stat_curve`
    returns; `none` where a conversion of a `double` is undefined. -/
def replyGhostStats [FloorRing F] (ms : MemStats F) (curve : List CurveEntry) :
    Option GhostReply :=
  if ms.keysCount = 0 then some .null
  else
    match curve with
    | [] => some .null
    | first :: _ => do
      let (bytesStartup, bytesPerKey) ← calibrate ms
      let accCnt := first.hitCnt + first.missCnt
      let memAmplify := amplifyLoop bytesPerKey ms.keysCount
        (bytesPerKey / (ofNat first.size / ofNat first.count)) curve
      let ticks ← curve.mapM (entryTick bytesStartup memAmplify)
      pure (.lists (bytesStartup.toLongLong :: ticks)
        (0 :: curve.map fun e => e.hitCnt.toLongLong)
        (accCnt.toLongLong :: curve.map fun e => e.missCnt.toLongLong))

end Ghost

/-- The counters of `stats::resrc_stats` that `HOPPER.STATS` reports, in the
    order of the reply, each as the `long long` it is replied as. -/
structure ResrcCounters where
  reqCnt : ℤ
  hitCnt : ℤ
  missCnt : ℤ
  dbRcuConsumpIfMiss : ℤ
  netBwConsumpIfMiss : ℤ
  netBwConsumpIfHit : ℤ
  dbRcuConsump : ℤ
  dbWcuConsump : ℤ
  netBwConsump : ℤ
  deriving DecidableEq, Repr

/-- The reply of `HOPPER.STATS` as the controller reads it. -/
structure StatsReply where
  ghost : Ghost.GhostReply
  counters : ResrcCounters
  deriving DecidableEq, Repr

/-- `RedisModule_HopperStats`: an error reply when a memory statistic is
    missing; `none` where `reply_ghost_stats` is undefined. -/
def hopperStats [FloorRing F] (ms : MemStats F) (curve : List CurveEntry)
    (counters : ResrcCounters) : Option (Except String StatsReply) :=
  match collectMemStats ms with
  | .error e => some (.error e)
  | .ok ms => (Ghost.replyGhostStats ms curve).map fun g => .ok ⟨g, counters⟩

/-! ## What the reply holds -/

namespace Ghost

/-- A successful `mapM` is a `map` by a function that `f` agrees with. -/
theorem mapM_eq_map {α β : Type*} {f : α → Option β} {g : α → β}
    (hfg : ∀ a b, f a = some b → b = g a) :
    ∀ {l : List α} {r : List β}, l.mapM f = some r → r = l.map g
  | [], r, h => by
    simp only [List.mapM_nil, pure, Option.some.injEq] at h
    rw [← h, List.map_nil]
  | a :: l, r, h => by
    rw [List.mapM_cons] at h
    cases hfa : f a with
    | none => rw [hfa] at h; cases h
    | some b =>
      cases hl : l.mapM f with
      | none => rw [hfa, hl] at h; cases h
      | some bs =>
        rw [hfa, hl] at h
        simp only [bind, pure, Option.bind_some, Option.some.injEq] at h
        rw [← h, List.map_cons, hfg a b hfa, mapM_eq_map hfg hl]

/-- Each result of a successful `mapM` is `f` of an element. -/
theorem mapM_some_mem {α β : Type*} {f : α → Option β} :
    ∀ {l : List α} {r : List β}, l.mapM f = some r → ∀ b ∈ r, ∃ a ∈ l, f a = some b
  | [], r, h, b, hb => by
    simp only [List.mapM_nil, pure, Option.some.injEq] at h
    rw [← h] at hb
    cases hb
  | a :: l, r, h, b, hb => by
    rw [List.mapM_cons] at h
    cases hfa : f a with
    | none => rw [hfa] at h; cases h
    | some b' =>
      cases hl : l.mapM f with
      | none => rw [hfa, hl] at h; cases h
      | some bs =>
        rw [hfa, hl] at h
        simp only [bind, pure, Option.bind_some, Option.some.injEq] at h
        rw [← h, List.mem_cons] at hb
        rcases hb with rfl | hb
        · exact ⟨a, List.mem_cons_self, hfa⟩
        · obtain ⟨a', ha', hfa'⟩ := mapM_some_mem hl b hb
          exact ⟨a', List.mem_cons_of_mem _ ha', hfa'⟩

variable [IsStrictOrderedRing F]

/-- `double(size) / count` is positive for an entry of positive count and size. -/
theorem entry_bytes_pos {e : CurveEntry} (hc : 0 < e.count) (hs : 0 < e.size) :
    (0 : F) < (e.size : F) / (e.count : F) := by
  have : (0 : F) < e.count := by exact_mod_cast hc
  have : (0 : F) < e.size := by exact_mod_cast hs
  positivity

/-- The amplification factor stays finite and non-negative along the loop. -/
theorem amplifyLoop_nonneg {b : F} (hb : 0 ≤ b) (keysCount : ℤ) :
    ∀ {a : F} {es : List CurveEntry}, 0 ≤ a → (∀ e ∈ es, 0 < e.count ∧ 0 < e.size) →
      ∃ a', amplifyLoop (fin b) keysCount (fin a) es = fin a' ∧ 0 ≤ a'
  | a, [], ha, _ => ⟨a, rfl, ha⟩
  | a, e :: es, ha, hes => by
    have he := hes e (by simp)
    have hpos := entry_bytes_pos (F := F) he.1 he.2
    simp only [amplifyLoop]
    split
    · exact ⟨a, rfl, ha⟩
    · have hc : (e.count : F) ≠ 0 := (Nat.cast_pos.mpr he.1).ne'
      rw [ofNat_eq, ofNat_eq, fin_div_fin hc, fin_div_fin hpos.ne']
      exact amplifyLoop_nonneg hb keysCount (by positivity)
        (fun e' he' => hes e' (List.mem_cons_of_mem _ he'))

variable [FloorRing F]

/-- The bytes per key are finite and not negative when `avg_kv_size` is not
    negative, since `total_allocated - bytes_startup` is a `uint64_t`. -/
theorem calibrate_bytesPerKey {ms : MemStats F} {bs : U64} {bpk : Ieee F}
    (h : calibrate ms = some (bs, bpk)) (hkeys : 0 < ms.keysCount)
    {avg : F} (havg : ms.avgKvSize = fin avg) (havg₀ : 0 ≤ avg) :
    ∃ b, bpk = fin b ∧ 0 ≤ b := by
  have hk : ((ms.keysCount : ℤ) : F) ≠ 0 := by exact_mod_cast hkeys.ne'
  simp only [calibrate] at h
  split at h
  · -- the abnormal case: `avg_kv_size + max_per_key_overhead`
    obtain ⟨_, -, he⟩ := Option.map_eq_some_iff.mp h
    cases he
    refine ⟨avg + (maxPerKeyOverhead : F), by rw [havg, ofNat_eq, fin_add_fin], ?_⟩
    positivity
  · cases h
    refine ⟨((U64.ofInt ms.totalAllocated - startupBytes ms).val : F) / (ms.keysCount : F),
      by rw [ofNat_eq, fin_div_fin hk], ?_⟩
    have : (0 : F) < (ms.keysCount : F) := by exact_mod_cast hkeys
    positivity

omit [IsStrictOrderedRing F] in
/-- The tick of an entry is the truncation of its scaled bytes plus
    `bytes_startup`, since the small-cache branch is compiled out. -/
theorem entryTick_eq {bs : U64} {a : F} {e : CurveEntry} {n : ℤ}
    (h : entryTick bs (fin a) e = some n) :
    n = truncate ((e.size : F) * a + (bs.val : F)) ∧ n < 2 ^ 63 := by
  simp only [entryTick, calibSmallCache, Bool.false_and, Bool.false_eq_true, if_false, ofNat_eq,
    fin_mul_fin, fin_add_fin, toLongLong] at h
  obtain ⟨x, hx, hn, -, hhi⟩ := toInt_eq_some h
  cases hx
  exact ⟨hn, hhi⟩

/-- What a defined reply of arrays holds, for valid statistics whose
    `avg_kv_size` is not negative and a curve of positive counts and sizes:
    the ticks are `bytes_startup` and the truncated scaled sizes for one
    non-negative amplification factor, each below `2 ^ 63`. -/
theorem replyGhostStats_eq_lists {ms : MemStats F} {curve : List CurveEntry}
    {ts hs mss : List ℤ} (h : replyGhostStats ms curve = some (.lists ts hs mss))
    (hv : ms.Valid) {avg : F} (havg : ms.avgKvSize = fin avg) (havg₀ : 0 ≤ avg)
    (hpos : ∀ e ∈ curve, 0 < e.count ∧ 0 < e.size) :
    ∃ first rest, curve = first :: rest ∧ ∃ (bs : U64) (a : F),
      (calibrate ms).map Prod.fst = some bs ∧ 0 ≤ a ∧
      ts = bs.toLongLong :: curve.map (fun e => truncate ((e.size : F) * a + (bs.val : F))) ∧
      (∀ e ∈ curve, truncate ((e.size : F) * a + (bs.val : F)) < 2 ^ 63) ∧
      hs = 0 :: curve.map (fun e => e.hitCnt.toLongLong) ∧
      mss = (first.hitCnt + first.missCnt).toLongLong :: curve.map (fun e => e.missCnt.toLongLong) := by
  have hk : ms.keysCount ≠ 0 := by
    intro hk
    simp [replyGhostStats, hk] at h
  have hkeys : 0 < ms.keysCount := lt_of_le_of_ne hv.keysCount (Ne.symm hk)
  cases curve with
  | nil => simp [replyGhostStats] at h
  | cons first rest =>
    simp only [replyGhostStats, if_neg hk] at h
    obtain ⟨⟨bs, bpk⟩, hcal, h⟩ := Option.bind_eq_some_iff.mp h
    obtain ⟨b, rfl, hb⟩ := calibrate_bytesPerKey hcal hkeys havg havg₀
    have hfirst₀ := hpos first List.mem_cons_self
    have hfirst := entry_bytes_pos (F := F) hfirst₀.1 hfirst₀.2
    obtain ⟨a, ha, ha₀⟩ := amplifyLoop_nonneg hb ms.keysCount
      (a := b / ((first.size : F) / (first.count : F))) (by positivity) hpos
    rw [ofNat_eq, ofNat_eq, fin_div_fin (Nat.cast_pos.mpr hfirst₀.1).ne', fin_div_fin hfirst.ne',
      ha] at h
    obtain ⟨ticks, hticks, h⟩ := Option.bind_eq_some_iff.mp h
    simp only [pure, Option.some.injEq, GhostReply.lists.injEq] at h
    obtain ⟨rfl, rfl, rfl⟩ := h
    have hmap := mapM_eq_map (fun e n hn => (entryTick_eq hn).1) hticks
    refine ⟨first, rest, rfl, bs, a, by rw [hcal]; rfl, ha₀, by rw [hmap], ?_, rfl, rfl⟩
    intro e he
    have hmem : truncate ((e.size : F) * a + (bs.val : F)) ∈ ticks := by
      rw [hmap]
      exact List.mem_map_of_mem he
    obtain ⟨e', -, he'⟩ := mapM_some_mem hticks _ hmem
    exact (entryTick_eq he').2

/-- A scaled size plus `bytes_startup` truncates to at least `bytes_startup`. -/
theorem le_truncate_tick (bs : U64) {a : F} (ha : 0 ≤ a) (e : CurveEntry) :
    (bs.val : ℤ) ≤ truncate ((e.size : F) * a + (bs.val : F)) := by
  apply le_truncate (Int.natCast_nonneg _)
  have : (0 : F) ≤ (e.size : F) * a := by positivity
  push_cast
  linarith

/-- The ticks of a defined reply start at the calibrated `bytes_startup`,
    are below `2 ^ 63`, and never decrease when the sizes of the curve do
    not. -/
theorem replyGhostStats_ticks {ms : MemStats F} {curve : List CurveEntry}
    {ts hs mss : List ℤ} (h : replyGhostStats ms curve = some (.lists ts hs mss))
    (hv : ms.Valid) {avg : F} (havg : ms.avgKvSize = fin avg) (havg₀ : 0 ≤ avg)
    (hpos : ∀ e ∈ curve, 0 < e.count ∧ 0 < e.size)
    (hsorted : curve.Pairwise fun e e' => e.size ≤ e'.size) :
    ∃ bs : U64, (calibrate ms).map Prod.fst = some bs ∧ ts.head? = some (bs.val : ℤ) ∧
      ts.length = curve.length + 1 ∧ ts.Pairwise (· ≤ ·) ∧ ∀ t ∈ ts, t < 2 ^ 63 := by
  obtain ⟨first, rest, rfl, bs, a, hbs, ha, rfl, hlt, -, -⟩ :=
    replyGhostStats_eq_lists h hv havg havg₀ hpos
  have hbs' : (bs.val : ℤ) < 2 ^ 63 :=
    lt_of_le_of_lt (le_truncate_tick bs ha first) (hlt first List.mem_cons_self)
  have hll : bs.toLongLong = bs.val := U64.toLongLong_of_lt (by exact_mod_cast hbs')
  refine ⟨bs, hbs, by rw [hll]; rfl, by simp, ?_, ?_⟩
  rotate_left
  · intro t ht
    rcases List.mem_cons.mp ht with rfl | ht
    · rw [hll]
      exact hbs'
    · obtain ⟨e, he, rfl⟩ := List.mem_map.mp ht
      exact hlt e he
  rw [hll]
  refine List.Pairwise.cons ?_ ?_
  · intro t ht
    obtain ⟨e, -, rfl⟩ := List.mem_map.mp ht
    exact le_truncate_tick bs ha e
  · rw [List.pairwise_map]
    refine hsorted.imp fun {e e'} hee' => truncate_mono (by positivity) ?_
    have : (e.size : F) ≤ e'.size := by exact_mod_cast hee'
    have := mul_le_mul_of_nonneg_right this ha
    linarith

end Ghost

end Hopper
