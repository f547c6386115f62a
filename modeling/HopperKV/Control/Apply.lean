-- SUMMARY: How the controller applies an allocation (controller.py, tenant.py, resrc.py): direct_apply, boost_apply and gradual_apply over the tenants' queues of pending allocations, with the engine's minimum enforced; gradual_apply's schedule moves each cache by at most max_cache_reloc_each a round, monotonically, to the enforced result, and over every sequence of epochs no apply raises, none leaves an allocation pending, and each leaves every tenant at its result or, at a deadline of gradual_apply, all tenants at one round of their schedules.
import HopperKV.Control.Estimate
import HopperKV.Lib.Fallible
import HopperKV.Lib.Transition
import Mathlib.Algebra.Order.Group.MinMax
import Mathlib.Data.List.Range
import Mathlib.Data.Rat.Floor
import Mathlib.Tactic.FieldSimp

/-!
# Applying an allocation

After the allocator has run, `post_alloc_apply` applies its results in one of
three ways. `direct_apply` applies each at once. `boost_apply` applies a result
that grows the cache with `db_rcu` and `net_bw` raised to the base
allocation's, and the result itself once the cache is warm or at the deadline.
`gradual_apply` splits each change into `num_rounds` allocations whose caches
move by at most `max_cache_reloc_each` (16 MiB), and applies each next one once
every cache is warm; at the deadline it clears the queues.

A tenant is modelled by the fields that applying reads and writes
(`TenantAlloc`). Python floats are values of `F` computed without rounding.
What a wait observes, the clock against the deadline and which caches are
warm, is an input (`Turn`, `Wait`). The `HOPPER.RESRC.SET` that `apply_resrc`
sends is `Hopper.Resrc`'s.

The results: `gradual_schedule` (each round moves a cache by at most
`max_cache_reloc_each` and toward the result, where the last one is) and
`gradual_schedule_from_current` (the first move from the unenforced current
allocation too, while the minimum cache is at most that bound);
`applies_safe` (from nothing pending, no sequence of epochs raises); and
`postAllocApply_outcome` (what each apply leaves).
-/

namespace Controller

open Ieee

set_option linter.unusedSectionVars false

variable {F : Type} [Field F] [LinearOrder F]

/-- `ValueError` of `max` over an empty sequence. -/
def maxEmptyError : String := "ValueError: max() arg is an empty sequence"

/-! ## Resource tuples -/

namespace ResrcTuple

/-- `ResrcTuple.__add__`. -/
instance : Add (ResrcTuple F) :=
  ⟨fun a b => ⟨a.cacheSize + b.cacheSize, a.dbRcu + b.dbRcu, a.dbWcu + b.dbWcu, a.netBw + b.netBw⟩⟩

/-- `ResrcTuple.__sub__`. -/
instance : Sub (ResrcTuple F) :=
  ⟨fun a b => ⟨a.cacheSize - b.cacheSize, a.dbRcu - b.dbRcu, a.dbWcu - b.dbWcu, a.netBw - b.netBw⟩⟩

/-- `ResrcTuple.__mul__`, whose `int(...)` truncates the cache size toward
    zero. -/
def mul [FloorRing F] (r : ResrcTuple F) (factor : F) : ResrcTuple F :=
  ⟨truncate (r.cacheSize * factor), r.dbRcu * factor, r.dbWcu * factor, r.netBw * factor⟩

@[simp] theorem add_cacheSize (a b : ResrcTuple F) : (a + b).cacheSize = a.cacheSize + b.cacheSize :=
  rfl

@[simp] theorem sub_cacheSize (a b : ResrcTuple F) : (a - b).cacheSize = a.cacheSize - b.cacheSize :=
  rfl

@[simp] theorem mul_cacheSize [FloorRing F] (r : ResrcTuple F) (factor : F) :
    (r.mul factor).cacheSize = truncate (r.cacheSize * factor) := rfl

end ResrcTuple

/-- The least allocation of a tenant, which `_enforce_min_resrc` reads with
    `get_min_cache_size()`, `get_min_db_rcu()`, `get_min_db_wcu()` and
    `get_min_net_bw()` from the engine's `alloc::min_*`. -/
structure MinResrc (F : Type) where
  cacheSize : U64
  dbRcu : F
  dbWcu : F
  netBw : F

/-- `_enforce_min_resrc`: each field below its minimum is raised to it. -/
def enforceMinResrc (m : MinResrc F) (r : ResrcTuple F) : ResrcTuple F :=
  ⟨max r.cacheSize m.cacheSize.val, max r.dbRcu m.dbRcu, max r.dbWcu m.dbWcu, max r.netBw m.netBw⟩

@[simp] theorem enforceMinResrc_cacheSize (m : MinResrc F) (r : ResrcTuple F) :
    (enforceMinResrc m r).cacheSize = max r.cacheSize m.cacheSize.val := rfl

/-! ## A tenant's allocations -/

/-- The fields of `Tenant` that applying an allocation reads or writes. -/
structure TenantAlloc (F : Type) where
  baseResrc : ResrcTuple F
  currAllocResrc : ResrcTuple F
  pendingResrcQueue : List (ResrcTuple F)

namespace TenantAlloc

/-- `apply_resrc`. -/
def applyResrc (resrc : ResrcTuple F) (t : TenantAlloc F) : TenantAlloc F :=
  { t with currAllocResrc := resrc }

/-- `add_pending_resrc(resrc, check_enforce)`. -/
def addPendingResrc (m : MinResrc F) (resrc : ResrcTuple F) (checkEnforce : Bool)
    (t : TenantAlloc F) : TenantAlloc F :=
  { t with pendingResrcQueue :=
      t.pendingResrcQueue ++ [if checkEnforce then enforceMinResrc m resrc else resrc] }

/-- `apply_next_pending_resrc`, which asserts that an allocation is
    pending. -/
def applyNextPendingResrc (t : TenantAlloc F) : Except String (TenantAlloc F) :=
  match t.pendingResrcQueue with
  | [] => .error assertionError
  | r :: rs => .ok ({ t with pendingResrcQueue := rs }.applyResrc r)

/-- `apply_last_pending_resrc`: the last pending allocation, and the queue
    cleared. -/
def applyLastPendingResrc (t : TenantAlloc F) : Except String (TenantAlloc F) :=
  match t.pendingResrcQueue.getLast? with
  | none => .error assertionError
  | some r => .ok ({ t with pendingResrcQueue := [] }.applyResrc r)

/-- `clear_pending_resrc`. -/
def clearPendingResrc (t : TenantAlloc F) : TenantAlloc F :=
  { t with pendingResrcQueue := [] }

/-- `try_apply_resrc_with_boost(resrc)`: whether it applied the allocation at
    once. An allocation that grows the cache is kept pending and applied
    with `db_rcu` and `net_bw` raised to the base allocation's. -/
def tryApplyResrcWithBoost (m : MinResrc F) (resrc : ResrcTuple F) (t : TenantAlloc F) :
    Except String (Bool × TenantAlloc F) :=
  if !t.pendingResrcQueue.isEmpty then .error assertionError
  else
    let resrc := enforceMinResrc m resrc
    if resrc.cacheSize ≤ t.currAllocResrc.cacheSize then .ok (true, t.applyResrc resrc)
    else
      let t := t.addPendingResrc m resrc false
      .ok (false, t.applyResrc
        ⟨resrc.cacheSize, max resrc.dbRcu t.baseResrc.dbRcu, resrc.dbWcu,
          max resrc.netBw t.baseResrc.netBw⟩)

end TenantAlloc

open TenantAlloc

/-! ## The three ways to apply -/

/-- `direct_apply`. -/
def directApply : List (TenantAlloc F) → List (ResrcTuple F) → List (TenantAlloc F)
  | t :: ts, r :: rs => t.applyResrc r :: directApply ts rs
  | ts, _ => ts

/-- What the controller observes at one turn of a wait: whether the deadline
    has come (`now_ts + poll_freq > ddl_ts`), and which tenants, by
    position, have warm caches after the sleep (`is_cache_warm()`). -/
structure Turn where
  deadline : Bool
  warm : ℕ → Bool

/-- A method called on the tenant at position `i`. -/
def callAt (f : TenantAlloc F → Except String (TenantAlloc F)) :
    ℕ → List (TenantAlloc F) → Except String (List (TenantAlloc F))
  | 0, t :: ts => (f t).map (· :: ts)
  | i + 1, t :: ts => (callAt f i ts).map (t :: ·)
  | _, [] => .ok []

/-- The first loop of `boost_apply`: each tenant tries its allocation, and
    the positions (from `i`) of those that keep it pending are listed. -/
def boostStart (m : MinResrc F) (i : ℕ) :
    List (TenantAlloc F) → List (ResrcTuple F) → Except String (List (TenantAlloc F) × List ℕ)
  | t :: ts, r :: rs => do
    let (applied, t) ← t.tryApplyResrcWithBoost m r
    let (ts, pending) ← boostStart m (i + 1) ts rs
    return (t :: ts, if applied then pending else i :: pending)
  | ts, _ => .ok (ts, [])

/-- The `while pending_tenants` loop of `boost_apply`. At the deadline the
    pending tenants take their last pending allocation; otherwise those whose
    caches are warm take their next one, and the others stay pending. -/
def boostWait : List Turn → List ℕ → List (TenantAlloc F) → Option (Except String (List (TenantAlloc F)))
  | _, [], ts => some (.ok ts)
  | [], _ :: _, _ => none
  | p :: ps, i :: pending, ts =>
    if p.deadline then some ((i :: pending).foldlM (fun ts j => callAt applyLastPendingResrc j ts) ts)
    else
      match (i :: pending).foldlM
          (fun ts j => if p.warm j then callAt applyNextPendingResrc j ts else .ok ts) ts with
      | .error e => some (.error e)
      | .ok ts => boostWait ps ((i :: pending).filter fun j => !p.warm j) ts

/-- `boost_apply`. -/
def boostApply (m : MinResrc F) (ts : List (TenantAlloc F)) (results : List (ResrcTuple F))
    (polls : List Turn) : Option (Except String (List (TenantAlloc F))) :=
  match boostStart m 0 ts results with
  | .error e => some (.error e)
  | .ok (ts, pending) => boostWait polls pending ts

/-- The default `max_cache_reloc_each`, 16 MiB, which `post_alloc_apply`
    does not override. -/
def maxCacheRelocEach : ℤ := 16 * 1024 * 1024

/-- `max(abs(resrc.cache_size - t.curr_alloc_resrc.cache_size) for t, resrc in
    zip(tenants, alloc_results))`. -/
def maxCacheDelta (ts : List (TenantAlloc F)) (results : List (ResrcTuple F)) : Except String ℕ :=
  match ((ts.zip results).map fun p => (p.2.cacheSize - p.1.currAllocResrc.cacheSize).natAbs).max? with
  | some d => .ok d
  | none => .error maxEmptyError

/-- `int(max_cache_delta / max_cache_reloc_each) + 1`, where `/` divides as
    floats. -/
def numRounds [FloorRing F] (maxCacheDelta : ℕ) (maxCacheRelocEach : ℤ) : Except String ℤ :=
  if maxCacheRelocEach = 0 then .error zeroDivisionError
  else .ok (truncate ((maxCacheDelta : F) / maxCacheRelocEach) + 1)

/-- The allocations of a tenant's rounds in `gradual_apply`, from `curr` to
    `resrc` in `n` rounds: `curr + delta * ((round + 1) / n)` for each
    `round < n - 1`, then `resrc`. -/
def gradualSteps [FloorRing F] (n : ℤ) (curr resrc : ResrcTuple F) : List (ResrcTuple F) :=
  (List.range (n - 1).toNat).map (fun round => curr + (resrc - curr).mul (((round + 1 : ℕ) : F) / n)) ++
    [resrc]

/-- The loop of `gradual_apply` that queues each tenant's rounds with
    `add_pending_resrc`. -/
def queueGradual [FloorRing F] (m : MinResrc F) (n : ℤ) :
    List (TenantAlloc F) → List (ResrcTuple F) → List (TenantAlloc F)
  | t :: ts, r :: rs =>
    (gradualSteps n t.currAllocResrc r).foldl (fun t x => t.addPendingResrc m x true) t ::
      queueGradual m n ts rs
  | ts, _ => ts

/-- One wait of `gradual_apply` for warm caches: which tenants, by position,
    are warm at the first check, then the polls. -/
structure Wait where
  warm : ℕ → Bool
  polls : List Turn

/-- The `while pending_tenants` loop of a round of `gradual_apply`: `some true`
    once every tenant is warm, `some false` at the deadline. -/
def gradualWait : List Turn → List ℕ → Option Bool
  | _, [] => some true
  | [], _ :: _ => none
  | p :: ps, i :: pending =>
    if p.deadline then some false else gradualWait ps ((i :: pending).filter fun j => !p.warm j)

/-- The `k` rounds of `gradual_apply` after the first: each waits for every
    cache to be warm, then applies every tenant's next pending allocation;
    at the deadline every queue is cleared. -/
def gradualRounds : ℕ → List Wait → List (TenantAlloc F) → Option (Except String (List (TenantAlloc F)))
  | 0, _, ts => some (.ok ts)
  | _ + 1, [], _ => none
  | k + 1, w :: ws, ts =>
    match gradualWait w.polls ((List.range ts.length).filter fun j => !w.warm j) with
    | none => none
    | some false => some (.ok (ts.map clearPendingResrc))
    | some true =>
      match ts.mapM applyNextPendingResrc with
      | .error e => some (.error e)
      | .ok ts => gradualRounds k ws ts

/-- `gradual_apply`: the number of rounds, the queues, the first round, and
    the rounds after it unless there is one round only. -/
def gradualApply [FloorRing F] (m : MinResrc F) (maxCacheRelocEach : ℤ) (ts : List (TenantAlloc F))
    (results : List (ResrcTuple F)) (waits : List Wait) : Option (Except String (List (TenantAlloc F))) :=
  match (do
      let d ← maxCacheDelta ts results
      let n ← numRounds (F := F) d maxCacheRelocEach
      let ts ← (queueGradual m n ts results).mapM applyNextPendingResrc
      return (n, ts)) with
  | .error e => some (.error e)
  | .ok (n, ts) => if n = 1 then some (.ok ts) else gradualRounds (n - 1).toNat waits ts

/-- `post_alloc_apply`, which asserts that it is not asked to both boost and
    apply gradually. -/
def postAllocApply [FloorRing F] (m : MinResrc F) (ts : List (TenantAlloc F))
    (results : List (ResrcTuple F)) (boost gradual : Bool) (polls : List Turn) (waits : List Wait) :
    Option (Except String (List (TenantAlloc F))) :=
  if boost && gradual then some (.error assertionError)
  else if !boost && !gradual then some (.ok (directApply ts results))
  else if boost then boostApply m ts results polls
  else gradualApply m maxCacheRelocEach ts results waits

section Steps

variable [FloorRing F]

theorem gradualSteps_length (n : ℤ) (curr resrc : ResrcTuple F) :
    (gradualSteps n curr resrc).length = (n - 1).toNat + 1 := by
  simp [gradualSteps]

theorem gradualSteps_getLast? (n : ℤ) (curr resrc : ResrcTuple F) :
    (gradualSteps n curr resrc).getLast? = some resrc := by
  simp [gradualSteps]

/-- `add_pending_resrc` of each of a list of allocations appends them,
    enforced. -/
theorem foldl_addPendingResrc (m : MinResrc F) (xs : List (ResrcTuple F)) (t : TenantAlloc F) :
    xs.foldl (fun t x => t.addPendingResrc m x true) t =
      { t with pendingResrcQueue := t.pendingResrcQueue ++ xs.map (enforceMinResrc m) } := by
  induction xs generalizing t with
  | nil => simp
  | cons x xs ih =>
    rw [List.foldl_cons, ih]
    simp [addPendingResrc]

end Steps

/-! ## Truncated interpolation

`gradual_apply` truncates each intermediate cache size, `delta * k / n`,
toward zero. Truncation is odd, and moves two values of one sign that are less
than an integer `e` apart by at most `e`. -/

section Truncate

variable [FloorRing F] [IsStrictOrderedRing F]

theorem truncate_neg (x : F) : truncate (-x) = -truncate x := by
  rcases lt_trichotomy x 0 with hx | rfl | hx
  · rw [truncate_of_nonneg (by linarith), truncate, if_neg (not_le.mpr hx), Int.floor_neg]
  · simp [truncate]
  · rw [truncate, if_neg (by linarith), truncate_of_nonneg hx.le, Int.ceil_neg]

/-- Floors of two values less than an integer `e` apart are at most `e`
    apart. -/
theorem abs_floor_sub_le {x y : F} {e : ℤ} (h : |y - x| < e) : |⌊y⌋ - ⌊x⌋| ≤ e := by
  have hy := Int.floor_le y
  have hy' := Int.lt_floor_add_one y
  have hx := Int.floor_le x
  have hx' := Int.lt_floor_add_one x
  rw [abs_lt] at h
  have hup : ⌊y⌋ - ⌊x⌋ < e + 1 := by
    have : ((⌊y⌋ - ⌊x⌋ : ℤ) : F) < ((e + 1 : ℤ) : F) := by push_cast; linarith
    exact_mod_cast this
  have hlo : -(e + 1) < ⌊y⌋ - ⌊x⌋ := by
    have : ((-(e + 1) : ℤ) : F) < ((⌊y⌋ - ⌊x⌋ : ℤ) : F) := by push_cast; linarith
    exact_mod_cast this
  rw [abs_le]
  omega

theorem abs_truncate_sub_le {x y : F} {e : ℤ} (hs : 0 ≤ x ∧ 0 ≤ y ∨ x ≤ 0 ∧ y ≤ 0)
    (h : |y - x| < e) : |truncate y - truncate x| ≤ e := by
  rcases hs with ⟨hx, hy⟩ | ⟨hx, hy⟩
  · rw [truncate_of_nonneg hx, truncate_of_nonneg hy]
    exact abs_floor_sub_le h
  · -- the negatives of both are not negative, and truncation is odd
    have h' : |(-y) - (-x)| < e := by rwa [neg_sub_neg, abs_sub_comm]
    have := abs_floor_sub_le h'
    rw [← truncate_of_nonneg (neg_nonneg.mpr hy), ← truncate_of_nonneg (neg_nonneg.mpr hx),
      truncate_neg, truncate_neg, neg_sub_neg, abs_sub_comm] at this
    exact this

theorem truncate_mono_of_nonpos {x y : F} (hy : y ≤ 0) (hxy : x ≤ y) : truncate x ≤ truncate y := by
  have := truncate_mono (neg_nonneg.mpr hy) (neg_le_neg hxy)
  rw [truncate_neg, truncate_neg] at this
  omega

/-- Truncation keeps an integer. -/
theorem truncate_intCast' (z : ℤ) : truncate (z : F) = z := by
  rcases le_total 0 z with hz | hz
  · rw [truncate_of_nonneg (by exact_mod_cast hz), Int.floor_intCast]
  · have := truncate_of_nonneg (F := F) (x := ((-z : ℤ) : F)) (by exact_mod_cast neg_nonneg.mpr hz)
    rw [Int.floor_intCast, Int.cast_neg, truncate_neg] at this
    omega

end Truncate

/-! ## The schedule of `gradual_apply` -/

section Schedule

variable [FloorRing F] [IsStrictOrderedRing F]

/-- A step of the interpolation `delta * k / n`, truncated, moves by at most
    `e` when `n` steps of `e` cover more than the change. -/
theorem abs_interp_step {Δ n e : ℤ} (hn : 0 < n) (hΔ : |Δ| < n * e) (k : ℕ) :
    |truncate ((Δ : F) * (((k + 1 : ℕ) : F) / n)) - truncate ((Δ : F) * ((k : F) / n))| ≤ e := by
  have hnF : (0 : F) < n := by exact_mod_cast hn
  have hk : (0 : F) ≤ (k : F) / n := by positivity
  have hk₁ : (0 : F) ≤ ((k + 1 : ℕ) : F) / n := by positivity
  apply abs_truncate_sub_le
  · -- both have the sign of the change
    rcases le_total 0 (Δ : F) with hΔ₀ | hΔ₀
    · exact .inl ⟨mul_nonneg hΔ₀ hk, mul_nonneg hΔ₀ hk₁⟩
    · exact .inr ⟨mul_nonpos_iff.mpr (.inr ⟨hΔ₀, hk⟩), mul_nonpos_iff.mpr (.inr ⟨hΔ₀, hk₁⟩)⟩
  · -- they differ by the change over `n`
    have hdiff : (Δ : F) * (((k + 1 : ℕ) : F) / n) - (Δ : F) * ((k : F) / n) = Δ / n := by
      push_cast
      field_simp
      ring
    have hlt : ((|Δ| : ℤ) : F) < ((n * e : ℤ) : F) := by exact_mod_cast hΔ
    push_cast at hlt
    rw [hdiff, abs_div, abs_of_pos hnF, div_lt_iff₀ hnF]
    linarith

/-- The interpolation moves toward the result: up for a growing cache, down
    for a shrinking one. -/
theorem interp_step_mono {Δ n : ℤ} (hn : 0 < n) (k : ℕ) :
    (0 ≤ Δ → truncate ((Δ : F) * ((k : F) / n)) ≤ truncate ((Δ : F) * (((k + 1 : ℕ) : F) / n))) ∧
      (Δ ≤ 0 → truncate ((Δ : F) * (((k + 1 : ℕ) : F) / n)) ≤ truncate ((Δ : F) * ((k : F) / n))) := by
  have hnF : (0 : F) < n := by exact_mod_cast hn
  have hk : (0 : F) ≤ (k : F) / n := by positivity
  have hkk : (k : F) / n ≤ ((k + 1 : ℕ) : F) / n := by
    gcongr
    exact_mod_cast Nat.le_succ k
  refine ⟨fun hΔ => ?_, fun hΔ => ?_⟩
  · have hΔF : (0 : F) ≤ Δ := by exact_mod_cast hΔ
    exact truncate_mono (mul_nonneg hΔF hk) (mul_le_mul_of_nonneg_left hkk hΔF)
  · have hΔF : (Δ : F) ≤ 0 := by exact_mod_cast hΔ
    exact truncate_mono_of_nonpos (mul_nonpos_iff.mpr (.inr ⟨hΔF, hk⟩))
      (mul_le_mul_of_nonpos_left hkk hΔF)

/-- With a positive `max_cache_reloc_each`, the number of rounds is positive,
    and so many rounds of `max_cache_reloc_each` cover more than the largest
    change. -/
theorem numRounds_eq_ok {M : ℕ} {e n : ℤ} (he : 0 < e) (h : numRounds (F := F) M e = .ok n) :
    0 < n ∧ (M : ℤ) < n * e := by
  unfold numRounds at h
  rw [if_neg he.ne'] at h
  cases h
  have heF : (0 : F) < e := by exact_mod_cast he
  have hq : (0 : F) ≤ (M : F) / e := by positivity
  have hfl := Int.lt_floor_add_one ((M : F) / e)
  rw [truncate_of_nonneg hq]
  refine ⟨by have := Int.floor_nonneg.mpr hq; omega, ?_⟩
  rw [div_lt_iff₀ heF] at hfl
  exact_mod_cast hfl

/-- The cache sizes that a tenant passes through, from its current
    allocation: after `k` of the `n` rounds, the current size plus the change
    times `k / n`, truncated; after all `n`, the result. -/
theorem gradualSteps_cacheSize {n : ℤ} (hn : 0 < n) (curr resrc : ResrcTuple F) :
    (curr :: gradualSteps n curr resrc).map (·.cacheSize) =
      (List.range (n.toNat + 1)).map fun (k : ℕ) =>
        curr.cacheSize + truncate (((resrc.cacheSize - curr.cacheSize : ℤ) : F) * ((k : F) / n)) := by
  have hN : n.toNat = (n - 1).toNat + 1 := by omega
  -- the last round is the whole change, which truncation keeps
  have hlast : curr.cacheSize +
      truncate (((resrc.cacheSize - curr.cacheSize : ℤ) : F) * ((((n - 1).toNat + 1 : ℕ) : F) / n)) =
        resrc.cacheSize := by
    have hn' : ((((n - 1).toNat + 1 : ℕ) : ℤ) : F) = (n : F) := by
      congr 1
      omega
    rw [Nat.cast_add, Nat.cast_one] at hn' ⊢
    have hone : ((((n - 1).toNat : ℕ) : F) + 1) / n = 1 := by
      rw [div_eq_one_iff_eq (by exact_mod_cast hn.ne')]
      push_cast at hn'
      exact hn'
    rw [hone, mul_one, truncate_intCast']
    ring
  have h0 : truncate (0 : F) = 0 := by simp [truncate]
  rw [hN, List.range_succ, List.range_succ_eq_map]
  simp only [gradualSteps, List.map_cons, List.map_append, List.map_map, List.cons_append,
    Nat.cast_zero, zero_div, mul_zero, hlast, h0, add_zero]
  -- the rounds before the last agree term by term
  congr 2


/-- From its current allocation, a tenant's rounds move its cache by at most
    `e` each when `n` rounds of `e` cover more than its change. -/
theorem gradualSteps_chain {n e : ℤ} (hn : 0 < n) (curr resrc : ResrcTuple F)
    (hΔ : |resrc.cacheSize - curr.cacheSize| < n * e) :
    (curr :: gradualSteps n curr resrc).IsChain fun a b => |b.cacheSize - a.cacheSize| ≤ e := by
  apply (List.isChain_map (R := fun x y : ℤ => |y - x| ≤ e) (fun t : ResrcTuple F => t.cacheSize)).mp
  rw [gradualSteps_cacheSize hn, List.isChain_map]
  apply (List.isChain_range_succ _ _).mpr
  intro k _
  -- the current size cancels
  rw [add_sub_add_left_eq_sub]
  exact abs_interp_step hn hΔ k

/-- A tenant's rounds move its cache toward the result. -/
theorem gradualSteps_monotone {n : ℤ} (hn : 0 < n) (curr resrc : ResrcTuple F) :
    (curr.cacheSize ≤ resrc.cacheSize →
        (curr :: gradualSteps n curr resrc).IsChain fun a b => a.cacheSize ≤ b.cacheSize) ∧
      (resrc.cacheSize ≤ curr.cacheSize →
        (curr :: gradualSteps n curr resrc).IsChain fun a b => b.cacheSize ≤ a.cacheSize) := by
  refine ⟨fun hle => ?_, fun hge => ?_⟩
  · apply (List.isChain_map (R := fun x y : ℤ => x ≤ y) (fun t : ResrcTuple F => t.cacheSize)).mp
    rw [gradualSteps_cacheSize hn, List.isChain_map]
    apply (List.isChain_range_succ _ _).mpr
    intro k _
    simp only [Nat.succ_eq_add_one]
    have := (interp_step_mono (F := F) (Δ := resrc.cacheSize - curr.cacheSize) hn k).1 (by omega)
    omega
  · apply (List.isChain_map (R := fun x y : ℤ => y ≤ x) (fun t : ResrcTuple F => t.cacheSize)).mp
    rw [gradualSteps_cacheSize hn, List.isChain_map]
    apply (List.isChain_range_succ _ _).mpr
    intro k _
    simp only [Nat.succ_eq_add_one]
    have := (interp_step_mono (F := F) (Δ := resrc.cacheSize - curr.cacheSize) hn k).2 (by omega)
    omega

/-- The rounds that `num_rounds` gives cover every change of at most the
    largest one. -/
theorem numRounds_covers {M : ℕ} {e n : ℤ} (he : 0 < e) (hn : numRounds (F := F) M e = .ok n)
    {Δ : ℤ} (hM : Δ.natAbs ≤ M) : 0 < n ∧ |Δ| < n * e := by
  obtain ⟨hn₀, hcover⟩ := numRounds_eq_ok he hn
  refine ⟨hn₀, ?_⟩
  rw [Int.abs_eq_natAbs]
  omega

/-- `gradual_apply`'s schedule for one tenant, the allocations that it queues
    with `add_pending_resrc`: `num_rounds` of them, the last one the result
    with the minimum enforced. From the current allocation, enforced too, each
    moves the cache by at most `max_cache_reloc_each`, and toward the
    result. -/
theorem gradual_schedule (m : MinResrc F) {M : ℕ} {e n : ℤ} (he : 0 < e)
    (hn : numRounds (F := F) M e = .ok n) (curr resrc : ResrcTuple F)
    (hM : (resrc.cacheSize - curr.cacheSize).natAbs ≤ M) :
    (((gradualSteps n curr resrc).map (enforceMinResrc m)).length : ℤ) = n ∧
      ((gradualSteps n curr resrc).map (enforceMinResrc m)).getLast? =
        some (enforceMinResrc m resrc) ∧
      ((curr :: gradualSteps n curr resrc).map (enforceMinResrc m)).IsChain
        (fun a b => |b.cacheSize - a.cacheSize| ≤ e) ∧
      (curr.cacheSize ≤ resrc.cacheSize →
        ((curr :: gradualSteps n curr resrc).map (enforceMinResrc m)).IsChain
          (fun a b => a.cacheSize ≤ b.cacheSize)) ∧
      (resrc.cacheSize ≤ curr.cacheSize →
        ((curr :: gradualSteps n curr resrc).map (enforceMinResrc m)).IsChain
          (fun a b => b.cacheSize ≤ a.cacheSize)) := by
  obtain ⟨hn₀, hΔ⟩ := numRounds_covers he hn hM
  obtain ⟨hup, hdown⟩ := gradualSteps_monotone hn₀ curr resrc
  refine ⟨?_, ?_, ?_, fun hle => ?_, fun hge => ?_⟩
  · rw [List.length_map, gradualSteps_length]
    omega
  · rw [List.getLast?_map, gradualSteps_getLast?]
    rfl
  · -- raising both to the minimum moves no two caches further apart
    rw [List.isChain_map]
    exact (gradualSteps_chain hn₀ curr resrc hΔ).imp fun a b h =>
      le_trans (abs_max_sub_max_le_abs _ _ _) h
  · rw [List.isChain_map]
    exact (hup hle).imp fun a b h => max_le_max h le_rfl
  · rw [List.isChain_map]
    exact (hdown hge).imp fun a b h => max_le_max h le_rfl

theorem gradual_schedule_threeRounds :
    let m : MinResrc ℚ := ⟨⟨1024 * 1024, by decide⟩, 1, 1, 1⟩
    let curr : ResrcTuple ℚ := ⟨0, 10, 10, 10⟩
    let resrc : ResrcTuple ℚ := ⟨40 * 1024 * 1024, 20, 20, 20⟩
    let sched := (curr :: gradualSteps 3 curr resrc).map (enforceMinResrc m)
    0 < maxCacheRelocEach ∧ numRounds (F := ℚ) (40 * 1024 * 1024) maxCacheRelocEach = .ok 3 ∧
      (resrc.cacheSize - curr.cacheSize).natAbs ≤ 40 * 1024 * 1024 ∧
      (((gradualSteps 3 curr resrc).map (enforceMinResrc m)).length : ℤ) = 3 ∧
      ((gradualSteps 3 curr resrc).map (enforceMinResrc m)).getLast? = some (enforceMinResrc m resrc) ∧
      sched.IsChain (fun a b => |b.cacheSize - a.cacheSize| ≤ maxCacheRelocEach) ∧
      (curr.cacheSize ≤ resrc.cacheSize → sched.IsChain (fun a b => a.cacheSize ≤ b.cacheSize)) ∧
      (resrc.cacheSize ≤ curr.cacheSize → sched.IsChain (fun a b => b.cacheSize ≤ a.cacheSize)) := by
  intro m curr resrc sched
  have he : 0 < maxCacheRelocEach := by decide
  have hn : numRounds (F := ℚ) (40 * 1024 * 1024) maxCacheRelocEach = .ok 3 := by decide +kernel
  exact ⟨he, hn, by decide, gradual_schedule m he hn curr resrc (by decide)⟩

/-- `gradual_apply` applies the first round to the current allocation as it
    is, which `_enforce_min_resrc` has not raised when `direct_apply` set it.
    While the minimum cache is at most `max_cache_reloc_each`, that first move
    too is at most `max_cache_reloc_each`: a round raised to the minimum lands
    no further from the current cache than the minimum itself. -/
theorem gradual_schedule_from_current (m : MinResrc F) {M : ℕ} {e n : ℤ} (he : 0 < e)
    (hn : numRounds (F := F) M e = .ok n) (curr resrc : ResrcTuple F)
    (hM : (resrc.cacheSize - curr.cacheSize).natAbs ≤ M)
    (hmin : (m.cacheSize.val : ℤ) ≤ e) (hcurr : 0 ≤ curr.cacheSize) :
    (curr :: (gradualSteps n curr resrc).map (enforceMinResrc m)).IsChain
      fun a b => |b.cacheSize - a.cacheSize| ≤ e := by
  obtain ⟨hn₀, hΔ⟩ := numRounds_covers he hn hM
  obtain ⟨s, rest, hsteps⟩ : ∃ s rest, gradualSteps n curr resrc = s :: rest := by
    cases h : gradualSteps n curr resrc with
    | nil => simp [gradualSteps] at h
    | cons s rest => exact ⟨s, rest, rfl⟩
  have hchain := gradualSteps_chain hn₀ curr resrc hΔ
  rw [hsteps, List.isChain_cons_cons] at hchain
  obtain ⟨hfirst, hrest⟩ := hchain
  rw [hsteps, List.map_cons, List.isChain_cons_cons]
  refine ⟨?first, ?rest⟩
  case first =>
    rw [enforceMinResrc_cacheSize]
    rw [abs_le] at hfirst ⊢
    omega
  case rest =>
    rw [← List.map_cons, List.isChain_map]
    exact hrest.imp fun a b h => le_trans (abs_max_sub_max_le_abs _ _ _) h

theorem gradual_schedule_from_current_threeRounds :
    let m : MinResrc ℚ := ⟨⟨1024 * 1024, by decide⟩, 1, 1, 1⟩
    let curr : ResrcTuple ℚ := ⟨0, 10, 10, 10⟩
    let resrc : ResrcTuple ℚ := ⟨40 * 1024 * 1024, 20, 20, 20⟩
    0 < maxCacheRelocEach ∧ numRounds (F := ℚ) (40 * 1024 * 1024) maxCacheRelocEach = .ok 3 ∧
      (resrc.cacheSize - curr.cacheSize).natAbs ≤ 40 * 1024 * 1024 ∧
      (m.cacheSize.val : ℤ) ≤ maxCacheRelocEach ∧ 0 ≤ curr.cacheSize ∧
      (curr :: (gradualSteps 3 curr resrc).map (enforceMinResrc m)).IsChain
        (fun a b => |b.cacheSize - a.cacheSize| ≤ maxCacheRelocEach) := by
  intro m curr resrc
  have he : 0 < maxCacheRelocEach := by decide
  have hn : numRounds (F := ℚ) (40 * 1024 * 1024) maxCacheRelocEach = .ok 3 := by decide +kernel
  exact ⟨he, hn, by decide, by decide, le_rfl,
    gradual_schedule_from_current m he hn curr resrc (by decide) (by decide) le_rfl⟩

end Schedule


/-! ## What each way leaves -/

section Outcome

variable [FloorRing F] {m : MinResrc F} {results : List (ResrcTuple F)}

/-- No tenant has an allocation pending. -/
def Settled (ts : List (TenantAlloc F)) : Prop :=
  ∀ t ∈ ts, t.pendingResrcQueue = []

theorem forall₂_of_getElem? {α β : Type} {R : α → β → Prop} {l₁ : List α} {l₂ : List β}
    (hlen : l₁.length = l₂.length) (h : ∀ (j : ℕ) a b, l₁[j]? = some a → l₂[j]? = some b → R a b) :
    List.Forall₂ R l₁ l₂ :=
  List.forall₂_of_length_eq_of_get hlen fun i h₁ h₂ =>
    h i _ _ (List.getElem?_eq_getElem h₁) (List.getElem?_eq_getElem h₂)

theorem callAt_set {f : TenantAlloc F → Except String (TenantAlloc F)} :
    ∀ {j : ℕ} {ts : List (TenantAlloc F)} {t t' : TenantAlloc F}, ts[j]? = some t → f t = .ok t' →
      callAt f j ts = .ok (ts.set j t')
  | 0, _ :: _, _, _, hj, hf => by
    simp only [List.getElem?_cons_zero, Option.some.injEq] at hj
    subst hj
    simp [callAt, hf, Except.map]
  | j + 1, _ :: _, _, _, hj, hf => by
    simp only [List.getElem?_cons_succ] at hj
    simp [callAt, callAt_set hj hf, Except.map]
  | _, [], _, _, hj, _ => by simp at hj

theorem callAt_of_length_le {f : TenantAlloc F → Except String (TenantAlloc F)} :
    ∀ {j : ℕ} {ts : List (TenantAlloc F)}, ts.length ≤ j → callAt f j ts = .ok ts
  | 0, [], _ => rfl
  | _ + 1, [], _ => rfl
  | 0, _ :: _, h => by simp at h
  | j + 1, _ :: ts, h => by
    simp only [List.length_cons] at h
    simp [callAt, callAt_of_length_le (f := f) (show ts.length ≤ j by omega), Except.map]

/-- Where `boost_apply` has left the tenants: each tenant in `S` has its
    result, enforced, pending; each other one has it applied, with nothing
    pending. -/
def Boosted (m : MinResrc F) (results : List (ResrcTuple F)) (S : ℕ → Prop)
    (ts : List (TenantAlloc F)) : Prop :=
  ∀ j t r, ts[j]? = some t → results[j]? = some r →
    (S j → t.pendingResrcQueue = [enforceMinResrc m r]) ∧
      (¬ S j → t.pendingResrcQueue = [] ∧ t.currAllocResrc = enforceMinResrc m r)

theorem Boosted.congr {S S' : ℕ → Prop} {ts : List (TenantAlloc F)} (h : Boosted m results S ts)
    (hS : ∀ j, S' j ↔ S j) : Boosted m results S' ts := fun j t r ht hr =>
  ⟨fun hs => (h j t r ht hr).1 ((hS j).1 hs), fun hs => (h j t r ht hr).2 (mt (hS j).2 hs)⟩

/-- A method that applies the one pending allocation of a tenant. -/
def AppliesPending (f : TenantAlloc F → Except String (TenantAlloc F)) : Prop :=
  ∀ t x, t.pendingResrcQueue = [x] → f t = .ok ({ t with pendingResrcQueue := [] }.applyResrc x)

theorem applyNextPendingResrc_applies : AppliesPending (F := F) applyNextPendingResrc := by
  intro t x h
  simp [applyNextPendingResrc, h]

theorem applyLastPendingResrc_applies : AppliesPending (F := F) applyLastPendingResrc := by
  intro t x h
  simp [applyLastPendingResrc, h]

/-- Such a method called on a pending tenant applies its result. -/
theorem Boosted.call {f : TenantAlloc F → Except String (TenantAlloc F)} (hf : AppliesPending f)
    {S : ℕ → Prop} {ts : List (TenantAlloc F)} (h : Boosted m results S ts)
    (hlen : ts.length = results.length) {j : ℕ} (hj : S j) :
    ∃ ts', callAt f j ts = .ok ts' ∧ ts'.length = ts.length ∧
      Boosted m results (fun k => S k ∧ k ≠ j) ts' := by
  cases ht : ts[j]? with
  | none =>
    -- no tenant there
    have hle : ts.length ≤ j := List.getElem?_eq_none_iff.mp ht
    refine ⟨ts, callAt_of_length_le hle, rfl, fun k t r hk hr => ?_⟩
    have hkj : k ≠ j := by
      rintro rfl
      rw [ht] at hk
      cases hk
    obtain ⟨h₁, h₂⟩ := h k t r hk hr
    exact ⟨fun hs => h₁ hs.1, fun hs => h₂ fun hS => hs ⟨hS, hkj⟩⟩
  | some t =>
    have hjl : j < results.length := hlen ▸ (List.getElem?_eq_some_iff.mp ht).1
    have hr : results[j]? = some results[j] := List.getElem?_eq_getElem hjl
    have hq := (h j t _ ht hr).1 hj
    refine ⟨ts.set j ({ t with pendingResrcQueue := [] }.applyResrc (enforceMinResrc m results[j])),
      callAt_set ht (hf t _ hq), by simp, fun k t' r' hk hr' => ?_⟩
    by_cases hkj : k = j
    · -- the tenant just applied
      subst hkj
      rw [List.getElem?_set_self (List.getElem?_eq_some_iff.mp ht).1, Option.some.injEq] at hk
      rw [hr, Option.some.injEq] at hr'
      subst hk hr'
      exact ⟨fun hs => absurd rfl hs.2, fun _ => ⟨rfl, rfl⟩⟩
    · rw [List.getElem?_set_ne (Ne.symm hkj)] at hk
      obtain ⟨h₁, h₂⟩ := h k t' r' hk hr'
      exact ⟨fun hs => h₁ hs.1, fun hs => h₂ fun hS => hs ⟨hS, hkj⟩⟩

/-- The loops of `boost_apply` over its pending tenants: each one that `w`
    picks applies its result, and the others stay pending. -/
theorem Boosted.fold {f : TenantAlloc F → Except String (TenantAlloc F)} (hf : AppliesPending f)
    (w : ℕ → Bool) (step : List (TenantAlloc F) → ℕ → Except String (List (TenantAlloc F)))
    (hstep : ∀ ts j, step ts j = if w j then callAt f j ts else .ok ts) :
    ∀ {qs : List ℕ} {S : ℕ → Prop} {ts : List (TenantAlloc F)}, Boosted m results S ts →
      ts.length = results.length → qs.Nodup → (∀ j ∈ qs, S j) →
      ∃ ts', qs.foldlM step ts = .ok ts' ∧ ts'.length = ts.length ∧
        Boosted m results (fun k => S k ∧ ¬ (k ∈ qs ∧ w k = true)) ts' := by
  intro qs
  induction qs with
  | nil =>
    intro S ts h _ _ _
    exact ⟨ts, rfl, rfl, h.congr fun k => by simp⟩
  | cons j qs ih =>
    intro S ts h hlen hnd hin
    obtain ⟨hj, hnd'⟩ := List.nodup_cons.mp hnd
    rw [List.foldlM_cons, hstep]
    by_cases hw : w j = true
    · -- a picked tenant applies its result
      obtain ⟨ts₁, h₁, hlen₁, hb₁⟩ := h.call hf hlen (hin j List.mem_cons_self)
      obtain ⟨ts', h', hlen', hb'⟩ := ih hb₁ (hlen₁.trans hlen) hnd'
        (fun k hk => ⟨hin k (List.mem_cons_of_mem _ hk), fun hkj => hj (hkj ▸ hk)⟩)
      refine ⟨ts', ?_, hlen'.trans hlen₁, hb'.congr fun k => ?_⟩
      · rw [if_pos hw, h₁]
        exact h'
      · by_cases hkj : k = j
        · subst hkj
          simp [hw]
        · simp [hkj]
    · obtain ⟨ts', h', hlen', hb'⟩ := ih h hlen hnd' (fun k hk => hin k (List.mem_cons_of_mem _ hk))
      refine ⟨ts', ?_, hlen', hb'.congr fun k => ?_⟩
      · rw [if_neg hw]
        exact h'
      · by_cases hkj : k = j
        · subst hkj
          simp [hw]
        · simp [hkj]

/-- The wait of `boost_apply` ends with every result applied, at the
    deadline or once the caches are warm. -/
theorem boostWait_outcome :
    ∀ {turns : List Turn} {P : List ℕ} {ts : List (TenantAlloc F)}
      {r : Except String (List (TenantAlloc F))},
      P.Nodup → ts.length = results.length → Boosted m results (· ∈ P) ts →
      boostWait turns P ts = some r →
      ∃ ts', r = .ok ts' ∧ ts'.length = ts.length ∧ Boosted m results (fun _ => False) ts'
  | _, [], ts, r, _, _, hb, h => by
    simp only [boostWait, Option.some.injEq] at h
    subst h
    exact ⟨ts, rfl, rfl, hb.congr (by simp)⟩
  | [], _ :: _, _, _, _, _, _, h => by simp [boostWait] at h
  | p :: ps, i :: P, ts, r, hnd, hlen, hb, h => by
    simp only [boostWait] at h
    split_ifs at h with hd
    · -- the deadline: every pending tenant takes its last allocation
      obtain ⟨ts', h', hlen', hb'⟩ := hb.fold applyLastPendingResrc_applies (fun _ => true)
        (fun ts j => callAt applyLastPendingResrc j ts) (fun _ _ => rfl) hlen hnd (fun k hk => hk)
      rw [h', Option.some.injEq] at h
      subst h
      exact ⟨ts', rfl, hlen', hb'.congr fun k => ⟨False.elim, fun hk => hk.2 ⟨hk.1, rfl⟩⟩⟩
    · -- the warm tenants take their next allocation, and the wait goes on
      obtain ⟨ts₁, h₁, hlen₁, hb₁⟩ := hb.fold applyNextPendingResrc_applies p.warm
        (fun ts j => if p.warm j then callAt applyNextPendingResrc j ts else .ok ts)
        (fun _ _ => rfl) hlen hnd (fun k hk => hk)
      rw [h₁] at h
      obtain ⟨ts', h', hlen', hb'⟩ := boostWait_outcome (hnd.filter _) (hlen₁.trans hlen)
        (hb₁.congr fun k => by cases hw : p.warm k <;> simp [List.mem_filter, hw]; tauto) h
      exact ⟨ts', h', hlen'.trans hlen₁, hb'⟩

/-- `try_apply_resrc_with_boost` on a tenant with nothing pending: it
    applies the result, enforced, or keeps it pending. -/
theorem tryApplyResrcWithBoost_eq (m : MinResrc F) (r : ResrcTuple F) {t : TenantAlloc F}
    (ht : t.pendingResrcQueue = []) :
    ∃ applied t', t.tryApplyResrcWithBoost m r = .ok (applied, t') ∧
      (applied = true → t'.pendingResrcQueue = [] ∧ t'.currAllocResrc = enforceMinResrc m r) ∧
      (applied = false → t'.pendingResrcQueue = [enforceMinResrc m r]) := by
  unfold tryApplyResrcWithBoost
  rw [ht, if_neg (by simp)]
  dsimp only
  split_ifs with hle
  · exact ⟨true, _, rfl, fun _ => ⟨ht, rfl⟩, fun h => by cases h⟩
  · refine ⟨false, _, rfl, (fun h => by cases h), fun _ => ?_⟩
    simp [addPendingResrc, applyResrc, ht]

/-- The positions after `i` that the first loop of `boost_apply` lists are
    those that the rest of the loop lists, whether or not it lists `i`. -/
theorem mem_boostPending {i j : ℕ} {P : List ℕ} (applied : Bool) :
    i + (j + 1) ∈ (if applied then P else i :: P) ↔ i + 1 + j ∈ P := by
  have hj : i + (j + 1) = i + 1 + j := by omega
  have hne : i + 1 + j ≠ i := by omega
  cases applied
  · simp [hj, hne]
  · simp [hj]

/-- The first loop of `boost_apply` raises nothing on tenants with nothing
    pending, and leaves pending the results of the positions that it lists,
    each once. -/
theorem boostStart_outcome (m : MinResrc F) :
    ∀ (i : ℕ) (ts : List (TenantAlloc F)) (rs : List (ResrcTuple F)), Settled ts →
      ∃ ts₁ P, boostStart m i ts rs = .ok (ts₁, P) ∧ ts₁.length = ts.length ∧ P.Nodup ∧
        (∀ k ∈ P, i ≤ k) ∧ Boosted m rs (fun j => i + j ∈ P) ts₁
  | i, [], rs, _ => ⟨[], [], by cases rs <;> rfl, rfl, .nil, by simp, by simp [Boosted]⟩
  | i, t :: ts, [], _ => ⟨t :: ts, [], rfl, rfl, .nil, by simp, by simp [Boosted]⟩
  | i, t :: ts, r :: rs, hs => by
    obtain ⟨applied, t', ht', hyes, hno⟩ := tryApplyResrcWithBoost_eq m r (hs t List.mem_cons_self)
    obtain ⟨ts₁, P, h₁, hlen, hnd, hge, hb⟩ :=
      boostStart_outcome m (i + 1) ts rs fun t ht => hs t (List.mem_cons_of_mem _ ht)
    have hi : i ∉ P := fun hi => by have := hge i hi; omega
    refine ⟨t' :: ts₁, if applied then P else i :: P, ?_, by simp [hlen], ?_, ?_, ?_⟩
    · simp only [boostStart, ht', h₁]
      rfl
    · cases applied
      · exact List.nodup_cons.mpr ⟨hi, hnd⟩
      · exact hnd
    · intro k hk
      cases applied
      · rcases List.mem_cons.mp hk with rfl | hk
        · exact le_rfl
        · exact le_trans (Nat.le_succ i) (hge k hk)
      · exact le_trans (Nat.le_succ i) (hge k hk)
    · intro j t₂ r₂ hj hr
      cases j with
      | zero =>
        -- the tenant this loop tried first
        simp only [List.getElem?_cons_zero, Option.some.injEq] at hj hr
        subst hj hr
        cases applied
        · simp [hno rfl]
        · simp [hyes rfl, hi]
      | succ j =>
        simp only [List.getElem?_cons_succ] at hj hr
        have hmem := mem_boostPending (i := i) (j := j) (P := P) applied
        exact (hb j t₂ r₂ hj hr).imp (fun h₁ hs => h₁ (hmem.mp hs))
          (fun h₂ hs => h₂ fun hs' => hs (hmem.mpr hs'))

/-- `boost_apply` on tenants with nothing pending, one result each: when it
    returns, it has raised nothing, and every tenant has its result with the
    minimum enforced, and nothing pending. -/
theorem boostApply_outcome {ts : List (TenantAlloc F)} (hs : Settled ts)
    (hlen : results.length = ts.length) {turns : List Turn}
    {r : Except String (List (TenantAlloc F))} (h : boostApply m ts results turns = some r) :
    ∃ ts', r = .ok ts' ∧ List.Forall₂
      (fun res t => t.currAllocResrc = enforceMinResrc m res ∧ t.pendingResrcQueue = []) results ts' := by
  obtain ⟨ts₁, P, h₁, hlen₁, hnd, -, hb⟩ := boostStart_outcome m 0 ts results hs
  rw [boostApply, h₁] at h
  obtain ⟨ts', rfl, hlen', hb'⟩ := boostWait_outcome hnd (hlen₁.trans hlen.symm)
    (hb.congr fun j => by simp) h
  refine ⟨ts', rfl, forall₂_of_getElem? (by omega) fun j res t hr ht => ?_⟩
  obtain ⟨hq, hc⟩ := (hb' j t res ht hr).2 id
  exact ⟨hc, hq⟩

/-- A tenant's schedule in `gradual_apply`: its rounds from its current
    allocation to its result, each with the minimum enforced. -/
def gradualSchedule (m : MinResrc F) (n : ℤ) (p : TenantAlloc F × ResrcTuple F) : List (ResrcTuple F) :=
  (gradualSteps n p.1.currAllocResrc p.2).map (enforceMinResrc m)

theorem gradualSchedule_length (m : MinResrc F) (n : ℤ) (p : TenantAlloc F × ResrcTuple F) :
    (gradualSchedule m n p).length = (n - 1).toNat + 1 := by
  rw [gradualSchedule, List.length_map, gradualSteps_length]

/-- A tenant at round `j` of its schedule, with the rounds after it
    pending. -/
def AtRound (m : MinResrc F) (n : ℤ) (j : ℕ) (p : TenantAlloc F × ResrcTuple F) (t : TenantAlloc F) :
    Prop :=
  (gradualSchedule m n p)[j]? = some t.currAllocResrc ∧
    t.pendingResrcQueue = (gradualSchedule m n p).drop (j + 1)

/-- The loop that queues the rounds gives each tenant its schedule. -/
theorem queueGradual_forall₂ (m : MinResrc F) (n : ℤ) :
    ∀ {ts : List (TenantAlloc F)} {rs : List (ResrcTuple F)}, Settled ts → ts.length = rs.length →
      List.Forall₂ (fun p t => t.currAllocResrc = p.1.currAllocResrc ∧
        t.pendingResrcQueue = gradualSchedule m n p) (ts.zip rs) (queueGradual m n ts rs)
  | [], [], _, _ => .nil
  | t :: ts, r :: rs, hs, hlen => by
    refine .cons ⟨?_, ?_⟩ (queueGradual_forall₂ m n (fun t ht => hs t (List.mem_cons_of_mem _ ht))
      (by simpa using hlen))
    · simp [foldl_addPendingResrc]
    · simp [foldl_addPendingResrc, hs t List.mem_cons_self, gradualSchedule]

/-- `apply_next_pending_resrc` on a tenant whose queue is what is left of a
    list after `j` of its entries applies the next entry. -/
theorem applyNextPendingResrc_drop {t : TenantAlloc F} {l : List (ResrcTuple F)} {j : ℕ}
    (h : t.pendingResrcQueue = l.drop j) (hj : j < l.length) :
    applyNextPendingResrc t = .ok ({ t with pendingResrcQueue := l.drop (j + 1) }.applyResrc l[j]) := by
  rw [applyNextPendingResrc, h, List.drop_eq_getElem_cons hj]

/-- A round of `gradual_apply`: tenants whose queues hold their schedules
    from round `j` on all take round `j`. -/
theorem mapM_applyNextPendingResrc {n : ℤ} {j : ℕ} (hj : j ≤ (n - 1).toNat)
    {ps : List (TenantAlloc F × ResrcTuple F)} {ts : List (TenantAlloc F)}
    (h : List.Forall₂ (fun p t => t.pendingResrcQueue = (gradualSchedule m n p).drop j) ps ts) :
    ∃ ts', ts.mapM applyNextPendingResrc = .ok ts' ∧ List.Forall₂ (AtRound m n j) ps ts' := by
  have hlt : ∀ p, j < (gradualSchedule m n p).length := fun p => by
    rw [gradualSchedule_length]
    omega
  exact Fallible.mapM_forall₂ (fun p t ht =>
    ⟨_, applyNextPendingResrc_drop ht (hlt p), List.getElem?_eq_getElem (hlt p), rfl⟩) h

/-- A wait that never sees the deadline ends with all caches warm, if it
    ends. -/
theorem gradualWait_ne_false : ∀ {turns : List Turn} {pending : List ℕ},
    (∀ p ∈ turns, p.deadline = false) → gradualWait turns pending ≠ some false
  | _, [], _ => by simp [gradualWait]
  | [], _ :: _, _ => by simp [gradualWait]
  | p :: ps, i :: pending, hd => by
    rw [gradualWait, if_neg (by simp [hd p List.mem_cons_self])]
    exact gradualWait_ne_false fun q hq => hd q (List.mem_cons_of_mem _ hq)

/-- The rounds after the first, from round `j` with `k` rounds to go: when
    they return, every tenant is at one round `j'` of its schedule with
    nothing pending, the last round unless a wait saw the deadline. -/
theorem gradualRounds_outcome (m : MinResrc F) (n : ℤ) {ps : List (TenantAlloc F × ResrcTuple F)} :
    ∀ (k : ℕ) {j : ℕ} {ws : List Wait} {ts : List (TenantAlloc F)} {r : Except String (List (TenantAlloc F))},
      j + k = (n - 1).toNat → List.Forall₂ (AtRound m n j) ps ts → gradualRounds k ws ts = some r →
      ∃ j' ts', r = .ok ts' ∧ j' ≤ (n - 1).toNat ∧
        ((∀ w ∈ ws, ∀ p ∈ w.polls, p.deadline = false) → j' = (n - 1).toNat) ∧
        List.Forall₂ (fun p t => (gradualSchedule m n p)[j']? = some t.currAllocResrc ∧
          t.pendingResrcQueue = []) ps ts' := by
  intro k
  induction k with
  | zero =>
    intro j ws ts r hjk hat h
    simp only [gradualRounds, Option.some.injEq] at h
    subst h
    refine ⟨j, ts, rfl, by omega, fun _ => by omega, hat.imp fun p t ht => ⟨ht.1, ?_⟩⟩
    -- nothing is left after the last round
    rw [ht.2, List.drop_eq_nil_of_le]
    rw [gradualSchedule_length]
    omega
  | succ k ih =>
    intro j ws ts r hjk hat h
    cases ws with
    | nil => simp [gradualRounds] at h
    | cons w ws =>
      simp only [gradualRounds] at h
      cases hw : gradualWait w.polls ((List.range ts.length).filter fun j => !w.warm j) with
      | none => simp [hw] at h
      | some warm =>
        cases warm with
        | false =>
          -- the deadline: the queues are cleared, each tenant where it is
          simp only [hw, Option.some.injEq] at h
          subst h
          refine ⟨j, _, rfl, by omega,
            fun hd => absurd hw (gradualWait_ne_false (hd w List.mem_cons_self)), ?_⟩
          exact List.forall₂_map_right_iff.mpr (hat.imp fun p t ht => ⟨ht.1, rfl⟩)
        | true =>
          -- every cache is warm: every tenant takes its next round
          obtain ⟨ts₁, h₁, hat₁⟩ :=
            mapM_applyNextPendingResrc (j := j + 1) (by omega) (hat.imp fun _ _ ht => ht.2)
          simp only [hw, h₁] at h
          obtain ⟨j', ts', hr, hj', hdl, hfin⟩ := ih (by omega) hat₁ h
          exact ⟨j', ts', hr, hj', fun hd => hdl fun w' hw' => hd w' (List.mem_cons_of_mem _ hw'), hfin⟩

/-- Tenants each left with nothing pending are settled. -/
theorem Settled.of_forall₂ {α : Type} {R : α → TenantAlloc F → Prop} {l : List α} {ts : List (TenantAlloc F)}
    (h : List.Forall₂ (fun a t => R a t ∧ t.pendingResrcQueue = []) l ts) : Settled ts := by
  induction h with
  | nil => exact fun t ht => absurd ht List.not_mem_nil
  | cons hat _ ih =>
    intro t ht
    rcases List.mem_cons.mp ht with rfl | ht
    exacts [hat.2, ih t ht]

theorem forall₂_zip_snd {α β γ : Type} {R : β → γ → Prop} {as : List α} {bs : List β} {cs : List γ}
    (hlen : as.length = bs.length) (h : List.Forall₂ (fun p c => R p.2 c) (as.zip bs) cs) :
    List.Forall₂ R bs cs := by
  rw [← List.map_snd_zip (le_of_eq hlen.symm)]
  exact List.forall₂_map_left_iff.mpr h

/-- `direct_apply` leaves each tenant at its result, as it is. -/
theorem directApply_outcome :
    ∀ {ts : List (TenantAlloc F)} {rs : List (ResrcTuple F)}, Settled ts → ts.length = rs.length →
      List.Forall₂ (fun res t => t.currAllocResrc = res ∧ t.pendingResrcQueue = []) rs (directApply ts rs)
  | [], [], _, _ => .nil
  | t :: ts, r :: rs, hs, hlen =>
    .cons ⟨rfl, hs t List.mem_cons_self⟩
      (directApply_outcome (fun t ht => hs t (List.mem_cons_of_mem _ ht)) (by simpa using hlen))

/-- `max` in `gradual_apply` raises only on no tenants. -/
theorem maxCacheDelta_eq_ok {ts : List (TenantAlloc F)} (hne : ts ≠ []) (hlen : ts.length = results.length) :
    ∃ d, maxCacheDelta ts results = .ok d := by
  cases hm : ((ts.zip results).map fun p => (p.2.cacheSize - p.1.currAllocResrc.cacheSize).natAbs).max? with
  | none =>
    rw [List.max?_eq_none_iff, List.map_eq_nil_iff, List.zip_eq_nil_iff] at hm
    rcases hm with hm | hm
    · exact absurd hm hne
    · exact absurd (hlen.trans (by rw [hm])) (by simpa using hne)
  | some d => exact ⟨d, by rw [maxCacheDelta, hm]⟩

/-- `gradual_apply`, when it returns, leaves every tenant at one round of its
    schedule with nothing pending, the last unless a wait saw the
    deadline. -/
theorem gradualApply_outcome {e : ℤ} (he : e ≠ 0) {ts : List (TenantAlloc F)} (hs : Settled ts)
    (hne : ts ≠ []) (hlen : ts.length = results.length) {waits : List Wait}
    {r : Except String (List (TenantAlloc F))} (h : gradualApply m e ts results waits = some r) :
    ∃ n j' ts', r = .ok ts' ∧ j' ≤ (n - 1).toNat ∧
      ((∀ w ∈ waits, ∀ p ∈ w.polls, p.deadline = false) → j' = (n - 1).toNat) ∧
      List.Forall₂ (fun p t => (gradualSchedule m n p)[j']? = some t.currAllocResrc ∧
        t.pendingResrcQueue = []) (ts.zip results) ts' := by
  obtain ⟨d, hd⟩ := maxCacheDelta_eq_ok hne hlen
  obtain ⟨n, hn⟩ : ∃ n, numRounds (F := F) d e = .ok n := ⟨_, by rw [numRounds, if_neg he]⟩
  -- the first round: every tenant takes the first allocation of its schedule
  obtain ⟨ts₁, h₁, hat₁⟩ := mapM_applyNextPendingResrc (j := 0) (by omega)
    ((queueGradual_forall₂ m n hs hlen).imp fun _ _ ht => by rw [ht.2, List.drop_zero])
  simp only [gradualApply, hd, hn, h₁, bind, Except.bind, pure, Except.pure] at h
  -- with one round `gradual_apply` returns at once, as the rounds after it do when there are none
  have hr : gradualRounds (n - 1).toNat waits ts₁ = some r := by
    split_ifs at h with h1
    · rw [h1]
      exact h
    · exact h
  exact ⟨n, gradualRounds_outcome m n _ (by omega) hat₁ hr⟩

/-- The last round of a tenant's schedule is its result with the minimum
    enforced. -/
theorem gradualSchedule_getElem?_last (m : MinResrc F) (n : ℤ) (p : TenantAlloc F × ResrcTuple F) :
    (gradualSchedule m n p)[(n - 1).toNat]? = some (enforceMinResrc m p.2) := by
  have h := List.getLast?_eq_getElem? (l := gradualSchedule m n p)
  rw [gradualSchedule_length, Nat.add_sub_cancel] at h
  rw [← h, gradualSchedule, List.getLast?_map, gradualSteps_getLast?]
  rfl

/-- `post_alloc_apply` from tenants with nothing pending, when it returns:
    asked to both boost and apply gradually it raises; otherwise it leaves
    nothing pending, and every tenant at its result (with the minimum
    enforced unless the apply is direct) unless a wait of `gradual_apply` saw
    the deadline, in which case every tenant is at one round of its
    schedule. -/
theorem postAllocApply_outcome (m : MinResrc F) {ts : List (TenantAlloc F)} {boost gradual : Bool}
    {polls : List Turn} {waits : List Wait} {r : Except String (List (TenantAlloc F))}
    (hs : Settled ts) (hlen : ts.length = results.length) (hne : gradual = true → ts ≠ [])
    (h : postAllocApply m ts results boost gradual polls waits = some r) :
    (boost = true ∧ gradual = true → r = .error assertionError) ∧
    (¬(boost = true ∧ gradual = true) → ∃ ts', r = .ok ts' ∧ Settled ts' ∧
      ((gradual = false ∨ ∀ w ∈ waits, ∀ p ∈ w.polls, p.deadline = false) →
        List.Forall₂ (fun res t => t.currAllocResrc =
          if boost || gradual then enforceMinResrc m res else res) results ts') ∧
      (gradual = true → ∃ (n : ℤ) (j : ℕ), List.Forall₂ (fun p t => (gradualSchedule m n p)[j]? = some t.currAllocResrc)
        (ts.zip results) ts')) := by
  cases boost <;> cases gradual <;> simp only [postAllocApply, Bool.and_true, Bool.and_false,
    Bool.not_false, Bool.not_true, Bool.false_eq_true, if_true, if_false,
    Option.some.injEq] at h
  · -- direct_apply
    subst h
    have hd := directApply_outcome hs hlen
    exact ⟨nofun, fun _ => ⟨_, rfl, Settled.of_forall₂ hd, fun _ => hd.imp fun _ _ h => h.1, nofun⟩⟩
  · -- gradual_apply
    obtain ⟨n, j, ts', rfl, -, hdl, hat⟩ := gradualApply_outcome (by decide) hs (hne rfl) hlen h
    refine ⟨nofun, fun _ => ⟨ts', rfl, Settled.of_forall₂ hat, fun hd => ?_, fun _ => ⟨n, j, hat.imp fun _ _ h => h.1⟩⟩⟩
    have hj := hdl (hd.resolve_left (by decide))
    subst hj
    exact forall₂_zip_snd hlen (hat.imp fun p t h => by
      rw [gradualSchedule_getElem?_last, Option.some.injEq] at h
      simp [h.1])
  · -- boost_apply
    obtain ⟨ts', rfl, hb⟩ := boostApply_outcome hs hlen.symm h
    exact ⟨nofun, fun _ => ⟨ts', rfl, Settled.of_forall₂ hb,
      fun _ => hb.imp fun _ _ h => by simp [h.1], nofun⟩⟩
  · -- both asked for
    exact ⟨fun _ => h.symm, fun hb => absurd ⟨rfl, rfl⟩ hb⟩

theorem postAllocApply_outcome_boost :
    let m : MinResrc ℚ := ⟨⟨1024 * 1024, by decide⟩, 1, 1, 1⟩
    let ts : List (TenantAlloc ℚ) := [⟨⟨0, 5, 5, 5⟩, ⟨0, 5, 5, 5⟩, []⟩]
    let results : List (ResrcTuple ℚ) := [⟨40 * 1024 * 1024, 2, 2, 2⟩]
    let polls : List Turn := [⟨false, fun _ => true⟩]
    let r := (postAllocApply m ts results true false polls []).getD (.error "")
    Settled ts ∧ ts.length = results.length ∧ postAllocApply m ts results true false polls [] = some r ∧
    (true = true ∧ false = true → r = .error assertionError) ∧
    (¬(true = true ∧ false = true) → ∃ ts', r = .ok ts' ∧ Settled ts' ∧
      ((false = false ∨ ∀ w ∈ ([] : List Wait), ∀ p ∈ w.polls, p.deadline = false) →
        List.Forall₂ (fun res t => t.currAllocResrc =
          if true || false then enforceMinResrc m res else res) results ts') ∧
      (false = true → ∃ (n : ℤ) (j : ℕ), List.Forall₂
        (fun p t => (gradualSchedule m n p)[j]? = some t.currAllocResrc) (ts.zip results) ts')) := by
  intro m ts results polls r
  have hs : Settled ts := by
    intro t ht
    rw [List.mem_singleton] at ht
    rw [ht]
  obtain ⟨r', hr'⟩ := Option.isSome_iff_exists.mp
    (show (postAllocApply m ts results true false polls []).isSome = true by decide +kernel)
  have h : postAllocApply m ts results true false polls [] = some r := by
    simp only [r, hr', Option.getD_some]
  exact ⟨hs, rfl, h, postAllocApply_outcome m hs rfl (by simp) h⟩

/-- `post_alloc_apply` from tenants with nothing pending, when it returns
    and is not asked to both boost and apply gradually, raises nothing and
    leaves as many tenants, with nothing pending. -/
theorem postAllocApply_settled {ts : List (TenantAlloc F)} {boost gradual : Bool} {polls : List Turn}
    {waits : List Wait} {r : Except String (List (TenantAlloc F))}
    (hs : Settled ts) (hlen : ts.length = results.length) (hne : gradual = true → ts ≠ [])
    (hb : ¬(boost = true ∧ gradual = true))
    (h : postAllocApply m ts results boost gradual polls waits = some r) :
    ∃ ts', r = .ok ts' ∧ Settled ts' ∧ ts'.length = ts.length := by
  cases boost <;> cases gradual <;> simp only [postAllocApply, Bool.and_true, Bool.and_false,
    Bool.not_false, Bool.not_true, Bool.false_eq_true, if_true, if_false,
    Option.some.injEq] at h
  · subst h
    have hd := directApply_outcome hs hlen
    exact ⟨_, rfl, Settled.of_forall₂ hd, hd.length_eq.symm.trans hlen.symm⟩
  · obtain ⟨n, j, ts', rfl, -, -, hat⟩ := gradualApply_outcome (by decide) hs (hne rfl) hlen h
    refine ⟨ts', rfl, Settled.of_forall₂ hat, ?_⟩
    rw [← hat.length_eq, List.length_zip, hlen, min_self]
  · obtain ⟨ts', rfl, hd⟩ := boostApply_outcome hs hlen.symm h
    exact ⟨ts', rfl, Settled.of_forall₂ hd, hd.length_eq.symm.trans hlen.symm⟩
  · exact absurd ⟨rfl, rfl⟩ hb

end Outcome

/-! ## Epochs -/

section Epochs

/-- One epoch of the driver's loop (`run.py`) for the tenants: the apply
    skipped (a tenant not ready, `skip_apply`, or too small a gain), or the
    allocator's results applied with `post_alloc_apply`, given what its
    waits observe. -/
inductive Epoch (F : Type) where
  | skip
  | apply (results : List (ResrcTuple F)) (polls : List Turn) (waits : List Wait)

/-- The driver's epochs with its flags `boost` and `gradual`, on the tenants
    or on the exception that an apply raised. An apply is given one result
    for each tenant, as `get_alloc_result` returns. -/
def applySystem [FloorRing F] (m : MinResrc F) (boost gradual : Bool) :
    Transition.System (Except String (List (TenantAlloc F))) (Epoch F) where
  enabled s e := match s, e with
    | .ok _, .skip => true
    | .ok ts, .apply results _ _ => results.length == ts.length
    | .error _, _ => false
  handle s e := match s, e with
    | .ok ts, .skip => some (.ok ts)
    | .ok ts, .apply results polls waits => postAllocApply m ts results boost gradual polls waits
    | .error e, _ => some (.error e)

/-- Over every sequence of epochs from tenants with nothing pending, with
    the driver's flags not both set and a tenant at least when it applies
    gradually, no apply raises and none leaves an allocation pending. -/
theorem applies_safe [FloorRing F] (m : MinResrc F) {boost gradual : Bool}
    (hb : ¬(boost = true ∧ gradual = true)) {ts₀ : List (TenantAlloc F)} (hs₀ : Settled ts₀)
    (hne : gradual = true → ts₀ ≠ []) {s : Except String (List (TenantAlloc F))}
    (h : (applySystem m boost gradual).Reachable (.ok ts₀) s) :
    ∃ ts, s = .ok ts ∧ Settled ts ∧ ts.length = ts₀.length := by
  refine Transition.System.Reachable.inv (fun s => ∃ ts, s = .ok ts ∧ Settled ts ∧ ts.length = ts₀.length)
    ⟨ts₀, rfl, hs₀, rfl⟩ ?_ h
  rintro s s' e - ⟨ts, rfl, hs, hlen⟩ he hh
  cases e with
  | skip =>
    cases hh
    exact ⟨ts, rfl, hs, hlen⟩
  | apply results polls waits =>
    -- the apply's precondition, one result a tenant, is what the epoch is enabled on
    have hres : results.length = ts.length := by simpa [applySystem] using he
    obtain ⟨ts', rfl, hs', hlen'⟩ := postAllocApply_settled hs hres.symm
      (fun hg => by rw [← List.length_pos_iff, hlen, List.length_pos_iff]; exact hne hg) hb hh
    exact ⟨ts', rfl, hs', hlen'.trans hlen⟩

theorem applies_safe_boostEpochs :
    let m : MinResrc ℚ := ⟨⟨1024 * 1024, by decide⟩, 1, 1, 1⟩
    let ts₀ : List (TenantAlloc ℚ) := [⟨⟨0, 5, 5, 5⟩, ⟨0, 5, 5, 5⟩, []⟩]
    let es : List (Epoch ℚ) :=
      [.skip, .apply [⟨40 * 1024 * 1024, 2, 2, 2⟩] [⟨false, fun _ => true⟩] []]
    let s := ((applySystem m true false).run (.ok ts₀) es).getD (.ok ts₀)
    ¬(true = true ∧ false = true) ∧ Settled ts₀ ∧ (false = true → ts₀ ≠ []) ∧
      (applySystem m true false).Reachable (.ok ts₀) s ∧
      ∃ ts, s = .ok ts ∧ Settled ts ∧ ts.length = ts₀.length := by
  intro m ts₀ es s
  have hs₀ : Settled ts₀ := by
    intro t ht
    rw [List.mem_singleton] at ht
    rw [ht]
  have h : (applySystem m true false).Reachable (.ok ts₀) s :=
    Transition.System.reachable_run_getD (by decide +kernel)
  exact ⟨by decide, hs₀, by simp, h, applies_safe m (by decide) hs₀ (by simp) h⟩

end Epochs

end Controller
