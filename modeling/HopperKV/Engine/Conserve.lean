-- SUMMARY: do_alloc keeps what the tenants hold: collect_idle, the trading loop and memshare move resources and cache between the tenants and resrc_avail, so with conserving redistribution the tenants end with all of total_resrc.stateless, or all of it but an almost-empty rest, in shares that are never negative, and the uint64_t sum of their cache sizes never changes.
import HopperKV.Engine.Order
import Mathlib

/-!
# Conservation

`total_resrc` is the sum of the base resources that `add_tenant` registered,
and no phase of `do_alloc` changes it. What the phases change is how it is
split between the tenants and `resrc_avail` (`Conserved`):

* `collect_idle` moves what a tenant does not use to `resrc_avail`
  (`Accepted.collect_held_add`);
* a trade moves `db_rcu` and `net_bw` between the partners and
  `resrc_avail` (`HarvestInv.avail`, the invariant of the trading loop);
* conserving redistribution hands all of `resrc_avail` back, each field in
  proportion to what a tenant holds of its sum, or evenly when that sum is
  `0` (`sum_ownedShare`), and never leaves a tenant with a negative amount
  (`ownedShare_nonneg`).

`doAlloc_conserves` puts the phases together. Cache moves `cache_delta` at a
time from one tenant to another, in the trading loop and in memshare, so the
`uint64_t` sum of the cache sizes is the same after `do_alloc`
(`doAlloc_cacheTotal`).
-/

namespace Hare

open Ieee StatelessResrcVec

set_option linter.unusedSectionVars false

variable {F : Type} [Field F] [LinearOrder F] [IsStrictOrderedRing F]

/-! ## Shares in proportion to what is owned -/

/-- The part of a field of `avail` that `scale_stateless_resrc_by_owned`
    gives a tenant that holds `h` of the sum `S`: its part of the sum, or one
    of `n` even parts when the sum is `0`. -/
def ownedShare (n : ℕ) (S h : F) : F := if S = 0 then 1 / n else h / S

/-- The parts of the tenants make up the whole. -/
theorem sum_ownedShare {ι : Type*} (l : List ι) (h : ι → F) (hl : l ≠ []) :
    (l.map fun i => ownedShare l.length (l.map h).sum (h i)).sum = 1 := by
  by_cases hS : (l.map h).sum = 0
  case pos =>
    -- `n` even parts
    have hn : (l.length : F) ≠ 0 := Nat.cast_ne_zero.mpr (List.length_pos_iff.mpr hl).ne'
    simp only [ownedShare, hS, if_true, List.map_const', List.sum_replicate, nsmul_eq_mul]
    field_simp
  case neg =>
    simp only [ownedShare, hS, if_false, div_eq_mul_inv, List.sum_map_mul_right]
    exact mul_inv_cancel₀ hS

/-- A tenant that holds `0 ≤ h ≤ S` of a total `T ≥ 0` ends with `h` and its
    part of `T - S`, which is `h * T / S`, or an even part of `T` when
    `S = 0`: never a negative amount, even when `T < S`. -/
theorem ownedShare_nonneg {n : ℕ} {S h T : F} (hh : 0 ≤ h) (hhS : h ≤ S) (hT : 0 ≤ T) :
    0 ≤ h + (T - S) * ownedShare n S h := by
  unfold ownedShare
  split_ifs with hS
  case pos =>
    have h0 : h = 0 := le_antisymm (hS ▸ hhS) hh
    rw [h0, hS, zero_add, sub_zero]
    positivity
  case neg =>
    have hSpos : 0 < S := lt_of_le_of_ne (hh.trans hhS) (Ne.symm hS)
    have heq : h + (T - S) * (h / S) = h * T / S := by
      field_simp
      ring
    rw [heq]
    positivity

/-- A field of a sum of vectors is the sum of the fields. -/
theorem sum_map_apply {ι : Type*} (l : List ι) (f : ι → Res → F) (r : Res) :
    (l.map f).sum r = (l.map fun i => f i r).sum := by
  rw [Pi.list_sum_apply, List.map_map]
  rfl

/-! ## One tenant -/

namespace Tenant

variable {p : Params} {t : Tenant F}

theorem ownedFactor_fin {n : ℕ} (hn : n ≠ 0) (S h : F) :
    ownedFactor (fin h) (fin S) n = fin (ownedShare n S h) := by
  unfold ownedFactor ownedShare
  by_cases hS : S = 0
  case pos => simp [hS, fin_div_fin (Nat.cast_ne_zero.mpr hn : (n : F) ≠ 0)]
  case neg => simp [hS, fin_div_fin hS]

/-- `scale_stateless_resrc_by_owned` on finite vectors: the tenant gets its
    part of every field of `avail`. -/
theorem Ok.scaleStatelessResrcByOwned_stateless (ht : t.Ok) (A S : Res → F) {n : ℕ}
    (hn : n ≠ 0) :
    (t.scaleStatelessResrcByOwned (ofFun A) (ofFun S) n).resrc.stateless =
      ofFun fun r => t.held r + A r * ownedShare n (S r) (t.held r) := by
  unfold scaleStatelessResrcByOwned
  rw [ht.held_eq]
  simp only [ofFun_dbRcu, ofFun_dbWcu, ofFun_netBw, ownedFactor_fin hn, fin_mul_fin, fin_add_fin]
  rfl

@[simp] theorem scaleStatelessResrcByOwned_cacheSize (A S : StatelessResrcVec F) (n : ℕ) :
    (t.scaleStatelessResrcByOwned A S n).resrc.cacheSize = t.resrc.cacheSize := rfl

@[simp] theorem scaleStatelessResrc_cacheSize (k : Ieee F) :
    (t.scaleStatelessResrc k).resrc.cacheSize = t.resrc.cacheSize := rfl

@[simp] theorem collectIdle_cacheSize : (t.collectIdle p).1.resrc.cacheSize = t.resrc.cacheSize :=
  rfl

@[simp] theorem updateRcuNetDelta_cacheSize :
    (t.updateRcuNetDelta p).resrc.cacheSize = t.resrc.cacheSize := by
  rw [(requoted_updateRcuNetDelta p t).resrc]

@[simp] theorem relinqSide_cacheSize (ρ ν : Ieee F) :
    (relinqSide p ρ ν t).resrc.cacheSize = t.resrc.cacheSize + p.cacheDelta := rfl

@[simp] theorem compenSide_cacheSize (κ μ : Ieee F) :
    (compenSide p κ μ t).resrc.cacheSize = t.resrc.cacheSize - p.cacheDelta := rfl

end Tenant

namespace TenantArgs

variable {p : Params} {x : TenantArgs F}

/-- `collect_idle` on an accepted tenant splits what it holds between what it
    keeps and what it gives back. -/
theorem Accepted.collect_held_add (hx : x.Accepted p) :
    (x.tenant.collectIdle p).1.held + (x.tenant.collectIdle p).2.val = x.tenant.held := by
  obtain ⟨tp, -, -, -, h₁, h₂⟩ := hx.ok.collectIdle_exact hx.pos hx.demand
  rw [h₂, val_ofFun, h₁]
  funext r
  simp [Tenant.held]

end TenantArgs

namespace Allocator

variable {p : Params}

/-! ## The split of the total between the tenants and `resrc_avail` -/

/-- The `n` tenants of `b` are `Ok`, `total_resrc` holds `T`, and
    `resrc_avail` what the tenants do not. -/
structure Conserved (T : Res → F) (n : ℕ) (b : Allocator F) (A : StatelessResrcVec F) : Prop where
  length : b.tenants.length = n
  ok : ∀ t ∈ b.tenants, t.Ok
  total : b.totalResrc.stateless = ofFun T
  avail : A = ofFun (T - (b.tenants.map Tenant.held).sum)

variable {T : Res → F} {n : ℕ} {b : Allocator F} {A : StatelessResrcVec F}

/-- What the tenants do not hold of `total_resrc` is `resrc_avail`. -/
theorem Conserved.total_sub (hc : Conserved T n b A) :
    b.totalResrc.stateless - ofFun (b.tenants.map Tenant.held).sum = A := by
  rw [hc.total, hc.avail, ofFun_sub]

/-- With nothing left in `resrc_avail`, the tenants hold all of
    `total_resrc`. -/
theorem Conserved.total_eq_of_zero (hc : Conserved T n b StatelessResrcVec.zero) :
    b.totalResrc.stateless = ofFun (b.tenants.map Tenant.held).sum := by
  have hTS : T - (b.tenants.map Tenant.held).sum = 0 :=
    ofFun_injective (hc.avail.symm.trans zero_eq_ofFun)
  rw [hc.total, sub_eq_zero.mp hTS]

/-- The total that `add_tenant` registers: the sum of the base resources. -/
theorem addTenants_total (harvest conserving : Bool) {xs : List (TenantArgs F)}
    (hacc : ∀ x ∈ xs, x.Accepted p) :
    ((Allocator.new harvest conserving false).addTenants xs).totalResrc.stateless =
      ofFun (xs.map fun x => x.tenant.held).sum := by
  have hzero : (Allocator.new harvest conserving false : Allocator F).totalResrc.stateless =
      ofFun 0 := rfl
  rw [addTenants_stateless, hzero, foldl_add_eq_ofFun (fun x => x.baseResrc.stateless) _
    fun x hx => (hacc x hx).ok.held_eq, zero_add]

/-- The collection phase on accepted tenants: they hold with `resrc_avail`
    what they held, and quote nothing of `net_bw` yet. -/
theorem collectIdle_conserved {xs : List (TenantArgs F)} (hb : b.tenants = xs.map TenantArgs.tenant)
    (htot : b.totalResrc.stateless = ofFun (xs.map fun x => x.tenant.held).sum)
    (hacc : ∀ x ∈ xs, x.Accepted p) :
    Conserved (xs.map fun x => x.tenant.held).sum xs.length (b.collectIdle p).1
        (b.collectIdle p).2 ∧
      ∀ t ∈ (b.collectIdle p).1.tenants, Tenant.NetZero p t := by
  have htenants : (b.collectIdle p).1.tenants = xs.map fun x => (x.tenant.collectIdle p).1 := by
    rw [collectIdle_tenants, hb, List.map_map]
    rfl
  have hcoll : ∀ t ∈ (b.collectIdle p).1.tenants, t.Ok ∧ Tenant.NetZero p t := fun t ht => by
    rw [htenants] at ht
    obtain ⟨x, hx, rfl⟩ := List.mem_map.mp ht
    exact ⟨(Tenant.collect_accepted (hacc x hx)).1, (Tenant.collect_accepted (hacc x hx)).2.1⟩
  have hfin : ∀ t ∈ b.tenants, (t.collectIdle p).2.IsFin := fun t ht => by
    rw [hb] at ht
    obtain ⟨x, hx, rfl⟩ := List.mem_map.mp ht
    exact (Tenant.collect_accepted (hacc x hx)).2.2
  -- what the tenants keep and what they give back add up to what they held
  have hsum : ((b.collectIdle p).1.tenants.map Tenant.held).sum +
      (b.tenants.map fun t => (t.collectIdle p).2.val).sum = (xs.map fun x => x.tenant.held).sum := by
    rw [htenants, hb, List.map_map, List.map_map, ← List.sum_map_add]
    exact congrArg List.sum (List.map_congr_left fun x hx => (hacc x hx).collect_held_add)
  refine ⟨⟨by rw [htenants, List.length_map], fun t ht => (hcoll t ht).1, htot, ?_⟩,
    fun t ht => (hcoll t ht).2⟩
  rw [collectIdle_snd hfin, ← hsum, add_sub_cancel_left]

/-- The trading loop keeps the split: each accepted deal moves resources
    between its partners and `resrc_avail` only. -/
theorem doHarvest_conserved (hn : 2 ≤ n) (hc : Conserved T n b A)
    (hnet : ∀ t ∈ b.tenants, Tenant.NetZero p t) :
    Conserved T n (b.doHarvest p A).1 (b.doHarvest p A).2 := by
  have hinv := harvestInit_inv (p := p) T hc.ok hnet
  rw [← hc.avail, hc.length] at hinv
  have hend := harvest_visits_inv hn hc.length hinv (Loop.bounded_visits Params.maxTradeRound _)
  exact ⟨hend.length, hend.ok, hc.total, hend.avail⟩

/-- Conserving redistribution hands all of `resrc_avail` to the tenants and
    leaves every one of them `Ok`, when the total is not negative. -/
theorem doRedistribute_conserved (hcons : b.policy.conserving = true) (hn : n ≠ 0)
    (hT : ∀ r, 0 ≤ T r) (hc : Conserved T n b A) :
    Conserved T n (b.doRedistribute A).2.1 (b.doRedistribute A).2.2 ∧
      (b.doRedistribute A).2.2 = StatelessResrcVec.zero := by
  set S := (b.tenants.map Tenant.held).sum
  have hbn : b.tenants ≠ [] := fun h => hn (by rw [← hc.length, h, List.length_nil])
  have hsum : b.totalResrc.stateless - A = ofFun S := by
    rw [hc.total, hc.avail, ofFun_sub, sub_sub_cancel]
  have hS : ∀ r, S r = (b.tenants.map fun t => t.held r).sum := sum_map_apply _ _
  -- what a tenant holds of a field is at most the sum of the field
  have hle : ∀ t ∈ b.tenants, ∀ r, t.held r ≤ S r := fun t ht r => by
    rw [hS r]
    exact List.single_le_sum (fun y hy => by
      obtain ⟨u, hu, rfl⟩ := List.mem_map.mp hy
      exact (hc.ok u hu).held_nonneg r) _ (List.mem_map_of_mem ht)
  have hstate : ∀ t ∈ b.tenants,
      (t.scaleStatelessResrcByOwned A (ofFun S) b.tenants.length).resrc.stateless =
        ofFun fun r => t.held r + (T r - S r) * ownedShare b.tenants.length (S r) (t.held r) :=
    fun t ht => by
      rw [hc.avail]
      exact (hc.ok t ht).scaleStatelessResrcByOwned_stateless _ _ (hc.length ▸ hn)
  unfold doRedistribute
  rw [hcons, if_pos rfl, hsum]
  refine ⟨⟨by rw [List.length_map, hc.length], fun t ht => ?_, hc.total, ?_⟩, rfl⟩
  · obtain ⟨u, hu, rfl⟩ := List.mem_map.mp ht
    exact (hc.ok u hu).withResrc _ (hstate u hu) fun r =>
      ownedShare_nonneg ((hc.ok u hu).held_nonneg r) (hle u hu r) (hT r)
  · -- every field of the sum is the field of `T`
    have hheld : ∀ u ∈ b.tenants,
        (u.scaleStatelessResrcByOwned A (ofFun S) b.tenants.length).held =
          fun r => u.held r + (T r - S r) * ownedShare b.tenants.length (S r) (u.held r) :=
      fun u hu => by rw [Tenant.held, hstate u hu, val_ofFun]
    have hfield : ∀ r, ((b.tenants.map fun u =>
        u.scaleStatelessResrcByOwned A (ofFun S) b.tenants.length).map Tenant.held).sum r = T r :=
      fun r => by
        have hmap : (b.tenants.map fun u =>
            (u.scaleStatelessResrcByOwned A (ofFun S) b.tenants.length).held r) =
            b.tenants.map fun u => u.held r + (T r - S r) * ownedShare b.tenants.length (S r) (u.held r) :=
          List.map_congr_left fun u hu => congrFun (hheld u hu) r
        calc _ = (b.tenants.map fun u =>
                (u.scaleStatelessResrcByOwned A (ofFun S) b.tenants.length).held r).sum := by
              rw [sum_map_apply, List.map_map]
              rfl
          _ = S r + (T r - S r) *
                (b.tenants.map fun u => ownedShare b.tenants.length (S r) (u.held r)).sum := by
              rw [hmap, List.sum_map_add, List.sum_map_mul_left, hS r]
          _ = T r := by
              rw [hS r, sum_ownedShare b.tenants (fun u => u.held r) hbn]
              ring
    have hT' : T - ((b.tenants.map fun u =>
        u.scaleStatelessResrcByOwned A (ofFun S) b.tenants.length).map Tenant.held).sum = 0 := by
      funext r
      rw [Pi.sub_apply, hfield r, sub_self, Pi.zero_apply]
    rw [hT']
    rfl

/-- The phases after memshare, from a split after collection: the tenants
    end with all of `total_resrc`, or with all but the almost-empty
    `resrc_avail` when redistribution is skipped. -/
theorem allocStateless_conserves (hn : 2 ≤ n) (hcons : b.policy.conserving = true)
    (hT : ∀ r, 0 ≤ T r) (hc : Conserved T n (b.collectIdle p).1 (b.collectIdle p).2)
    (hnet : ∀ t ∈ (b.collectIdle p).1.tenants, Tenant.NetZero p t) :
    (b.allocStateless p).2.tenants.length = n ∧ (∀ t ∈ (b.allocStateless p).2.tenants, t.Ok) ∧
      ((b.allocStateless p).2.totalResrc.stateless =
          ofFun ((b.allocStateless p).2.tenants.map Tenant.held).sum ∨
        ((b.allocStateless p).2.totalResrc.stateless -
          ofFun ((b.allocStateless p).2.tenants.map Tenant.held).sum).isAlmostEmpty = true) := by
  -- the split after the trading loop, when it runs
  have hH : ∃ H : Allocator F × StatelessResrcVec F,
      (if b.policy.harvest then (b.collectIdle p).1.doHarvest p (b.collectIdle p).2
        else b.collectIdle p) = H ∧ H.1.policy = b.policy ∧ Conserved T n H.1 H.2 := by
    cases b.policy.harvest
    case false => exact ⟨_, rfl, rfl, hc⟩
    case true => exact ⟨_, rfl, rfl, doHarvest_conserved hn hc hnet⟩
  obtain ⟨H, hHeq, hpol, hHc⟩ := hH
  unfold allocStateless
  dsimp only
  rw [hHeq]
  split
  case isTrue hempty =>
    exact ⟨hHc.length, hHc.ok, .inr (by rw [hHc.total_sub]; exact hempty)⟩
  case isFalse =>
    obtain ⟨hr, hzero⟩ := doRedistribute_conserved (hpol ▸ hcons) (by omega) hT hHc
    rw [hzero] at hr
    exact ⟨hr.length, hr.ok, .inl hr.total_eq_of_zero⟩

/-- `do_alloc` with conserving redistribution and memshare off, on two
    accepted tenants or more: every tenant ends `Ok`, so with finite,
    non-negative resources, and the tenants hold all of `total_resrc`, or
    all of it but an almost-empty rest. -/
theorem doAlloc_conserves (p : Params) (sort : StdAlgo.IeeeSort ℕ F) (fuel : ℕ) (harvest : Bool)
    {xs : List (TenantArgs F)} (hn : 2 ≤ xs.length) (hacc : ∀ x ∈ xs, x.Accepted p) :
    ∃ ρ b, ((Allocator.new harvest true false).addTenants xs).doAlloc p sort fuel = some (ρ, b) ∧
      b.tenants.length = xs.length ∧ (∀ t ∈ b.tenants, t.Ok) ∧
      (b.totalResrc.stateless = ofFun (b.tenants.map Tenant.held).sum ∨
        (b.totalResrc.stateless - ofFun (b.tenants.map Tenant.held).sum).isAlmostEmpty = true) := by
  set a := (Allocator.new harvest true false).addTenants xs
  have htenants : a.tenants = xs.map TenantArgs.tenant := addTenants_new_tenants harvest true xs
  have hpolicy : a.policy = ⟨harvest, true, false⟩ := addTenants_policy _ xs
  have hlen : ¬ a.tenants.length ≤ 1 := by
    rw [htenants, List.length_map]
    omega
  have hT : ∀ r, 0 ≤ (xs.map fun x => x.tenant.held).sum r := fun r => by
    rw [sum_map_apply]
    exact List.sum_nonneg fun y hy => by
      obtain ⟨x, hx, rfl⟩ := List.mem_map.mp hy
      exact (hacc x hx).ok.held_nonneg r
  obtain ⟨hc, hnet⟩ := collectIdle_conserved htenants (addTenants_total harvest true hacc) hacc
  refine ⟨(a.allocStateless p).1, (a.allocStateless p).2, ?_,
    allocStateless_conserves hn (by rw [hpolicy]) hT hc hnet⟩
  simp only [doAlloc, hlen, if_false, hpolicy, Bool.false_eq_true, Option.map_some]

/-- The tenants of `unitArgs` with the convex and the flat curve are
    accepted. -/
theorem convexFlat_accepted :
    ∀ x ∈ [unitArgs convexCurve, unitArgs flatCurve], x.Accepted Params.default := by
  intro x hx
  simp only [List.mem_cons, List.not_mem_nil, or_false] at hx
  rcases hx with rfl | rfl
  · exact unitArgs_accepted ⟨rfl, by decide, ⟨[4 / 5, 1 / 2, 3 / 10], rfl, by norm_num, by norm_num⟩⟩
  · exact unitArgs_accepted ⟨rfl, by decide, ⟨[1, 1, 1], rfl, by norm_num, by norm_num⟩⟩

example :
    2 ≤ [unitArgs convexCurve, unitArgs flatCurve].length ∧
      (∀ x ∈ [unitArgs convexCurve, unitArgs flatCurve], x.Accepted Params.default) ∧
      ∃ ρ b, ((Allocator.new true true false).addTenants
          [unitArgs convexCurve, unitArgs flatCurve]).doAlloc Params.default
          StdAlgo.IeeeSort.byInsertion 0 = some (ρ, b) ∧
        b.tenants.length = 2 ∧ (∀ t ∈ b.tenants, t.Ok) ∧
        (b.totalResrc.stateless = ofFun (b.tenants.map Tenant.held).sum ∨
          (b.totalResrc.stateless - ofFun (b.tenants.map Tenant.held).sum).isAlmostEmpty = true) :=
  ⟨by decide, convexFlat_accepted, doAlloc_conserves Params.default StdAlgo.IeeeSort.byInsertion 0
    true (by decide) convexFlat_accepted⟩

/-! ## The cache total -/

/-- The `uint64_t` sum of the tenants' cache sizes. -/
def cacheTotal (ts : List (Tenant F)) : U64 := (ts.map (·.resrc.cacheSize)).sum

/-- Updating every tenant without touching its cache keeps the total. -/
theorem cacheTotal_map (f : Tenant F → Tenant F)
    (hf : ∀ t, (f t).resrc.cacheSize = t.resrc.cacheSize) (ts : List (Tenant F)) :
    cacheTotal (ts.map f) = cacheTotal ts := by
  simp only [cacheTotal, List.map_map, Function.comp_def, hf]

/-- Moving cache from one tenant to another keeps the total. -/
theorem cacheTotal_modify_modify (f g : Tenant F → Tenant F) {ts : List (Tenant F)} {i j : ℕ}
    (hi : i < ts.length) (hj : j < ts.length) (hij : i ≠ j) (δ : U64)
    (hf : ∀ t, (f t).resrc.cacheSize = t.resrc.cacheSize + δ)
    (hg : ∀ t, (g t).resrc.cacheSize = t.resrc.cacheSize - δ) :
    cacheTotal ((ts.modify i f).modify j g) = cacheTotal ts := by
  have h := StdAlgo.sum_map_modify_modify (·.resrc.cacheSize) f g hi hj hij
  rw [hf, hg, add_add_sub_cancel] at h
  exact add_right_cancel h

theorem cacheTotal_relocateCache {ts : List (Tenant F)} {r d : ℕ} (hr : r < ts.length)
    (hd : d < ts.length) (hrd : r ≠ d) :
    cacheTotal (Tenant.relocateCache p ts r d) = cacheTotal ts :=
  cacheTotal_modify_modify _ _ hr hd hrd p.cacheDelta (fun _ => rfl) fun _ => rfl

theorem cacheTotal_tradeTenants {ts : List (Tenant F)} {r c : ℕ} (hr : r < ts.length)
    (hc : c < ts.length) (hrc : r ≠ c) :
    cacheTotal (tradeTenants p ts r c) = cacheTotal ts := by
  rw [tradeTenants_eq p hr hc hrc]
  exact cacheTotal_modify_modify _ _ hr hc hrc p.cacheDelta (fun t => by simp) fun t => by simp

/-- A round of memshare keeps the number of tenants and the cache total. -/
theorem memshareRound_cacheTotal (sort : StdAlgo.IeeeSort ℕ F) {s s' : List (Tenant F) × List ℕ}
    (h : memshareRound p sort s = .done s' ∨ memshareRound p sort s = .next s') :
    s'.1.length = s.1.length ∧ cacheTotal s'.1 = cacheTotal s.1 := by
  have hmap : cacheTotal (s.1.map (Tenant.updateMrDelta p)) = cacheTotal s.1 :=
    cacheTotal_map _ (fun _ => by simp) _
  rcases h with h | h
  case inl =>
    -- a round that breaks only recomputes the deltas
    unfold memshareRound at h
    dsimp only at h
    split at h
    case h_1 =>
      cases h
      exact ⟨List.length_map _, hmap⟩
    case h_2 =>
      split at h
      · cases h
      · cases h
        exact ⟨List.length_map _, hmap⟩
  case inr =>
    obtain ⟨ts, L, d, rfl, -, hd, -, rfl⟩ := memshareRound_eq_next h
    obtain ⟨hdr, -, hdn, -⟩ := memshareDonator_spec hd
    have hne : s.1.map (Tenant.updateMrDelta p) ≠ [] := List.ne_nil_of_length_pos (by omega)
    refine ⟨by rw [Tenant.length_relocateCache, List.length_map], ?_⟩
    rw [cacheTotal_relocateCache (memshareReceiver_lt hne) hdn (Ne.symm hdr), hmap]

/-- The shape of a state of the trading loop that its partners need: `n`
    tenants, and compensation lists that are permutations of them. -/
structure HarvestShape (p : Params) (n : ℕ) (s : HarvestState F) : Prop where
  length : s.tenants.length = n
  rcu : s.rcuCompenList.Perm (harvestLists p n).1
  net : s.netCompenList.Perm (harvestLists p n).2

/-- A round of the trading loop keeps the shape and the cache total. -/
theorem harvestBody_cacheTotal (hn : 2 ≤ n) {a : Allocator F} (hlen : a.tenants.length = n)
    {s s' : HarvestState F} (hs : HarvestShape p n s)
    (h : harvestBody p a s = .done s' ∨ harvestBody p a s = .next s') :
    HarvestShape p n s' ∧ cacheTotal s'.tenants = cacheTotal s.tenants := by
  unfold harvestBody harvestRound at h
  rw [hlen] at h
  cases hpick : harvestPick p (harvestLists p n).1 (harvestLists p n).2 s with
  | none =>
    rw [hpick] at h
    rcases h with h | h <;> cases h
    exact ⟨hs, rfl⟩
  | some deal =>
    obtain ⟨r, c, rl, nl⟩ := deal
    obtain ⟨hr, hc, hrc, hrl, hnl⟩ := harvestPick_spec hn hs.rcu hs.net hpick
    rw [hpick] at h
    dsimp only at h
    split_ifs at h
    case pos =>
      rcases h with h | h <;> cases h
      exact ⟨⟨hs.length, hrl, hnl⟩, rfl⟩
    case neg =>
      -- an accepted deal moves `cache_delta` from the compensator to the relinquisher
      rcases h with h | h <;> cases h
      exact ⟨⟨by rw [length_tradeTenants, hs.length], hrl, hnl⟩,
        cacheTotal_tradeTenants (hs.length ▸ hr) (hs.length ▸ hc) hrc⟩

theorem doHarvest_cacheTotal {b : Allocator F} (hn : 2 ≤ b.tenants.length) (A : StatelessResrcVec F) :
    cacheTotal (b.doHarvest p A).1.tenants = cacheTotal b.tenants := by
  have hinit : HarvestShape p b.tenants.length (harvestInit p b A) :=
    ⟨by simp [harvestInit], List.Perm.refl _, List.Perm.refl _⟩
  -- the invariant: the shape, and the cache total of the tenants before trading
  have hend := Loop.Visits.inv
    (fun s => HarvestShape p b.tenants.length s ∧ cacheTotal s.tenants = cacheTotal b.tenants)
    (fun _ _ hs hb => ⟨(harvestBody_cacheTotal hn rfl hs.1 (.inl hb)).1,
      (harvestBody_cacheTotal hn rfl hs.1 (.inl hb)).2.trans hs.2⟩)
    (fun _ _ hs hb => ⟨(harvestBody_cacheTotal hn rfl hs.1 (.inr hb)).1,
      (harvestBody_cacheTotal hn rfl hs.1 (.inr hb)).2.trans hs.2⟩)
    ⟨hinit, cacheTotal_map _ (fun _ => by simp) _⟩
    (Loop.bounded_visits Params.maxTradeRound _)
  exact hend.2

theorem collectIdle_cacheTotal (b : Allocator F) :
    cacheTotal (b.collectIdle p).1.tenants = cacheTotal b.tenants := by
  rw [collectIdle_tenants]
  exact cacheTotal_map (fun t => (t.collectIdle p).1) (fun _ => rfl) b.tenants

theorem doRedistribute_cacheTotal (b : Allocator F) (A : StatelessResrcVec F) :
    cacheTotal (b.doRedistribute A).2.1.tenants = cacheTotal b.tenants := by
  unfold doRedistribute
  dsimp only
  split
  · exact cacheTotal_map (·.scaleStatelessResrcByOwned _ _ _) (fun _ => rfl) b.tenants
  · exact cacheTotal_map (·.scaleStatelessResrc _) (fun _ => rfl) b.tenants

/-- The phases after memshare keep the cache total. -/
theorem allocStateless_cacheTotal {b : Allocator F} (hn : 2 ≤ b.tenants.length) :
    cacheTotal (b.allocStateless p).2.tenants = cacheTotal b.tenants := by
  have hclen : (b.collectIdle p).1.tenants.length = b.tenants.length := by
    rw [collectIdle_tenants, List.length_map]
  have hH : ∃ H : Allocator F × StatelessResrcVec F,
      (if b.policy.harvest then (b.collectIdle p).1.doHarvest p (b.collectIdle p).2
        else b.collectIdle p) = H ∧ cacheTotal H.1.tenants = cacheTotal b.tenants := by
    refine ⟨_, rfl, ?_⟩
    split
    · rw [doHarvest_cacheTotal (hclen ▸ hn), collectIdle_cacheTotal]
    · exact collectIdle_cacheTotal b
  obtain ⟨H, hHeq, hH⟩ := hH
  unfold allocStateless
  dsimp only
  rw [hHeq]
  split
  · exact hH
  · rw [doRedistribute_cacheTotal]
    exact hH

/-- A run of memshare that ends keeps the number of tenants and the cache
    total. -/
theorem doMemshare_cacheTotal (sort : StdAlgo.IeeeSort ℕ F) (fuel : ℕ) {a a' : Allocator F}
    (h : a.doMemshare p sort fuel = some a') :
    a'.tenants.length = a.tenants.length ∧ cacheTotal a'.tenants = cacheTotal a.tenants := by
  obtain ⟨s, hrun, rfl⟩ := Option.map_eq_some_iff.mp h
  exact Loop.run_inv
    (fun s => s.1.length = a.tenants.length ∧ cacheTotal s.1 = cacheTotal a.tenants)
    (fun _ _ hs hb => (memshareRound_cacheTotal sort (.inl hb)).imp (·.trans hs.1) (·.trans hs.2))
    (fun _ _ hs hb => (memshareRound_cacheTotal sort (.inr hb)).imp (·.trans hs.1) (·.trans hs.2))
    fuel _ s ⟨rfl, rfl⟩ hrun

/-- Every run of `do_alloc` that returns, with any policy, leaves the
    `uint64_t` sum of the tenants' cache sizes as it found it. -/
theorem doAlloc_cacheTotal (p : Params) (sort : StdAlgo.IeeeSort ℕ F) (fuel : ℕ) (a : Allocator F)
    {ρ : Ieee F} {b : Allocator F} (h : a.doAlloc p sort fuel = some (ρ, b)) :
    cacheTotal b.tenants = cacheTotal a.tenants := by
  unfold doAlloc at h
  split at h
  case isTrue =>
    cases h
    rfl
  case isFalse hlen =>
    obtain ⟨a', ha', hb⟩ := Option.map_eq_some_iff.mp h
    -- the allocator that memshare leaves, if it runs
    have hm : a'.tenants.length = a.tenants.length ∧ cacheTotal a'.tenants = cacheTotal a.tenants := by
      split at ha'
      · exact doMemshare_cacheTotal sort fuel ha'
      · cases ha'
        exact ⟨rfl, rfl⟩
    have hb' : b = (a'.allocStateless p).2 := by rw [hb]
    rw [hb', allocStateless_cacheTotal (by omega), hm.2]

theorem doAlloc_cacheTotal_convexFlat :
    ((Allocator.new true true false).addTenants [unitArgs convexCurve, unitArgs flatCurve]).doAlloc
        Params.default StdAlgo.IeeeSort.byInsertion 0 =
      some ((((Allocator.new true true false).addTenants
          [unitArgs convexCurve, unitArgs flatCurve]).allocStateless Params.default).1,
        (((Allocator.new true true false).addTenants
          [unitArgs convexCurve, unitArgs flatCurve]).allocStateless Params.default).2) ∧
      cacheTotal (((Allocator.new true true false).addTenants
          [unitArgs convexCurve, unitArgs flatCurve]).allocStateless Params.default).2.tenants =
        cacheTotal ((Allocator.new true true false).addTenants
          [unitArgs convexCurve, unitArgs flatCurve]).tenants :=
  ⟨rfl, doAlloc_cacheTotal Params.default StdAlgo.IeeeSort.byInsertion 0 _ rfl⟩

end Allocator

end Hare
