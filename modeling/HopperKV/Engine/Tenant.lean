-- SUMMARY: hare::Tenant (tenant.h): its state, collect_idle (exact and with each double operation rounded), the relinquish and compensation quotes of a cache trade, update_mr_delta and can_donate of memshare, and the two static relocations.
import HopperKV.Engine.Mrc

/-!
# Tenants

`hare::Tenant` holds a demand vector, the resources it is allocated, its
miss-ratio curve, and the quotes that the allocator reads:
`pred_rcu_net_delta_if_more_cache` and `pred_rcu_net_delta_if_less_cache`
compute how much `db_rcu` and `net_bw` a tenant gives back for `cache_delta`
more bytes of cache and asks for with `cache_delta` fewer, and
`update_mr_delta` computes the changes of its miss ratio that `do_memshare`
compares.

Every query of the curve goes through the memoised `get_miss_ratio`, so each
function returns the tenant with its updated curve. `t_idx` only names the
tenant in log lines and is left out.

The static functions `relocate_cache` and `relocate_resrc` take two references
into the allocator's vector of tenants. They act here on that vector, at two
positions, in the order of the source; when both positions are the same the
updates compose as they do on one object.
-/

namespace Hare

open Ieee

set_option linter.unusedSectionVars false

variable {F : Type} [Field F] [LinearOrder F]

/-- `hare::Tenant`, without `t_idx`. -/
structure Tenant (F : Type) [Field F] [LinearOrder F] where
  /-- `demand_cacheless`: the demand vector without cache hits. -/
  demandCacheless : StatelessResrcVec F
  resrc : ResrcVec F
  mrc : MissRatioCurve F
  netBwAlpha : Ieee F
  rcuDeltaRelinq : Ieee F
  rcuDeltaCompen : Ieee F
  netDeltaRelinq : Ieee F
  netDeltaCompen : Ieee F
  mrIncIfMoreCache : Ieee F
  mrDecIfLessCache : Ieee F
  reservedCacheSize : U64

namespace Tenant

/-- The constructor: the quotes start at `0`, and
    `reserved_cache_size = base_resrc.cache_size * reserved_ratio` is converted
    back to `uint64_t` by truncation, which is `cache_size / 2`. -/
def new (demandCacheless : StatelessResrcVec F) (baseResrc : ResrcVec F) (mrc : MissRatioCurve F)
    (netBwAlpha : Ieee F) : Tenant F where
  demandCacheless := demandCacheless
  resrc := baseResrc
  mrc := mrc
  netBwAlpha := netBwAlpha
  rcuDeltaRelinq := fin 0
  rcuDeltaCompen := fin 0
  netDeltaRelinq := fin 0
  netDeltaCompen := fin 0
  mrIncIfMoreCache := fin 0
  mrDecIfLessCache := fin 0
  reservedCacheSize := baseResrc.cacheSize / 2

-- ---------------------------------------------------------------------------
-- collect_idle
-- ---------------------------------------------------------------------------

/-- The demand of `collect_idle()` at the miss ratio `mr`, each operation
    rounded by `rnd`: `db_rcu` is only spent on misses, and with
    `alloc_total_net_bw` a hit saves the fraction `net_bw_alpha` of `net_bw`. -/
def demandAtWith (rnd : Ieee F → Ieee F) (p : Params) (t : Tenant F) (mr : Ieee F) :
    StatelessResrcVec F :=
  let demand := { t.demandCacheless with dbRcu := rnd (t.demandCacheless.dbRcu * mr) }
  if p.allocTotalNetBw then
    { demand with
      netBw := rnd (demand.netBw * rnd (mr + rnd (rnd (fin 1 - t.netBwAlpha) * rnd (fin 1 - mr)))) }
  else demand

/-- The demand of `collect_idle()` computed without rounding. -/
def demandAt (p : Params) (t : Tenant F) (mr : Ieee F) : StatelessResrcVec F :=
  t.demandAtWith id p mr

/-- `collect_idle()`: the demand at the current miss ratio, the throughput
    `tp` that the allocation affords, and the resources beyond `demand * tp`,
    which are returned and taken away. -/
def collectIdle (p : Params) (t : Tenant F) : Tenant F × StatelessResrcVec F :=
  let q := t.mrc.getMissRatio t.resrc.cacheSize
  let demand := t.demandAt p q.1
  let tp := t.resrc.stateless.ratio demand
  let used := demand.scale tp
  let idle := t.resrc.stateless - used
  ({ t with resrc := { t.resrc with stateless := used }, mrc := q.2 }, idle)

/-- The throughput `tp` that `collect_idle()` computes, each operation
    rounded by `rnd`. -/
def collectIdleTpWith (rnd : Ieee F → Ieee F) (p : Params) (t : Tenant F) : Ieee F :=
  t.resrc.stateless.ratioWith rnd (t.demandAtWith rnd p (t.mrc.getMissRatio t.resrc.cacheSize).1)

/-- The throughput `tp` that `collect_idle()` computes without rounding. -/
def collectIdleTp (p : Params) (t : Tenant F) : Ieee F := t.collectIdleTpWith id p

/-- Without rounding, `tp` is the division of the held resources by the
    demand at the miss ratio that `get_miss_ratio_const` computes. -/
theorem collectIdleTp_eq_ratio (p : Params) (t : Tenant F) :
    t.collectIdleTp p =
      t.resrc.stateless.ratio (t.demandAt p (t.mrc.getMissRatioConst t.resrc.cacheSize)) := by
  rw [collectIdleTp, collectIdleTpWith, MissRatioCurve.getMissRatio_fst]
  rfl

-- ---------------------------------------------------------------------------
-- The quotes of a cache trade
-- ---------------------------------------------------------------------------

/-- `pred_rcu_net_delta_if_more_cache(cache_delta)`, each operation of its
    body rounded by `rnd`: what the tenant gives back for `cache_delta` more
    bytes. Each `goto abort_offer` quotes `relinq_abort_offer`. -/
def predRcuNetDeltaIfMoreCacheWith (rnd : Ieee F → Ieee F) (p : Params) (t : Tenant F)
    (cacheDelta : U64 := p.cacheDelta) : Tenant F :=
  let abortOffer (m : MissRatioCurve F) : Tenant F :=
    { t with
      mrc := m
      rcuDeltaRelinq := Params.relinqAbortOffer
      netDeltaRelinq := if p.allocTotalNetBw then Params.relinqAbortOffer else t.netDeltaRelinq }
  let q₁ := t.mrc.getMissRatio t.resrc.cacheSize
  let currMr := q₁.1
  if currMr.equal posInf then abortOffer q₁.2
  else if currMr ≤ Params.epilson then abortOffer q₁.2
  else
    let q₂ := q₁.2.getMissRatio (t.resrc.cacheSize + cacheDelta)
    let predMr := q₂.1
    if predMr.equal posInf then abortOffer q₂.2
    else if predMr < Params.minMissRatio then abortOffer q₂.2
    else
      let deltaMr := rnd (currMr - predMr)
      if deltaMr ≤ Params.epilson then abortOffer q₂.2
      else
        { t with
          mrc := q₂.2
          rcuDeltaRelinq := rnd (rnd (t.resrc.stateless.dbRcu * deltaMr) / currMr)
          netDeltaRelinq :=
            if p.allocTotalNetBw then
              rnd (rnd (rnd (t.resrc.stateless.netBw * deltaMr) * t.netBwAlpha) /
                rnd (rnd (rnd (currMr * t.netBwAlpha) + fin 1) - t.netBwAlpha))
            else t.netDeltaRelinq }

/-- `pred_rcu_net_delta_if_more_cache(cache_delta)` computed without
    rounding. -/
def predRcuNetDeltaIfMoreCache (p : Params) (t : Tenant F) (cacheDelta : U64 := p.cacheDelta) :
    Tenant F :=
  t.predRcuNetDeltaIfMoreCacheWith id p cacheDelta

/-- `pred_rcu_net_delta_if_less_cache(cache_delta)`: what the tenant asks for
    with `cache_delta` fewer bytes. `abort_offer` quotes `compen_abort_offer`,
    `immediate_offer` asks for nothing; only the computed quote sets
    `net_delta_compen` when `alloc_total_net_bw` is off. -/
def predRcuNetDeltaIfLessCache (p : Params) (t : Tenant F) (cacheDelta : U64 := p.cacheDelta) :
    Tenant F :=
  let abortOffer (m : MissRatioCurve F) : Tenant F :=
    { t with
      mrc := m
      rcuDeltaCompen := Params.compenAbortOffer
      netDeltaCompen := if p.allocTotalNetBw then Params.compenAbortOffer else t.netDeltaCompen }
  let immediateOffer (m : MissRatioCurve F) : Tenant F :=
    { t with
      mrc := m
      rcuDeltaCompen := fin 0
      netDeltaCompen := if p.allocTotalNetBw then fin 0 else t.netDeltaCompen }
  -- `cache_size - cache_delta < min_cache_size`, written with `+` in the source
  if t.resrc.cacheSize < p.minCacheSize + cacheDelta then abortOffer t.mrc
  else
    let q₁ := t.mrc.getMissRatio t.resrc.cacheSize
    let currMr := q₁.1
    if currMr.equal posInf then abortOffer q₁.2
    else
      let q₂ := q₁.2.getMissRatio (t.resrc.cacheSize - cacheDelta)
      let predMr := q₂.1
      if predMr.equal posInf then abortOffer q₂.2
      else if Params.maxMissRatio < predMr then abortOffer q₂.2
      else
        let deltaMr := predMr - currMr
        if deltaMr ≤ Params.epilson then immediateOffer q₂.2
        else if predMr ≤ Params.epilson then immediateOffer q₂.2
        else if currMr ≤ Params.epilson then abortOffer q₂.2
        else
          { t with
            mrc := q₂.2
            rcuDeltaCompen := t.resrc.stateless.dbRcu * deltaMr / currMr
            netDeltaCompen :=
              if p.allocTotalNetBw then
                t.resrc.stateless.netBw * deltaMr * t.netBwAlpha /
                  (currMr * t.netBwAlpha + fin 1 - t.netBwAlpha)
              else fin 0 }

/-- The asserts that `pred_rcu_net_delta_if_more_cache` evaluates, on the path
    it takes: the computed quote asserts `delta_mr > 0`,
    `rcu_delta_relinq >= 0` and, with `alloc_total_net_bw`,
    `net_delta_relinq >= 0`. They are not part of the value, which the
    memo gives as `get_miss_ratio_const` does. -/
def MoreCacheAsserts (p : Params) (t : Tenant F) : Prop :=
  let currMr := t.mrc.getMissRatioConst t.resrc.cacheSize
  let predMr := t.mrc.getMissRatioConst (t.resrc.cacheSize + p.cacheDelta)
  let deltaMr := currMr - predMr
  if currMr.equal posInf ∨ currMr ≤ Params.epilson ∨ predMr.equal posInf ∨
      predMr < Params.minMissRatio ∨ deltaMr ≤ Params.epilson then True
  else
    fin 0 < deltaMr ∧ fin 0 ≤ t.resrc.stateless.dbRcu * deltaMr / currMr ∧
      (p.allocTotalNetBw = true → fin 0 ≤ t.resrc.stateless.netBw * deltaMr * t.netBwAlpha /
        (currMr * t.netBwAlpha + fin 1 - t.netBwAlpha))

/-- The asserts that `pred_rcu_net_delta_if_less_cache` evaluates, on the path
    it takes: `delta_mr > 0` once the miss ratios differ by more than
    `numeric::epilson`, and `rcu_delta_compen >= 0` and, with
    `alloc_total_net_bw`, `net_delta_compen >= 0` on the computed quote. -/
def LessCacheAsserts (p : Params) (t : Tenant F) : Prop :=
  let currMr := t.mrc.getMissRatioConst t.resrc.cacheSize
  let predMr := t.mrc.getMissRatioConst (t.resrc.cacheSize - p.cacheDelta)
  let deltaMr := predMr - currMr
  if t.resrc.cacheSize < p.minCacheSize + p.cacheDelta ∨ currMr.equal posInf ∨
      predMr.equal posInf ∨ Params.maxMissRatio < predMr ∨ deltaMr ≤ Params.epilson then True
  else
    fin 0 < deltaMr ∧
      (predMr ≤ Params.epilson ∨ currMr ≤ Params.epilson ∨
        fin 0 ≤ t.resrc.stateless.dbRcu * deltaMr / currMr ∧
          (p.allocTotalNetBw = true → fin 0 ≤ t.resrc.stateless.netBw * deltaMr * t.netBwAlpha /
            (currMr * t.netBwAlpha + fin 1 - t.netBwAlpha)))

/-- `update_rcu_net_delta()`. -/
def updateRcuNetDelta (p : Params) (t : Tenant F) : Tenant F :=
  predRcuNetDeltaIfLessCache p (predRcuNetDeltaIfMoreCache p t)

-- ---------------------------------------------------------------------------
-- Memshare
-- ---------------------------------------------------------------------------

/-- `update_mr_delta()`: with `curr_mr`, `more_mr` and `less_mr` the miss
    ratios at the current size and `cache_delta` above and below it (both
    sizes wrap as `uint64_t`). -/
def updateMrDelta (p : Params) (t : Tenant F) : Tenant F :=
  let q₁ := t.mrc.getMissRatio t.resrc.cacheSize
  let q₂ := q₁.2.getMissRatio (t.resrc.cacheSize + p.cacheDelta)
  let q₃ := q₂.2.getMissRatio (t.resrc.cacheSize - p.cacheDelta)
  { t with
    mrc := q₃.2
    mrIncIfMoreCache := q₁.1 - q₂.1
    mrDecIfLessCache := q₃.1 - q₁.1 }

/-- `can_donate(delta)`: the sum `reserved_cache_size + delta` wraps as
    `uint64_t`. -/
def canDonate (p : Params) (t : Tenant F) (delta : U64 := p.cacheDelta) : Bool :=
  decide (t.reservedCacheSize + delta ≤ t.resrc.cacheSize)

-- ---------------------------------------------------------------------------
-- Scaling
-- ---------------------------------------------------------------------------

/-- `scale_stateless_resrc(scale_factor)`. -/
def scaleStatelessResrc (t : Tenant F) (scaleFactor : Ieee F) : Tenant F :=
  { t with resrc := { t.resrc with stateless := t.resrc.stateless.scale scaleFactor } }

/-- The factor of one field in `scale_stateless_resrc_by_owned`: the owned
    share of the sum, or an even share when the sum is `0.0` (`!=` is true on
    NaN). -/
def ownedFactor (owned sum : Ieee F) (evenDenom : ℕ) : Ieee F :=
  if !(sum.equal (fin 0)) then owned / sum else fin 1 / ofNat evenDenom

/-- `scale_stateless_resrc_by_owned(avail, sum, even_denom)`. -/
def scaleStatelessResrcByOwned (t : Tenant F) (avail sum : StatelessResrcVec F) (evenDenom : ℕ) :
    Tenant F :=
  let s := t.resrc.stateless
  let dbRcuFactor := ownedFactor s.dbRcu sum.dbRcu evenDenom
  let dbWcuFactor := ownedFactor s.dbWcu sum.dbWcu evenDenom
  let netBwFactor := ownedFactor s.netBw sum.netBw evenDenom
  { t with
    resrc := { t.resrc with
      stateless := ⟨s.dbRcu + avail.dbRcu * dbRcuFactor, s.dbWcu + avail.dbWcu * dbWcuFactor,
        s.netBw + avail.netBw * netBwFactor⟩ } }

-- ---------------------------------------------------------------------------
-- The relocations, on the vector of tenants
-- ---------------------------------------------------------------------------

/-- The tenant with `cache_size` moved by `f`. -/
def mapCacheSize (f : U64 → U64) (t : Tenant F) : Tenant F :=
  { t with resrc := { t.resrc with cacheSize := f t.resrc.cacheSize } }

/-- `relocate_cache(t_receiver, t_donator)`. -/
def relocateCache (p : Params) (ts : List (Tenant F)) (receiver donator : ℕ) : List (Tenant F) :=
  (ts.modify receiver (mapCacheSize (· + p.cacheDelta))).modify donator
    (mapCacheSize (· - p.cacheDelta))

/-- The compensator's side of `relocate_resrc`. -/
def compenSide (p : Params) (rcuCompen netCompen : Ieee F) (t : Tenant F) : Tenant F :=
  { t with
    resrc := ⟨t.resrc.cacheSize - p.cacheDelta,
      { t.resrc.stateless with
        dbRcu := t.resrc.stateless.dbRcu + rcuCompen
        netBw := if p.allocTotalNetBw then t.resrc.stateless.netBw + netCompen
          else t.resrc.stateless.netBw }⟩ }

/-- The relinquisher's side of `relocate_resrc`. -/
def relinqSide (p : Params) (rcuRelinq netRelinq : Ieee F) (t : Tenant F) : Tenant F :=
  { t with
    resrc := ⟨t.resrc.cacheSize + p.cacheDelta,
      { t.resrc.stateless with
        dbRcu := t.resrc.stateless.dbRcu - rcuRelinq
        netBw := if p.allocTotalNetBw then t.resrc.stateless.netBw - netRelinq
          else t.resrc.stateless.netBw }⟩ }

/-- `relocate_resrc(t_relinq, t_compen, rcu_relinq, rcu_compen, net_relinq,
    net_compen)`: `cache_delta` bytes move from the compensator to the
    relinquisher, and `db_rcu` (and `net_bw` with `alloc_total_net_bw`) the
    other way. The asserts on the `net_bw` quotes are not evaluated in a
    Release build. -/
def relocateResrc (p : Params) (ts : List (Tenant F)) (tRelinq tCompen : ℕ)
    (rcuRelinq rcuCompen netRelinq netCompen : Ieee F) : List (Tenant F) :=
  (ts.modify tCompen (compenSide p rcuCompen netCompen)).modify tRelinq
    (relinqSide p rcuRelinq netRelinq)

/-- `aggregate_resrc(tenants)`: the sum from the zero vector, in order. -/
def aggregateResrc (ts : List (Tenant F)) : StatelessResrcVec F :=
  ts.foldl (fun sum t => sum + t.resrc.stateless) StatelessResrcVec.zero

-- ---------------------------------------------------------------------------
-- What each function leaves alone
-- ---------------------------------------------------------------------------

/-- Every function of this module keeps the curve that the memo answers for. -/
@[simp] theorem updateMrDelta_mrc_getMissRatioConst (p : Params) (t : Tenant F) :
    (updateMrDelta p t).mrc.getMissRatioConst = t.mrc.getMissRatioConst := by
  simp [updateMrDelta]

@[simp] theorem updateMrDelta_resrc (p : Params) (t : Tenant F) :
    (updateMrDelta p t).resrc = t.resrc := rfl

@[simp] theorem updateMrDelta_reservedCacheSize (p : Params) (t : Tenant F) :
    (updateMrDelta p t).reservedCacheSize = t.reservedCacheSize := rfl

/-- The increase of `update_mr_delta`, read on the curve. -/
@[simp] theorem updateMrDelta_mrIncIfMoreCache (p : Params) (t : Tenant F) :
    (updateMrDelta p t).mrIncIfMoreCache =
      t.mrc.getMissRatioConst t.resrc.cacheSize -
        t.mrc.getMissRatioConst (t.resrc.cacheSize + p.cacheDelta) := by
  simp [updateMrDelta]

/-- The decrease of `update_mr_delta`, read on the curve. -/
@[simp] theorem updateMrDelta_mrDecIfLessCache (p : Params) (t : Tenant F) :
    (updateMrDelta p t).mrDecIfLessCache =
      t.mrc.getMissRatioConst (t.resrc.cacheSize - p.cacheDelta) -
        t.mrc.getMissRatioConst t.resrc.cacheSize := by
  simp [updateMrDelta]

@[simp] theorem mapCacheSize_cacheSize (f : U64 → U64) (t : Tenant F) :
    (mapCacheSize f t).resrc.cacheSize = f t.resrc.cacheSize := rfl

@[simp] theorem mapCacheSize_mrc (f : U64 → U64) (t : Tenant F) : (mapCacheSize f t).mrc = t.mrc :=
  rfl

@[simp] theorem mapCacheSize_stateless (f : U64 → U64) (t : Tenant F) :
    (mapCacheSize f t).resrc.stateless = t.resrc.stateless := rfl

@[simp] theorem length_relocateCache (p : Params) (ts : List (Tenant F)) (r d : ℕ) :
    (relocateCache p ts r d).length = ts.length := by
  simp [relocateCache]

/-- `relocate_cache` moves only cache. -/
@[simp] theorem map_mrc_relocateCache (p : Params) (ts : List (Tenant F)) (r d : ℕ) :
    (relocateCache p ts r d).map (·.mrc) = ts.map (·.mrc) := by
  apply List.ext_getElem (by simp)
  intro i _ _
  simp only [relocateCache, List.getElem_map, List.getElem_modify]
  split_ifs <;> simp

@[simp] theorem length_relocateResrc (p : Params) (ts : List (Tenant F)) (r c : ℕ)
    (a b x y : Ieee F) : (relocateResrc p ts r c a b x y).length = ts.length := by
  simp [relocateResrc]

end Tenant

end Hare
