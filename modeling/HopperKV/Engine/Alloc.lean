-- SUMMARY: hare::Allocator (alloc.h): add_tenant, estimate_bottleneck, the memshare loop, the harvest trading loop, do_redistribute, and do_alloc that runs them in turn.
import HopperKV.Engine.Tenant
import HopperKV.Lib.Loop
import Mathlib.Data.List.GetD

/-!
# The allocator

`hare::Allocator` holds the policy flags, the tenants and the sum of their
base resources. `do_alloc` runs, for two tenants or more:

1. `do_memshare` when the flag is set: cache moves, `cache_delta` at a time,
   to the tenant whose miss ratio would drop most, from a tenant that can
   spare it, for as long as that lowers the total miss ratio. The loop has no
   bound, so it runs here with fuel (`Loop.run`).
2. `collect_idle` on every tenant, summed into `resrc_avail`.
3. `do_harvest` when the flag is set: trades of cache for `db_rcu` or
   `net_bw` between a relinquisher and a compensator, while the estimated
   improvement grows. The loop stops after `max_trade_round` rounds
   (`Loop.bounded`).
4. `do_redistribute` unless `resrc_avail` is almost empty.

The vectors of pointers to tenants are lists of indices into the vector of
tenants. The comparators read a field of the tenant a pointer points to
(`field`); `std::sort` is a parameter (`StdAlgo.IeeeSort`), since the order it
leaves equal keys in is not specified.
-/

namespace Hare

open Ieee

set_option linter.unusedSectionVars false

variable {F : Type} [Field F] [LinearOrder F]

-- ---------------------------------------------------------------------------
-- Pointers and comparators
-- ---------------------------------------------------------------------------

/-- The field `f` of the tenant that the pointer `i` points to. -/
def field (ts : List (Tenant F)) (f : Tenant F → Ieee F) (i : ℕ) : Ieee F := (ts.map f).getD i nan

theorem field_eq_getElem (ts : List (Tenant F)) (f : Tenant F → Ieee F) {i : ℕ}
    (hi : i < ts.length) : field ts f i = f ts[i] := by
  rw [field, List.getD_eq_getElem _ _ (by simpa using hi), List.getElem_map]

/-- A comparator `lhs->f() < rhs->f()` on pointers. -/
def lessBy (f : Tenant F → Ieee F) (ts : List (Tenant F)) (i j : ℕ) : Bool :=
  decide (field ts f i < field ts f j)

/-- `less_rcu_relinq`. -/
def lessRcuRelinq (ts : List (Tenant F)) : ℕ → ℕ → Bool := lessBy (·.rcuDeltaRelinq) ts

/-- `less_rcu_compen`. -/
def lessRcuCompen (ts : List (Tenant F)) : ℕ → ℕ → Bool := lessBy (·.rcuDeltaCompen) ts

/-- `less_net_relinq`. -/
def lessNetRelinq (ts : List (Tenant F)) : ℕ → ℕ → Bool := lessBy (·.netDeltaRelinq) ts

/-- `less_net_compen`. -/
def lessNetCompen (ts : List (Tenant F)) : ℕ → ℕ → Bool := lessBy (·.netDeltaCompen) ts

/-- `less_mr_dec`, the comparator of the sort in `do_memshare`. -/
def lessMrDec (ts : List (Tenant F)) : ℕ → ℕ → Bool := lessBy (·.mrDecIfLessCache) ts

/-- `less_mr_inc`: unlike the others it compares two different fields, the
    increase `mr_inc_if_more_cache` of `lhs` with the decrease
    `mr_dec_if_less_cache` of `rhs`. -/
def lessMrInc (ts : List (Tenant F)) (i j : ℕ) : Bool :=
  decide (field ts (·.mrIncIfMoreCache) i < field ts (·.mrDecIfLessCache) j)

-- ---------------------------------------------------------------------------
-- The allocator
-- ---------------------------------------------------------------------------

/-- The three policy flags. -/
structure Policy where
  harvest : Bool
  conserving : Bool
  memshare : Bool
  deriving DecidableEq

/-- `hare::Allocator`. -/
structure Allocator (F : Type) [Field F] [LinearOrder F] where
  policy : Policy
  tenants : List (Tenant F)
  totalResrc : ResrcVec F

namespace Allocator

/-- The constructor, with its default flags and no tenants. -/
def new (harvest : Bool := true) (conserving : Bool := true) (memshare : Bool := false) :
    Allocator F :=
  ⟨⟨harvest, conserving, memshare⟩, [], ⟨0, StatelessResrcVec.zero⟩⟩

/-- `add_tenant(demand_cacheless, base_resrc, mrc, net_bw_alpha)`: the index of
    the new tenant, and the allocator with it appended and its base resources
    added to `total_resrc`. -/
def addTenant (a : Allocator F) (demandCacheless : StatelessResrcVec F) (baseResrc : ResrcVec F)
    (mrc : MissRatioCurve F) (netBwAlpha : Ieee F) : ℕ × Allocator F :=
  (a.tenants.length,
    { a with
      totalResrc := a.totalResrc + baseResrc
      tenants := a.tenants ++ [Tenant.new demandCacheless baseResrc mrc netBwAlpha] })

/-- `get_alloc_result()`. -/
def getAllocResult (a : Allocator F) : List (ResrcVec F) := a.tenants.map (·.resrc)

/-- `estimate_bottleneck(resrc_avail, ...)`: the improvement ratio that
    `resrc_avail` would give over what the tenants hold, and whether it is
    the ratio of `db_rcu` and of `net_bw`. -/
def estimateBottleneck (a : Allocator F) (resrcAvail : StatelessResrcVec F) :
    Ieee F × Bool × Bool :=
  let resrcSum := a.totalResrc.stateless - resrcAvail
  let estimatedImproveRatio := resrcAvail.ratio resrcSum
  (estimatedImproveRatio, estimatedImproveRatio.equal (resrcAvail.dbRcu / resrcSum.dbRcu),
    estimatedImproveRatio.equal (resrcAvail.netBw / resrcSum.netBw))

-- ---------------------------------------------------------------------------
-- do_memshare
-- ---------------------------------------------------------------------------

/-- The receiver of a memshare round: `*std::max_element(cache_more_list,
    less_mr_inc)`, where `cache_more_list` holds the tenants in order. -/
def memshareReceiver (ts : List (Tenant F)) : ℕ :=
  let cacheMoreList := List.range ts.length
  cacheMoreList.getD (StdAlgo.maxElement (lessMrInc ts) cacheMoreList) 0

/-- The donor loop of a memshare round: the first tenant of
    `cache_less_list`, other than the receiver, that can donate. -/
def memshareDonator (p : Params) (ts : List (Tenant F)) (receiver : ℕ) (cacheLessList : List ℕ) :
    Option ℕ :=
  cacheLessList.find? (fun d => d != receiver && (ts[d]?).any (·.canDonate p))

/-- One round of the loop of `do_memshare` on the tenants and
    `cache_less_list`, which keeps its order from one round to the next:
    every tenant updates its miss-ratio deltas, `cache_less_list` is sorted
    by `less_mr_dec`, and `cache_delta` bytes move from the donor to the
    receiver when the receiver's increase exceeds the donor's decrease. -/
def memshareRound (p : Params) (sort : StdAlgo.IeeeSort ℕ F) (s : List (Tenant F) × List ℕ) :
    Loop.Step (List (Tenant F) × List ℕ) :=
  let ts := s.1.map (Tenant.updateMrDelta p)
  let receiver := memshareReceiver ts
  let cacheLessList := sort.sort (field ts (·.mrDecIfLessCache)) s.2
  match memshareDonator p ts receiver cacheLessList with
  | none => .done (ts, cacheLessList)
  | some donator =>
    if field ts (·.mrDecIfLessCache) donator < field ts (·.mrIncIfMoreCache) receiver then
      .next (Tenant.relocateCache p ts receiver donator, cacheLessList)
    else .done (ts, cacheLessList)

/-- `do_memshare()`, with at most `fuel` rounds: `none` when they run out. -/
def doMemshare (p : Params) (sort : StdAlgo.IeeeSort ℕ F) (fuel : ℕ) (a : Allocator F) :
    Option (Allocator F) :=
  (Loop.run (memshareRound p sort) fuel (a.tenants, List.range a.tenants.length)).map
    fun s => { a with tenants := s.1 }

-- ---------------------------------------------------------------------------
-- collect_idle
-- ---------------------------------------------------------------------------

/-- The loop of `do_alloc` that collects the idle resources of each tenant
    into `resrc_avail`, in order. -/
def collectIdleLoop (p : Params) : List (Tenant F) → StatelessResrcVec F →
    List (Tenant F) × StatelessResrcVec F
  | [], resrcAvail => ([], resrcAvail)
  | t :: ts, resrcAvail =>
    let r := t.collectIdle p
    let rest := collectIdleLoop p ts (resrcAvail + r.2)
    (r.1 :: rest.1, rest.2)

/-- The collection phase: `resrc_avail` starts as `StatelessResrcVec{}`. -/
def collectIdle (p : Params) (a : Allocator F) : Allocator F × StatelessResrcVec F :=
  let r := collectIdleLoop p a.tenants StatelessResrcVec.zero
  ({ a with tenants := r.1 }, r.2)

-- ---------------------------------------------------------------------------
-- do_harvest
-- ---------------------------------------------------------------------------

/-- The state of the trading loop of `do_harvest`. The relinquish lists are
    never reordered, so they are not part of it. -/
structure HarvestState (F : Type) [Field F] [LinearOrder F] where
  tenants : List (Tenant F)
  resrcAvail : StatelessResrcVec F
  prevEstimatedImproveRatio : Ieee F
  isRcuBottleneck : Bool
  isNetBottleneck : Bool
  rcuCompenList : List ℕ
  netCompenList : List ℕ

/-- The two partners of a trade on one resource: the `max_element` of the
    relinquish list and the `min_element` of the compensation list. When they
    are one tenant, it is swapped to the front of the compensation list and
    the compensator is the `min_element` of the rest. Returns the two tenants
    and the compensation list. -/
def pickDeal (lessRelinq lessCompen : ℕ → ℕ → Bool) (relinqList compenList : List ℕ) :
    ℕ × ℕ × List ℕ :=
  let tRelinq := relinqList.getD (StdAlgo.maxElement lessRelinq relinqList) 0
  let itCompen := StdAlgo.minElement lessCompen compenList
  if tRelinq = compenList.getD itCompen 0 then
    let swapped := StdAlgo.iterSwap compenList itCompen 0
    (tRelinq, swapped.getD (1 + StdAlgo.minElement lessCompen (swapped.drop 1)) 0, swapped)
  else (tRelinq, compenList.getD itCompen 0, compenList)

/-- The partners of the next deal and the compensation lists after they are
    picked: `none` when neither resource is the bottleneck, which breaks the
    loop. -/
def harvestPick (p : Params) (rcuRelinqList netRelinqList : List ℕ) (s : HarvestState F) :
    Option (ℕ × ℕ × List ℕ × List ℕ) :=
  let ts := s.tenants
  if s.isRcuBottleneck then
    let d := pickDeal (lessRcuRelinq ts) (lessRcuCompen ts) rcuRelinqList s.rcuCompenList
    some (d.1, d.2.1, d.2.2, s.netCompenList)
  else if p.allocTotalNetBw && s.isNetBottleneck then
    let d := pickDeal (lessNetRelinq ts) (lessNetCompen ts) netRelinqList s.netCompenList
    some (d.1, d.2.1, s.rcuCompenList, d.2.2)
  else none

/-- `resrc_if_deal`: `resrc_avail` with the profits `rcu_profit` and
    `net_profit` of the deal. -/
def resrcIfDeal (ts : List (Tenant F)) (resrcAvail : StatelessResrcVec F) (tRelinq tCompen : ℕ) :
    StatelessResrcVec F :=
  { resrcAvail with
    dbRcu := resrcAvail.dbRcu +
      (field ts (·.rcuDeltaRelinq) tRelinq - field ts (·.rcuDeltaCompen) tCompen)
    netBw := resrcAvail.netBw +
      (field ts (·.netDeltaRelinq) tRelinq - field ts (·.netDeltaCompen) tCompen) }

/-- The tenants after a deal: `relocate_resrc` with the four quotes, then
    both partners quote again. -/
def tradeTenants (p : Params) (ts : List (Tenant F)) (tRelinq tCompen : ℕ) : List (Tenant F) :=
  let ts₁ := Tenant.relocateResrc p ts tRelinq tCompen (field ts (·.rcuDeltaRelinq) tRelinq)
    (field ts (·.rcuDeltaCompen) tCompen) (field ts (·.netDeltaRelinq) tRelinq)
    (field ts (·.netDeltaCompen) tCompen)
  (ts₁.modify tRelinq (Tenant.updateRcuNetDelta p)).modify tCompen (Tenant.updateRcuNetDelta p)

/-- One round of the trading loop of `do_harvest`. -/
def harvestRound (p : Params) (a : Allocator F) (rcuRelinqList netRelinqList : List ℕ)
    (s : HarvestState F) : Loop.Step (HarvestState F) :=
  match harvestPick p rcuRelinqList netRelinqList s with
  | none => .done s
  | some (tRelinq, tCompen, rcuCompenList, netCompenList) =>
    let resrcIfDeal := resrcIfDeal s.tenants s.resrcAvail tRelinq tCompen
    let e := a.estimateBottleneck resrcIfDeal
    let s₁ := { s with
      isRcuBottleneck := e.2.1
      isNetBottleneck := e.2.2
      rcuCompenList := rcuCompenList
      netCompenList := netCompenList }
    if e.1 - s.prevEstimatedImproveRatio < Params.minImproveRatioDelta then .done s₁
    else
      .next { s₁ with
        tenants := tradeTenants p s.tenants tRelinq tCompen
        resrcAvail := resrcIfDeal
        prevEstimatedImproveRatio := e.1 }

/-- The list of all tenants of `do_harvest`, and its `net_bw` lists, which
    are empty unless `alloc_total_net_bw`. -/
def harvestLists (p : Params) (n : ℕ) : List ℕ × List ℕ :=
  (List.range n, if p.allocTotalNetBw then List.range n else [])

/-- The loop body of `do_harvest`, with the relinquish lists of all tenants. -/
def harvestBody (p : Params) (a : Allocator F) : HarvestState F → Loop.Step (HarvestState F) :=
  harvestRound p a (harvestLists p a.tenants.length).1 (harvestLists p a.tenants.length).2

/-- The state before the first round: every tenant quotes, and the estimate
    of `resrc_avail` is the first `prev_estimated_improve_ratio`. -/
def harvestInit (p : Params) (a : Allocator F) (resrcAvail : StatelessResrcVec F) :
    HarvestState F :=
  let e := a.estimateBottleneck resrcAvail
  ⟨a.tenants.map (Tenant.updateRcuNetDelta p), resrcAvail, e.1, e.2.1, e.2.2,
    (harvestLists p a.tenants.length).1, (harvestLists p a.tenants.length).2⟩

/-- `do_harvest(resrc_avail)`: the tenants and `resrc_avail` after trading. -/
def doHarvest (p : Params) (a : Allocator F) (resrcAvail : StatelessResrcVec F) :
    Allocator F × StatelessResrcVec F :=
  let s' := Loop.bounded (harvestBody p a) Params.maxTradeRound (harvestInit p a resrcAvail)
  ({ a with tenants := s'.tenants }, s'.resrcAvail)

-- ---------------------------------------------------------------------------
-- do_redistribute and do_alloc
-- ---------------------------------------------------------------------------

/-- `do_redistribute(resrc_avail)`: the improvement ratio, the allocator and
    the resources left. The assert that the tenants hold
    `total_resrc.stateless - resrc_avail` is not evaluated in a Release
    build. -/
def doRedistribute (a : Allocator F) (resrcAvail : StatelessResrcVec F) :
    Ieee F × Allocator F × StatelessResrcVec F :=
  let resrcSum := a.totalResrc.stateless - resrcAvail
  let improveRatio := resrcAvail.ratio resrcSum
  if a.policy.conserving then
    (improveRatio,
      { a with
        tenants := a.tenants.map (·.scaleStatelessResrcByOwned resrcAvail resrcSum a.tenants.length) },
      StatelessResrcVec.zero)
  else
    let ts := a.tenants.map (·.scaleStatelessResrc (fin 1 + improveRatio))
    (improveRatio, { a with tenants := ts }, a.totalResrc.stateless - Tenant.aggregateResrc ts)

/-- The phases of `do_alloc` after memshare: collection, harvest and
    redistribution. -/
def allocStateless (p : Params) (a : Allocator F) : Ieee F × Allocator F :=
  let c := a.collectIdle p
  let h := if a.policy.harvest then c.1.doHarvest p c.2 else c
  if h.2.isAlmostEmpty then (fin 0, h.1)
  else
    let r := h.1.doRedistribute h.2
    (r.1, r.2.1)

/-- `do_alloc()`: the improvement ratio and the allocator, or `none` when
    memshare runs out of fuel. -/
def doAlloc (p : Params) (sort : StdAlgo.IeeeSort ℕ F) (fuel : ℕ) (a : Allocator F) :
    Option (Ieee F × Allocator F) :=
  if a.tenants.length ≤ 1 then some (fin 0, a)
  else
    (if a.policy.memshare then a.doMemshare p sort fuel else some a).map (allocStateless p)

end Allocator

end Hare
