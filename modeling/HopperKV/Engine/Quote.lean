-- SUMMARY: A tenant read in the field: its demand at a miss ratio, collect_idle as a throughput and the resources beyond it, the two quotes of a cache trade as the branches they take with their asserts, and that a trade at a computed quote keeps every quotient of collect_idle unless the miss ratio falls to zero, without rounding; in binary64 a relinquish quote can exceed what the tenant holds.
import HopperKV.Engine.Exact
import HopperKV.Engine.MrcSound
import HopperKV.Engine.Tenant

/-!
# Tenants in the field

`Tenant.Ok` is what the allocator's proofs need of a tenant: a sane curve,
`net_bw_alpha` in `[0, 1]`, and a demand and stateless resources with finite,
non-negative fields. Its miss ratios then lie in `[0, 1]` and the functions
of `tenant.h` compute in `F`:

* `collect_idle` keeps `tp * demand` for the throughput `tp` that the
  resources afford and returns the rest (`collectIdle_exact`);
* `pred_rcu_net_delta_if_more_cache` either aborts, quoting nothing, or gives
  back the share of `db_rcu` and `net_bw` that the smaller miss ratio frees
  (`RelinqQuote`); `pred_rcu_net_delta_if_less_cache` aborts with
  `compen_abort_offer`, asks for nothing, or asks for the share that the
  larger miss ratio costs (`CompenQuote`).

A quote gives back at most what the tenant holds, and asks for nothing
negative. A deal at a computed quote scales each traded field by the ratio of
the demands at the new and the old miss ratio (`tradeScale`), so every
quotient of `collect_idle`'s division stays the same, and the asserts of both
quotes hold (`tradeQuotes_keep_throughput`). A relinquisher whose miss ratio
falls to `0` is the exception: it gives back all of `db_rcu`, and the
quotient becomes `0 / 0`. All of this is without
rounding: in binary64 a quote can exceed what the tenant holds
(`relinqQuoteBinary64_exceeds_held`).
-/

namespace Hare

open Ieee StatelessResrcVec

set_option linter.unusedSectionVars false

variable {F : Type} [Field F] [LinearOrder F] [IsStrictOrderedRing F]

/-- `numeric::epilson`, in `F`. -/
def eps : F := (Params.epilson : Ieee F).val

theorem eps_pos : (0 : F) < eps := by
  show (0 : F) < 1 / 2 ^ 52
  positivity

/-- The demand at the miss ratio `m`, in `F`: `db_rcu` scaled by `m`, and with
    `alloc_total_net_bw` `net_bw` by `m + (1 - α) * (1 - m)`. -/
def effDemand (allocTotalNetBw : Bool) (d : Res → F) (α m : F) : Res → F
  | .dbRcu => d .dbRcu * m
  | .dbWcu => d .dbWcu
  | .netBw => if allocTotalNetBw then d .netBw * (m + (1 - α) * (1 - m)) else d .netBw

/-- The fields that a deal moves, `db_rcu` and, with `alloc_total_net_bw`,
    `net_bw`. -/
def tradeVec (allocTotalNetBw : Bool) (rcu net : F) : Res → F
  | .dbRcu => rcu
  | .dbWcu => 0
  | .netBw => if allocTotalNetBw then net else 0

namespace Tenant

/-- The miss ratio at `c`, in `F`. -/
def mrAt (t : Tenant F) (c : U64) : F := (t.mrc.getMissRatioConst c).val

/-- `net_bw_alpha`, in `F`. -/
def alpha (t : Tenant F) : F := t.netBwAlpha.val

/-- `demand_cacheless`, in `F`. -/
def demand (t : Tenant F) : Res → F := t.demandCacheless.val

/-- The stateless resources the tenant holds, in `F`. -/
def held (t : Tenant F) : Res → F := t.resrc.stateless.val

/-- What the allocator's proofs need of a tenant. -/
structure Ok (t : Tenant F) : Prop where
  sane : t.mrc.Sane
  alpha_eq : t.netBwAlpha = fin t.alpha
  alpha_mem : 0 ≤ t.alpha ∧ t.alpha ≤ 1
  demand_eq : t.demandCacheless = ofFun t.demand
  demand_nonneg : ∀ r, 0 ≤ t.demand r
  held_eq : t.resrc.stateless = ofFun t.held
  held_nonneg : ∀ r, 0 ≤ t.held r

variable {p : Params} {t : Tenant F}

theorem Ok.getMissRatioConst_eq (ht : t.Ok) (c : U64) :
    t.mrc.getMissRatioConst c = fin (t.mrAt c) := by
  obtain ⟨x, hx, -⟩ := ht.sane.getMissRatioConst_mem c
  rw [mrAt, hx, val_fin]

theorem Ok.mrAt_mem (ht : t.Ok) (c : U64) : 0 ≤ t.mrAt c ∧ t.mrAt c ≤ 1 := by
  obtain ⟨x, hx, hx0, hx1⟩ := ht.sane.getMissRatioConst_mem c
  rw [mrAt, hx, val_fin]
  exact ⟨hx0, hx1⟩

/-- The multiplier of `net_bw` is positive at a positive miss ratio. -/
theorem netFactor_pos {m α : F} (hm : 0 < m) (hα : 0 ≤ α ∧ α ≤ 1) : 0 < m * α + 1 - α := by
  rcases hα.2.lt_or_eq with h | h
  · have := mul_nonneg hm.le hα.1
    linarith
  · rw [h]
    linarith

/-- The demand of `collect_idle`, in `F`. -/
theorem Ok.demandAt_eq (ht : t.Ok) (m : F) :
    t.demandAt p (fin m) = ofFun (effDemand p.allocTotalNetBw t.demand t.alpha m) := by
  unfold demandAt demandAtWith
  rw [ht.demand_eq, ht.alpha_eq]
  cases p.allocTotalNetBw <;> simp [ofFun, effDemand]

/-- The demand is finite and not negative at a miss ratio in `[0, 1]`. -/
theorem Ok.effDemand_nonneg (ht : t.Ok) {m : F} (hm : 0 ≤ m ∧ m ≤ 1) (r : Res) :
    0 ≤ effDemand p.allocTotalNetBw t.demand t.alpha m r := by
  have hd := ht.demand_nonneg
  have hα := ht.alpha_mem
  cases r with
  | dbRcu => exact mul_nonneg (hd _) hm.1
  | dbWcu => exact hd _
  | netBw =>
    simp only [effDemand]
    split
    · exact mul_nonneg (hd _) (by nlinarith)
    · exact hd _

/-! ## collect_idle -/

/-- `collect_idle` on positive resources and a demand with a positive field:
    the throughput `tp` is the least quotient, the tenant keeps
    `demand * tp`, and the rest is idle. -/
theorem Ok.collectIdle_exact (ht : t.Ok) (hpos : ∀ r, 0 < t.held r)
    (hD : ∃ r, 0 < effDemand p.allocTotalNetBw t.demand t.alpha (t.mrAt t.resrc.cacheSize) r) :
    let D := effDemand p.allocTotalNetBw t.demand t.alpha (t.mrAt t.resrc.cacheSize)
    ∃ tp : F, 0 < tp ∧ ratioTop t.held D = tp ∧ (∀ r, D r * tp ≤ t.held r) ∧
      (t.collectIdle p).1 = { t with
        resrc := { t.resrc with stateless := ofFun fun r => D r * tp }
        mrc := (t.mrc.getMissRatio t.resrc.cacheSize).2 } ∧
      (t.collectIdle p).2 = ofFun fun r => t.held r - D r * tp := by
  intro D
  have hDnn : ∀ r, 0 ≤ D r := ht.effDemand_nonneg (ht.mrAt_mem _)
  -- every quotient is positive, and the one of a positive demand is finite
  have hq : ∀ r, (0 : WithTop F) < divTop (t.held r) (D r) := fun r => by
    by_cases h : D r = 0
    · rw [h, divTop_zero]
      exact WithTop.coe_lt_top 0
    · rw [divTop_of_ne h, WithTop.coe_pos]
      exact div_pos (hpos r) (lt_of_le_of_ne (hDnn r) (Ne.symm h))
  obtain ⟨r₀, hr₀⟩ := hD
  have hfin : ratioTop t.held D ≠ ⊤ := by
    refine ne_top_of_le_ne_top ?_ (ratioTop_le _ _ r₀)
    rw [divTop_of_ne hr₀.ne']
    exact WithTop.coe_ne_top
  obtain ⟨tp, htp⟩ := WithTop.ne_top_iff_exists.mp hfin
  have hpos' : (0 : WithTop F) < ratioTop t.held D := lt_min (lt_min (hq _) (hq _)) (hq _)
  have hle : ∀ r, D r * tp ≤ t.held r := fun r => by
    have := ratioTop_le t.held D r
    rw [← htp] at this
    by_cases h : D r = 0
    · rw [h, zero_mul]
      exact ht.held_nonneg r
    · rw [divTop_of_ne h, WithTop.coe_le_coe, le_div_iff₀ (lt_of_le_of_ne (hDnn r) (Ne.symm h))]
        at this
      linarith
  have hd : t.demandAt p (t.mrc.getMissRatio t.resrc.cacheSize).1 = ofFun D := by
    rw [MissRatioCurve.getMissRatio_fst, ht.getMissRatioConst_eq, ht.demandAt_eq]
  have hratio : t.resrc.stateless.ratio (ofFun D) = fin tp := by
    rw [ht.held_eq, ratio_ofFun fun r _ => hpos r, ← htp, ofTop_coe]
  refine ⟨tp, by rw [← htp] at hpos'; exact WithTop.coe_pos.mp hpos', htp.symm, hle, ?_, ?_⟩
  · simp only [collectIdle, hd, hratio, scale_ofFun]
  · simp only [collectIdle, hd, hratio, scale_ofFun]
    rw [ht.held_eq, ofFun_sub]
    rfl

/-! ## The quotes of a cache trade

A quote depends on the tenant only through its cache size, its curve, the
resources it holds and `net_bw_alpha`, so the two relations below are stated
over these. Without `alloc_total_net_bw` the `net_bw` quotes keep their value,
which stays `0` from the constructor on (`net_ite`). -/

/-- What `pred_rcu_net_delta_if_more_cache` quotes, by the branch it takes:
    an abort quotes nothing, and a deal gives back the share of `db_rcu` and
    `net_bw` that the fall of the miss ratio from `mr c` to
    `mr (c + cache_delta)` frees. -/
inductive RelinqQuote (p : Params) (c : U64) (mr : U64 → F) (h : Res → F) (α : F) :
    Ieee F → Ieee F → Prop
  | abort : RelinqQuote p c mr h α (fin 0) (fin 0)
  | deal (hc : eps < mr c) (hd : eps < mr c - mr (c + p.cacheDelta)) :
      RelinqQuote p c mr h α (fin (h .dbRcu * (mr c - mr (c + p.cacheDelta)) / mr c))
        (if p.allocTotalNetBw then
          fin (h .netBw * (mr c - mr (c + p.cacheDelta)) * α / (mr c * α + 1 - α))
        else fin 0)

/-- What `pred_rcu_net_delta_if_less_cache` quotes, by the branch it takes:
    an abort asks for `compen_abort_offer`, an immediate offer for nothing,
    and a deal for the share of `db_rcu` and `net_bw` that the rise of the
    miss ratio from `mr c` to `mr (c - cache_delta)` costs. -/
inductive CompenQuote (p : Params) (c : U64) (mr : U64 → F) (h : Res → F) (α : F) :
    Ieee F → Ieee F → Prop
  | abort : CompenQuote p c mr h α (fin Params.fltMax)
      (if p.allocTotalNetBw then fin Params.fltMax else fin 0)
  | immediate (hmin : ¬ c < p.minCacheSize + p.cacheDelta)
      (hsmall : mr (c - p.cacheDelta) - mr c ≤ eps ∨ mr (c - p.cacheDelta) ≤ eps) :
      CompenQuote p c mr h α (fin 0) (fin 0)
  | deal (hmin : ¬ c < p.minCacheSize + p.cacheDelta) (hd : eps < mr (c - p.cacheDelta) - mr c)
      (hc : eps < mr c) :
      CompenQuote p c mr h α (fin (h .dbRcu * (mr (c - p.cacheDelta) - mr c) / mr c))
        (if p.allocTotalNetBw then
          fin (h .netBw * (mr (c - p.cacheDelta) - mr c) * α / (mr c * α + 1 - α))
        else fin 0)

theorem eps_eq : (eps : F) = 1 / 2 ^ 52 := rfl

/-- A `net_bw` quote that is `0` unless `alloc_total_net_bw`. -/
theorem net_ite {v : Ieee F} (hnet : p.allocTotalNetBw = false → v = fin 0) (x : Ieee F) :
    (if p.allocTotalNetBw then x else v) = if p.allocTotalNetBw then x else fin 0 := by
  cases h : p.allocTotalNetBw
  · simp [hnet h]
  · rfl

/-- The computed quote of `pred_rcu_net_delta_if_more_cache`, in `F`. -/
theorem Ok.predRcuNetDeltaIfMoreCache_deal (ht : t.Ok) (hc : eps < t.mrAt t.resrc.cacheSize)
    (hd : eps < t.mrAt t.resrc.cacheSize - t.mrAt (t.resrc.cacheSize + p.cacheDelta)) :
    (t.predRcuNetDeltaIfMoreCache p).rcuDeltaRelinq =
        fin (t.held .dbRcu * (t.mrAt t.resrc.cacheSize - t.mrAt (t.resrc.cacheSize + p.cacheDelta)) /
          t.mrAt t.resrc.cacheSize) ∧
      (t.predRcuNetDeltaIfMoreCache p).netDeltaRelinq =
        if p.allocTotalNetBw then
          fin (t.held .netBw * (t.mrAt t.resrc.cacheSize - t.mrAt (t.resrc.cacheSize + p.cacheDelta)) *
            t.alpha / (t.mrAt t.resrc.cacheSize * t.alpha + 1 - t.alpha))
        else t.netDeltaRelinq := by
  have h₁ : ¬ t.mrAt t.resrc.cacheSize ≤ eps := not_le.mpr hc
  have h₂ : ¬ t.mrAt (t.resrc.cacheSize + p.cacheDelta) < 0 := not_lt.mpr (ht.mrAt_mem _).1
  have h₃ := not_le.mpr hd
  have hc0 : t.mrAt t.resrc.cacheSize ≠ 0 := (lt_trans eps_pos hc).ne'
  have hden := (netFactor_pos (lt_trans eps_pos hc) ht.alpha_mem).ne'
  unfold predRcuNetDeltaIfMoreCache predRcuNetDeltaIfMoreCacheWith
  simp only [id, MissRatioCurve.getMissRatio_fst, MissRatioCurve.getMissRatio_snd_getMissRatioConst,
    ht.getMissRatioConst_eq, equal_fin_posInf, Bool.false_eq_true, ↓reduceIte, Params.epilson,
    Params.minMissRatio, fin_le_fin, fin_lt_fin, fin_sub_fin, ← eps_eq, h₁, h₂, h₃, ht.held_eq,
    ht.alpha_eq, ofFun_dbRcu, ofFun_netBw, fin_mul_fin, fin_add_fin, fin_div_fin hc0,
    fin_div_fin hden]
  exact ⟨trivial, trivial⟩

/-- The computed quote of `pred_rcu_net_delta_if_less_cache`, in `F`. -/
theorem Ok.predRcuNetDeltaIfLessCache_deal (ht : t.Ok)
    (hmin : ¬ t.resrc.cacheSize < p.minCacheSize + p.cacheDelta)
    (hd : eps < t.mrAt (t.resrc.cacheSize - p.cacheDelta) - t.mrAt t.resrc.cacheSize)
    (hc : eps < t.mrAt t.resrc.cacheSize) :
    (t.predRcuNetDeltaIfLessCache p).rcuDeltaCompen =
        fin (t.held .dbRcu * (t.mrAt (t.resrc.cacheSize - p.cacheDelta) - t.mrAt t.resrc.cacheSize) /
          t.mrAt t.resrc.cacheSize) ∧
      (t.predRcuNetDeltaIfLessCache p).netDeltaCompen =
        if p.allocTotalNetBw then
          fin (t.held .netBw * (t.mrAt (t.resrc.cacheSize - p.cacheDelta) - t.mrAt t.resrc.cacheSize) *
            t.alpha / (t.mrAt t.resrc.cacheSize * t.alpha + 1 - t.alpha))
        else fin 0 := by
  have h₁ : ¬ 1 < t.mrAt (t.resrc.cacheSize - p.cacheDelta) := not_lt.mpr (ht.mrAt_mem _).2
  have h₂ := not_le.mpr hd
  -- the larger miss ratio is above `eps` too
  have h₃ : ¬ t.mrAt (t.resrc.cacheSize - p.cacheDelta) ≤ eps := by
    have := (ht.mrAt_mem t.resrc.cacheSize).1
    exact not_le.mpr (by linarith)
  have h₄ : ¬ t.mrAt t.resrc.cacheSize ≤ eps := not_le.mpr hc
  have hc0 : t.mrAt t.resrc.cacheSize ≠ 0 := (lt_trans eps_pos hc).ne'
  have hden := (netFactor_pos (lt_trans eps_pos hc) ht.alpha_mem).ne'
  unfold predRcuNetDeltaIfLessCache
  simp only [MissRatioCurve.getMissRatio_fst, MissRatioCurve.getMissRatio_snd_getMissRatioConst,
    ht.getMissRatioConst_eq, equal_fin_posInf, Bool.false_eq_true, ↓reduceIte, Params.epilson,
    Params.maxMissRatio, fin_le_fin, fin_lt_fin, fin_sub_fin, ← eps_eq, hmin, h₁, h₂, h₃, h₄,
    ht.held_eq, ht.alpha_eq, ofFun_dbRcu, ofFun_netBw, fin_mul_fin, fin_add_fin, fin_div_fin hc0,
    fin_div_fin hden]
  exact ⟨trivial, trivial⟩

/-- The branches of `pred_rcu_net_delta_if_more_cache`. -/
theorem Ok.relinqQuote (ht : t.Ok) (hnet : p.allocTotalNetBw = false → t.netDeltaRelinq = fin 0) :
    RelinqQuote p t.resrc.cacheSize t.mrAt t.held t.alpha
      (t.predRcuNetDeltaIfMoreCache p).rcuDeltaRelinq
      (t.predRcuNetDeltaIfMoreCache p).netDeltaRelinq := by
  have habort : (if p.allocTotalNetBw then Params.relinqAbortOffer else t.netDeltaRelinq) =
      (fin 0 : Ieee F) := by
    rw [net_ite hnet]
    split <;> rfl
  unfold predRcuNetDeltaIfMoreCache predRcuNetDeltaIfMoreCacheWith
  simp only [id, MissRatioCurve.getMissRatio_fst, MissRatioCurve.getMissRatio_snd_getMissRatioConst,
    ht.getMissRatioConst_eq, equal_fin_posInf, Bool.false_eq_true, ↓reduceIte, Params.epilson,
    Params.minMissRatio, fin_le_fin, fin_lt_fin, fin_sub_fin, ← eps_eq]
  by_cases h₁ : t.mrAt t.resrc.cacheSize ≤ eps
  case pos =>
    simp only [h₁, ↓reduceIte, habort]
    exact .abort
  case neg =>
    by_cases h₂ : t.mrAt (t.resrc.cacheSize + p.cacheDelta) < 0
    case pos =>
      simp only [h₁, h₂, ↓reduceIte, habort]
      exact .abort
    case neg =>
      by_cases h₃ : t.mrAt t.resrc.cacheSize - t.mrAt (t.resrc.cacheSize + p.cacheDelta) ≤ eps
      case pos =>
        simp only [h₁, h₂, h₃, ↓reduceIte, habort]
        exact .abort
      case neg =>
        -- the computed quote, read in `F`
        have hc : eps < t.mrAt t.resrc.cacheSize := lt_of_not_ge h₁
        have hc0 : t.mrAt t.resrc.cacheSize ≠ 0 := (lt_trans eps_pos hc).ne'
        have hden := (netFactor_pos (lt_trans eps_pos hc) ht.alpha_mem).ne'
        simp only [h₁, h₂, h₃, ↓reduceIte, ht.held_eq, ht.alpha_eq, ofFun_dbRcu, ofFun_netBw,
          fin_mul_fin, fin_add_fin, fin_sub_fin, fin_div_fin hc0, fin_div_fin hden, net_ite hnet]
        exact .deal hc (lt_of_not_ge h₃)

/-- The branches of `pred_rcu_net_delta_if_less_cache`. -/
theorem Ok.compenQuote (ht : t.Ok) (hnet : p.allocTotalNetBw = false → t.netDeltaCompen = fin 0) :
    CompenQuote p t.resrc.cacheSize t.mrAt t.held t.alpha
      (t.predRcuNetDeltaIfLessCache p).rcuDeltaCompen
      (t.predRcuNetDeltaIfLessCache p).netDeltaCompen := by
  unfold predRcuNetDeltaIfLessCache
  simp only [MissRatioCurve.getMissRatio_fst, MissRatioCurve.getMissRatio_snd_getMissRatioConst,
    ht.getMissRatioConst_eq, equal_fin_posInf, Bool.false_eq_true, ↓reduceIte, Params.epilson,
    Params.maxMissRatio, Params.compenAbortOffer, fin_le_fin, fin_lt_fin, fin_sub_fin, ← eps_eq,
    net_ite hnet]
  by_cases h₀ : t.resrc.cacheSize < p.minCacheSize + p.cacheDelta
  case pos =>
    simp only [h₀, ↓reduceIte]
    exact .abort
  case neg =>
    have h₁ : ¬ 1 < t.mrAt (t.resrc.cacheSize - p.cacheDelta) := not_lt.mpr (ht.mrAt_mem _).2
    by_cases h₂ : t.mrAt (t.resrc.cacheSize - p.cacheDelta) - t.mrAt t.resrc.cacheSize ≤ eps
    case pos =>
      simp only [h₀, h₁, h₂, ↓reduceIte, ite_self]
      exact .immediate h₀ (.inl h₂)
    case neg =>
      by_cases h₃ : t.mrAt (t.resrc.cacheSize - p.cacheDelta) ≤ eps
      case pos =>
        simp only [h₀, h₁, h₂, h₃, ↓reduceIte, ite_self]
        exact .immediate h₀ (.inr h₃)
      case neg =>
        by_cases h₄ : t.mrAt t.resrc.cacheSize ≤ eps
        case pos =>
          simp only [h₀, h₁, h₂, h₃, h₄, ↓reduceIte]
          exact .abort
        case neg =>
          -- the computed quote, read in `F`
          have hc : eps < t.mrAt t.resrc.cacheSize := lt_of_not_ge h₄
          have hc0 : t.mrAt t.resrc.cacheSize ≠ 0 := (lt_trans eps_pos hc).ne'
          have hden := (netFactor_pos (lt_trans eps_pos hc) ht.alpha_mem).ne'
          simp only [h₀, h₁, h₂, h₃, h₄, ↓reduceIte, ht.held_eq, ht.alpha_eq, ofFun_dbRcu,
            ofFun_netBw, fin_mul_fin, fin_add_fin, fin_sub_fin, fin_div_fin hc0, fin_div_fin hden]
          exact .deal h₀ (lt_of_not_ge h₂) hc

/-! ## What the quotes leave alone -/

/-- The `net_bw` quotes are `0` unless `alloc_total_net_bw`. -/
def NetZero (p : Params) (t : Tenant F) : Prop :=
  p.allocTotalNetBw = false → t.netDeltaRelinq = fin 0 ∧ t.netDeltaCompen = fin 0

/-- `u` is `t` with other quotes and more queries in its curve's memo: what
    every quote and every query of the curve leaves of a tenant. -/
structure Requoted (t u : Tenant F) : Prop where
  resrc : u.resrc = t.resrc
  demand : u.demandCacheless = t.demandCacheless
  alpha : u.netBwAlpha = t.netBwAlpha
  reserved : u.reservedCacheSize = t.reservedCacheSize
  ticks : u.mrc.ticks = t.mrc.ticks
  missRatios : u.mrc.missRatios = t.mrc.missRatios

namespace Requoted

variable {u w : Tenant F}

theorem refl (t : Tenant F) : Requoted t t := ⟨rfl, rfl, rfl, rfl, rfl, rfl⟩

theorem trans (h₁ : Requoted t u) (h₂ : Requoted u w) : Requoted t w :=
  ⟨h₂.resrc.trans h₁.resrc, h₂.demand.trans h₁.demand, h₂.alpha.trans h₁.alpha,
    h₂.reserved.trans h₁.reserved, h₂.ticks.trans h₁.ticks, h₂.missRatios.trans h₁.missRatios⟩

theorem mrAt_eq (h : Requoted t u) : u.mrAt = t.mrAt := by
  funext c
  simp only [mrAt, MissRatioCurve.getMissRatioConst, h.ticks, h.missRatios]

theorem held_eq (h : Requoted t u) : u.held = t.held := by
  simp only [Tenant.held, h.resrc]

theorem alpha_eq (h : Requoted t u) : u.alpha = t.alpha := by
  simp only [Tenant.alpha, h.alpha]

theorem demand_eq (h : Requoted t u) : u.demand = t.demand := by
  simp only [Tenant.demand, h.demand]

theorem ok (h : Requoted t u) (ht : t.Ok) : u.Ok where
  sane := ⟨by rw [h.ticks, h.missRatios]; exact ht.sane.length_eq,
    by rw [h.ticks]; exact ht.sane.ticks_sorted, by rw [h.missRatios]; exact ht.sane.vals⟩
  alpha_eq := by rw [h.alpha_eq, h.alpha]; exact ht.alpha_eq
  alpha_mem := by rw [h.alpha_eq]; exact ht.alpha_mem
  demand_eq := by rw [h.demand_eq, h.demand]; exact ht.demand_eq
  demand_nonneg := by rw [h.demand_eq]; exact ht.demand_nonneg
  held_eq := by rw [h.held_eq, h.resrc]; exact ht.held_eq
  held_nonneg := by rw [h.held_eq]; exact ht.held_nonneg

end Requoted

theorem requoted_predRcuNetDeltaIfMoreCache (p : Params) (t : Tenant F) :
    Requoted t (t.predRcuNetDeltaIfMoreCache p) := by
  unfold predRcuNetDeltaIfMoreCache predRcuNetDeltaIfMoreCacheWith
  dsimp only
  split_ifs <;> exact ⟨rfl, rfl, rfl, rfl, by simp, by simp⟩

theorem requoted_predRcuNetDeltaIfLessCache (p : Params) (t : Tenant F) :
    Requoted t (t.predRcuNetDeltaIfLessCache p) := by
  unfold predRcuNetDeltaIfLessCache
  dsimp only
  split_ifs <;> exact ⟨rfl, rfl, rfl, rfl, by simp, by simp⟩

theorem requoted_updateRcuNetDelta (p : Params) (t : Tenant F) :
    Requoted t (t.updateRcuNetDelta p) :=
  (requoted_predRcuNetDeltaIfMoreCache p t).trans (requoted_predRcuNetDeltaIfLessCache p _)

@[simp] theorem predRcuNetDeltaIfMoreCache_netDeltaCompen :
    (t.predRcuNetDeltaIfMoreCache p).netDeltaCompen = t.netDeltaCompen := by
  unfold predRcuNetDeltaIfMoreCache predRcuNetDeltaIfMoreCacheWith
  dsimp only
  split_ifs <;> rfl

@[simp] theorem predRcuNetDeltaIfLessCache_rcuDeltaRelinq :
    (t.predRcuNetDeltaIfLessCache p).rcuDeltaRelinq = t.rcuDeltaRelinq := by
  unfold predRcuNetDeltaIfLessCache
  dsimp only
  split_ifs <;> rfl

@[simp] theorem predRcuNetDeltaIfLessCache_netDeltaRelinq :
    (t.predRcuNetDeltaIfLessCache p).netDeltaRelinq = t.netDeltaRelinq := by
  unfold predRcuNetDeltaIfLessCache
  dsimp only
  split_ifs <;> rfl

theorem RelinqQuote.net_zero {c : U64} {mr : U64 → F} {h : Res → F} {α : F} {ρ ν : Ieee F}
    (hq : RelinqQuote p c mr h α ρ ν) (hf : p.allocTotalNetBw = false) : ν = fin 0 := by
  cases hq with
  | abort => rfl
  | deal => simp [hf]

theorem CompenQuote.net_zero {c : U64} {mr : U64 → F} {h : Res → F} {α : F} {κ μ : Ieee F}
    (hq : CompenQuote p c mr h α κ μ) (hf : p.allocTotalNetBw = false) : μ = fin 0 := by
  cases hq with
  | abort => simp [hf]
  | immediate => rfl
  | deal => simp [hf]

/-- The quotes of `update_rcu_net_delta`, on the data of the tenant before it. -/
theorem Ok.updateRcuNetDelta_quotes (ht : t.Ok) (hnet : NetZero p t) :
    RelinqQuote p t.resrc.cacheSize t.mrAt t.held t.alpha (t.updateRcuNetDelta p).rcuDeltaRelinq
        (t.updateRcuNetDelta p).netDeltaRelinq ∧
      CompenQuote p t.resrc.cacheSize t.mrAt t.held t.alpha (t.updateRcuNetDelta p).rcuDeltaCompen
        (t.updateRcuNetDelta p).netDeltaCompen := by
  have hr := requoted_predRcuNetDeltaIfMoreCache p t
  have hc := (hr.ok ht).compenQuote (p := p) fun hf => by
    rw [predRcuNetDeltaIfMoreCache_netDeltaCompen]
    exact (hnet hf).2
  rw [hr.resrc, hr.mrAt_eq, hr.held_eq, hr.alpha_eq] at hc
  refine ⟨?_, hc⟩
  simp only [updateRcuNetDelta, predRcuNetDeltaIfLessCache_rcuDeltaRelinq,
    predRcuNetDeltaIfLessCache_netDeltaRelinq]
  exact ht.relinqQuote fun hf => (hnet hf).1

/-! ## The quotes in `F` -/

theorem fltMax_pos : (0 : F) < Params.fltMax := by
  unfold Params.fltMax
  norm_num

/-- A relinquish quote is finite, gives back at most what the tenant holds,
    and nothing of `net_bw` without `alloc_total_net_bw`. -/
theorem RelinqQuote.exact {c : U64} {mr : U64 → F} {h : Res → F} {α : F} {ρ ν : Ieee F}
    (hq : RelinqQuote p c mr h α ρ ν) (hmr : ∀ c, 0 ≤ mr c) (hh : ∀ r, 0 ≤ h r)
    (hα : 0 ≤ α ∧ α ≤ 1) :
    ∃ x y, ρ = fin x ∧ ν = fin y ∧ 0 ≤ x ∧ x ≤ h .dbRcu ∧ 0 ≤ y ∧ y ≤ h .netBw ∧
      (p.allocTotalNetBw = false → y = 0) := by
  cases hq with
  | abort => exact ⟨0, 0, rfl, rfl, le_rfl, hh _, le_rfl, hh _, fun _ => rfl⟩
  | deal hc hd =>
    have hm : 0 < mr c := lt_trans eps_pos hc
    have hΔ : 0 < mr c - mr (c + p.cacheDelta) := lt_trans eps_pos hd
    have hΔm : mr c - mr (c + p.cacheDelta) ≤ mr c := by linarith [hmr (c + p.cacheDelta)]
    have hden : 0 < mr c * α + 1 - α := netFactor_pos hm hα
    have hx : h .dbRcu * (mr c - mr (c + p.cacheDelta)) / mr c ≤ h .dbRcu := by
      rw [div_le_iff₀ hm]
      exact mul_le_mul_of_nonneg_left hΔm (hh _)
    have hy : h .netBw * (mr c - mr (c + p.cacheDelta)) * α / (mr c * α + 1 - α) ≤ h .netBw := by
      rw [div_le_iff₀ hden, mul_assoc]
      exact mul_le_mul_of_nonneg_left (by nlinarith) (hh _)
    have hy0 : 0 ≤ h .netBw * (mr c - mr (c + p.cacheDelta)) * α / (mr c * α + 1 - α) :=
      div_nonneg (mul_nonneg (mul_nonneg (hh _) hΔ.le) hα.1) hden.le
    cases hf : p.allocTotalNetBw
    · exact ⟨_, 0, rfl, rfl, div_nonneg (mul_nonneg (hh _) hΔ.le) hm.le, hx, le_rfl, hh _,
        fun _ => rfl⟩
    · exact ⟨_, _, rfl, rfl, div_nonneg (mul_nonneg (hh _) hΔ.le) hm.le, hx, hy0, hy,
        fun h => absurd h (by simp)⟩

/-- A compensation quote is finite and asks for nothing negative, and for
    nothing of `net_bw` without `alloc_total_net_bw`. -/
theorem CompenQuote.exact {c : U64} {mr : U64 → F} {h : Res → F} {α : F} {κ μ : Ieee F}
    (hq : CompenQuote p c mr h α κ μ) (hh : ∀ r, 0 ≤ h r) (hα : 0 ≤ α ∧ α ≤ 1) :
    ∃ x y, κ = fin x ∧ μ = fin y ∧ 0 ≤ x ∧ 0 ≤ y ∧ (p.allocTotalNetBw = false → y = 0) := by
  cases hq with
  | abort =>
    cases hf : p.allocTotalNetBw
    · exact ⟨_, 0, rfl, rfl, fltMax_pos.le, le_rfl, fun _ => rfl⟩
    · exact ⟨_, _, rfl, rfl, fltMax_pos.le, fltMax_pos.le, fun h => absurd h (by simp)⟩
  | immediate => exact ⟨0, 0, rfl, rfl, le_rfl, le_rfl, fun _ => rfl⟩
  | deal hmin hd hc =>
    have hm : 0 < mr c := lt_trans eps_pos hc
    have hΔ : 0 < mr (c - p.cacheDelta) - mr c := lt_trans eps_pos hd
    have hden : 0 < mr c * α + 1 - α := netFactor_pos hm hα
    have hx := div_nonneg (mul_nonneg (hh .dbRcu) hΔ.le) hm.le
    cases hf : p.allocTotalNetBw
    · exact ⟨_, 0, rfl, rfl, hx, le_rfl, fun _ => rfl⟩
    · exact ⟨_, _, rfl, rfl, hx,
        div_nonneg (mul_nonneg (mul_nonneg (hh _) hΔ.le) hα.1) hden.le, fun h => absurd h (by simp)⟩

/-! ## The two sides of `relocate_resrc` -/

theorem tradeVec_nonneg {f : Bool} {x y : F} (hx : 0 ≤ x) (hy : 0 ≤ y) (r : Res) :
    0 ≤ tradeVec f x y r := by
  cases r with
  | dbRcu => exact hx
  | dbWcu => exact le_rfl
  | netBw =>
    simp only [tradeVec]
    split
    · exact hy
    · exact le_rfl

/-- A tenant with other resources of finite, non-negative fields. -/
theorem Ok.withResrc (ht : t.Ok) (R : ResrcVec F) {v : Res → F} (hR : R.stateless = ofFun v)
    (hv : ∀ r, 0 ≤ v r) : ({ t with resrc := R } : Tenant F).Ok where
  sane := ht.sane
  alpha_eq := ht.alpha_eq
  alpha_mem := ht.alpha_mem
  demand_eq := ht.demand_eq
  demand_nonneg := ht.demand_nonneg
  held_eq := by simp only [Tenant.held, hR, val_ofFun]
  held_nonneg := by simpa only [Tenant.held, hR, val_ofFun] using hv

theorem relinqSide_stateless (ht : t.Ok) (x y : F) :
    (relinqSide p (fin x) (fin y) t).resrc.stateless =
      ofFun (t.held - tradeVec p.allocTotalNetBw x y) := by
  unfold relinqSide
  rw [ht.held_eq]
  cases p.allocTotalNetBw <;> simp [ofFun, tradeVec]

theorem compenSide_stateless (ht : t.Ok) (x y : F) :
    (compenSide p (fin x) (fin y) t).resrc.stateless =
      ofFun (t.held + tradeVec p.allocTotalNetBw x y) := by
  unfold compenSide
  rw [ht.held_eq]
  cases p.allocTotalNetBw <;> simp [ofFun, tradeVec]

/-! ## The throughput of a trade

A deal at a computed quote scales each traded resource by the ratio of the
demands at the new and the old miss ratio (`tradeScale`), so the quotient of
that resource in `collect_idle`'s division stays the same
(`Ok.fieldTput_withResrc_scale`). -/

/-- The throughput that the resource `r` affords the tenant: the quotient of
    `r` in the division `resrc.stateless / demand` of `collect_idle`. -/
def fieldTput (p : Params) (t : Tenant F) (r : Res) : Ieee F :=
  t.resrc.stateless.get r / (t.demandAt p (t.mrc.getMissRatioConst t.resrc.cacheSize)).get r

/-- The quotient of a tenant given other resources, in `F`. -/
theorem Ok.fieldTput_withResrc (ht : t.Ok) (R : ResrcVec F) {v : Res → F}
    (hR : R.stateless = ofFun v) (r : Res) :
    ({ t with resrc := R } : Tenant F).fieldTput p r =
      fin (v r) / fin (effDemand p.allocTotalNetBw t.demand t.alpha (t.mrAt R.cacheSize) r) := by
  have hd : ({ t with resrc := R } : Tenant F).demandAt p (fin (t.mrAt R.cacheSize)) =
      t.demandAt p (fin (t.mrAt R.cacheSize)) := rfl
  simp only [fieldTput]
  rw [hR, ht.getMissRatioConst_eq, hd, ht.demandAt_eq, get_ofFun, get_ofFun]

theorem Ok.fieldTput_eq (ht : t.Ok) (r : Res) :
    t.fieldTput p r =
      fin (t.held r) / fin (effDemand p.allocTotalNetBw t.demand t.alpha (t.mrAt t.resrc.cacheSize) r) :=
  ht.fieldTput_withResrc t.resrc ht.held_eq r

/-- The factor by which a trade from the miss ratio `m` to `m'` scales the
    resources that keep the throughput: `m' / m` for `db_rcu`, and for
    `net_bw` with `alloc_total_net_bw` the ratio of `m * α + 1 - α` at `m'`
    and at `m`. -/
def tradeScale (allocTotalNetBw : Bool) (α m m' : F) : Res → F
  | .dbRcu => m' / m
  | .dbWcu => 1
  | .netBw => if allocTotalNetBw then (m' * α + 1 - α) / (m * α + 1 - α) else 1

theorem tradeScale_pos {f : Bool} {α m m' : F} (hm : 0 < m) (hm' : 0 < m') (hα : 0 ≤ α ∧ α ≤ 1)
    (r : Res) : 0 < tradeScale f α m m' r := by
  cases r with
  | dbRcu => exact div_pos hm' hm
  | dbWcu => exact one_pos
  | netBw =>
    simp only [tradeScale]
    split
    · exact div_pos (netFactor_pos hm' hα) (netFactor_pos hm hα)
    · exact one_pos

section Scale

variable {f : Bool} {d h : Res → F} {α m m' : F}

/-- The demand at `m'` is the demand at `m` scaled by the trade's factor. -/
theorem effDemand_tradeScale (hm : m ≠ 0) (hden : m * α + 1 - α ≠ 0) (r : Res) :
    effDemand f d α m' r = effDemand f d α m r * tradeScale f α m m' r := by
  cases r with
  | dbRcu =>
    simp only [effDemand, tradeScale]
    field_simp
  | dbWcu => simp [effDemand, tradeScale]
  | netBw =>
    simp only [effDemand, tradeScale]
    split
    · -- both demands are `d * (m * α + 1 - α)`, at `m'` and at `m`
      have e₁ : m' + (1 - α) * (1 - m') = m' * α + 1 - α := by ring
      have e₂ : m + (1 - α) * (1 - m) = m * α + 1 - α := by ring
      rw [e₁, e₂, mul_assoc, mul_div_cancel₀ _ hden]
    · simp

/-- What the relinquisher keeps at its quote is its resources scaled by the
    trade's factor. -/
theorem sub_relinq_tradeScale (hm : m ≠ 0) (hden : m * α + 1 - α ≠ 0) (r : Res) :
    h r - tradeVec f (h .dbRcu * (m - m') / m) (h .netBw * (m - m') * α / (m * α + 1 - α)) r =
      h r * tradeScale f α m m' r := by
  cases r with
  | dbRcu =>
    simp only [tradeVec, tradeScale]
    field_simp
    ring
  | dbWcu => simp [tradeVec, tradeScale]
  | netBw =>
    simp only [tradeVec, tradeScale]
    split
    · field_simp
      ring
    · simp

/-- What the compensator holds with its quote is its resources scaled by the
    trade's factor. -/
theorem add_compen_tradeScale (hm : m ≠ 0) (hden : m * α + 1 - α ≠ 0) (r : Res) :
    h r + tradeVec f (h .dbRcu * (m' - m) / m) (h .netBw * (m' - m) * α / (m * α + 1 - α)) r =
      h r * tradeScale f α m m' r := by
  cases r with
  | dbRcu =>
    simp only [tradeVec, tradeScale]
    field_simp
    ring
  | dbWcu => simp [tradeVec, tradeScale]
  | netBw =>
    simp only [tradeVec, tradeScale]
    split
    · field_simp
      ring
    · simp

end Scale

/-- Resources scaled by the trade's factor from the current miss ratio to the
    one at the new cache size keep every quotient. -/
theorem Ok.fieldTput_withResrc_scale (ht : t.Ok) (R : ResrcVec F) {v : Res → F}
    (hR : R.stateless = ofFun v) (hm : 0 < t.mrAt t.resrc.cacheSize) (hm' : 0 < t.mrAt R.cacheSize)
    (hv : ∀ r, v r = t.held r *
      tradeScale p.allocTotalNetBw t.alpha (t.mrAt t.resrc.cacheSize) (t.mrAt R.cacheSize) r)
    (r : Res) :
    ({ t with resrc := R } : Tenant F).fieldTput p r = t.fieldTput p r := by
  have hk := tradeScale_pos (f := p.allocTotalNetBw) hm hm' ht.alpha_mem r
  rw [ht.fieldTput_withResrc R hR, ht.fieldTput_eq, hv,
    effDemand_tradeScale hm.ne' (netFactor_pos hm ht.alpha_mem).ne', fin_mul_div_fin_mul hk]

theorem Requoted.fieldTput_eq {u : Tenant F} (h : Requoted t u) : u.fieldTput p = t.fieldTput p := by
  funext r
  simp only [fieldTput, demandAt, demandAtWith, h.resrc, h.demand, h.alpha,
    MissRatioCurve.getMissRatioConst, h.ticks, h.missRatios]

theorem Requoted.relinqSide {u : Tenant F} (h : Requoted t u) (ρ ν : Ieee F) :
    Requoted (relinqSide p ρ ν t) (relinqSide p ρ ν u) :=
  ⟨by simp only [Tenant.relinqSide, h.resrc], h.demand, h.alpha, h.reserved, h.ticks, h.missRatios⟩

theorem Requoted.compenSide {u : Tenant F} (h : Requoted t u) (κ μ : Ieee F) :
    Requoted (compenSide p κ μ t) (compenSide p κ μ u) :=
  ⟨by simp only [Tenant.compenSide, h.resrc], h.demand, h.alpha, h.reserved, h.ticks, h.missRatios⟩

theorem ite_fin_zero (b : Bool) (x : F) : (if b then fin x else fin 0 : Ieee F) = fin (if b then x else 0) :=
  (apply_ite fin (b = true) x 0).symm

theorem tradeVec_ite (f : Bool) (x y : F) : tradeVec f x (if f then y else 0) = tradeVec f x y := by
  cases f <;> rfl

/-! ## The asserts of the quotes -/

theorem Ok.moreCacheAsserts (ht : t.Ok) : t.MoreCacheAsserts p := by
  unfold MoreCacheAsserts
  simp only [ht.getMissRatioConst_eq, equal_fin_posInf, Bool.false_eq_true, false_or, Params.epilson,
    Params.minMissRatio, fin_le_fin, fin_lt_fin, fin_sub_fin, ← eps_eq]
  -- `split_ifs` closes the aborts; what is left is the computed quote, where the
  -- miss ratio is above `eps` and falls by more
  split_ifs with h
  push Not at h
  obtain ⟨hc, -, hd⟩ := h
  have hm := lt_trans eps_pos hc
  have hΔ := lt_trans eps_pos hd
  have hden := netFactor_pos hm ht.alpha_mem
  simp only [ht.held_eq, ht.alpha_eq, ofFun_dbRcu, ofFun_netBw, fin_mul_fin, fin_add_fin,
    fin_sub_fin, fin_div_fin hm.ne', fin_div_fin hden.ne', fin_le_fin]
  exact ⟨hΔ, div_nonneg (mul_nonneg (ht.held_nonneg _) hΔ.le) hm.le, fun _ =>
    div_nonneg (mul_nonneg (mul_nonneg (ht.held_nonneg _) hΔ.le) ht.alpha_mem.1) hden.le⟩

theorem Ok.lessCacheAsserts (ht : t.Ok) : t.LessCacheAsserts p := by
  unfold LessCacheAsserts
  simp only [ht.getMissRatioConst_eq, equal_fin_posInf, Bool.false_eq_true, false_or,
    Params.epilson, Params.maxMissRatio, fin_le_fin, fin_lt_fin, fin_sub_fin, ← eps_eq]
  -- past the aborts the miss ratio rises by more than `eps`
  split_ifs with h
  push Not at h
  obtain ⟨-, -, hd⟩ := h
  have hΔ := lt_trans eps_pos hd
  refine ⟨hΔ, ?_⟩
  by_cases hc : t.mrAt t.resrc.cacheSize ≤ eps
  case pos => exact .inr (.inl hc)
  case neg =>
    -- the computed quote
    have hm := lt_trans eps_pos (not_le.mp hc)
    have hden := netFactor_pos hm ht.alpha_mem
    simp only [ht.held_eq, ht.alpha_eq, ofFun_dbRcu, ofFun_netBw, fin_mul_fin, fin_add_fin,
      fin_sub_fin, fin_div_fin hm.ne', fin_div_fin hden.ne', fin_le_fin]
    exact .inr (.inr ⟨div_nonneg (mul_nonneg (ht.held_nonneg _) hΔ.le) hm.le, fun _ =>
      div_nonneg (mul_nonneg (mul_nonneg (ht.held_nonneg _) hΔ.le) ht.alpha_mem.1) hden.le⟩)

/-! ## A trade at the quotes -/

/-- A relinquish quote computed by `update_rcu_net_delta` gives back at most
    what the tenant holds and, when the miss ratio with `cache_delta` more
    bytes is positive, a deal at it keeps every quotient of `collect_idle`. -/
theorem Ok.relinqQuote_keeps (ht : t.Ok) (hnet : NetZero p t)
    (hc : eps < t.mrAt t.resrc.cacheSize)
    (hd : eps < t.mrAt t.resrc.cacheSize - t.mrAt (t.resrc.cacheSize + p.cacheDelta)) :
    ∃ x y, (t.updateRcuNetDelta p).rcuDeltaRelinq = fin x ∧
      (t.updateRcuNetDelta p).netDeltaRelinq = fin y ∧
      0 ≤ x ∧ x ≤ t.held .dbRcu ∧ 0 ≤ y ∧ y ≤ t.held .netBw ∧
      (0 < t.mrAt (t.resrc.cacheSize + p.cacheDelta) →
        ∀ r, (relinqSide p (t.updateRcuNetDelta p).rcuDeltaRelinq (t.updateRcuNetDelta p).netDeltaRelinq
          (t.updateRcuNetDelta p)).fieldTput p r = t.fieldTput p r) := by
  have hm := lt_trans eps_pos hc
  have hmr : ∀ c, 0 ≤ t.mrAt c := fun c => (ht.mrAt_mem c).1
  obtain ⟨hρ, hν⟩ := ht.predRcuNetDeltaIfMoreCache_deal hc hd
  rw [net_ite fun hf => (hnet hf).1, ite_fin_zero] at hν
  have hρ' : (t.updateRcuNetDelta p).rcuDeltaRelinq = _ :=
    (predRcuNetDeltaIfLessCache_rcuDeltaRelinq).trans hρ
  have hν' : (t.updateRcuNetDelta p).netDeltaRelinq = _ :=
    (predRcuNetDeltaIfLessCache_netDeltaRelinq).trans hν
  -- the bounds are those of the computed quote
  obtain ⟨x, y, hx, hy, hx0, hx1, hy0, hy1, -⟩ :=
    (RelinqQuote.deal (p := p) (h := t.held) (α := t.alpha) hc hd).exact hmr ht.held_nonneg ht.alpha_mem
  rw [ite_fin_zero] at hy
  refine ⟨x, y, hρ'.trans hx, hν'.trans hy, hx0, hx1, hy0, hy1, fun hm' r => ?_⟩
  rw [congrFun ((requoted_updateRcuNetDelta p t).relinqSide _ _).fieldTput_eq r, hρ', hν']
  exact ht.fieldTput_withResrc_scale _ (relinqSide_stateless ht _ _) hm hm' (fun r => by
    rw [Pi.sub_apply, tradeVec_ite]
    exact sub_relinq_tradeScale hm.ne' (netFactor_pos hm ht.alpha_mem).ne' r) r

/-- A compensation quote computed by `update_rcu_net_delta` asks for nothing
    negative, and a deal at it keeps every quotient of `collect_idle`. -/
theorem Ok.compenQuote_keeps (ht : t.Ok)
    (hmin : ¬ t.resrc.cacheSize < p.minCacheSize + p.cacheDelta)
    (hd : eps < t.mrAt (t.resrc.cacheSize - p.cacheDelta) - t.mrAt t.resrc.cacheSize)
    (hc : eps < t.mrAt t.resrc.cacheSize) :
    ∃ x y, (t.updateRcuNetDelta p).rcuDeltaCompen = fin x ∧
      (t.updateRcuNetDelta p).netDeltaCompen = fin y ∧ 0 ≤ x ∧ 0 ≤ y ∧
      ∀ r, (compenSide p (t.updateRcuNetDelta p).rcuDeltaCompen (t.updateRcuNetDelta p).netDeltaCompen
        (t.updateRcuNetDelta p)).fieldTput p r = t.fieldTput p r := by
  have hmore := requoted_predRcuNetDeltaIfMoreCache p t
  have hm := lt_trans eps_pos hc
  -- the larger miss ratio is positive, so the deal keeps every quotient
  have hm' : 0 < t.mrAt (t.resrc.cacheSize - p.cacheDelta) := by linarith [eps_pos (F := F)]
  obtain ⟨hκ, hμ⟩ := (hmore.ok ht).predRcuNetDeltaIfLessCache_deal (p := p)
    (by rwa [hmore.resrc]) (by rwa [hmore.resrc, hmore.mrAt_eq]) (by rwa [hmore.resrc, hmore.mrAt_eq])
  simp only [hmore.resrc, hmore.mrAt_eq, hmore.held_eq, hmore.alpha_eq] at hκ hμ
  rw [ite_fin_zero] at hμ
  obtain ⟨x, y, hx, hy, hx0, hy0, -⟩ :=
    (CompenQuote.deal (p := p) (h := t.held) (α := t.alpha) hmin hd hc).exact ht.held_nonneg ht.alpha_mem
  rw [ite_fin_zero] at hy
  refine ⟨x, y, hκ.trans hx, hμ.trans hy, hx0, hy0, fun r => ?_⟩
  have hκ' : (t.updateRcuNetDelta p).rcuDeltaCompen = _ := hκ
  have hμ' : (t.updateRcuNetDelta p).netDeltaCompen = _ := hμ
  rw [congrFun ((requoted_updateRcuNetDelta p t).compenSide _ _).fieldTput_eq r, hκ', hμ']
  exact ht.fieldTput_withResrc_scale _ (compenSide_stateless ht _ _) hm hm' (fun r => by
    rw [Pi.add_apply, tradeVec_ite]
    exact add_compen_tradeScale hm.ne' (netFactor_pos hm ht.alpha_mem).ne' r) r

/-- After `update_rcu_net_delta`: a computed relinquish quote gives back at
    most what the tenant holds and, when the miss ratio with `cache_delta`
    more bytes is positive, a deal at it keeps every quotient of
    `collect_idle`; a computed compensation quote asks for nothing negative
    and a deal at it keeps every quotient; and the asserts of both quotes
    hold. -/
theorem tradeQuotes_keep_throughput (ht : t.Ok) (hnet : NetZero p t) :
    let u := t.updateRcuNetDelta p
    let c := t.resrc.cacheSize
    (eps < t.mrAt c → eps < t.mrAt c - t.mrAt (c + p.cacheDelta) →
      ∃ x y, u.rcuDeltaRelinq = fin x ∧ u.netDeltaRelinq = fin y ∧
        0 ≤ x ∧ x ≤ t.held .dbRcu ∧ 0 ≤ y ∧ y ≤ t.held .netBw ∧
        (0 < t.mrAt (c + p.cacheDelta) →
          ∀ r, (relinqSide p u.rcuDeltaRelinq u.netDeltaRelinq u).fieldTput p r = t.fieldTput p r)) ∧
    (¬ c < p.minCacheSize + p.cacheDelta → eps < t.mrAt (c - p.cacheDelta) - t.mrAt c →
      eps < t.mrAt c →
      ∃ x y, u.rcuDeltaCompen = fin x ∧ u.netDeltaCompen = fin y ∧ 0 ≤ x ∧ 0 ≤ y ∧
        ∀ r, (compenSide p u.rcuDeltaCompen u.netDeltaCompen u).fieldTput p r = t.fieldTput p r) ∧
    t.MoreCacheAsserts p ∧ (t.predRcuNetDeltaIfMoreCache p).LessCacheAsserts p :=
  ⟨ht.relinqQuote_keeps hnet, ht.compenQuote_keeps, ht.moreCacheAsserts,
    ((requoted_predRcuNetDeltaIfMoreCache p t).ok ht).lessCacheAsserts⟩

/-- A tenant whose miss ratio falls from `1` at its `4` MiB of cache to `0`
    at `8` MiB, with `net_bw_alpha = 0.5` and one unit of every resource and
    every demand. -/
def cliffTenant : Tenant ℚ :=
  Tenant.new ⟨fin 1, fin 1, fin 1⟩ ⟨4194304, ⟨fin 1, fin 1, fin 1⟩⟩
    (MissRatioCurve.ofVectors [4194304, 8388608] [fin 1, fin 0] (by simp) (by simp)) (fin (1 / 2))

theorem cliffTenant_ok : cliffTenant.Ok where
  sane := ⟨rfl, by decide, ⟨[1, 0], rfl, by norm_num, by norm_num⟩⟩
  alpha_eq := rfl
  alpha_mem := by norm_num [cliffTenant, Tenant.new, Tenant.alpha, Ieee.val]
  demand_eq := rfl
  demand_nonneg := fun r => by cases r <;> norm_num [cliffTenant, Tenant.new, Tenant.demand, StatelessResrcVec.val,
    StatelessResrcVec.get, Ieee.val]
  held_eq := rfl
  held_nonneg := fun r => by cases r <;> norm_num [cliffTenant, Tenant.new, Tenant.held, StatelessResrcVec.val,
    StatelessResrcVec.get, Ieee.val]

theorem tradeQuotes_keep_throughput_cliff :
    cliffTenant.Ok ∧ NetZero Params.default cliffTenant ∧
      let u := cliffTenant.updateRcuNetDelta Params.default
      let c := cliffTenant.resrc.cacheSize
      (eps < cliffTenant.mrAt c → eps < cliffTenant.mrAt c - cliffTenant.mrAt (c + Params.default.cacheDelta) →
        ∃ x y, u.rcuDeltaRelinq = fin x ∧ u.netDeltaRelinq = fin y ∧
          0 ≤ x ∧ x ≤ cliffTenant.held .dbRcu ∧ 0 ≤ y ∧ y ≤ cliffTenant.held .netBw ∧
          (0 < cliffTenant.mrAt (c + Params.default.cacheDelta) →
            ∀ r, (relinqSide Params.default u.rcuDeltaRelinq u.netDeltaRelinq u).fieldTput Params.default r =
              cliffTenant.fieldTput Params.default r)) ∧
      (¬ c < Params.default.minCacheSize + Params.default.cacheDelta →
        eps < cliffTenant.mrAt (c - Params.default.cacheDelta) - cliffTenant.mrAt c → eps < cliffTenant.mrAt c →
        ∃ x y, u.rcuDeltaCompen = fin x ∧ u.netDeltaCompen = fin y ∧ 0 ≤ x ∧ 0 ≤ y ∧
          ∀ r, (compenSide Params.default u.rcuDeltaCompen u.netDeltaCompen u).fieldTput Params.default r =
            cliffTenant.fieldTput Params.default r) ∧
      cliffTenant.MoreCacheAsserts Params.default ∧
        (cliffTenant.predRcuNetDeltaIfMoreCache Params.default).LessCacheAsserts Params.default :=
  ⟨cliffTenant_ok, fun h => absurd h (by decide),
    tradeQuotes_keep_throughput cliffTenant_ok fun h => absurd h (by decide)⟩

/-- On `cliffTenant` the relinquish quote is computed and gives back all of
    `db_rcu`: with `8` MiB the tenant holds no `db_rcu` and has no `db_rcu`
    demand, and the quotient `0 / 0` of `collect_idle` is NaN where it was
    `1` before the deal. -/
example :
    cliffTenant.Ok ∧
      (cliffTenant.updateRcuNetDelta Params.default).rcuDeltaRelinq = fin 1 ∧
      cliffTenant.fieldTput Params.default .dbRcu = fin 1 ∧
      (relinqSide Params.default (cliffTenant.updateRcuNetDelta Params.default).rcuDeltaRelinq
          (cliffTenant.updateRcuNetDelta Params.default).netDeltaRelinq
          (cliffTenant.updateRcuNetDelta Params.default)).fieldTput Params.default .dbRcu = nan :=
  ⟨cliffTenant_ok, by decide +kernel, by decide +kernel, by decide +kernel⟩

/-- A tenant holding 414150 read units at `4` MiB of cache, whose miss ratio
    falls from `0x1.7df3b645a1cacp-1`, the double nearest 0.746, to `0` at
    `8` MiB. -/
def steepTenant : Tenant ℚ :=
  Tenant.new ⟨fin 1, fin 1, fin 1⟩ ⟨4194304, ⟨fin 414150, fin 1, fin 1⟩⟩
    (MissRatioCurve.ofVectors [4194304, 8388608] [fin (1679842661009195 / 2251799813685248), fin 0]
      (by simp) (by simp))
    (fin (1 / 2))

theorem steepTenant_ok : steepTenant.Ok where
  sane := ⟨rfl, by decide, ⟨[1679842661009195 / 2251799813685248, 0], rfl, by norm_num, by norm_num⟩⟩
  alpha_eq := rfl
  alpha_mem := by norm_num [steepTenant, Tenant.new, Tenant.alpha, Ieee.val]
  demand_eq := rfl
  demand_nonneg := fun r => by cases r <;> norm_num [steepTenant, Tenant.new, Tenant.demand,
    StatelessResrcVec.val, StatelessResrcVec.get, Ieee.val]
  held_eq := rfl
  held_nonneg := fun r => by cases r <;> norm_num [steepTenant, Tenant.new, Tenant.held,
    StatelessResrcVec.val, StatelessResrcVec.get, Ieee.val]

/-- In binary64 a computed relinquish quote can exceed what the tenant holds:
    `delta_mr` is `curr_mr`, `db_rcu * delta_mr` rounds up, and dividing by
    `curr_mr` gives back 414150.00000000006 of the 414150 read units. -/
theorem relinqQuoteBinary64_exceeds_held :
    steepTenant.Ok ∧
      (steepTenant.predRcuNetDeltaIfMoreCacheWith Binary64.rnd Params.default).rcuDeltaRelinq =
        fin (7115042822553601 / 17179869184) ∧
      steepTenant.held .dbRcu = 414150 ∧ (414150 : ℚ) < 7115042822553601 / 17179869184 :=
  ⟨steepTenant_ok, by decide +kernel, rfl, by norm_num⟩

end Tenant

end Hare
