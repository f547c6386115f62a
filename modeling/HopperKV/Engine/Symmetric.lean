-- SUMMARY: do_alloc on identical tenants: on a curve convex at the base cache size, with positive base resources and a positive demand, the first trading round stops the loop and every tenant gets its base allocation back; when every tenant demands a resource it has none of, the estimate is infinite and a deal that frees nothing is taken.
import HopperKV.Engine.Harvest

/-!
# Identical tenants

`test_symmetric` registers tenants with one demand, one base allocation, one
`net_bw_alpha` and one curve, and expects `do_alloc` to leave them where they
started. Every tenant then quotes the same, so a deal between two of them
frees `relinquish - compensate` of each traded resource. On a curve that is
convex at the base cache size (the miss ratio falls by no more with
`cache_delta` more bytes than it rises with `cache_delta` fewer) that is never
positive (`Tenant.Quoted.noProfit`). The deal then lowers `resrc_avail` on the
traded fields and the estimate of `estimate_bottleneck` with it
(`ratioTop_sub_mono`), so the first round stops the loop
(`harvestBody_done_of_noProfit`), and `do_redistribute` hands every tenant its
idle resources back (`identical_tenants_keep_base`).

The comparison `estimated - prev < min_improve_ratio_delta` rejects a deal
only when the estimate before it is finite (`sub_lt_of_le_ne_top`). When every
tenant demands a resource that its base allocation has none of,
`collect_idle` keeps nothing and `resrc_avail` is everything: the estimate is
`+∞`, `∞ - ∞` is NaN, NaN is not below the delta, and a deal that frees
nothing is taken (`identical_flat_tenants_trade`).
-/

namespace Hare

open Ieee StatelessResrcVec

set_option linter.unusedSectionVars false

variable {F : Type} [Field F] [LinearOrder F] [IsStrictOrderedRing F]

/-! ## The estimate of a smaller `resrc_avail` -/

/-- A share `a` of a positive total `T`, over the rest, grows with `a`. -/
theorem divTop_sub_mono {a a' T : F} (hT : 0 < T) (ha : a' ≤ a) (haT : a ≤ T) :
    divTop a' (T - a') ≤ divTop a (T - a) := by
  rcases haT.lt_or_eq with hlt | rfl
  case inr =>
    rw [sub_self, divTop_zero]
    exact le_top
  case inl =>
    have h₁ : 0 < T - a := sub_pos.mpr hlt
    have h₂ : 0 < T - a' := by linarith
    rw [divTop_of_ne h₂.ne', divTop_of_ne h₁.ne', WithTop.coe_le_coe, div_le_div_iff₀ h₂ h₁]
    nlinarith [mul_le_mul_of_nonneg_right ha hT.le]

/-- The estimate does not grow when `resrc_avail` shrinks. -/
theorem ratioTop_sub_mono {A A' T : Res → F} (hT : ∀ r, 0 < T r) (hA : ∀ r, A' r ≤ A r)
    (hAT : ∀ r, A r ≤ T r) : ratioTop A' (T - A') ≤ ratioTop A (T - A) :=
  le_ratioTop fun r => (ratioTop_le _ _ r).trans (divTop_sub_mono (hT r) (hA r) (hAT r))

/-- An estimate that does not grow from a finite one is below it by any
    positive delta. From `+∞` it is not: `∞ - ∞` is NaN. -/
theorem sub_lt_of_le_ne_top {x y : WithTop F} {d : F} (hxy : x ≤ y) (hy : y ≠ ⊤) (hd : 0 < d) :
    ofTop x - ofTop y < fin d := by
  obtain ⟨y₀, rfl⟩ := WithTop.ne_top_iff_exists.mp hy
  obtain ⟨x₀, rfl⟩ := WithTop.ne_top_iff_exists.mp (ne_top_of_le_ne_top hy hxy)
  rw [ofTop_coe, ofTop_coe, fin_sub_fin, fin_lt_fin]
  have := WithTop.coe_le_coe.mp hxy
  linarith

/-- `n` tenants that keep `used` of `h` each: the estimate of what they give
    back is `0`, when one resource is used up. -/
theorem ratioTop_share_eq_zero {h used : Res → F} {n : ℕ} (hn : n ≠ 0)
    (hused : ∀ r, 0 ≤ used r ∧ used r ≤ h r) {r₀ : Res} (hr₀ : used r₀ = h r₀) (hpos : 0 < h r₀) :
    ratioTop (fun r => (n : F) * (h r - used r)) (fun r => n * used r) = 0 := by
  have hn' : (0 : F) < n := Nat.cast_pos.mpr (Nat.pos_of_ne_zero hn)
  apply le_antisymm
  · calc ratioTop _ _ ≤ divTop ((n : F) * (h r₀ - used r₀)) (n * used r₀) := ratioTop_le _ _ r₀
      _ = 0 := by
        rw [hr₀, sub_self, mul_zero, divTop_of_ne (mul_pos hn' hpos).ne', zero_div]
        exact WithTop.coe_zero
  · exact ratioTop_nonneg (fun r => mul_nonneg hn'.le (sub_nonneg.mpr (hused r).2))
      (fun r => mul_nonneg hn'.le (hused r).1)

/-! ## The quotes of one tenant -/

/-- What a deal moves grows with both quotes. -/
theorem tradeVec_mono {f : Bool} {x y x' y' : F} (hx : x ≤ x') (hy : y ≤ y') (r : Res) :
    tradeVec f x y r ≤ tradeVec f x' y' r := by
  cases r with
  | dbRcu => exact hx
  | dbWcu => exact le_rfl
  | netBw =>
    simp only [tradeVec]
    split
    · exact hy
    · exact le_rfl

namespace Tenant

variable {p : Params} {c : U64} {mr : U64 → F} {h : Res → F} {α : F}

/-- On a curve convex at `c`, a tenant gives back for `cache_delta` more bytes
    no more than it asks for `cache_delta` fewer, on either resource. -/
theorem RelinqQuote.le_compenQuote {ρ ν κ μ : Ieee F} (hr : RelinqQuote p c mr h α ρ ν)
    (hc : CompenQuote p c mr h α κ μ)
    (hconv : mr c - mr (c + p.cacheDelta) ≤ mr (c - p.cacheDelta) - mr c) (hmr : ∀ c, 0 ≤ mr c)
    (hh : ∀ r, 0 ≤ h r) (hmax : ∀ r, h r ≤ Params.fltMax) (hα : 0 ≤ α ∧ α ≤ 1) :
    ρ ≤ κ ∧ ν ≤ μ := by
  cases hr with
  | abort =>
    -- nothing is given back, and no compensation is negative
    obtain ⟨x', y', rfl, rfl, hx', hy', -⟩ := hc.exact hh hα
    exact ⟨fin_le_fin.mpr hx', fin_le_fin.mpr hy'⟩
  | deal hm hd =>
    obtain ⟨x, y, hx, hy, -, hxh, -, hyh, hy0⟩ :=
      (RelinqQuote.deal (p := p) (h := h) (α := α) hm hd).exact hmr hh hα
    cases hc with
    | abort =>
      -- `compen_abort_offer` is more than the tenant holds
      rw [hx, hy]
      refine ⟨fin_le_fin.mpr (hxh.trans (hmax _)), ?_⟩
      cases hf : p.allocTotalNetBw with
      | false =>
        rw [hy0 hf]
        exact fin_le_fin.mpr le_rfl
      | true => exact fin_le_fin.mpr (hyh.trans (hmax _))
    | immediate hmin hsmall =>
      -- a rise of at most `eps` with fewer bytes is below a fall of more than `eps`
      exfalso
      rcases hsmall with hs | hs
      · linarith
      · linarith [hmr c]
    | deal hmin hd' hc' =>
      have hm' : 0 < mr c := lt_trans eps_pos hm
      have hden : 0 < mr c * α + 1 - α := netFactor_pos hm' hα
      have hrcu := mul_le_mul_of_nonneg_left hconv (hh .dbRcu)
      have hnet := mul_le_mul_of_nonneg_right (mul_le_mul_of_nonneg_left hconv (hh .netBw)) hα.1
      refine ⟨fin_le_fin.mpr (div_le_div_of_nonneg_right hrcu hm'.le), ?_⟩
      by_cases hf : p.allocTotalNetBw = true
      · rw [if_pos hf, if_pos hf]
        exact fin_le_fin.mpr (div_le_div_of_nonneg_right hnet hden.le)
      · rw [if_neg hf, if_neg hf]
        exact fin_le_fin.mpr le_rfl

/-- Two copies of the tenant gain nothing by a deal: its quotes are finite,
    and it asks at least as much for `cache_delta` bytes as it gives back for
    them, on `db_rcu` and on `net_bw`, whose quotes are `0` without
    `alloc_total_net_bw`. -/
def NoProfit (p : Params) (u : Tenant F) : Prop :=
  ∃ x y x' y', u.rcuDeltaRelinq = fin x ∧ u.netDeltaRelinq = fin y ∧ u.rcuDeltaCompen = fin x' ∧
    u.netDeltaCompen = fin y' ∧ x ≤ x' ∧ y ≤ y' ∧ (p.allocTotalNetBw = false → y = 0 ∧ y' = 0)

/-- A tenant that quotes on its own data, with a curve convex at its cache
    size, gains nothing by a deal with a copy of itself. -/
theorem Quoted.noProfit {u : Tenant F} (hq : u.Quoted p) (hu : u.Ok)
    (hmax : ∀ r, u.held r ≤ Params.fltMax)
    (hconv : u.mrAt u.resrc.cacheSize - u.mrAt (u.resrc.cacheSize + p.cacheDelta) ≤
      u.mrAt (u.resrc.cacheSize - p.cacheDelta) - u.mrAt u.resrc.cacheSize) :
    u.NoProfit p := by
  have hmr : ∀ c, 0 ≤ u.mrAt c := fun c => (hu.mrAt_mem c).1
  obtain ⟨x, y, hx, hy, -, -, -, -, hy0⟩ := hq.1.exact hmr hu.held_nonneg hu.alpha_mem
  obtain ⟨x', y', hx', hy', -, -, hy0'⟩ := hq.2.exact hu.held_nonneg hu.alpha_mem
  obtain ⟨hle, hle'⟩ := hq.1.le_compenQuote hq.2 hconv hmr hu.held_nonneg hmax hu.alpha_mem
  rw [hx, hx', fin_le_fin] at hle
  rw [hy, hy', fin_le_fin] at hle'
  exact ⟨x, y, x', y', hx, hy, hx', hy', hle, hle', fun hf => ⟨hy0 hf, hy0' hf⟩⟩

/-- Querying the curve changes only its memo. -/
theorem requoted_getMissRatio (t : Tenant F) (c : U64) :
    Requoted t { t with mrc := (t.mrc.getMissRatio c).2 } :=
  ⟨rfl, rfl, rfl, rfl, by simp, by simp⟩

/-- `collect_idle` on one tenant, then its quotes: it keeps `used`, which
    uses up one resource, gives back the rest, and gains nothing by a deal
    with a copy of itself. -/
theorem Ok.collectIdle_noProfit {t : Tenant F} (ht : t.Ok) (hnet : NetZero p t)
    (hpos : ∀ r, 0 < t.held r) (hmax : ∀ r, t.held r ≤ Params.fltMax)
    (hD : ∃ r, 0 < effDemand p.allocTotalNetBw t.demand t.alpha (t.mrAt t.resrc.cacheSize) r)
    (hconv : t.mrAt t.resrc.cacheSize - t.mrAt (t.resrc.cacheSize + p.cacheDelta) ≤
      t.mrAt (t.resrc.cacheSize - p.cacheDelta) - t.mrAt t.resrc.cacheSize) :
    ∃ used : Res → F, (∀ r, 0 ≤ used r ∧ used r ≤ t.held r) ∧ (∃ r, used r = t.held r) ∧
      (t.collectIdle p).2 = ofFun (t.held - used) ∧
      ((t.collectIdle p).1.updateRcuNetDelta p).resrc = { t.resrc with stateless := ofFun used } ∧
      ((t.collectIdle p).1.updateRcuNetDelta p).NoProfit p := by
  obtain ⟨tp, htp, hratio, hle, h₁, h₂⟩ := ht.collectIdle_exact hpos hD
  set D := effDemand p.allocTotalNetBw t.demand t.alpha (t.mrAt t.resrc.cacheSize)
  have hused : ∀ r, 0 ≤ D r * tp :=
    fun r => mul_nonneg (ht.effDemand_nonneg (ht.mrAt_mem _) r) htp.le
  -- the resource whose quotient is `tp` is used up
  obtain ⟨r₀, hr₀⟩ := exists_ratioTop_eq t.held D
  rw [hratio] at hr₀
  have hD₀ : D r₀ ≠ 0 := fun h0 => by
    rw [h0, divTop_zero] at hr₀
    exact WithTop.coe_ne_top hr₀
  have htight : D r₀ * tp = t.held r₀ := by
    rw [divTop_of_ne hD₀, WithTop.coe_inj] at hr₀
    rw [hr₀]
    field_simp
  -- the collected tenant quotes on what it keeps, with the curve of `t`
  let t' : Tenant F := { t with resrc := { t.resrc with stateless := ofFun fun r => D r * tp } }
  have ht' : t'.Ok := ht.withResrc _ rfl hused
  have hreq : Requoted t' (t.collectIdle p).1 := by
    rw [h₁]
    exact requoted_getMissRatio t' t.resrc.cacheSize
  have hq := (hreq.ok ht').quoted_updateRcuNetDelta (p := p) hnet
  have hreq' := hreq.trans (requoted_updateRcuNetDelta p _)
  refine ⟨fun r => D r * tp, fun r => ⟨hused r, hle r⟩, ⟨r₀, htight⟩, h₂, hreq'.resrc, ?_⟩
  have hheld : t'.held = fun r => D r * tp := by simp only [t', Tenant.held, val_ofFun]
  refine hq.noProfit (hreq'.ok ht') (fun r => ?_) ?_
  · rw [hreq'.held_eq, hheld]
    exact (hle r).trans (hmax r)
  · rw [hreq'.resrc, hreq'.mrAt_eq]
    exact hconv

end Tenant

namespace Allocator

variable {p : Params}

/-! ## Registration and collection -/

section Identical

variable (d : StatelessResrcVec F) (b : ResrcVec F) (mrc : MissRatioCurve F) (α : Ieee F)

/-- The allocator of `Allocator()` after `n` calls of `add_tenant` with the
    same arguments. -/
def addIdentical : ℕ → Allocator F
  | 0 => Allocator.new
  | n + 1 => ((addIdentical n).addTenant d b mrc α).2

theorem addIdentical_policy (n : ℕ) : (addIdentical d b mrc α n).policy = ⟨true, true, false⟩ := by
  induction n with
  | zero => rfl
  | succ n ih => exact ih

theorem addIdentical_tenants (n : ℕ) :
    (addIdentical d b mrc α n).tenants = List.replicate n (Tenant.new d b mrc α) := by
  induction n with
  | zero => rfl
  | succ n ih => rw [addIdentical, addTenant, ih, List.replicate_succ']

theorem addIdentical_totalResrc {h : Res → F} (hb : b.stateless = ofFun h) (n : ℕ) :
    (addIdentical d b mrc α n).totalResrc.stateless = ofFun fun r => n * h r := by
  induction n with
  | zero =>
    rw [Nat.cast_zero]
    simp only [zero_mul]
    rfl
  | succ n ih =>
    rw [addIdentical, addTenant, ResrcVec.add_stateless, ih, hb, ofFun_add]
    congr 1
    funext r
    simp only [Pi.add_apply, Nat.cast_succ]
    ring

end Identical

/-- The collection loop over `k` copies of one tenant gives back `k` times its
    idle resources. -/
theorem collectIdleLoop_replicate (p : Params) (t : Tenant F) {v : Res → F}
    (hv : (t.collectIdle p).2 = ofFun v) (k : ℕ) (A : Res → F) :
    collectIdleLoop p (List.replicate k t) (ofFun A) =
      (List.replicate k (t.collectIdle p).1, ofFun fun r => A r + k * v r) := by
  induction k generalizing A with
  | zero => simp [collectIdleLoop]
  | succ k ih =>
    simp only [List.replicate_succ, collectIdleLoop, hv, ofFun_add, ih, Prod.mk.injEq, true_and]
    congr 1
    funext r
    simp only [Pi.add_apply, Nat.cast_succ]
    ring

/-! ## One round of trading -/

/-- A round between copies of a tenant that gains nothing by a deal stops the
    loop when the estimate is finite: the deal it prices lowers `resrc_avail`,
    so the estimate does not grow by `min_improve_ratio_delta`. -/
theorem harvestBody_done_of_noProfit {a : Allocator F} {u : Tenant F} {n : ℕ} (hn : 2 ≤ n)
    (hlen : a.tenants.length = n) (hu : u.NoProfit p) {T A : Res → F}
    (hT : a.totalResrc.stateless = ofFun T) (hTpos : ∀ r, 0 < T r) (hAT : ∀ r, A r ≤ T r)
    (hfin : ratioTop A (T - A) ≠ ⊤) {s : HarvestState F} (hts : s.tenants = List.replicate n u)
    (hA : s.resrcAvail = ofFun A) (hprev : s.prevEstimatedImproveRatio = ofTop (ratioTop A (T - A)))
    (hrcu : s.rcuCompenList.Perm (harvestLists p n).1)
    (hnet : s.netCompenList.Perm (harvestLists p n).2) :
    ∃ s', harvestBody p a s = .done s' ∧ s'.tenants = s.tenants ∧ s'.resrcAvail = s.resrcAvail := by
  unfold harvestBody harvestRound
  rw [hlen]
  cases hpick : harvestPick p (harvestLists p n).1 (harvestLists p n).2 s with
  | none => exact ⟨s, rfl, rfl, rfl⟩
  | some deal =>
    obtain ⟨r, c, rl, nl⟩ := deal
    obtain ⟨hr, hc, -, -, -⟩ := harvestPick_spec hn hrcu hnet hpick
    obtain ⟨x, y, x', y', hρ, hν, hκ, hμ, hxx, hyy, hy⟩ := hu
    have hr' : r < (List.replicate n u).length := by rwa [List.length_replicate]
    have hc' : c < (List.replicate n u).length := by rwa [List.length_replicate]
    -- the deal frees nothing on either resource
    have hdeal : resrcIfDeal s.tenants s.resrcAvail r c =
        ofFun (A + tradeVec p.allocTotalNetBw x y - tradeVec p.allocTotalNetBw x' y') := by
      rw [hts, hA]
      exact resrcIfDeal_eq p hr' hc' (by simpa using hρ) (by simpa using hν) (by simpa using hκ)
        (by simpa using hμ) hy A
    have hle : ratioTop (A + tradeVec p.allocTotalNetBw x y - tradeVec p.allocTotalNetBw x' y')
        (T - (A + tradeVec p.allocTotalNetBw x y - tradeVec p.allocTotalNetBw x' y')) ≤
        ratioTop A (T - A) := by
      refine ratioTop_sub_mono hTpos (fun r => ?_) hAT
      have := tradeVec_mono (f := p.allocTotalNetBw) hxx hyy r
      simp only [Pi.add_apply, Pi.sub_apply]
      linarith
    have hrej : (a.estimateBottleneck (resrcIfDeal s.tenants s.resrcAvail r c)).1 -
        s.prevEstimatedImproveRatio < Params.minImproveRatioDelta := by
      rw [hdeal, estimateBottleneck_fst hT hTpos, hprev, Params.minImproveRatioDelta]
      exact sub_lt_of_le_ne_top hle hfin (by norm_num)
    simp only [hrej, if_true]
    exact ⟨_, rfl, rfl, rfl⟩

/-- `do_harvest` over copies of a tenant that gains nothing by a deal: the
    first round stops the loop, and the tenants keep what they hold. -/
theorem doHarvest_of_noProfit {a : Allocator F} {t₁ : Tenant F} {n : ℕ} (hn : 2 ≤ n)
    (hts : a.tenants = List.replicate n t₁) (hu : (t₁.updateRcuNetDelta p).NoProfit p)
    {T A : Res → F} (hT : a.totalResrc.stateless = ofFun T) (hTpos : ∀ r, 0 < T r)
    (hAT : ∀ r, A r ≤ T r) (hfin : ratioTop A (T - A) ≠ ⊤) :
    (∃ s, harvestBody p a (harvestInit p a (ofFun A)) = .done s) ∧
      a.doHarvest p (ofFun A) =
        ({ a with tenants := List.replicate n (t₁.updateRcuNetDelta p) }, ofFun A) := by
  have hlen : a.tenants.length = n := by rw [hts, List.length_replicate]
  obtain ⟨s, hs, hst, hsA⟩ := harvestBody_done_of_noProfit hn hlen hu hT hTpos hAT hfin
    (s := harvestInit p a (ofFun A)) (by simp [harvestInit, hts]) rfl
    (by rw [harvestInit, estimateBottleneck_fst hT hTpos]) (by rw [harvestInit, hlen])
    (by rw [harvestInit, hlen])
  refine ⟨⟨s, hs⟩, ?_⟩
  have hb : Loop.bounded (harvestBody p a) Params.maxTradeRound (harvestInit p a (ofFun A)) = s :=
    Loop.bounded_succ_of_done 9999 hs
  unfold doHarvest
  rw [hb]
  dsimp only
  rw [hst, hsA]
  simp only [harvestInit, hts, List.map_replicate]

/-! ## Redistribution -/

/-- One field of `scale_stateless_resrc_by_owned` for a tenant that holds `x`
    of a sum `n * x`: it gets back `i` of `n * i`, also when the sum is `0`
    and the share is even. -/
theorem ownedFactor_share {x i : F} {n : ℕ} (hn : n ≠ 0) :
    fin x + fin (n * i) * Tenant.ownedFactor (fin x) (fin (n * x)) n = (fin (x + i) : Ieee F) := by
  have hn' : (n : F) ≠ 0 := Nat.cast_ne_zero.mpr hn
  unfold Tenant.ownedFactor
  by_cases hx : x = 0
  case pos =>
    subst hx
    simp only [mul_zero, equal_fin_fin, decide_true, Bool.not_true, Bool.false_eq_true, if_false,
      ofNat_eq, fin_div_fin hn', fin_mul_fin, fin_add_fin, fin_inj]
    field_simp
  case neg =>
    have hnx : (n : F) * x ≠ 0 := mul_ne_zero hn' hx
    simp only [equal_fin_fin, hnx, decide_false, Bool.not_false, if_true, fin_div_fin hnx,
      fin_mul_fin, fin_add_fin, fin_inj]
    field_simp

/-- `scale_stateless_resrc_by_owned` for one of `n` tenants that each hold
    `used` and gave back `idle`: it gets `idle` back. -/
theorem scaleStatelessResrcByOwned_share {u : Tenant F} {used idle : Res → F} {n : ℕ} (hn : n ≠ 0)
    (hu : u.resrc.stateless = ofFun used) :
    (u.scaleStatelessResrcByOwned (ofFun fun r => n * idle r) (ofFun fun r => n * used r) n).resrc =
      { u.resrc with stateless := ofFun (used + idle) } := by
  simp only [Tenant.scaleStatelessResrcByOwned, hu, ofFun_dbRcu, ofFun_dbWcu, ofFun_netBw,
    ownedFactor_share hn]
  rfl

/-- `do_redistribute` with `conserving` over `n` copies of a tenant that
    holds `used` of `h`: the improvement is the estimate of what they gave
    back, and every tenant gets `h` again. -/
theorem doRedistribute_share {a : Allocator F} {u : Tenant F} {n : ℕ} (hn : n ≠ 0)
    (hconserving : a.policy.conserving = true) (hts : a.tenants = List.replicate n u)
    {h used : Res → F} (hu : u.resrc.stateless = ofFun used)
    (hT : a.totalResrc.stateless = ofFun fun r => n * h r) (hpos : ∀ r, used r = 0 → 0 < h r) :
    (a.doRedistribute (ofFun fun r => n * (h r - used r))).1 =
        ofTop (ratioTop (fun r => n * (h r - used r)) fun r => n * used r) ∧
      (a.doRedistribute (ofFun fun r => n * (h r - used r))).2.1.getAllocResult =
        List.replicate n { u.resrc with stateless := ofFun h } := by
  have hn' : (0 : F) < n := Nat.cast_pos.mpr (Nat.pos_of_ne_zero hn)
  have hsum : a.totalResrc.stateless - ofFun (fun r => n * (h r - used r)) =
      ofFun fun r => n * used r := by
    rw [hT, ofFun_sub]
    congr 1
    funext r
    simp only [Pi.sub_apply]
    ring
  simp only [doRedistribute, hsum, hconserving, if_true, getAllocResult, hts, List.map_replicate,
    List.length_replicate]
  refine ⟨ratio_ofFun fun r hr => ?_, ?_⟩
  · have : used r = 0 := (mul_eq_zero.mp hr).resolve_left hn'.ne'
    rw [this, sub_zero]
    exact mul_pos hn' (hpos r this)
  · have hadd : (used + fun r => h r - used r) = h := by
      funext r
      simp only [Pi.add_apply]
      ring
    rw [scaleStatelessResrcByOwned_share hn hu, hadd]

/-! ## `do_alloc` -/

/-- `do_alloc` on `n ≥ 2` identical tenants with positive base resources of
    at most `FLT_MAX`, a demand that is positive on some resource at the base
    cache size, and a curve convex there: the first trading round stops the
    loop, the improvement is `0`, and every tenant keeps its cache size and
    gets its base resources back, exactly when the idle resources collected
    are not almost empty, and less what it gave back otherwise. -/
theorem identical_tenants_keep_base (p : Params) (sort : StdAlgo.IeeeSort ℕ F) (fuel n : ℕ)
    (hn : 2 ≤ n) (d : StatelessResrcVec F) (b : ResrcVec F) (mrc : MissRatioCurve F) (α : Ieee F)
    (ht : (Tenant.new d b mrc α).Ok) (hpos : ∀ r, 0 < b.stateless.val r)
    (hmax : ∀ r, b.stateless.val r ≤ Params.fltMax)
    (hD : ∃ r, 0 < effDemand p.allocTotalNetBw d.val α.val (mrc.getMissRatioConst b.cacheSize).val r)
    (hconv : mrc.getMissRatioConst b.cacheSize - mrc.getMissRatioConst (b.cacheSize + p.cacheDelta) ≤
      mrc.getMissRatioConst (b.cacheSize - p.cacheDelta) - mrc.getMissRatioConst b.cacheSize) :
    let a := addIdentical d b mrc α n
    let c := a.collectIdle p
    (∃ s, harvestBody p c.1 (harvestInit p c.1 c.2) = .done s) ∧
      ∃ a', a.doAlloc p sort fuel = some (fin 0, a') ∧
        a'.getAllocResult = List.replicate n
          (if c.2.isAlmostEmpty then
            { b with stateless := b.stateless - ((Tenant.new d b mrc α).collectIdle p).2 }
          else b) := by
  intro a c
  set t := Tenant.new d b mrc α with htdef
  have hn0 : n ≠ 0 := by omega
  have hconv' : t.mrAt b.cacheSize - t.mrAt (b.cacheSize + p.cacheDelta) ≤
      t.mrAt (b.cacheSize - p.cacheDelta) - t.mrAt b.cacheSize := by
    have hmr : ∀ c, mrc.getMissRatioConst c = fin (t.mrAt c) := ht.getMissRatioConst_eq
    rwa [hmr, hmr, hmr, fin_sub_fin, fin_sub_fin, fin_le_fin] at hconv
  obtain ⟨used, hused, ⟨r₀, hr₀⟩, hidle, hres, hu⟩ :=
    ht.collectIdle_noProfit (fun _ => ⟨rfl, rfl⟩) hpos hmax hD hconv'
  -- after collection: `n` copies of the collected tenant, and `n` times its idle resources
  have hc : c = ({ a with tenants := List.replicate n (t.collectIdle p).1 },
      ofFun fun r => n * (t.held r - used r)) := by
    have hloop := collectIdleLoop_replicate p t hidle n 0
    simp only [Pi.zero_apply, zero_add, Pi.sub_apply, ← zero_eq_ofFun] at hloop
    simp only [c, a, collectIdle, addIdentical_tenants, ← htdef, hloop]
  have hT : a.totalResrc.stateless = ofFun fun r => n * t.held r :=
    addIdentical_totalResrc d b mrc α ht.held_eq n
  have hTA : ((fun r => (n : F) * t.held r) - fun r => n * (t.held r - used r)) =
      fun r => n * used r := by
    funext r
    simp only [Pi.sub_apply]
    ring
  have hzero := ratioTop_share_eq_zero hn0 hused hr₀ (hpos r₀)
  have hn' : (0 : F) < n := Nat.cast_pos.mpr (Nat.pos_of_ne_zero hn0)
  -- the first round stops the loop
  obtain ⟨hdone, hharvest⟩ := doHarvest_of_noProfit (p := p)
    (a := { a with tenants := List.replicate n (t.collectIdle p).1 })
    (T := fun r => n * t.held r) (A := fun r => n * (t.held r - used r)) hn rfl hu hT
    (fun r => mul_pos hn' (hpos r))
    (fun r => mul_le_mul_of_nonneg_left (by linarith [(hused r).1]) hn'.le)
    (by rw [hTA, hzero]; exact WithTop.coe_ne_top)
  rw [hc]
  refine ⟨hdone, ?_⟩
  have hcoll : a.collectIdle p = c := rfl
  have hlen : ¬ a.tenants.length ≤ 1 := by
    rw [addIdentical_tenants, List.length_replicate]
    omega
  have hpolicy : a.policy = ⟨true, true, false⟩ := addIdentical_policy d b mrc α n
  have hmem : a.policy.memshare = false := by rw [hpolicy]
  have hharv : a.policy.harvest = true := by rw [hpolicy]
  simp only [doAlloc, hlen, if_false, hmem, hharv, Bool.false_eq_true, Option.map_some, allocStateless,
    hcoll, hc, if_true, hharvest]
  have hb : b.stateless = ofFun t.held := ht.held_eq
  by_cases hE : (ofFun fun r => (n : F) * (t.held r - used r)).isAlmostEmpty = true
  case pos =>
    -- nothing is redistributed: every tenant keeps what it did not give back
    refine ⟨_, by rw [if_pos hE], ?_⟩
    rw [if_pos hE, getAllocResult, List.map_replicate, hres, hidle, hb, ofFun_sub,
      sub_sub_cancel]
    rfl
  case neg =>
    -- every tenant gets back what it gave
    let u := (t.collectIdle p).1.updateRcuNetDelta p
    obtain ⟨hratio, hresult⟩ := doRedistribute_share (a := { a with tenants := List.replicate n u })
      hn0 (by rw [hpolicy]) rfl (by rw [hres]) hT (fun r _ => hpos r)
    refine ⟨_, by rw [if_neg hE, hratio, hzero]; rfl, ?_⟩
    rw [if_neg hE, hresult, hres, ← hb]
    rfl

/-! ## Two tenants -/

/-- One unit of every resource per request. -/
def unitDemand : StatelessResrcVec ℚ := ⟨fin 1, fin 1, fin 1⟩

/-- The ticks `4`, `8` and `12` MiB of the curves below. -/
theorem mibTicks_ne_nil : ([4194304, 8388608, 12582912] : List U64) ≠ [] := List.cons_ne_nil _ _

/-- A curve with ticks at `4`, `8` and `12` MiB whose miss ratio falls by
    `0.3` to `8` MiB and by `0.2` after it: convex at `8` MiB. -/
def convexCurve : MissRatioCurve ℚ :=
  MissRatioCurve.ofVectors [4194304, 8388608, 12582912] [fin (4 / 5), fin (1 / 2), fin (3 / 10)]
    mibTicks_ne_nil (by simp)

/-- `8` MiB of cache and positive stateless resources. -/
def evenBase : ResrcVec ℚ := ⟨8388608, ⟨fin 2, fin 1, fin 2⟩⟩

/-- A curve that stays at `1`: convex everywhere. -/
def flatCurve : MissRatioCurve ℚ :=
  MissRatioCurve.ofVectors [4194304, 8388608, 12582912] [fin 1, fin 1, fin 1] mibTicks_ne_nil
    (by simp)

/-- Two tenants with the flat curve and one unit of every demand, whose base
    allocation has no `db_wcu`: `collect_idle` keeps nothing, the estimate is
    `+∞`, and a first deal that frees nothing passes the check `∞ - ∞ <
    min_improve_ratio_delta`, which NaN fails. The relinquisher ends with
    `12` MiB and the compensator with `4` MiB, and the improvement is `+∞`. -/
theorem identical_flat_tenants_trade :
    let b : ResrcVec ℚ := ⟨8388608, ⟨fin 2, fin 0, fin 2⟩⟩
    flatCurve.getMissRatioConst b.cacheSize -
          flatCurve.getMissRatioConst (b.cacheSize + Params.default.cacheDelta) ≤
        flatCurve.getMissRatioConst (b.cacheSize - Params.default.cacheDelta) -
          flatCurve.getMissRatioConst b.cacheSize ∧
      ((addIdentical unitDemand b flatCurve (fin 0) 2).doAlloc Params.default
          StdAlgo.IeeeSort.byFinitePart 0).map (fun r => (r.1, r.2.getAllocResult.map (·.cacheSize))) =
        some (posInf, [12582912, 4194304]) := by
  decide +kernel

end Allocator

end Hare
