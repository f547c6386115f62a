-- SUMMARY: do_alloc and the order add_tenant registered the tenants in: with memshare off and distinct quotes in every trading round, the run on the reordered tenants simulates the run on the tenants phase by phase and round by round, and returns the same improvement and the allocations reordered; with memshare on, the cache a tenant ends with depends on the order.
import HopperKV.Engine.Symmetric
import HopperKV.Engine.Memshare
import HopperKV.Lib.Reindex

/-!
# Registration order

The allocator refers to its tenants by their positions, and every loop of
`do_alloc` walks them in order. `do_alloc` on the tenants registered in
another order (`List.Reindexed σ`) runs as it does on the tenants when
nothing it computes depends on the order:

* the sums of `collect_idle` and of `total_resrc` are sums of finite vectors,
  which any order gives alike (`foldl_add_eq_ofFun`);
* a trading round picks the tenant of the largest relinquish quote and the
  one of the least compensation quote among the others
  (`pickDeal_extremal`), which are the same tenants in any order when the
  quotes it compares are pairwise distinct (`pickDeal_reindexed`);
* `do_redistribute` scales each tenant on its own.

`HarvestSim` relates the states of the two trading loops, `harvestBody_sim`
is its step lemma and `doHarvest_sim` its run lemma, which rests on the loop
invariant `HarvestInv` for the quotes to be finite. `doAlloc_reindexed`
assembles the phases.

`do_memshare` is another matter: its receiver is the `max_element` of
`less_mr_inc`, which compares the increase of one tenant with the decrease of
another and is not an order, and its donor is the first of
`cache_less_list` that can donate. Three tenants with distinct deltas end
with other cache sizes when two of them are registered the other way round
(`memshare_registration_order`).
-/

namespace Hare

open Ieee StatelessResrcVec

set_option linter.unusedSectionVars false

variable {F : Type} [Field F] [LinearOrder F] [IsStrictOrderedRing F]

/-! ## Registration -/

/-- The arguments of one call of `add_tenant`. -/
structure TenantArgs (F : Type) [Field F] [LinearOrder F] where
  demandCacheless : StatelessResrcVec F
  baseResrc : ResrcVec F
  mrc : MissRatioCurve F
  netBwAlpha : Ieee F

namespace TenantArgs

/-- The tenant that `add_tenant` builds. -/
def tenant (x : TenantArgs F) : Tenant F :=
  Tenant.new x.demandCacheless x.baseResrc x.mrc x.netBwAlpha

/-- What the allocator needs of a tenant it is given: data that
    `Tenant.Ok` accepts, positive base resources, and a demand that is
    positive on some resource at the base cache size, so that `collect_idle`
    divides by it. -/
structure Accepted (p : Params) (x : TenantArgs F) : Prop where
  ok : x.tenant.Ok
  pos : ∀ r, 0 < x.tenant.held r
  demand : ∃ r, 0 < effDemand p.allocTotalNetBw x.tenant.demand x.tenant.alpha
    (x.tenant.mrAt x.tenant.resrc.cacheSize) r

end TenantArgs

namespace Allocator

variable {p : Params}

/-- `add_tenant` on each of `xs`, in order. -/
def addTenants (a : Allocator F) (xs : List (TenantArgs F)) : Allocator F :=
  xs.foldl (fun a x => (a.addTenant x.demandCacheless x.baseResrc x.mrc x.netBwAlpha).2) a

theorem addTenants_tenants (a : Allocator F) (xs : List (TenantArgs F)) :
    (a.addTenants xs).tenants = a.tenants ++ xs.map TenantArgs.tenant := by
  induction xs generalizing a with
  | nil => simp [addTenants]
  | cons x xs ih =>
    rw [addTenants, List.foldl_cons, ← addTenants, ih]
    simp [addTenant, TenantArgs.tenant]

theorem addTenants_policy (a : Allocator F) (xs : List (TenantArgs F)) :
    (a.addTenants xs).policy = a.policy := by
  induction xs generalizing a with
  | nil => rfl
  | cons x xs ih => rw [addTenants, List.foldl_cons, ← addTenants, ih]; rfl

theorem addTenants_stateless (a : Allocator F) (xs : List (TenantArgs F)) :
    (a.addTenants xs).totalResrc.stateless =
      xs.foldl (fun S x => S + x.baseResrc.stateless) a.totalResrc.stateless := by
  induction xs generalizing a with
  | nil => rfl
  | cons x xs ih =>
    rw [addTenants, List.foldl_cons, ← addTenants, ih, List.foldl_cons, addTenant,
      ResrcVec.add_stateless]

/-! ## Sums in any order -/

/-- A sum of finite vectors is the vector of the sums. -/
theorem foldl_add_eq_ofFun {α : Type*} (g : α → StatelessResrcVec F) (f : α → Res → F)
    {l : List α} (hg : ∀ x ∈ l, g x = ofFun (f x)) (v : Res → F) :
    l.foldl (fun S x => S + g x) (ofFun v) = ofFun (v + (l.map f).sum) := by
  rw [List.foldl_ext _ (fun S x => S + ofFun (f x)) _ fun S x hx => by rw [hg x hx]]
  exact foldl_add_ofFun f l v

/-- The collection loop collects every tenant on its own and sums what they
    give back, in order. -/
theorem collectIdleLoop_eq (p : Params) :
    ∀ (ts : List (Tenant F)) (A : StatelessResrcVec F),
      collectIdleLoop p ts A =
        (ts.map fun t => (t.collectIdle p).1, ts.foldl (fun S t => S + (t.collectIdle p).2) A)
  | [], _ => rfl
  | t :: ts, A => by simp [collectIdleLoop, collectIdleLoop_eq p ts]

/-! ## Accepted tenants -/

namespace Tenant

/-- `collect_idle` on an accepted tenant: the tenant it leaves is `Ok`,
    quotes nothing of `net_bw` yet, and gives back a finite vector. -/
theorem collect_accepted {x : TenantArgs F} (hx : x.Accepted p) :
    (x.tenant.collectIdle p).1.Ok ∧ Tenant.NetZero p (x.tenant.collectIdle p).1 ∧
      (x.tenant.collectIdle p).2.IsFin := by
  obtain ⟨tp, htp, -, hle, h₁, h₂⟩ := hx.ok.collectIdle_exact hx.pos hx.demand
  set D := effDemand p.allocTotalNetBw x.tenant.demand x.tenant.alpha
    (x.tenant.mrAt x.tenant.resrc.cacheSize)
  -- the tenant keeps `D * tp`, and its curve only answers one more query
  have hok : ({ x.tenant with resrc := { x.tenant.resrc with
      stateless := ofFun fun r => D r * tp } } : Tenant F).Ok :=
    hx.ok.withResrc _ rfl fun r =>
      mul_nonneg (hx.ok.effDemand_nonneg (hx.ok.mrAt_mem _) r) htp.le
  refine ⟨?_, fun _ => ⟨rfl, rfl⟩, h₂ ▸ isFin_ofFun _⟩
  rw [h₁]
  exact (Tenant.requoted_getMissRatio _ x.tenant.resrc.cacheSize).ok hok

end Tenant

/-! ## Allocators with the tenants in another order -/

section Reorder

variable {n : ℕ} {σ : Equiv.Perm (Fin n)}

/-- The allocator `b'` holds the tenants of `b` in the order `σ`, with the
    same policy and the same total of stateless resources. -/
structure AllocSim (σ : Equiv.Perm (Fin n)) (b b' : Allocator F) : Prop where
  tenants : b.tenants.Reindexed σ b'.tenants
  policy : b'.policy = b.policy
  total : b'.totalResrc.stateless = b.totalResrc.stateless

/-- A field read through reindexed tenants. -/
theorem field_reindexed {ts ts' : List (Tenant F)} (h : ts.Reindexed σ ts')
    (f : Tenant F → Ieee F) (k : Fin n) : field ts' f k = field ts f (σ k) := by
  have hk : k.val < ts'.length := h.length' ▸ k.isLt
  have hk' : (σ k).val < ts.length := h.length ▸ (σ k).isLt
  rw [field_eq_getElem _ _ hk, field_eq_getElem _ _ hk', h.getElem k hk hk']

theorem estimateBottleneck_congr {b b' : Allocator F}
    (h : b'.totalResrc.stateless = b.totalResrc.stateless) (A : StatelessResrcVec F) :
    b'.estimateBottleneck A = b.estimateBottleneck A := by
  simp only [estimateBottleneck, h]

theorem collectIdle_tenants (b : Allocator F) :
    (b.collectIdle p).1.tenants = b.tenants.map fun t => (t.collectIdle p).1 := by
  simp [collectIdle, collectIdleLoop_eq]

/-- The resources collected from tenants that each give back a finite
    vector: the sum of those vectors. -/
theorem collectIdle_snd {b : Allocator F} (hfin : ∀ t ∈ b.tenants, (t.collectIdle p).2.IsFin) :
    (b.collectIdle p).2 = ofFun (b.tenants.map fun t => (t.collectIdle p).2.val).sum := by
  simp only [collectIdle, collectIdleLoop_eq, zero_eq_ofFun,
    foldl_add_eq_ofFun _ _ fun t ht => (hfin t ht).eq_ofFun, zero_add]

/-- The collection phase on reordered tenants: the tenants it leaves are in
    the same order, and it collects the same resources when every tenant
    gives back a finite vector. -/
theorem collectIdle_sim {b b' : Allocator F} (h : AllocSim σ b b')
    (hfin : ∀ t ∈ b.tenants, (t.collectIdle p).2.IsFin) :
    AllocSim σ (b.collectIdle p).1 (b'.collectIdle p).1 ∧
      (b'.collectIdle p).2 = (b.collectIdle p).2 := by
  refine ⟨⟨?_, h.policy, h.total⟩, ?_⟩
  · rw [collectIdle_tenants, collectIdle_tenants]
    exact h.tenants.map _
  · rw [collectIdle_snd hfin, collectIdle_snd fun t ht => hfin t (h.tenants.mem_iff.mp ht),
      (h.tenants.perm.map _).sum_eq]

/-! ## The partners of a round -/

/-- A comparator of `do_harvest` on tenants whose field `f` is finite
    compares the values in `F`. -/
theorem lessBy_eq_decide {ts : List (Tenant F)} {f : Tenant F → Ieee F}
    (hfin : ∀ t ∈ ts, (f t).IsFin) {i j : ℕ} (hi : i < ts.length) (hj : j < ts.length) :
    lessBy f ts i j = decide ((field ts f i).val < (field ts f j).val) := by
  obtain ⟨x, hx⟩ := (hfin _ (List.getElem_mem hi)).exists_eq
  obtain ⟨y, hy⟩ := (hfin _ (List.getElem_mem hj)).exists_eq
  rw [lessBy, field_eq_getElem _ _ hi, field_eq_getElem _ _ hj, hx, hy, val_fin, val_fin]
  exact decide_eq_decide.mpr fin_lt_fin

/-- Distinct finite quotes tell the tenants apart. -/
theorem eq_of_field_val_eq {ts : List (Tenant F)} {f : Tenant F → Ieee F}
    (hfin : ∀ t ∈ ts, (f t).IsFin) (hd : (ts.map f).Nodup) {i j : ℕ} (hi : i < ts.length)
    (hj : j < ts.length) (h : (field ts f i).val = (field ts f j).val) : i = j := by
  rw [field_eq_getElem _ _ hi, field_eq_getElem _ _ hj] at h
  have hi' : i < (ts.map f).length := by simpa using hi
  have hj' : j < (ts.map f).length := by simpa using hj
  have hf : (ts.map f)[i] = (ts.map f)[j] := by
    rw [List.getElem_map, List.getElem_map, (hfin _ (List.getElem_mem hi)).eq_fin,
      (hfin _ (List.getElem_mem hj)).eq_fin, h]
  exact (hd.getElem_inj_iff).mp hf

/-- `pickDeal` on reindexed tenants whose quotes `fR` and `fC` are finite
    and pairwise distinct picks the tenants that `σ` sends to the partners
    it picks on the tenants. -/
theorem pickDeal_reindexed (hn : 2 ≤ n) {ts ts' : List (Tenant F)} (h : ts.Reindexed σ ts')
    (fR fC : Tenant F → Ieee F) (hfR : ∀ t ∈ ts, (fR t).IsFin) (hfC : ∀ t ∈ ts, (fC t).IsFin)
    (hdR : (ts.map fR).Nodup) (hdC : (ts.map fC).Nodup) {C C' : List ℕ}
    (hC : C.Perm (List.range n)) (hC' : C'.Perm (List.range n)) :
    ∃ r c : Fin n, (pickDeal (lessBy fR ts') (lessBy fC ts') (List.range n) C').1 = r ∧
      (pickDeal (lessBy fR ts') (lessBy fC ts') (List.range n) C').2.1 = c ∧
      (pickDeal (lessBy fR ts) (lessBy fC ts) (List.range n) C).1 = σ r ∧
      (pickDeal (lessBy fR ts) (lessBy fC ts) (List.range n) C).2.1 = σ c := by
  set d := pickDeal (lessBy fR ts) (lessBy fC ts) (List.range n) C
  set d' := pickDeal (lessBy fR ts') (lessBy fC ts') (List.range n) C'
  have hlen : ts.length = n := h.length
  have hlen' : ts'.length = n := h.length'
  have hfR' : ∀ t ∈ ts', (fR t).IsFin := fun t ht => hfR t (h.mem_iff.mp ht)
  have hfC' : ∀ t ∈ ts', (fC t).IsFin := fun t ht => hfC t (h.mem_iff.mp ht)
  -- the keys that the comparators compare; the reindexed tenants read them through `σ`
  have hkR : ∀ k : Fin n, (field ts' fR k).val = (field ts fR (σ k)).val := fun k => by
    rw [field_reindexed h]
  have hkC : ∀ k : Fin n, (field ts' fC k).val = (field ts fC (σ k)).val := fun k => by
    rw [field_reindexed h]
  obtain ⟨hr, hc, hrc, -⟩ := pickDeal_spec (lessBy fR ts) (lessBy fC ts) hn hC
  obtain ⟨hr', hc', hrc', -⟩ := pickDeal_spec (lessBy fR ts') (lessBy fC ts') hn hC'
  obtain ⟨hmax, hmin⟩ := pickDeal_extremal (fun i => (field ts fR i).val)
    (fun i => (field ts fC i).val) hn hC
    (fun i hi j hj => lessBy_eq_decide hfR (hlen ▸ hi) (hlen ▸ hj))
    (fun i hi j hj => lessBy_eq_decide hfC (hlen ▸ hi) (hlen ▸ hj))
  obtain ⟨hmax', hmin'⟩ := pickDeal_extremal (fun i => (field ts' fR i).val)
    (fun i => (field ts' fC i).val) hn hC'
    (fun i hi j hj => lessBy_eq_decide hfR' (hlen' ▸ hi) (hlen' ▸ hj))
    (fun i hi j hj => lessBy_eq_decide hfC' (hlen' ▸ hi) (hlen' ▸ hj))
  let r : Fin n := ⟨d'.1, hr'⟩
  let c : Fin n := ⟨d'.2.1, hc'⟩
  -- `σ r` has the largest relinquish quote, as the relinquisher does
  have hrel : d.1 = σ r := by
    refine eq_of_field_val_eq hfR hdR (hlen ▸ hr) (hlen ▸ (σ r).isLt) (le_antisymm ?_ ?_)
    · calc (field ts fR d.1).val = (field ts fR (σ (σ.symm ⟨d.1, hr⟩))).val := by
            rw [Equiv.apply_symm_apply]
        _ = (field ts' fR (σ.symm ⟨d.1, hr⟩)).val := (hkR _).symm
        _ ≤ (field ts' fR d'.1).val := hmax' _ (σ.symm _).isLt
        _ = (field ts fR (σ r)).val := hkR r
    · exact hmax _ (σ r).isLt
  -- `σ c` has the least compensation quote of the other tenants, as the compensator does
  have hσc : (σ c).val ≠ d.1 := fun he => by
    rw [hrel] at he
    exact hrc' (congrArg Fin.val (σ.injective (Fin.ext he))).symm
  have hne : (σ.symm ⟨d.2.1, hc⟩).val ≠ d'.1 := fun he => by
    have : (⟨d.2.1, hc⟩ : Fin n) = σ r := by
      rw [← Equiv.apply_symm_apply σ ⟨d.2.1, hc⟩]
      exact congrArg σ (Fin.ext he)
    exact hrc (hrel.trans (congrArg Fin.val this).symm)
  have hcom : d.2.1 = σ c := by
    refine eq_of_field_val_eq hfC hdC (hlen ▸ hc) (hlen ▸ (σ c).isLt)
      (le_antisymm (hmin _ (σ c).isLt hσc) ?_)
    calc (field ts fC (σ c)).val = (field ts' fC d'.2.1).val := (hkC c).symm
      _ ≤ (field ts' fC (σ.symm ⟨d.2.1, hc⟩)).val := hmin' _ (σ.symm _).isLt hne
      _ = (field ts fC (σ (σ.symm ⟨d.2.1, hc⟩))).val := hkC _
      _ = (field ts fC d.2.1).val := by rw [Equiv.apply_symm_apply]
  exact ⟨r, c, rfl, rfl, hrel, hcom⟩

/-! ## The trading loop on reordered tenants -/

/-- The quotes that a round compares are pairwise distinct: those of `db_rcu`
    when it trades `db_rcu`, those of `net_bw` when it trades `net_bw`. -/
def QuotesDistinct (p : Params) (s : HarvestState F) : Prop :=
  (s.isRcuBottleneck = true →
      (s.tenants.map (·.rcuDeltaRelinq)).Nodup ∧ (s.tenants.map (·.rcuDeltaCompen)).Nodup) ∧
    (s.isRcuBottleneck = false → p.allocTotalNetBw = true → s.isNetBottleneck = true →
      (s.tenants.map (·.netDeltaRelinq)).Nodup ∧ (s.tenants.map (·.netDeltaCompen)).Nodup)

/-- The state `s'` of the trading loop on reordered tenants is the state `s`
    with the tenants in the order `σ`, and compensation lists that are
    permutations of the tenants. -/
structure HarvestSim (p : Params) (σ : Equiv.Perm (Fin n)) (s s' : HarvestState F) : Prop where
  tenants : s.tenants.Reindexed σ s'.tenants
  resrcAvail : s'.resrcAvail = s.resrcAvail
  prev : s'.prevEstimatedImproveRatio = s.prevEstimatedImproveRatio
  rcuBottleneck : s'.isRcuBottleneck = s.isRcuBottleneck
  netBottleneck : s'.isNetBottleneck = s.isNetBottleneck
  rcu : s'.rcuCompenList.Perm (harvestLists p n).1
  net : s'.netCompenList.Perm (harvestLists p n).2

variable {T : Res → F} {s s' : HarvestState F}

/-- The reordered state keeps the invariant of the loop. -/
theorem HarvestSim.inv (hs : HarvestInv p n T s) (h : HarvestSim p σ s s') :
    HarvestInv p n T s' where
  length := h.tenants.length'
  ok t ht := hs.ok t (h.tenants.mem_iff.mp ht)
  quoted t ht := hs.quoted t (h.tenants.mem_iff.mp ht)
  avail := by rw [h.resrcAvail, hs.avail, (h.tenants.perm.map Tenant.held).sum_eq]
  rcu := h.rcu
  net := h.net

/-- The quotes of a state of the invariant are finite. -/
theorem HarvestInv.quotes_fin (hs : HarvestInv p n T s) {t : Tenant F} (ht : t ∈ s.tenants) :
    t.rcuDeltaRelinq.IsFin ∧ t.netDeltaRelinq.IsFin ∧ t.rcuDeltaCompen.IsFin ∧
      t.netDeltaCompen.IsFin := by
  have hok := hs.ok t ht
  obtain ⟨x, y, hx, hy, -⟩ :=
    (hs.quoted t ht).1.exact (fun c => (hok.mrAt_mem c).1) hok.held_nonneg hok.alpha_mem
  obtain ⟨x', y', hx', hy', -⟩ := (hs.quoted t ht).2.exact hok.held_nonneg hok.alpha_mem
  rw [hx, hy, hx', hy']
  exact ⟨isFin_fin x, isFin_fin y, isFin_fin x', isFin_fin y'⟩

/-- A round on the reordered state picks the partners that `σ` sends to
    those of the round on the state, or no deal when it picks none. -/
theorem harvestPick_sim (hn : 2 ≤ n) (hs : HarvestInv p n T s) (h : HarvestSim p σ s s')
    (hd : QuotesDistinct p s) :
    (harvestPick p (harvestLists p n).1 (harvestLists p n).2 s = none ∧
        harvestPick p (harvestLists p n).1 (harvestLists p n).2 s' = none) ∨
      ∃ (r c : Fin n) (rl nl rl' nl' : List ℕ),
        harvestPick p (harvestLists p n).1 (harvestLists p n).2 s = some ((σ r).val, (σ c).val, rl, nl) ∧
          harvestPick p (harvestLists p n).1 (harvestLists p n).2 s' = some (r.val, c.val, rl', nl') := by
  have hL : (harvestLists p n).1 = List.range n := rfl
  unfold harvestPick
  rw [h.rcuBottleneck, h.netBottleneck]
  split_ifs with h₁ h₂
  case pos =>
    -- a trade of `db_rcu`
    obtain ⟨r, c, h1, h2, h3, h4⟩ := pickDeal_reindexed hn h.tenants (·.rcuDeltaRelinq)
      (·.rcuDeltaCompen) (fun t ht => (hs.quotes_fin ht).1) (fun t ht => (hs.quotes_fin ht).2.2.1)
      (hd.1 h₁).1 (hd.1 h₁).2 (hL ▸ hs.rcu) (hL ▸ h.rcu)
    refine .inr ⟨r, c, (pickDeal (lessRcuRelinq s.tenants) (lessRcuCompen s.tenants)
      (harvestLists p n).1 s.rcuCompenList).2.2, s.netCompenList, (pickDeal
      (lessRcuRelinq s'.tenants) (lessRcuCompen s'.tenants) (harvestLists p n).1
      s'.rcuCompenList).2.2, s'.netCompenList, ?_, ?_⟩
    · simp only [lessRcuRelinq, lessRcuCompen, hL, h3, h4]
    · simp only [lessRcuRelinq, lessRcuCompen, hL, h1, h2]
  case pos =>
    -- a trade of `net_bw`, whose lists are all the tenants with `alloc_total_net_bw`
    have hf : p.allocTotalNetBw = true := ((Bool.and_eq_true _ _).mp h₂).1
    have hnet : s.isNetBottleneck = true := ((Bool.and_eq_true _ _).mp h₂).2
    have hL₂ : (harvestLists p n).2 = List.range n := by simp [harvestLists, hf]
    have hdn := hd.2 (Bool.eq_false_iff.mpr h₁) hf hnet
    obtain ⟨r, c, h1, h2, h3, h4⟩ := pickDeal_reindexed hn h.tenants (·.netDeltaRelinq)
      (·.netDeltaCompen) (fun t ht => (hs.quotes_fin ht).2.1) (fun t ht => (hs.quotes_fin ht).2.2.2)
      hdn.1 hdn.2 (hL₂ ▸ hs.net) (hL₂ ▸ h.net)
    refine .inr ⟨r, c, s.rcuCompenList, (pickDeal (lessNetRelinq s.tenants)
      (lessNetCompen s.tenants) (harvestLists p n).2 s.netCompenList).2.2, s'.rcuCompenList,
      (pickDeal (lessNetRelinq s'.tenants) (lessNetCompen s'.tenants) (harvestLists p n).2
      s'.netCompenList).2.2, ?_, ?_⟩
    · simp only [lessNetRelinq, lessNetCompen, hL₂, h3, h4]
    · simp only [lessNetRelinq, lessNetCompen, hL₂, h1, h2]
  case neg => exact .inl ⟨rfl, rfl⟩

theorem resrcIfDeal_reindexed {ts ts' : List (Tenant F)} (h : ts.Reindexed σ ts')
    (A : StatelessResrcVec F) (r c : Fin n) :
    resrcIfDeal ts' A r c = resrcIfDeal ts A (σ r) (σ c) := by
  simp only [resrcIfDeal, field_reindexed h]

/-- A deal on reordered tenants trades the tenants that `σ` sends to the
    partners. -/
theorem tradeTenants_reindexed {ts ts' : List (Tenant F)} (h : ts.Reindexed σ ts') {r c : Fin n}
    (hrc : r ≠ c) :
    (tradeTenants p ts (σ r) (σ c)).Reindexed σ (tradeTenants p ts' r c) := by
  have hr : r.val < ts'.length := h.length' ▸ r.isLt
  have hc : c.val < ts'.length := h.length' ▸ c.isLt
  have hσr : (σ r).val < ts.length := h.length ▸ (σ r).isLt
  have hσc : (σ c).val < ts.length := h.length ▸ (σ c).isLt
  rw [tradeTenants_eq p hσr hσc (Fin.val_ne_of_ne (σ.injective.ne hrc)),
    tradeTenants_eq p hr hc (Fin.val_ne_of_ne hrc), h.getElem r hr hσr, h.getElem c hc hσc]
  simpa only [Equiv.symm_apply_apply] using (h.modify _ (σ r)).modify _ (σ c)

/-- The step lemma: a round on the reordered state does what the round on
    the state does, with the partners that `σ` sends to its partners. -/
theorem harvestBody_sim (hn : 2 ≤ n) {a a' : Allocator F} (hlen : a.tenants.length = n)
    (hlen' : a'.tenants.length = n) (htot : a'.totalResrc.stateless = a.totalResrc.stateless)
    (hs : HarvestInv p n T s) (h : HarvestSim p σ s s') (hd : QuotesDistinct p s) :
    Loop.Step.Rel (HarvestSim p σ) (harvestBody p a s) (harvestBody p a' s') := by
  unfold harvestBody harvestRound
  rw [hlen, hlen']
  rcases harvestPick_sim hn hs h hd with ⟨hp, hp'⟩ | ⟨r, c, rl, nl, rl', nl', hp, hp'⟩
  case inl =>
    rw [hp, hp']
    exact h
  case inr =>
    obtain ⟨-, -, -, hrl', hnl'⟩ := harvestPick_spec hn h.rcu h.net hp'
    obtain ⟨-, -, hrc, -, -⟩ := harvestPick_spec hn h.rcu h.net hp'
    rw [hp, hp']
    dsimp only
    rw [resrcIfDeal_reindexed h.tenants, h.resrcAvail, h.prev, estimateBottleneck_congr htot]
    split_ifs
    · exact ⟨h.tenants, rfl, rfl, rfl, rfl, hrl', hnl'⟩
    · exact ⟨tradeTenants_reindexed h.tenants fun he => hrc (congrArg Fin.val he), rfl, rfl, rfl,
        rfl, hrl', hnl'⟩

/-- The run lemma: `do_harvest` on reordered tenants leaves the tenants it
    leaves on the tenants, in the order `σ`, and the same resources, when
    the tenants are `Ok` and quote nothing of `net_bw` yet, and the quotes
    every round on the tenants compares are distinct. -/
theorem doHarvest_sim (hn : 2 ≤ n) {b b' : Allocator F} (h : AllocSim σ b b')
    (hlen : b.tenants.length = n) (hok : ∀ t ∈ b.tenants, t.Ok)
    (hnet : ∀ t ∈ b.tenants, Tenant.NetZero p t) (A : Res → F)
    (hd : ∀ s, Loop.Visits (harvestBody p b) (harvestInit p b (ofFun A)) s → QuotesDistinct p s) :
    AllocSim σ (b.doHarvest p (ofFun A)).1 (b'.doHarvest p (ofFun A)).1 ∧
      (b'.doHarvest p (ofFun A)).2 = (b.doHarvest p (ofFun A)).2 := by
  have hlen' : b'.tenants.length = n := h.tenants.length'
  -- the invariant of the loop on the tenants, for the total they hold with `A`
  have hinv : HarvestInv p n (A + (b.tenants.map Tenant.held).sum) (harvestInit p b (ofFun A)) := by
    have := harvestInit_inv (A + (b.tenants.map Tenant.held).sum) hok hnet
    rwa [add_sub_cancel_right, hlen] at this
  have hinit : HarvestSim p σ (harvestInit p b (ofFun A)) (harvestInit p b' (ofFun A)) := by
    simp only [harvestInit, hlen, hlen', estimateBottleneck_congr h.total]
    exact ⟨h.tenants.map _, rfl, rfl, rfl, rfl, List.Perm.refl _, List.Perm.refl _⟩
  have hrun := Loop.bounded_sim (HarvestSim p σ)
    (fun s => HarvestInv p n (A + (b.tenants.map Tenant.held).sum) s ∧ QuotesDistinct p s)
    (fun s s' hR hP => harvestBody_sim hn hlen hlen' h.total hP.1 hR hP.2)
    Params.maxTradeRound _ _ hinit fun s hv => ⟨harvest_visits_inv hn hlen hinv hv, hd s hv⟩
  exact ⟨⟨hrun.tenants, h.policy, h.total⟩, hrun.resrcAvail⟩

/-- `do_redistribute` on reordered tenants: the same improvement, and every
    tenant scaled as it is on the tenants. -/
theorem doRedistribute_sim {b b' : Allocator F} (h : AllocSim σ b b') (A : StatelessResrcVec F) :
    (b'.doRedistribute A).1 = (b.doRedistribute A).1 ∧
      AllocSim σ (b.doRedistribute A).2.1 (b'.doRedistribute A).2.1 := by
  unfold doRedistribute
  rw [h.total, h.policy, h.tenants.length, h.tenants.length']
  split
  · exact ⟨rfl, h.tenants.map _, rfl, h.total⟩
  · exact ⟨rfl, h.tenants.map _, rfl, h.total⟩

/-- The phases of `do_alloc` after memshare, on reordered tenants that
    `collect_idle` leaves `Ok`, quoting nothing of `net_bw`, and giving back
    finite vectors. -/
theorem allocStateless_sim (hn : 2 ≤ n) {b b' : Allocator F} (h : AllocSim σ b b')
    (hlen : b.tenants.length = n)
    (hcoll : ∀ t ∈ b.tenants, (t.collectIdle p).1.Ok ∧ Tenant.NetZero p (t.collectIdle p).1 ∧
      (t.collectIdle p).2.IsFin)
    (hd : b.policy.harvest = true → ∀ s, Loop.Visits (harvestBody p (b.collectIdle p).1)
      (harvestInit p (b.collectIdle p).1 (b.collectIdle p).2) s → QuotesDistinct p s) :
    (b'.allocStateless p).1 = (b.allocStateless p).1 ∧
      AllocSim σ (b.allocStateless p).2 (b'.allocStateless p).2 := by
  obtain ⟨hc, hcA⟩ := collectIdle_sim h fun t ht => (hcoll t ht).2.2
  have hA := collectIdle_snd fun t ht => (hcoll t ht).2.2
  have hctenants := collectIdle_tenants (p := p) b
  -- the tenants after collection are the collected tenants
  have hclen : (b.collectIdle p).1.tenants.length = n := by rw [hctenants, List.length_map, hlen]
  have hcok : ∀ t ∈ (b.collectIdle p).1.tenants, t.Ok ∧ Tenant.NetZero p t := fun t ht => by
    rw [hctenants] at ht
    obtain ⟨u, hu, rfl⟩ := List.mem_map.mp ht
    exact ⟨(hcoll u hu).1, (hcoll u hu).2.1⟩
  -- the phase before redistribution: reordered tenants and the same resources
  have hphase : ∃ H H' : Allocator F × StatelessResrcVec F,
      (if b.policy.harvest then (b.collectIdle p).1.doHarvest p (b.collectIdle p).2
        else b.collectIdle p) = H ∧
      (if b'.policy.harvest then (b'.collectIdle p).1.doHarvest p (b'.collectIdle p).2
        else b'.collectIdle p) = H' ∧ AllocSim σ H.1 H'.1 ∧ H'.2 = H.2 := by
    rw [h.policy]
    cases hh : b.policy.harvest
    case false => exact ⟨_, _, rfl, rfl, hc, hcA⟩
    case true =>
      rw [hcA, hA]
      refine ⟨_, _, rfl, rfl, doHarvest_sim hn hc hclen (fun t ht => (hcok t ht).1)
        (fun t ht => (hcok t ht).2) _ fun s hv => hd hh s ?_⟩
      rwa [hA]
  obtain ⟨H, H', hH, hH', hsim, hHA⟩ := hphase
  unfold allocStateless
  dsimp only
  rw [hH, hH', hHA]
  split
  · exact ⟨rfl, hsim⟩
  · exact doRedistribute_sim hsim H.2

end Reorder

/-! ## `do_alloc` in any order of registration -/

theorem addTenants_new_tenants (harvest conserving : Bool) (xs : List (TenantArgs F)) :
    ((Allocator.new harvest conserving false).addTenants xs).tenants =
      xs.map TenantArgs.tenant := by
  rw [addTenants_tenants]
  rfl

/-- The allocator after `add_tenant` on accepted tenants in the order `σ`
    holds them in that order. -/
theorem addTenants_sim {n : ℕ} {σ : Equiv.Perm (Fin n)} (harvest conserving : Bool)
    {xs xs' : List (TenantArgs F)} (hσ : xs.Reindexed σ xs') (hacc : ∀ x ∈ xs, x.Accepted p) :
    AllocSim σ ((Allocator.new harvest conserving false).addTenants xs)
      ((Allocator.new harvest conserving false).addTenants xs') := by
  have hbase : ∀ x ∈ xs, x.baseResrc.stateless = ofFun x.tenant.held :=
    fun x hx => (hacc x hx).ok.held_eq
  have hbase' : ∀ x ∈ xs', x.baseResrc.stateless = ofFun x.tenant.held :=
    fun x hx => hbase x (hσ.mem_iff.mp hx)
  refine ⟨?_, by rw [addTenants_policy, addTenants_policy], ?_⟩
  · rw [addTenants_new_tenants, addTenants_new_tenants]
    exact hσ.map _
  · have hzero : (Allocator.new harvest conserving false : Allocator F).totalResrc.stateless =
        ofFun 0 := rfl
    rw [addTenants_stateless, addTenants_stateless, hzero, foldl_add_eq_ofFun _ _ hbase,
      foldl_add_eq_ofFun _ _ hbase', (hσ.perm.map _).sum_eq]

/-- `do_alloc` with memshare off on accepted tenants registered in the order
    `σ`: when, with harvest on, the quotes that every trading round on the
    tenants compares are pairwise distinct, it returns the improvement that
    it returns on the tenants, and their allocations in the order `σ`. -/
theorem doAlloc_reindexed (p : Params) (sort : StdAlgo.IeeeSort ℕ F) (fuel : ℕ)
    (harvest conserving : Bool) {n : ℕ} (σ : Equiv.Perm (Fin n)) {xs xs' : List (TenantArgs F)}
    (hσ : xs.Reindexed σ xs') (hacc : ∀ x ∈ xs, x.Accepted p)
    (hd : harvest = true →
      let c := ((Allocator.new harvest conserving false).addTenants xs).collectIdle p
      ∀ s, Loop.Visits (harvestBody p c.1) (harvestInit p c.1 c.2) s → QuotesDistinct p s) :
    ∃ ρ b b', ((Allocator.new harvest conserving false).addTenants xs).doAlloc p sort fuel =
        some (ρ, b) ∧
      ((Allocator.new harvest conserving false).addTenants xs').doAlloc p sort fuel =
        some (ρ, b') ∧
      b.getAllocResult.Reindexed σ b'.getAllocResult := by
  have h := addTenants_sim (p := p) harvest conserving hσ hacc
  have hlen : ((Allocator.new harvest conserving false).addTenants xs).tenants.length = n :=
    h.tenants.length
  have hpol : ((Allocator.new harvest conserving false).addTenants xs).policy =
      ⟨harvest, conserving, false⟩ := addTenants_policy _ _
  unfold doAlloc
  rw [hlen, h.tenants.length', h.policy, hpol]
  split
  case isTrue =>
    -- one tenant or none: nothing is allocated
    exact ⟨_, _, _, rfl, rfl, h.tenants.map _⟩
  case isFalse hn =>
    have hcoll : ∀ t ∈ ((Allocator.new harvest conserving false).addTenants xs).tenants,
        (t.collectIdle p).1.Ok ∧ Tenant.NetZero p (t.collectIdle p).1 ∧
          (t.collectIdle p).2.IsFin := fun t ht => by
      rw [addTenants_new_tenants] at ht
      obtain ⟨x, hx, rfl⟩ := List.mem_map.mp ht
      exact Tenant.collect_accepted (hacc x hx)
    obtain ⟨hρ, hsim⟩ := allocStateless_sim (by omega) h hlen hcoll
      fun hh => hd (by rwa [hpol] at hh)
    simp only [Bool.false_eq_true, if_false, Option.map_some]
    exact ⟨(((Allocator.new harvest conserving false).addTenants xs).allocStateless p).1,
      _, (((Allocator.new harvest conserving false).addTenants xs').allocStateless p).2, rfl,
      by rw [← hρ], hsim.tenants.map _⟩

/-! ## Two tenants registered both ways -/

/-- The arguments of a tenant with one unit of every demand, `8` MiB of cache
    and positive stateless resources, `net_bw_alpha = 0.5`, and the curve
    `mrc`. -/
def unitArgs (mrc : MissRatioCurve ℚ) : TenantArgs ℚ := ⟨unitDemand, evenBase, mrc, fin (1 / 2)⟩

theorem unitArgs_accepted {mrc : MissRatioCurve ℚ} (h : mrc.Sane) :
    (unitArgs mrc).Accepted Params.default where
  ok :=
    { sane := h
      alpha_eq := rfl
      alpha_mem := by norm_num [unitArgs, TenantArgs.tenant, Tenant.new, Tenant.alpha, Ieee.val]
      demand_eq := rfl
      demand_nonneg := fun r => by
        cases r <;> norm_num [unitArgs, TenantArgs.tenant, Tenant.new, Tenant.demand, unitDemand,
          StatelessResrcVec.val, StatelessResrcVec.get, Ieee.val]
      held_eq := rfl
      held_nonneg := fun r => by
        cases r <;> norm_num [unitArgs, TenantArgs.tenant, Tenant.new, Tenant.held, evenBase,
          StatelessResrcVec.val, StatelessResrcVec.get, Ieee.val] }
  pos r := by
    cases r <;> norm_num [unitArgs, TenantArgs.tenant, Tenant.new, Tenant.held, evenBase,
      StatelessResrcVec.val, StatelessResrcVec.get, Ieee.val]
  demand := ⟨.dbWcu, by norm_num [effDemand, unitArgs, TenantArgs.tenant, Tenant.new,
    Tenant.demand, unitDemand, StatelessResrcVec.val, StatelessResrcVec.get, Ieee.val]⟩

/-! ## Memshare and the order of registration -/

/-- The miss-ratio deltas that a memshare round computes are pairwise
    distinct: the increases, and the decreases. -/
def MrDistinct (p : Params) (s : List (Tenant F) × List ℕ) : Prop :=
  ((s.1.map (Tenant.updateMrDelta p)).map (·.mrIncIfMoreCache)).Nodup ∧
    ((s.1.map (Tenant.updateMrDelta p)).map (·.mrDecIfLessCache)).Nodup

instance (p : Params) (s : List (Tenant F) × List ℕ) : Decidable (MrDistinct p s) :=
  inferInstanceAs (Decidable (List.Nodup _ ∧ List.Nodup _))

/-- What the run with `byInsertion` is checked for: distinct deltas, and
    decreases that order `cache_less_list` alike in every sort. -/
def MemshareChecked (p : Params) (s : List (Tenant F) × List ℕ) : Prop :=
  MrDistinct p s ∧
    (∀ i ∈ s.2, (field (s.1.map (Tenant.updateMrDelta p)) (·.mrDecIfLessCache) i).IsFin) ∧
      ∀ i ∈ s.2, ∀ j ∈ s.2, field (s.1.map (Tenant.updateMrDelta p)) (·.mrDecIfLessCache) i =
        field (s.1.map (Tenant.updateMrDelta p)) (·.mrDecIfLessCache) j → i = j

instance (p : Params) (s : List (Tenant F) × List ℕ) : Decidable (MemshareChecked p s) :=
  inferInstanceAs (Decidable (_ ∧ _ ∧ _))

/-- A run that passes the check runs alike with every sort, through states
    of distinct deltas. -/
theorem doMemshare_checked (sort : StdAlgo.IeeeSort ℕ F) (fuel : ℕ) (a : Allocator F) {k : ℕ}
    (hcheck : Loop.allVisited (memshareRound p StdAlgo.IeeeSort.byInsertion)
      (fun s => decide (MemshareChecked p s)) k (a.tenants, List.range a.tenants.length) = true) :
    a.doMemshare p sort fuel = a.doMemshare p StdAlgo.IeeeSort.byInsertion fuel ∧
      ∀ s, Loop.Visits (memshareRound p sort) (a.tenants, List.range a.tenants.length) s →
        MrDistinct p s := by
  have hok : ∀ s, Loop.Visits (memshareRound p StdAlgo.IeeeSort.byInsertion)
      (a.tenants, List.range a.tenants.length) s → MemshareChecked p s :=
    fun s hv => by
      have h := Loop.allVisited_sound hcheck hv
      exact of_decide_eq_true h
  have hcongr : ∀ s, Loop.Visits (memshareRound p StdAlgo.IeeeSort.byInsertion)
      (a.tenants, List.range a.tenants.length) s →
      memshareRound p sort s = memshareRound p StdAlgo.IeeeSort.byInsertion s :=
    fun s hv => memshareRound_sort_congr _ (hok s hv).2.1 (hok s hv).2.2
  exact ⟨doMemshare_sort_congr _ fuel a fun s hv => (hok s hv).2,
    fun s hv => (hok s (hv.of_congr hcongr)).1⟩

/-- The first tenant's curve: `0.2` at `4` MiB, and `0` from `8` MiB on. -/
def memshareFirst : TenantArgs ℚ := unitArgs (memshareCurve (1 / 5) 0 0)

/-- The second tenant's curve: `0.4`, `0.1`, `0`. -/
def memshareSecond : TenantArgs ℚ := unitArgs (memshareCurve (2 / 5) (1 / 10) 0)

/-- The third tenant's curve: `0.5`, `0.4`, `0`. -/
def memshareThird : TenantArgs ℚ := unitArgs (memshareCurve (1 / 2) (2 / 5) 0)

/-- With memshare on, three accepted tenants whose deltas are distinct at
    every round, whatever the sort: registered in one order every tenant
    keeps `8` MiB, and with the first two the other way round the first
    tenant gives `4` MiB to the third. -/
theorem memshare_order_dependent (sort : StdAlgo.IeeeSort ℕ ℚ) :
    let a : Allocator ℚ :=
      (Allocator.new false true true).addTenants [memshareFirst, memshareSecond, memshareThird]
    let a' : Allocator ℚ :=
      (Allocator.new false true true).addTenants [memshareSecond, memshareFirst, memshareThird]
    (∀ x ∈ [memshareFirst, memshareSecond, memshareThird], x.Accepted Params.default) ∧
      (∀ s, Loop.Visits (memshareRound Params.default sort) (a.tenants, List.range 3) s →
        MrDistinct Params.default s) ∧
      (∀ s, Loop.Visits (memshareRound Params.default sort) (a'.tenants, List.range 3) s →
        MrDistinct Params.default s) ∧
      (a.doAlloc Params.default sort 3).map (fun r => r.2.getAllocResult.map (·.cacheSize)) =
        some [8388608, 8388608, 8388608] ∧
      (a'.doAlloc Params.default sort 3).map (fun r => r.2.getAllocResult.map (·.cacheSize)) =
        some [8388608, 4194304, 12582912] := by
  intro a a'
  obtain ⟨hrun, hd⟩ := doMemshare_checked (p := Params.default) sort 3 a (k := 3) (by decide +kernel)
  obtain ⟨hrun', hd'⟩ := doMemshare_checked (p := Params.default) sort 3 a' (k := 3)
    (by decide +kernel)
  refine ⟨?_, hd, hd', ?_, ?_⟩
  · intro x hx
    simp only [List.mem_cons, List.not_mem_nil, or_false] at hx
    rcases hx with rfl | rfl | rfl
    · exact unitArgs_accepted ⟨rfl, by decide, ⟨[1 / 5, 0, 0], rfl, by norm_num, by norm_num⟩⟩
    · exact unitArgs_accepted ⟨rfl, by decide, ⟨[2 / 5, 1 / 10, 0], rfl, by norm_num, by norm_num⟩⟩
    · exact unitArgs_accepted ⟨rfl, by decide, ⟨[1 / 2, 2 / 5, 0], rfl, by norm_num, by norm_num⟩⟩
  · simp only [doAlloc, hrun]
    decide +kernel
  · simp only [doAlloc, hrun']
    decide +kernel

/-- The same with the merge sort of `byFinitePart`. -/
theorem memshare_registration_order :
    let a : Allocator ℚ :=
      (Allocator.new false true true).addTenants [memshareFirst, memshareSecond, memshareThird]
    let a' : Allocator ℚ :=
      (Allocator.new false true true).addTenants [memshareSecond, memshareFirst, memshareThird]
    (∀ x ∈ [memshareFirst, memshareSecond, memshareThird], x.Accepted Params.default) ∧
      (∀ s, Loop.Visits (memshareRound Params.default StdAlgo.IeeeSort.byFinitePart)
        (a.tenants, List.range 3) s → MrDistinct Params.default s) ∧
      (∀ s, Loop.Visits (memshareRound Params.default StdAlgo.IeeeSort.byFinitePart)
        (a'.tenants, List.range 3) s → MrDistinct Params.default s) ∧
      (a.doAlloc Params.default StdAlgo.IeeeSort.byFinitePart 3).map
          (fun r => r.2.getAllocResult.map (·.cacheSize)) = some [8388608, 8388608, 8388608] ∧
      (a'.doAlloc Params.default StdAlgo.IeeeSort.byFinitePart 3).map
          (fun r => r.2.getAllocResult.map (·.cacheSize)) = some [8388608, 4194304, 12582912] :=
  memshare_order_dependent _

end Allocator

end Hare
