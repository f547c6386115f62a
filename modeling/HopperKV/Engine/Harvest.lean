-- SUMMARY: The trading loop of do_harvest read in the field: the partners it picks and the quotes they have the largest and least of, what an accepted trade does, and the invariant that every round keeps, with conservation of resources and quotes of the tenants' own data.
import HopperKV.Engine.Quote
import HopperKV.Engine.Alloc
import Mathlib.Tactic.LinearCombination

/-!
# The trading loop

A round of `do_harvest` picks a relinquisher and a compensator by their
quotes, prices the deal with `resrc_if_deal`, and accepts it when the
estimated improvement grows by `min_improve_ratio_delta` at least.

* `pickDeal_spec`: on lists that are permutations of the tenants, the two
  partners are distinct tenants, also when the relinquisher is first in the
  compensation list and is swapped to its front; `pickDeal_extremal`: the
  relinquisher has the largest relinquish quote, and the compensator the
  least compensation quote of the other tenants.
* `resrcIfDeal_eq` and `tradeTenants_eq`: what an accepted round does.
* `HarvestInv`: every tenant is `Tenant.Ok` and quotes on its own data, and
  the tenants and `resrc_avail` hold the same total. `harvestInit_inv` and
  `harvestBody_inv` make it an invariant of the loop, and
  `harvest_visits_inv` carries it to every state the loop passes through.
-/

namespace Hare

open Ieee StatelessResrcVec

set_option linter.unusedSectionVars false

variable {F : Type} [Field F] [LinearOrder F] [IsStrictOrderedRing F]

-- ---------------------------------------------------------------------------
-- The partners of a deal
-- ---------------------------------------------------------------------------

namespace Tenant

variable {p : Params} {t : Tenant F}

/-- The tenant's quotes are those of its own data. -/
def Quoted (p : Params) (t : Tenant F) : Prop :=
  RelinqQuote p t.resrc.cacheSize t.mrAt t.held t.alpha t.rcuDeltaRelinq t.netDeltaRelinq ∧
    CompenQuote p t.resrc.cacheSize t.mrAt t.held t.alpha t.rcuDeltaCompen t.netDeltaCompen

theorem Quoted.netZero (hq : t.Quoted p) : NetZero p t :=
  fun hf => ⟨hq.1.net_zero hf, hq.2.net_zero hf⟩

/-- `update_rcu_net_delta` quotes on the tenant's own data. -/
theorem Ok.quoted_updateRcuNetDelta (ht : t.Ok) (hnet : NetZero p t) :
    (t.updateRcuNetDelta p).Quoted p := by
  have hr := requoted_updateRcuNetDelta p t
  rw [Quoted, hr.resrc, hr.mrAt_eq, hr.held_eq, hr.alpha_eq]
  exact ht.updateRcuNetDelta_quotes hnet

theorem Ok.held_relinqSide (ht : t.Ok) (x y : F) :
    (relinqSide p (fin x) (fin y) t).held = t.held - tradeVec p.allocTotalNetBw x y := by
  rw [Tenant.held, relinqSide_stateless ht, val_ofFun]

theorem Ok.held_compenSide (ht : t.Ok) (x y : F) :
    (compenSide p (fin x) (fin y) t).held = t.held + tradeVec p.allocTotalNetBw x y := by
  rw [Tenant.held, compenSide_stateless ht, val_ofFun]

/-- The relinquisher keeps finite, non-negative resources when it gives back
    at most what it holds. -/
theorem Ok.relinqSide_ok (ht : t.Ok) {x y : F} (hx : x ≤ t.held .dbRcu) (hy : y ≤ t.held .netBw) :
    (relinqSide p (fin x) (fin y) t).Ok := by
  refine ht.withResrc _ (relinqSide_stateless ht x y) fun r => ?_
  have hh := ht.held_nonneg r
  cases r with
  | dbRcu => simpa [tradeVec] using hx
  | dbWcu => simpa [tradeVec] using hh
  | netBw =>
    simp only [Pi.sub_apply, tradeVec]
    split
    · linarith
    · linarith

theorem Ok.compenSide_ok (ht : t.Ok) {x y : F} (hx : 0 ≤ x) (hy : 0 ≤ y) :
    (compenSide p (fin x) (fin y) t).Ok :=
  ht.withResrc _ (compenSide_stateless ht x y) fun r =>
    add_nonneg (ht.held_nonneg r) (tradeVec_nonneg hx hy r)

end Tenant

namespace Allocator

-- ---------------------------------------------------------------------------
-- Picking the partners
-- ---------------------------------------------------------------------------

/-- A pointer read from a permutation of the tenants is a tenant. -/
theorem getD_lt_of_perm_range {l : List ℕ} {n i : ℕ} (h : l.Perm (List.range n)) (hi : i < l.length) :
    l.getD i 0 < n := by
  rw [List.getD_eq_getElem _ _ hi]
  exact List.mem_range.mp (h.mem_iff.mp (List.getElem_mem hi))

/-- The partners of `pickDeal` on the list of all tenants and a permutation of
    it are two distinct tenants, and the compensation list stays a
    permutation. -/
theorem pickDeal_spec (lr lc : ℕ → ℕ → Bool) {n : ℕ} (hn : 2 ≤ n) {C : List ℕ}
    (hC : C.Perm (List.range n)) :
    (pickDeal lr lc (List.range n) C).1 < n ∧ (pickDeal lr lc (List.range n) C).2.1 < n ∧
      (pickDeal lr lc (List.range n) C).1 ≠ (pickDeal lr lc (List.range n) C).2.1 ∧
      (pickDeal lr lc (List.range n) C).2.2.Perm (List.range n) := by
  have hlen : C.length = n := by rw [hC.length_eq, List.length_range]
  have hk := StdAlgo.maxElement_lt_length lr (l := List.range n) (by simp; omega)
  have hj := StdAlgo.minElement_lt_length lc (l := C) (by rw [← List.length_pos_iff]; omega)
  rw [List.length_range] at hk
  -- the relinquisher is the index of the largest quote
  have hr : (List.range n).getD (StdAlgo.maxElement lr (List.range n)) 0 =
      StdAlgo.maxElement lr (List.range n) := by
    rw [List.getD_eq_getElem _ _ (by simpa using hk), List.getElem_range]
  unfold pickDeal
  dsimp only
  rw [hr]
  split
  case isTrue heq =>
    -- the relinquisher is the compensator: it moves to the front, and the
    -- compensator is taken from the rest
    have hsw := StdAlgo.iterSwap_perm C (StdAlgo.minElement lc C) 0
    have hswr : (StdAlgo.iterSwap C (StdAlgo.minElement lc C) 0).Perm (List.range n) := hsw.trans hC
    have hswlen : (StdAlgo.iterSwap C (StdAlgo.minElement lc C) 0).length = n := by
      rw [StdAlgo.length_iterSwap, hlen]
    have hm := StdAlgo.minElement_lt_length lc
      (l := (StdAlgo.iterSwap C (StdAlgo.minElement lc C) 0).drop 1)
      (by rw [← List.length_pos_iff, List.length_drop, hswlen]; omega)
    rw [List.length_drop, hswlen] at hm
    have h0 : 0 < (StdAlgo.iterSwap C (StdAlgo.minElement lc C) 0).length := by omega
    have hfront : (StdAlgo.iterSwap C (StdAlgo.minElement lc C) 0)[0] =
        StdAlgo.maxElement lr (List.range n) := by
      have := StdAlgo.iterSwap_getElem?_zero (l := C) hj
      rw [List.getElem?_eq_getElem h0, List.getElem?_eq_getElem hj] at this
      rw [Option.some_inj.mp this, heq, List.getD_eq_getElem _ _ hj]
    refine ⟨hk, getD_lt_of_perm_range hswr (by omega), ?_, hswr⟩
    rw [List.getD_eq_getElem _ _ (by omega), ← hfront]
    intro h
    have := (List.Nodup.getElem_inj_iff (hswr.nodup_iff.mpr (List.nodup_range))).mp h
    omega
  case isFalse hne =>
    exact ⟨hk, getD_lt_of_perm_range hC hj, hne, hC⟩

/-- The partners of a round and its compensation lists: two distinct tenants,
    and lists that stay permutations of the tenants. -/
theorem harvestPick_spec {p : Params} {n : ℕ} (hn : 2 ≤ n) {s : HarvestState F}
    (hrcu : s.rcuCompenList.Perm (harvestLists p n).1)
    (hnet : s.netCompenList.Perm (harvestLists p n).2) {r c : ℕ} {rl nl : List ℕ}
    (h : harvestPick p (harvestLists p n).1 (harvestLists p n).2 s = some (r, c, rl, nl)) :
    r < n ∧ c < n ∧ r ≠ c ∧ rl.Perm (harvestLists p n).1 ∧ nl.Perm (harvestLists p n).2 := by
  unfold harvestPick at h
  split_ifs at h with h₁ h₂
  case pos =>
    -- a trade of `db_rcu`
    simp only [Option.some.injEq, Prod.mk.injEq] at h
    obtain ⟨rfl, rfl, rfl, rfl⟩ := h
    exact ⟨(pickDeal_spec _ _ hn hrcu).1, (pickDeal_spec _ _ hn hrcu).2.1,
      (pickDeal_spec _ _ hn hrcu).2.2.1, (pickDeal_spec _ _ hn hrcu).2.2.2, hnet⟩
  case pos =>
    -- a trade of `net_bw`, whose lists are all the tenants with `alloc_total_net_bw`
    have hf : p.allocTotalNetBw = true := (Bool.and_eq_true _ _).mp h₂ |>.1
    have hnet' : s.netCompenList.Perm (List.range n) := by simpa [harvestLists, hf] using hnet
    have hL : (harvestLists p n).2 = List.range n := by simp [harvestLists, hf]
    simp only [Option.some.injEq, Prod.mk.injEq] at h
    obtain ⟨rfl, rfl, rfl, rfl⟩ := h
    rw [hL]
    exact ⟨(pickDeal_spec _ _ hn hnet').1, (pickDeal_spec _ _ hn hnet').2.1,
      (pickDeal_spec _ _ hn hnet').2.2.1, hrcu, (pickDeal_spec _ _ hn hnet').2.2.2⟩

/-- On keys that the comparators compare, the relinquisher of `pickDeal` has
    the largest relinquish key of all tenants, and the compensator the least
    compensation key of the others. -/
theorem pickDeal_extremal {β : Type*} [LinearOrder β] {lr lc : ℕ → ℕ → Bool} (kr kc : ℕ → β)
    {n : ℕ} (hn : 2 ≤ n) {C : List ℕ} (hC : C.Perm (List.range n))
    (hlr : ∀ i < n, ∀ j < n, lr i j = decide (kr i < kr j))
    (hlc : ∀ i < n, ∀ j < n, lc i j = decide (kc i < kc j)) :
    (∀ j < n, kr j ≤ kr (pickDeal lr lc (List.range n) C).1) ∧
      ∀ j < n, j ≠ (pickDeal lr lc (List.range n) C).1 →
        kc (pickDeal lr lc (List.range n) C).2.1 ≤ kc j := by
  have hCn : ∀ i ∈ C, i < n := fun i hi => List.mem_range.mp (hC.mem_iff.mp hi)
  have hnC : ∀ j < n, j ∈ C := fun j hj => hC.mem_iff.mpr (List.mem_range.mpr hj)
  have hCne : C ≠ [] := fun h => by simpa [h] using hnC 0 (by omega)
  obtain ⟨m, hm, hmax⟩ := StdAlgo.maxElement_max lr kr (L := List.range n)
    (by simp; omega) fun a ha b hb => hlr a (List.mem_range.mp ha) b (List.mem_range.mp hb)
  obtain ⟨m₀, hm₀, hmin₀⟩ := StdAlgo.minElement_min lc kc hCne
    fun a ha b hb => hlc a (hCn a ha) b (hCn b hb)
  have hr : (List.range n).getD (StdAlgo.maxElement lr (List.range n)) 0 = m := by
    rw [List.getD_eq_getElem?_getD, hm, Option.getD_some]
  have hc : C.getD (StdAlgo.minElement lc C) 0 = m₀ := by
    rw [List.getD_eq_getElem?_getD, hm₀, Option.getD_some]
  unfold pickDeal
  dsimp only
  rw [hr, hc]
  have hmax' : ∀ j < n, kr j ≤ kr m := fun j hj => hmax j (List.mem_range.mpr hj)
  split
  case isTrue heq =>
    -- the relinquisher heads the swapped list, and the compensator is the
    -- least of the rest, which holds every other tenant
    have hsw : (StdAlgo.iterSwap C (StdAlgo.minElement lc C) 0).Perm C :=
      StdAlgo.iterSwap_perm C _ 0
    have hlen : (StdAlgo.iterSwap C (StdAlgo.minElement lc C) 0).length = n := by
      rw [hsw.length_eq, hC.length_eq, List.length_range]
    obtain ⟨x, xs, hxs⟩ := List.exists_cons_of_ne_nil (List.ne_nil_of_length_pos (l :=
      StdAlgo.iterSwap C (StdAlgo.minElement lc C) 0) (by omega))
    have hx : x = m := by
      have h0 := StdAlgo.iterSwap_getElem?_zero (l := C)
        (StdAlgo.minElement_lt_length lc hCne)
      rw [hxs, hm₀, List.getElem?_cons_zero, Option.some_inj] at h0
      rw [h0, heq]
    have hxsn : ∀ i ∈ xs, i < n := fun i hi =>
      hCn i (hsw.mem_iff.mp (by rw [hxs]; exact List.mem_cons_of_mem x hi))
    have hxsne : xs ≠ [] := fun h => by
      rw [hxs, h, List.length_singleton] at hlen
      omega
    obtain ⟨m₁, hm₁, hmin₁⟩ := StdAlgo.minElement_min lc kc hxsne
      fun a ha b hb => hlc a (hxsn a ha) b (hxsn b hb)
    rw [hxs, List.getD_eq_getElem?_getD, List.drop_one, List.tail_cons, Nat.add_comm,
      List.getElem?_cons_succ, hm₁, Option.getD_some]
    refine ⟨hmax', fun j hj hjm => ?_⟩
    have hjmem : j ∈ x :: xs := by
      rw [← hxs]
      exact hsw.mem_iff.mpr (hnC j hj)
    rcases List.mem_cons.mp hjmem with hjx | hjxs
    · exact absurd (hjx.trans hx) hjm
    · exact hmin₁ j hjxs
  case isFalse => exact ⟨hmax', fun j hj _ => hmin₀ j (hnC j hj)⟩

-- ---------------------------------------------------------------------------
-- A deal, read in the field
-- ---------------------------------------------------------------------------

/-- The estimate of `estimate_bottleneck` on a finite `resrc_avail` and a
    finite, positive total: no field is `0 / 0`. -/
theorem estimateBottleneck_fst {a : Allocator F} {T : Res → F}
    (hT : a.totalResrc.stateless = ofFun T) (hpos : ∀ r, 0 < T r) (A : Res → F) :
    (a.estimateBottleneck (ofFun A)).1 = ofTop (ratioTop A (T - A)) := by
  unfold estimateBottleneck
  rw [hT, ofFun_sub]
  refine ratio_ofFun fun r hr => ?_
  have : A r = T r := (sub_eq_zero.mp hr).symm
  rw [this]
  exact hpos r

/-- `resrc_if_deal` on finite quotes: the relinquisher's quote is added and
    the compensator's taken away, on `db_rcu` and, with `alloc_total_net_bw`,
    on `net_bw`. -/
theorem resrcIfDeal_eq (p : Params) {ts : List (Tenant F)} {r c : ℕ} (hr : r < ts.length)
    (hc : c < ts.length) {x y x' y' : F} (hρ : ts[r].rcuDeltaRelinq = fin x)
    (hν : ts[r].netDeltaRelinq = fin y) (hκ : ts[c].rcuDeltaCompen = fin x')
    (hμ : ts[c].netDeltaCompen = fin y') (hy : p.allocTotalNetBw = false → y = 0 ∧ y' = 0)
    (A : Res → F) :
    resrcIfDeal ts (ofFun A) r c =
      ofFun (A + tradeVec p.allocTotalNetBw x y - tradeVec p.allocTotalNetBw x' y') := by
  unfold resrcIfDeal
  rw [field_eq_getElem _ _ hr, field_eq_getElem _ _ hr, field_eq_getElem _ _ hc,
    field_eq_getElem _ _ hc, hρ, hν, hκ, hμ]
  cases hf : p.allocTotalNetBw
  case false =>
    obtain ⟨rfl, rfl⟩ := hy hf
    simp only [ofFun, fin_sub_fin, fin_add_fin, Pi.add_apply, Pi.sub_apply, tradeVec]
    congr 2 <;> ring
  case true =>
    simp only [ofFun, fin_sub_fin, fin_add_fin, Pi.add_apply, Pi.sub_apply, tradeVec, if_true]
    congr 2 <;> ring

/-- The tenants after a deal of two distinct partners: each side of
    `relocate_resrc`, then the partner quotes again. -/
theorem tradeTenants_eq (p : Params) {ts : List (Tenant F)} {r c : ℕ} (hr : r < ts.length)
    (hc : c < ts.length) (hrc : r ≠ c) :
    tradeTenants p ts r c =
      (ts.modify r fun t =>
        (Tenant.relinqSide p ts[r].rcuDeltaRelinq ts[r].netDeltaRelinq t).updateRcuNetDelta p).modify c
        fun t => (Tenant.compenSide p ts[c].rcuDeltaCompen ts[c].netDeltaCompen t).updateRcuNetDelta p := by
  unfold tradeTenants Tenant.relocateResrc
  rw [field_eq_getElem _ _ hr, field_eq_getElem _ _ hr, field_eq_getElem _ _ hc,
    field_eq_getElem _ _ hc]
  apply List.ext_getElem (by simp)
  intro i _ _
  simp only [List.getElem_modify]
  split_ifs <;> simp_all

-- ---------------------------------------------------------------------------
-- The invariant of the trading loop
-- ---------------------------------------------------------------------------

@[simp] theorem length_tradeTenants (p : Params) (ts : List (Tenant F)) (r c : ℕ) :
    (tradeTenants p ts r c).length = ts.length := by
  simp [tradeTenants]

/-- What every state of the trading loop keeps, for `n` tenants that hold
    `T` between them and `resrc_avail`: every tenant is `Tenant.Ok` and
    quotes on its own data, the tenants and `resrc_avail` still hold `T`, and
    the compensation lists are permutations of the tenants. -/
structure HarvestInv (p : Params) (n : ℕ) (T : Res → F) (s : HarvestState F) : Prop where
  length : s.tenants.length = n
  ok : ∀ t ∈ s.tenants, t.Ok
  quoted : ∀ t ∈ s.tenants, t.Quoted p
  avail : s.resrcAvail = ofFun (T - (s.tenants.map Tenant.held).sum)
  rcu : s.rcuCompenList.Perm (harvestLists p n).1
  net : s.netCompenList.Perm (harvestLists p n).2

/-- The first state: every tenant quotes on its own data. -/
theorem harvestInit_inv {a : Allocator F} (T : Res → F) (hok : ∀ t ∈ a.tenants, t.Ok)
    (hnet : ∀ t ∈ a.tenants, Tenant.NetZero p t) :
    HarvestInv p a.tenants.length T
      (harvestInit p a (ofFun (T - (a.tenants.map Tenant.held).sum))) where
  length := by simp [harvestInit]
  ok t ht := by
    obtain ⟨u, hu, rfl⟩ := List.mem_map.mp ht
    exact (Tenant.requoted_updateRcuNetDelta p u).ok (hok u hu)
  quoted t ht := by
    obtain ⟨u, hu, rfl⟩ := List.mem_map.mp ht
    exact (hok u hu).quoted_updateRcuNetDelta (hnet u hu)
  avail := by
    have hheld : (a.tenants.map (Tenant.updateRcuNetDelta p)).map Tenant.held =
        a.tenants.map Tenant.held := by
      rw [List.map_map]
      exact List.map_congr_left fun u _ => (Tenant.requoted_updateRcuNetDelta p u).held_eq
    simp only [harvestInit, hheld]
  rcu := List.Perm.refl _
  net := List.Perm.refl _

section Trade

variable {n : ℕ} {T : Res → F} {s : HarvestState F}

/-- A deal between two distinct tenants keeps the tenants `Tenant.Ok` and
    quoting on their own data, and `resrc_if_deal` takes in exactly what the
    relinquisher gives back less what the compensator is paid. -/
theorem HarvestInv.trade (hs : HarvestInv p n T s) {r c : ℕ} (hr : r < n) (hc : c < n)
    (hrc : r ≠ c) :
    (∀ t ∈ tradeTenants p s.tenants r c, t.Ok ∧ t.Quoted p) ∧
      resrcIfDeal s.tenants s.resrcAvail r c =
        ofFun (T - ((tradeTenants p s.tenants r c).map Tenant.held).sum) := by
  have hr' : r < s.tenants.length := hs.length ▸ hr
  have hc' : c < s.tenants.length := hs.length ▸ hc
  have hokr := hs.ok _ (List.getElem_mem hr')
  have hokc := hs.ok _ (List.getElem_mem hc')
  have hqr := hs.quoted _ (List.getElem_mem hr')
  have hqc := hs.quoted _ (List.getElem_mem hc')
  -- the quotes of the two partners, in the field
  obtain ⟨x, y, hx, hy, -, hxle, -, hyle, hy0⟩ :=
    hqr.1.exact (fun c => (hokr.mrAt_mem c).1) hokr.held_nonneg hokr.alpha_mem
  obtain ⟨x', y', hx', hy', hx0', hy0', hyz'⟩ := hqc.2.exact hokc.held_nonneg hokc.alpha_mem
  have hrok := hokr.relinqSide_ok (p := p) hxle hyle
  have hcok := hokc.compenSide_ok (p := p) hx0' hy0'
  rw [tradeTenants_eq p hr' hc' hrc, hx, hy, hx', hy']
  constructor
  · -- the compensator's update reads the tenant the relinquisher's left alone
    have hmod : ∀ h : c < (s.tenants.modify r _).length,
        (s.tenants.modify r (fun t =>
          (Tenant.relinqSide p (fin x) (fin y) t).updateRcuNetDelta p))[c] = s.tenants[c] := by
      intro h
      rw [List.getElem_modify, if_neg hrc]
    refine StdAlgo.forall_mem_modify (StdAlgo.forall_mem_modify
      (fun t ht => ⟨hs.ok t ht, hs.quoted t ht⟩) fun _ => ?_) fun h => ?_
    · exact ⟨(Tenant.requoted_updateRcuNetDelta p _).ok hrok,
        hrok.quoted_updateRcuNetDelta fun hf => hqr.netZero hf⟩
    · rw [hmod h]
      exact ⟨(Tenant.requoted_updateRcuNetDelta p _).ok hcok,
        hcok.quoted_updateRcuNetDelta fun hf => hqc.netZero hf⟩
  · -- the sum of what the tenants hold moves by the two sides of the deal
    have hsum := StdAlgo.sum_map_modify_modify Tenant.held
      (fun t => (Tenant.relinqSide p (fin x) (fin y) t).updateRcuNetDelta p)
      (fun t => (Tenant.compenSide p (fin x') (fin y') t).updateRcuNetDelta p) hr' hc' hrc
    rw [(Tenant.requoted_updateRcuNetDelta p _).held_eq, (Tenant.requoted_updateRcuNetDelta p _).held_eq,
      hokr.held_relinqSide, hokc.held_compenSide] at hsum
    rw [hs.avail, resrcIfDeal_eq p hr' hc' hx hy hx' hy' (fun hf => ⟨hy0 hf, hyz' hf⟩)]
    congr 1
    linear_combination hsum

/-- One round keeps the invariant, whether it breaks or goes on. -/
theorem harvestBody_inv (hn : 2 ≤ n) {a : Allocator F} (hlen : a.tenants.length = n)
    (hs : HarvestInv p n T s) {s' : HarvestState F}
    (h : harvestBody p a s = .done s' ∨ harvestBody p a s = .next s') : HarvestInv p n T s' := by
  unfold harvestBody harvestRound at h
  rw [hlen] at h
  cases hpick : harvestPick p (harvestLists p n).1 (harvestLists p n).2 s with
  | none =>
    -- no bottleneck to trade: the loop breaks with the state itself
    rw [hpick] at h
    rcases h with h | h <;> cases h
    exact hs
  | some deal =>
    obtain ⟨r, c, rl, nl⟩ := deal
    obtain ⟨hr, hc, hrc, hrl, hnl⟩ := harvestPick_spec hn hs.rcu hs.net hpick
    rw [hpick] at h
    dsimp only at h
    split_ifs at h
    case pos =>
      -- a rejected deal: the new flags and lists only
      rcases h with h | h <;> cases h
      exact ⟨hs.length, hs.ok, hs.quoted, hs.avail, hrl, hnl⟩
    case neg =>
      -- an accepted deal
      rcases h with h | h <;> cases h
      obtain ⟨htr, havail⟩ := hs.trade hr hc hrc
      exact ⟨by rw [length_tradeTenants, hs.length], fun t ht => (htr t ht).1,
        fun t ht => (htr t ht).2, havail, hrl, hnl⟩

/-- Every state the trading loop passes through keeps the invariant. -/
theorem harvest_visits_inv (hn : 2 ≤ n) {a : Allocator F} (hlen : a.tenants.length = n)
    {s₀ s : HarvestState F} (hs₀ : HarvestInv p n T s₀) (hv : Loop.Visits (harvestBody p a) s₀ s) :
    HarvestInv p n T s :=
  Loop.Visits.inv (HarvestInv p n T) (fun _ _ hs hb => harvestBody_inv hn hlen hs (.inl hb))
    (fun _ _ hs hb => harvestBody_inv hn hlen hs (.inr hb)) hs₀ hv

end Trade

end Allocator

end Hare
