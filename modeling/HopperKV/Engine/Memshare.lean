-- SUMMARY: The memshare loop: what one round does, that every round that moves cache lowers the total miss ratio (as a sum of weights), that the loop therefore terminates on every input, and which tenants it picks as receiver and donor.
import HopperKV.Engine.Alloc
import Mathlib.Algebra.Order.Monoid.Prod
import Mathlib.Tactic.Abel
import Mathlib.Data.List.FinRange
import Mathlib.Data.Set.Finite.List

/-!
# Memshare

A round of `do_memshare` that goes on moves `cache_delta` bytes from the donor
`d` to the receiver `r ≠ d`, and it does so only when
`mr_dec_if_less_cache(d) < mr_inc_if_more_cache(r)`, that is

  `less_d - curr_d < curr_r - more_r`

for the miss ratios `curr` at the current sizes, `more_r` at the receiver's
new size and `less_d` at the donor's new size. So the total of the miss ratios
goes down (`memshareRound_potential_lt`). The miss ratios are `double`s and
may be infinite, so the total is a sum of weights (`Ieee.weight`) in the
lexicographic order on `ℤ × F`; for finite values it is the sum itself. The
cache sizes live in a finite set, so the total takes finitely many values and
the loop, which has no bound of its own, stops (`doMemshare_terminates`).

The receiver is not the tenant with the largest `mr_inc_if_more_cache`:
`less_mr_inc` compares the increase of one tenant with the decrease of the
other (`memshareRound_receiver_not_max`). The donor is the tenant with the
least decrease among those that can donate (`memshareDonator_min`), and
which sort orders `cache_less_list` does not matter when the decreases are
distinct (`memshareRound_sort_congr`).
-/

namespace Hare

open Ieee

set_option linter.unusedSectionVars false

variable {F : Type} [Field F] [LinearOrder F]

namespace Allocator

variable {p : Params} {sort : StdAlgo.IeeeSort ℕ F}

-- ---------------------------------------------------------------------------
-- One round
-- ---------------------------------------------------------------------------

/-- What a round that goes on does: it moves cache from the donor it finds to
    the receiver, and the donor's decrease is below the receiver's increase. -/
theorem memshareRound_eq_next {s s' : List (Tenant F) × List ℕ}
    (h : memshareRound p sort s = .next s') :
    ∃ ts L d, ts = s.1.map (Tenant.updateMrDelta p) ∧
      L = sort.sort (field ts (·.mrDecIfLessCache)) s.2 ∧
      memshareDonator p ts (memshareReceiver ts) L = some d ∧
      field ts (·.mrDecIfLessCache) d < field ts (·.mrIncIfMoreCache) (memshareReceiver ts) ∧
      s' = (Tenant.relocateCache p ts (memshareReceiver ts) d, L) := by
  unfold memshareRound at h
  dsimp only at h
  split at h
  case h_1 => cases h
  case h_2 d hd =>
    split at h
    case isTrue hlt =>
      cases h
      exact ⟨_, _, d, rfl, rfl, hd, hlt, rfl⟩
    case isFalse => cases h

/-- The donor differs from the receiver, is in `cache_less_list`, and can
    donate. -/
theorem memshareDonator_spec {ts : List (Tenant F)} {r d : ℕ} {L : List ℕ}
    (h : memshareDonator p ts r L = some d) :
    d ≠ r ∧ d ∈ L ∧ ∃ hd : d < ts.length, ts[d].canDonate p = true := by
  have hp := List.find?_some h
  simp only [Bool.and_eq_true, bne_iff_ne, ne_eq, Option.any_eq_true] at hp
  obtain ⟨hne, t, ht, hdon⟩ := hp
  obtain ⟨hd, rfl⟩ := List.getElem?_eq_some_iff.mp ht
  exact ⟨hne, List.mem_of_find?_eq_some h, hd, hdon⟩

/-- The receiver is a tenant. -/
theorem memshareReceiver_lt {ts : List (Tenant F)} (h : ts ≠ []) :
    memshareReceiver ts < ts.length := by
  have hne : List.range ts.length ≠ [] := by simpa using h
  have hlt := StdAlgo.maxElement_lt_length (lessMrInc ts) hne
  rw [List.length_range] at hlt
  unfold memshareReceiver
  rw [List.getD_eq_getElem _ _ (by simpa using hlt), List.getElem_range]
  exact hlt

/-- A round keeps the number of tenants and their curves. -/
theorem memshareRound_curves {s s' : List (Tenant F) × List ℕ}
    (h : memshareRound p sort s = .next s') :
    s'.1.map (·.mrc.getMissRatioConst) = s.1.map (·.mrc.getMissRatioConst) := by
  obtain ⟨ts, L, d, rfl, rfl, -, -, rfl⟩ := memshareRound_eq_next h
  have hcurves : ∀ l : List (Tenant F),
      l.map (·.mrc.getMissRatioConst) = (l.map (·.mrc)).map MissRatioCurve.getMissRatioConst := by
    intro l
    simp
  rw [hcurves, Tenant.map_mrc_relocateCache, ← hcurves, List.map_map]
  congr 1
  funext t
  simp

/-- In a sorted `cache_less_list` with finite keys, the donor has the least
    key among the tenants other than the receiver that can donate: it is the
    first of them. -/
theorem memshareDonator_min {ts : List (Tenant F)} {r d : ℕ} {L : List ℕ} {key : ℕ → Ieee F}
    (hsorted : L.Pairwise (fun a b => key a ≤ key b)) (hfin : ∀ e ∈ L, (key e).IsFin)
    (h : memshareDonator p ts r L = some d) {e : ℕ} (he : e ∈ L) (her : e ≠ r)
    (hed : e < ts.length) (hdon : ts[e].canDonate p = true) : key d ≤ key e := by
  obtain ⟨-, as, bs, rfl, hbefore⟩ := List.find?_eq_some_iff_append.mp h
  rcases List.mem_append.mp he with hea | hdbs
  · -- a tenant before the donor would have been taken
    have := hbefore e hea
    simp [her, List.getElem?_eq_getElem hed, hdon] at this
  · rcases List.mem_cons.mp hdbs with rfl | hbs
    · obtain ⟨x, hx⟩ := (hfin e (by simp)).exists_eq
      rw [hx, fin_le_fin]
    · exact List.rel_of_pairwise_cons (List.pairwise_append.mp hsorted).2.1 hbs

/-- A round does not depend on the sort when the decreases that it sorts
    `cache_less_list` by are finite and pairwise distinct. -/
theorem memshareRound_sort_congr (sort' : StdAlgo.IeeeSort ℕ F) {s : List (Tenant F) × List ℕ}
    (hfin : ∀ i ∈ s.2, (field (s.1.map (Tenant.updateMrDelta p)) (·.mrDecIfLessCache) i).IsFin)
    (hinj : ∀ i ∈ s.2, ∀ j ∈ s.2, field (s.1.map (Tenant.updateMrDelta p)) (·.mrDecIfLessCache) i =
      field (s.1.map (Tenant.updateMrDelta p)) (·.mrDecIfLessCache) j → i = j) :
    memshareRound p sort s = memshareRound p sort' s := by
  unfold memshareRound
  dsimp only
  rw [sort.sort_eq_sort sort' _ hfin hinj]

/-- Nor does `do_memshare`, when the decreases are finite and pairwise
    distinct at every round of the run with the other sort. -/
theorem doMemshare_sort_congr (sort' : StdAlgo.IeeeSort ℕ F) (fuel : ℕ) (a : Allocator F)
    (h : ∀ s, Loop.Visits (memshareRound p sort') (a.tenants, List.range a.tenants.length) s →
      (∀ i ∈ s.2, (field (s.1.map (Tenant.updateMrDelta p)) (·.mrDecIfLessCache) i).IsFin) ∧
        ∀ i ∈ s.2, ∀ j ∈ s.2, field (s.1.map (Tenant.updateMrDelta p)) (·.mrDecIfLessCache) i =
          field (s.1.map (Tenant.updateMrDelta p)) (·.mrDecIfLessCache) j → i = j) :
    a.doMemshare p sort fuel = a.doMemshare p sort' fuel := by
  unfold doMemshare
  rw [Loop.run_congr fuel _ fun s hv => memshareRound_sort_congr sort' (h s hv).1 (h s hv).2]

-- ---------------------------------------------------------------------------
-- The total miss ratio
-- ---------------------------------------------------------------------------

/-- The weight of the miss ratio that a tenant has at its cache size. -/
def mrWeight (t : Tenant F) : ℤ ×ₗ F := toLex (weight (t.mrc.getMissRatioConst t.resrc.cacheSize))

/-- The total miss ratio of the tenants, as a sum of weights. -/
def mrPotential (ts : List (Tenant F)) : ℤ ×ₗ F := (ts.map mrWeight).sum

@[simp] theorem mrWeight_updateMrDelta (t : Tenant F) :
    mrWeight (Tenant.updateMrDelta p t) = mrWeight t := by
  simp [mrWeight]

@[simp] theorem mrPotential_map_updateMrDelta (ts : List (Tenant F)) :
    mrPotential (ts.map (Tenant.updateMrDelta p)) = mrPotential ts := by
  simp [mrPotential, Function.comp_def]

/-- `relocate_cache` changes the weights of the receiver and the donor only. -/
theorem mrPotential_relocateCache (ts : List (Tenant F)) {r d : ℕ} (hr : r < ts.length)
    (hd : d < ts.length) (hrd : r ≠ d) :
    mrPotential (Tenant.relocateCache p ts r d) =
      mrPotential ts - (mrWeight ts[r] + mrWeight ts[d]) +
        (mrWeight (Tenant.mapCacheSize (· + p.cacheDelta) ts[r]) +
          mrWeight (Tenant.mapCacheSize (· - p.cacheDelta) ts[d])) := by
  have hd' : d < (ts.modify r (Tenant.mapCacheSize (· + p.cacheDelta))).length := by simpa using hd
  unfold mrPotential Tenant.relocateCache
  rw [StdAlgo.map_modify _ _ hd', StdAlgo.map_modify _ _ hr, List.sum_set', List.sum_set']
  simp only [List.length_set, List.length_map, hr, hd, dite_true, List.getElem_set,
    List.getElem_map, List.getElem_modify, if_neg hrd]
  abel

variable [IsStrictOrderedRing F]

/-- Every round that goes on lowers the total miss ratio. -/
theorem memshareRound_potential_lt {s s' : List (Tenant F) × List ℕ}
    (h : memshareRound p sort s = .next s') : mrPotential s'.1 < mrPotential s.1 := by
  obtain ⟨ts, L, d, rfl, rfl, hd, hlt, rfl⟩ := memshareRound_eq_next h
  obtain ⟨hdr, -, hdn, -⟩ := memshareDonator_spec hd
  have hr := memshareReceiver_lt (List.ne_nil_of_length_pos (Nat.lt_of_le_of_lt (Nat.zero_le _) hdn))
  set r := memshareReceiver (s.1.map (Tenant.updateMrDelta p))
  -- the two deltas, read on the curves of the receiver and the donor
  rw [field_eq_getElem _ _ hdn, field_eq_getElem _ _ hr, List.getElem_map, List.getElem_map,
    Tenant.updateMrDelta_mrDecIfLessCache, Tenant.updateMrDelta_mrIncIfMoreCache] at hlt
  have hw := weight_add_lt_of_sub_lt hlt
  rw [mrPotential_relocateCache _ hr hdn (Ne.symm hdr), mrPotential_map_updateMrDelta]
  calc mrPotential s.1 - _ + _ < mrPotential s.1 - _ + (mrWeight (s.1.map (Tenant.updateMrDelta p))[r] +
          mrWeight (s.1.map (Tenant.updateMrDelta p))[d]) := by
        apply (add_lt_add_iff_left _).mpr
        simpa [mrWeight, toLex_add] using hw
    _ = mrPotential s.1 := sub_add_cancel _ _

-- ---------------------------------------------------------------------------
-- Termination
-- ---------------------------------------------------------------------------

/-- The totals that tenants with the curves `curves` have over all cache
    sizes: finitely many, since there are finitely many vectors of sizes. -/
noncomputable def potentials (curves : List (U64 → Ieee F)) : Finset (ℤ ×ₗ F) :=
  (List.finite_length_eq U64 curves.length).toFinset.image
    fun cs => (List.zipWith (fun f c => toLex (weight (f c))) curves cs).sum

theorem mrPotential_mem_potentials (ts : List (Tenant F)) :
    mrPotential ts ∈ potentials (ts.map (·.mrc.getMissRatioConst)) := by
  unfold potentials
  refine Finset.mem_image.mpr ⟨ts.map (·.resrc.cacheSize), by simp, ?_⟩
  rw [List.zipWith_map, List.zipWith_self]
  rfl

/-- `do_memshare` terminates on every input: some fuel suffices, and every
    round that moves cache lowers the total miss ratio of the tenants. -/
theorem doMemshare_terminates (p : Params) (sort : StdAlgo.IeeeSort ℕ F) (a : Allocator F) :
    (∃ N, ∀ fuel, N ≤ fuel → ∃ a', a.doMemshare p sort fuel = some a') ∧
      ∀ s s', memshareRound p sort s = .next s' → mrPotential s'.1 < mrPotential s.1 := by
  refine ⟨?_, fun s s' h => memshareRound_potential_lt h⟩
  -- the curves never change, so the total stays among the potentials of the first curves
  let curves := a.tenants.map (·.mrc.getMissRatioConst)
  let P : List (Tenant F) × List ℕ → Prop := fun s => s.1.map (·.mrc.getMissRatioConst) = curves
  have hT : ∀ s, P s → mrPotential s.1 ∈ potentials curves := by
    intro s hs
    rw [← hs]
    exact mrPotential_mem_potentials s.1
  have hnext : ∀ s s', P s → memshareRound p sort s = .next s' →
      P s' ∧ mrPotential s'.1 < mrPotential s.1 :=
    fun s s' hs h => ⟨(memshareRound_curves h).trans hs, memshareRound_potential_lt h⟩
  obtain ⟨r, hr⟩ := Option.isSome_iff_exists.mp <|
    Loop.run_isSome P (fun s => mrPotential s.1) (potentials curves) hT hnext
      (a.tenants, List.range a.tenants.length) rfl
  refine ⟨(potentials curves).card + 1, fun fuel hfuel => ⟨{ a with tenants := r.1 }, ?_⟩⟩
  obtain ⟨k, rfl⟩ := Nat.exists_eq_add_of_le hfuel
  simp [doMemshare, Loop.run_add hr k]

-- ---------------------------------------------------------------------------
-- Two tenants
-- ---------------------------------------------------------------------------

/-- A curve with ticks at `4`, `8` and `12` MiB. -/
def memshareCurve (m₄ m₈ m₁₂ : ℚ) : MissRatioCurve ℚ :=
  MissRatioCurve.ofVectors [4194304, 8388608, 12582912] [fin m₄, fin m₈, fin m₁₂] (by simp) (by simp)

/-- A tenant with `8` MiB of cache and no stateless resources. -/
def memshareTenant (mrc : MissRatioCurve ℚ) : Tenant ℚ :=
  Tenant.new StatelessResrcVec.zero ⟨8388608, StatelessResrcVec.zero⟩ mrc (fin 0)

/-- With `cache_delta = 4` MiB, tenant `0` would gain `0.3` of miss ratio
    with more cache and lose `0.05` with less; tenant `1` would gain `0.1` and
    lose `0.5`. -/
def memshareTwo : List (Tenant ℚ) :=
  [memshareTenant (memshareCurve (13 / 20) (3 / 5) (3 / 10)),
    memshareTenant (memshareCurve (9 / 10) (2 / 5) (3 / 10))]

/-- The allocator with the two tenants and memshare on. -/
def memshareTwoAlloc : Allocator ℚ :=
  ⟨⟨false, true, true⟩, memshareTwo, ⟨16777216, StatelessResrcVec.zero⟩⟩

theorem doMemshare_terminates_memshareTwo :
    (∃ N, ∀ fuel, N ≤ fuel → ∃ a',
        memshareTwoAlloc.doMemshare Params.default StdAlgo.IeeeSort.byFinitePart fuel = some a') ∧
      ∀ s s' : List (Tenant ℚ) × List ℕ,
        memshareRound Params.default StdAlgo.IeeeSort.byFinitePart s = .next s' →
        mrPotential s'.1 < mrPotential s.1 :=
  doMemshare_terminates Params.default StdAlgo.IeeeSort.byFinitePart memshareTwoAlloc

/-- The first round on the two tenants moves cache to tenant `1`, whose
    increase is `0.1`, although tenant `0` would gain `0.3`: `less_mr_inc`
    keeps tenant `0` only while its increase is at least the decrease `0.5`
    of tenant `1`. Whatever the sort, the donor is tenant `0`, whose decrease
    `0.05` is below `0.1`. -/
theorem memshareRound_receiver_not_max (sort : StdAlgo.IeeeSort ℕ ℚ) :
    memshareRound Params.default sort (memshareTwo, List.range memshareTwo.length) =
        .next (Tenant.relocateCache Params.default
          (memshareTwo.map (Tenant.updateMrDelta Params.default)) 1 0, [0, 1]) ∧
      field (memshareTwo.map (Tenant.updateMrDelta Params.default)) (·.mrIncIfMoreCache) 1 <
        field (memshareTwo.map (Tenant.updateMrDelta Params.default)) (·.mrIncIfMoreCache) 0 := by
  have hdec₀ : field (memshareTwo.map (Tenant.updateMrDelta Params.default))
      (·.mrDecIfLessCache) 0 = fin (1 / 20) := by decide +kernel
  have hdec₁ : field (memshareTwo.map (Tenant.updateMrDelta Params.default))
      (·.mrDecIfLessCache) 1 = fin (1 / 2) := by decide +kernel
  have hsort : sort.sort (field (memshareTwo.map (Tenant.updateMrDelta Params.default))
      (·.mrDecIfLessCache)) [0, 1] = [0, 1] := sort.sort_pair _ hdec₀ hdec₁ (by norm_num)
  have hrecv : memshareReceiver (memshareTwo.map (Tenant.updateMrDelta Params.default)) = 1 := by
    decide +kernel
  have hdon : memshareDonator Params.default (memshareTwo.map (Tenant.updateMrDelta Params.default))
      1 [0, 1] = some 0 := by decide +kernel
  have hmove : field (memshareTwo.map (Tenant.updateMrDelta Params.default)) (·.mrDecIfLessCache) 0 <
      field (memshareTwo.map (Tenant.updateMrDelta Params.default)) (·.mrIncIfMoreCache) 1 := by
    decide +kernel
  refine ⟨?_, by decide +kernel⟩
  have hrange : List.range memshareTwo.length = [0, 1] := rfl
  simp only [memshareRound, hrange, hrecv, hsort, hdon, if_pos hmove]

end Allocator

end Hare
