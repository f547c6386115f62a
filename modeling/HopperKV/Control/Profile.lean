-- SUMMARY: What the ghost cache is assumed to report, on the entries two curves share and padded with the last entry, and the gain profile of an epoch: the epoch between two replies whose curves meet the padded contract has one, sums of epochs keep it, and its miss ratios start at 1, lie in [0, 1] and do not increase.
import HopperKV.Control.ResrcStat
import Mathlib.Data.Int.ConditionallyCompleteOrder

/-!
# Gain profiles

The controller subtracts two snapshots of the ghost lists, pads the shorter
one and sums epochs. So what a curve is computed from is read best as a pair
of functions on all ticks (`Pad.ext`): the hits and the misses gained in an
interval, per tick. Such a pair is a *gain profile* when

* tick 0, the cache of no key, gains no hit;
* at every tick the hits and misses gained add up to the accesses of the
  interval, which are the misses gained at tick 0;
* hits and misses gained are not negative, and the hits gained do not
  decrease with the tick (a larger LRU cache hits whenever a smaller one does).

Gain profiles add up (`GainProfile.add`). Their miss ratios
`m i / (h i + m i)` start at 1, lie in `[0, 1]` and do not increase, and the
clamp `min (· + salt) 1` keeps all three (`GainProfile.missRatio_*`).

The contract of an LRU ghost cache is naturally stated on the entries that
two consecutive curves share (`Later`). The epoch is computed on the padded lists, so the contract
that the code needs is `PaddedLater`: an entry that the earlier curve lacks
counts there as the earlier curve's last entry, which is what an LRU cache of
that size would have seen while the keys fitted in the smaller one.
`gainProfile_sub` says that `PaddedLater` gives the epoch a gain profile.
-/

namespace Controller

open Hopper Pad

/-! ## What gcache reports -/

/-- The hits of a curve's entries. -/
def hits (c : List CurveEntry) : List ℤ := c.map fun e => (e.hitCnt.val : ℤ)

/-- The misses of a curve's entries. -/
def misses (c : List CurveEntry) : List ℤ := c.map fun e => (e.missCnt.val : ℤ)

/-- The accesses that the first entry counts. -/
def accesses : List CurveEntry → ℤ
  | [] => 0
  | e :: _ => e.hitCnt.val + e.missCnt.val

/-- `ghost.hit_cnt` of a reply of arrays: no hit for the cache of no key. -/
def hitList (c : List CurveEntry) : List ℤ := 0 :: hits c

/-- `ghost.miss_cnt` of a reply of arrays: the cache of no key misses every
    access. -/
def missList (c : List CurveEntry) : List ℤ := accesses c :: misses c

/-- What a curve of gcache is assumed to be at one poll: positive counts and
    sizes that strictly increase, every entry counting the same accesses, and
    counters that fit in a `long long`. -/
structure CurveOk (c : List CurveEntry) : Prop where
  pos : ∀ e ∈ c, 0 < e.count ∧ 0 < e.size
  sorted : c.Pairwise fun e e' => e.count < e'.count ∧ e.size < e'.size
  total : ∀ e ∈ c, ∀ e' ∈ c, e.hitCnt.val + e.missCnt.val = e'.hitCnt.val + e'.missCnt.val
  bound : ∀ e ∈ c, e.hitCnt.val + e.missCnt.val < 2 ^ 63

theorem hits_ne_nil {c : List CurveEntry} (hc : c ≠ []) : hits c ≠ [] := by simpa [hits] using hc

theorem misses_ne_nil {c : List CurveEntry} (hc : c ≠ []) : misses c ≠ [] := by
  simpa [misses] using hc

/-- The contract between consecutive curves on the entries they share: the
    curve does not get shorter, and on the entries of the earlier curve the
    counters do not decrease and the hits gained do not decrease along the
    curve. -/
structure Later (c c' : List CurveEntry) : Prop where
  length_le : c.length ≤ c'.length
  hit_le : ∀ i < c.length, (hits c).getD i 0 ≤ (hits c').getD i 0
  miss_le : ∀ i < c.length, (misses c).getD i 0 ≤ (misses c').getD i 0
  gain_mono : ∀ j < c.length, ∀ i ≤ j,
    (hits c').getD i 0 - (hits c).getD i 0 ≤ (hits c').getD j 0 - (hits c).getD j 0

/-- The same contract with the earlier curve padded by its last entry. -/
structure PaddedLater (c c' : List CurveEntry) : Prop where
  length_le : c.length ≤ c'.length
  hit_le : ∀ i, ext (hits c) i ≤ ext (hits c') i
  miss_le : ∀ i, ext (misses c) i ≤ ext (misses c') i
  gain_mono : Monotone fun i => ext (hits c') i - ext (hits c) i

/-- The padded contract is a check of the indices of the later curve: past
    its last entry both padded curves are constant. -/
theorem PaddedLater.of_lt {c c' : List CurveEntry} (hc : c ≠ []) (hlen : c.length ≤ c'.length)
    (hhit : ∀ i < c'.length, ext (hits c) i ≤ ext (hits c') i)
    (hmiss : ∀ i < c'.length, ext (misses c) i ≤ ext (misses c') i)
    (hgain : ∀ i < c'.length - 1,
      ext (hits c') i - ext (hits c) i ≤ ext (hits c') (i + 1) - ext (hits c) (i + 1)) :
    PaddedLater c c' := by
  have hpos : 0 < c.length := List.length_pos_iff.mpr hc
  have hc' : c' ≠ [] := List.length_pos_iff.mp (by omega)
  have hh : (hits c).length ≤ c'.length := by simpa [hits] using hlen
  have hm : (misses c).length ≤ c'.length := by simpa [misses] using hlen
  have hh' : (hits c').length ≤ c'.length := by simp [hits]
  have hm' : (misses c').length ≤ c'.length := by simp [misses]
  -- every index reads as its clamp below the later curve's length
  have hclamp : ∀ i, min i (c'.length - 1) < c'.length := fun i => by omega
  refine ⟨hlen, fun i => ?_, fun i => ?_, monotone_nat_of_le_succ fun i => ?_⟩
  · rw [← ext_min (hits_ne_nil hc) hh, ← ext_min (hits_ne_nil hc') hh']
    exact hhit _ (hclamp i)
  · rw [← ext_min (misses_ne_nil hc) hm, ← ext_min (misses_ne_nil hc') hm']
    exact hmiss _ (hclamp i)
  · by_cases hi : i + 1 < c'.length
    · exact hgain i (by omega)
    · have hmin : min (i + 1) (c'.length - 1) = min i (c'.length - 1) := by omega
      apply le_of_eq
      rw [← ext_min (hits_ne_nil hc) hh (i + 1), ← ext_min (hits_ne_nil hc') hh' (i + 1), hmin,
        ext_min (hits_ne_nil hc) hh, ext_min (hits_ne_nil hc') hh']

/-! ## Gain profiles -/

/-- The hits and misses gained per tick in an interval, read as functions. -/
structure GainProfile (h m : ℕ → ℤ) : Prop where
  hit_zero : h 0 = 0
  sum_eq : ∀ i, h i + m i = m 0
  hit_nonneg : ∀ i, 0 ≤ h i
  miss_nonneg : ∀ i, 0 ≤ m i
  hit_mono : Monotone h

theorem GainProfile.add {h m h' m' : ℕ → ℤ} (p : GainProfile h m) (q : GainProfile h' m') :
    GainProfile (fun i => h i + h' i) (fun i => m i + m' i) where
  hit_zero := by simp [p.hit_zero, q.hit_zero]
  sum_eq i := by linarith [p.sum_eq i, q.sum_eq i]
  hit_nonneg i := add_nonneg (p.hit_nonneg i) (q.hit_nonneg i)
  miss_nonneg i := add_nonneg (p.miss_nonneg i) (q.miss_nonneg i)
  hit_mono _ _ hij := add_le_add (p.hit_mono hij) (q.hit_mono hij)

/-- The misses gained do not increase with the tick. -/
theorem GainProfile.miss_anti {h m : ℕ → ℤ} (p : GainProfile h m) : Antitone m := by
  intro i j hij
  linarith [p.sum_eq i, p.sum_eq j, p.hit_mono hij]

/-! ## Miss ratios of a gain profile -/

section MissRatio

variable {F : Type} [Field F] [LinearOrder F] {h m : ℕ → ℤ}

/-- `min(mc / (hc + mc) + mrc_salt, 1)` at one tick. -/
def ratioAt (salt : F) (h m : ℕ → ℤ) (i : ℕ) : F :=
  min ((m i : F) / ((h i + m i : ℤ) : F) + salt) 1

theorem GainProfile.ratioAt_eq (p : GainProfile h m) (salt : F) (i : ℕ) :
    ratioAt salt h m i = min ((m i : F) / (m 0 : F) + salt) 1 := by
  rw [ratioAt, p.sum_eq i]

variable [IsStrictOrderedRing F]

theorem GainProfile.missRatio_zero (p : GainProfile h m) (hm : 0 < m 0) {salt : F}
    (hs : 0 ≤ salt) : ratioAt salt h m 0 = 1 := by
  have : (m 0 : F) ≠ 0 := by exact_mod_cast hm.ne'
  rw [p.ratioAt_eq, div_self this]
  exact min_eq_right (by linarith)

theorem GainProfile.missRatio_mem (p : GainProfile h m) (hm : 0 < m 0) {salt : F}
    (hs : 0 ≤ salt) (i : ℕ) : 0 ≤ ratioAt salt h m i ∧ ratioAt salt h m i ≤ 1 := by
  have hm₀ : (0 : F) < m 0 := by exact_mod_cast hm
  have hmi : (0 : F) ≤ m i := by exact_mod_cast p.miss_nonneg i
  rw [p.ratioAt_eq]
  exact ⟨le_min (by positivity) zero_le_one, min_le_right _ _⟩

theorem GainProfile.missRatio_anti (p : GainProfile h m) (hm : 0 < m 0) (salt : F) :
    Antitone (ratioAt salt h m) := by
  intro i j hij
  have hm₀ : (0 : F) < m 0 := by exact_mod_cast hm
  have hmij : (m j : F) ≤ m i := by exact_mod_cast p.miss_anti hij
  rw [p.ratioAt_eq, p.ratioAt_eq]
  gcongr

end MissRatio

/-! ## The epoch between two replies -/

section Epoch

variable {c c' : List CurveEntry}

/-- At every tick the padded curve counts the accesses of its first entry. -/
theorem ext_hits_add_misses (hok : CurveOk c) (hc : c ≠ []) (i : ℕ) :
    ext (hits c) i + ext (misses c) i = accesses c := by
  rw [hits, misses, ext_map _ hc, ext_map _ hc]
  obtain ⟨e, es, rfl⟩ := List.exists_cons_of_ne_nil hc
  have := hok.total _ (ext_mem hc i) e List.mem_cons_self
  simp only [accesses]
  exact_mod_cast this

theorem ext_hitList_succ (hc : c ≠ []) (i : ℕ) : ext (hitList c) (i + 1) = ext (hits c) i :=
  ext_cons_succ _ (hits_ne_nil hc) i

theorem ext_missList_succ (hc : c ≠ []) (i : ℕ) : ext (missList c) (i + 1) = ext (misses c) i :=
  ext_cons_succ _ (misses_ne_nil hc) i

/-- The difference of the padded reply lists of two curves that meet the
    padded contract is a gain profile. -/
theorem gainProfile_sub (hok : CurveOk c) (hok' : CurveOk c') (hc : c ≠ []) (hc' : c' ≠ [])
    (hl : PaddedLater c c') :
    GainProfile (fun i => ext (hitList c') i - ext (hitList c) i)
      (fun i => ext (missList c') i - ext (missList c) i) := by
  -- tick 0 is the head of the reply lists, tick `k + 1` the entry `k`
  have h0 : ∀ c : List CurveEntry, ext (hitList c) 0 = 0 := fun _ => ext_cons_zero _ _
  have m0 : ∀ c : List CurveEntry, ext (missList c) 0 = accesses c := fun _ => ext_cons_zero _ _
  have hacc : accesses c ≤ accesses c' := by
    rw [← ext_hits_add_misses hok hc 0, ← ext_hits_add_misses hok' hc' 0]
    exact add_le_add (hl.hit_le 0) (hl.miss_le 0)
  refine ⟨by simp [h0], ?_, ?_, ?_, ?_⟩
  · intro i
    cases i with
    | zero => simp [h0]
    | succ k =>
      simp only [ext_hitList_succ hc, ext_hitList_succ hc', ext_missList_succ hc,
        ext_missList_succ hc', m0]
      linarith [ext_hits_add_misses hok hc k, ext_hits_add_misses hok' hc' k]
  · intro i
    cases i with
    | zero => simp [h0]
    | succ k =>
      simp only [ext_hitList_succ hc, ext_hitList_succ hc', sub_nonneg]
      exact hl.hit_le k
  · intro i
    cases i with
    | zero => simp only [m0, sub_nonneg]; exact hacc
    | succ k =>
      simp only [ext_missList_succ hc, ext_missList_succ hc', sub_nonneg]
      exact hl.miss_le k
  · intro i j hij
    cases i with
    | zero =>
      cases j with
      | zero => exact le_rfl
      | succ l =>
        simp only [h0, sub_self, ext_hitList_succ hc, ext_hitList_succ hc', sub_nonneg]
        exact hl.hit_le l
    | succ k =>
      cases j with
      | zero => omega
      | succ l =>
        simp only [ext_hitList_succ hc, ext_hitList_succ hc']
        exact hl.gain_mono (Nat.le_of_succ_le_succ hij)

end Epoch

/-! ## Ghost lists with a gain profile -/

/-- Ghost lists of an epoch or of a sum: non-empty, of equal length at most
    `n + 1`, with a gain profile. -/
structure ProfileOk (n : ℕ) (h m : List ℤ) : Prop where
  ne_nil : h ≠ []
  length_eq : h.length = m.length
  length_le : h.length ≤ n + 1
  gain : GainProfile (ext h) (ext m)

theorem ProfileOk.mono {n n' : ℕ} {h m : List ℤ} (p : ProfileOk n h m) (hn : n ≤ n') :
    ProfileOk n' h m :=
  ⟨p.ne_nil, p.length_eq, by have := p.length_le; omega, p.gain⟩

theorem ProfileOk.miss_ne_nil {n : ℕ} {h m : List ℤ} (p : ProfileOk n h m) : m ≠ [] := by
  have := p.length_eq
  have := List.length_pos_iff.mpr p.ne_nil
  exact List.length_pos_iff.mp (by omega)

/-- A snapshot of an epoch or a sum whose ghost lists, if it has both, have a
    gain profile. -/
def EpochOk (n : ℕ) (e : ResrcStat) : Prop :=
  e.ghostHitCnt = none ∨ e.ghostMissCnt = none ∨
    ∃ h m, e.ghostHitCnt = some h ∧ e.ghostMissCnt = some m ∧ ProfileOk n h m

theorem EpochOk.mono {n n' : ℕ} {e : ResrcStat} (he : EpochOk n e) (hn : n ≤ n') :
    EpochOk n' e := by
  rcases he with he | he | ⟨h, m, hh, hm, p⟩
  · exact .inl he
  · exact .inr (.inl he)
  · exact .inr (.inr ⟨h, m, hh, hm, p.mono hn⟩)

/-- The padded sum of two lists with gain profiles. -/
theorem ProfileOk.add {n : ℕ} {h m h' m' hs ms : List ℤ} (p : ProfileOk n h m)
    (q : ProfileOk n h' m') (hh : zipWithPad (· + ·) h h' = some hs)
    (hm : zipWithPad (· + ·) m m' = some ms) : ProfileOk n hs ms := by
  have hlh := length_of_zipWithPad p.ne_nil q.ne_nil hh
  have hlm := length_of_zipWithPad p.miss_ne_nil q.miss_ne_nil hm
  have hext : ext hs = fun i => ext h i + ext h' i := funext (ext_zipWithPad p.ne_nil q.ne_nil hh)
  have mext : ext ms = fun i => ext m i + ext m' i :=
    funext (ext_zipWithPad p.miss_ne_nil q.miss_ne_nil hm)
  have := List.length_pos_iff.mpr p.ne_nil
  have := p.length_le
  have := q.length_le
  refine ⟨List.length_pos_iff.mp (by omega), ?_, ?_, ?_⟩
  · rw [hlh, hlm, p.length_eq, q.length_eq]
  · omega
  · rw [hext, mext]
    exact p.gain.add q.gain

/-- `__add__` keeps `EpochOk`. -/
theorem EpochOk.add {n : ℕ} {a b s : ResrcStat} (ha : EpochOk n a) (hb : EpochOk n b)
    (h : a.add b = .ok s) : EpochOk n s := by
  obtain ⟨hhit, hmiss, -⟩ := ResrcStat.combine_eq_ok h
  rcases ResrcStat.ghostOp_eq_ok hhit with hs | ⟨l, r, hs, hla, hrb, hps, hsh⟩
  · exact .inl hs
  rcases ResrcStat.ghostOp_eq_ok hmiss with hs' | ⟨l', r', ms, hla', hrb', hms, hsm⟩
  · exact .inr (.inl hs')
  -- both sides have both lists, since the sum has them
  rcases ha with ha | ha | ⟨h₁, m₁, hh₁, hm₁, p₁⟩
  · rw [ha] at hla; cases hla
  · rw [ha] at hla'; cases hla'
  rcases hb with hb | hb | ⟨h₂, m₂, hh₂, hm₂, p₂⟩
  · rw [hb] at hrb; cases hrb
  · rw [hb] at hrb'; cases hrb'
  rw [hh₁, Option.some_inj] at hla
  rw [hm₁, Option.some_inj] at hla'
  rw [hh₂, Option.some_inj] at hrb
  rw [hm₂, Option.some_inj] at hrb'
  subst hla hla' hrb hrb'
  exact .inr (.inr ⟨hs, ms, hsh, hsm, p₁.add p₂ hps hms⟩)

end Controller
