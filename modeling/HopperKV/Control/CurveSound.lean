-- SUMMARY: The miss-ratio curve that the controller hands to the allocator: under the padded contract every curve built along any run of polls is sane and passes check_sanity, its ticks starting at bytes_startup and its ratios at 1; under the contract on shared entries only, two polls give a ratio of -5.
import HopperKV.Control.Profile
import HopperKV.Control.Tenant
import HopperKV.Engine.MrcSound
import Mathlib.Data.Rat.Floor

/-!
# The curve handed to the allocator

A run of polls starts from `Tenant.init`. Each poll's reply is what
`HOPPER.STATS` computes from the Redis state and the ghost cache's curve at
that moment. `PollInv` is what the tenant holds after such a run. The stored
snapshot holds the ghost lists of the last curve, or none. Every epoch of the
window has a gain profile of at most the last curve's length, or lacks a
ghost list. One poll keeps it (`PollInv.step`), so a whole run keeps it
(`PollInv.run`).

When `poll_post_snapshot` then builds a curve, the new epoch has a gain
profile (`gainProfile_sub`), the window's sum has one (`EpochOk.add`), and
`is_valid` makes its accesses positive. So the miss ratios start at 1, lie in
`[0, 1]` and do not increase. The ticks are those of the reply, which start
at `bytes_startup` and are sorted (`Ghost.replyGhostStats_ticks`). The curve
is therefore sane and passes `check_sanity` (`polled_curve_sane`).

The padding matters. Under the contract on shared entries (`Later`), an
entry that appears with hits makes its misses gained negative
(`literal_contract_negative_ratio`).
-/

namespace Controller

open Hopper Ieee Hare Pad Ghost

variable {F : Type} [Field F] [LinearOrder F] [IsStrictOrderedRing F] [FloorRing F]

/-! ## The reply of `HOPPER.STATS` -/

/-- `avg_kv_size`, a running average of sizes, is finite and not negative. -/
def AvgOk (ms : MemStats F) : Prop := ∃ a, ms.avgKvSize = fin a ∧ 0 ≤ a

/-- What a poll is assumed to read: a curve as gcache reports it, and a
    running average that is not negative. -/
structure PollOk (p : Poll F) : Prop where
  curve : CurveOk p.curve
  avg : AvgOk p.memStats

/-- The ticks of a reply of arrays for a curve of `n` entries. -/
structure TicksOk (n : ℕ) (ts : List ℤ) : Prop where
  length_eq : ts.length = n + 1
  sorted : ts.Pairwise (· ≤ ·)
  nonneg : ∀ t ∈ ts, 0 ≤ t
  lt : ∀ t ∈ ts, t < 2 ^ 63

omit [Field F] [LinearOrder F] [IsStrictOrderedRing F] [FloorRing F] in
theorem hits_eq_toLongLong {c : List CurveEntry} (hok : CurveOk c) :
    c.map (fun e => e.hitCnt.toLongLong) = hits c := by
  apply List.map_congr_left
  intro e he
  have := hok.bound e he
  exact U64.toLongLong_of_lt (by omega)

omit [Field F] [LinearOrder F] [IsStrictOrderedRing F] [FloorRing F] in
theorem misses_eq_toLongLong {c : List CurveEntry} (hok : CurveOk c) :
    c.map (fun e => e.missCnt.toLongLong) = misses c := by
  apply List.map_congr_left
  intro e he
  have := hok.bound e he
  exact U64.toLongLong_of_lt (by omega)

omit [Field F] [LinearOrder F] [IsStrictOrderedRing F] [FloorRing F] in
/-- `acc_cnt`, a sum of `uint64_t` values replied as a `long long`. -/
theorem accCnt_eq {e : CurveEntry} {es : List CurveEntry} (hok : CurveOk (e :: es)) :
    (e.hitCnt + e.missCnt).toLongLong = accesses (e :: es) := by
  have hb := hok.bound e List.mem_cons_self
  have hval : (e.hitCnt + e.missCnt).val = e.hitCnt.val + e.missCnt.val := by
    rw [Fin.val_add]
    exact Nat.mod_eq_of_lt (by omega)
  rw [U64.toLongLong_of_lt (by omega), hval, accesses]
  push_cast
  rfl

/-- A reply to a poll that `PollOk` describes: null ghost lists, or the
    curve's hit and miss lists with sorted ticks that start at the calibrated
    `bytes_startup`. -/
theorem hopperStats_ghost {p : Poll F} (hp : PollOk p) {r : StatsReply}
    (hr : hopperStats p.memStats p.curve p.counters = some (.ok r)) :
    r.ghost = .null ∨ ∃ ts, r.ghost = .lists ts (hitList p.curve) (missList p.curve) ∧
      p.curve ≠ [] ∧ TicksOk p.curve.length ts ∧
      ts.head? = (calibrate p.memStats).map fun x => (x.1.val : ℤ) := by
  unfold hopperStats at hr
  split at hr
  · cases hr
  · rename_i ms hms
    obtain ⟨rfl, hv⟩ := collectMemStats_eq_ok hms
    obtain ⟨g, hg, hgr⟩ := Option.map_eq_some_iff.mp hr
    cases hgr
    cases g with
    | null => exact .inl rfl
    | lists ts hs mss =>
      obtain ⟨avg, havg, havg₀⟩ := hp.avg
      have hpos := hp.curve.pos
      obtain ⟨first, rest, hc, -, -, -, -, -, -, rfl, rfl⟩ :=
        replyGhostStats_eq_lists hg hv havg havg₀ hpos
      have hsorted : p.curve.Pairwise fun e e' => e.size ≤ e'.size :=
        hp.curve.sorted.imp fun h => h.2.le
      obtain ⟨bs, hbs, hhead, hlen, hts, hlt⟩ :=
        replyGhostStats_ticks hg hv havg havg₀ hpos hsorted
      have hok := hp.curve
      rw [hc] at hok hlen ⊢
      refine .inr ⟨ts, ?_, List.cons_ne_nil _ _, ⟨hlen, hts, ?_, hlt⟩, ?_⟩
      · rw [hits_eq_toLongLong hok, misses_eq_toLongLong hok, accCnt_eq hok]
        rfl
      · -- every tick is at least the first, `bytes_startup`
        obtain ⟨t₀, rest', rfl⟩ := List.exists_cons_of_ne_nil (List.ne_nil_of_length_eq_add_one hlen)
        simp only [List.head?_cons, Option.some.injEq] at hhead
        intro t ht
        rcases List.mem_cons.mp ht with rfl | ht
        · rw [hhead]
          exact Int.natCast_nonneg _
        · have := (List.pairwise_cons.mp hts).1 t ht
          rw [hhead] at this
          exact le_trans (Int.natCast_nonneg _) this
      · obtain ⟨x, hx, rfl⟩ := Option.map_eq_some_iff.mp hbs
        rw [hhead, hx]
        rfl

/-! ## The tenant after a run of polls -/

/-- The length of the last curve polled, which bounds the window's lists. -/
def bound (c : Option (List CurveEntry)) : ℕ := (c.map List.length).getD 0

/-- The stored snapshot holds no ghost lists, or those of the last curve. -/
def PrevOk (c : Option (List CurveEntry)) (s : ResrcStat) : Prop :=
  s.ghostHitCnt = none ∨ ∃ c₀, c = some c₀ ∧ c₀ ≠ [] ∧ CurveOk c₀ ∧
    s.ghostHitCnt = some (hitList c₀) ∧ s.ghostMissCnt = some (missList c₀)

/-- What the tenant holds after a run of polls whose last curve is `c`. -/
structure PollInv (c : Option (List CurveEntry)) (t : Tenant F) : Prop where
  prev : PrevOk c t.prevSnapshot
  window : ∀ e ∈ t.epochStatWindow, EpochOk (bound c) e
  salt : 0 ≤ t.mrcSalt

/-- The padded contract between the last curve polled and the next one. -/
def LaterThan : Option (List CurveEntry) → List CurveEntry → Prop
  | none, _ => True
  | some c, c' => PaddedLater c c'

/-- The assumptions on a run of polls after the curve `c`. -/
def Contract : Option (List CurveEntry) → List (Poll F) → Prop
  | _, [] => True
  | c, p :: ps => PollOk p ∧ LaterThan c p.curve ∧ Contract (some p.curve) ps

/-- The last curve polled. -/
def lastCurve : Option (List CurveEntry) → List (Poll F) → Option (List CurveEntry)
  | c, [] => c
  | _, p :: ps => lastCurve (some p.curve) ps

theorem bound_le {c : Option (List CurveEntry)} {c' : List CurveEntry} (hl : LaterThan c c') :
    bound c ≤ c'.length := by
  cases c with
  | none => exact Nat.zero_le _
  | some c => exact hl.length_le

omit [IsStrictOrderedRing F] [FloorRing F] in
theorem PollInv.init {salt : F} (hsalt : 0 ≤ salt) (smoothWindow : ℕ) :
    PollInv none (Tenant.init salt smoothWindow) :=
  ⟨.inl rfl, fun _ he => absurd he List.not_mem_nil, hsalt⟩

/-- The snapshot of a reply holds the ghost lists of the curve polled, or none. -/
theorem prevOk_ofReply {p : Poll F} (hp : PollOk p) {r : StatsReply}
    (hr : hopperStats p.memStats p.curve p.counters = some (.ok r)) (now : Ieee ℚ) :
    PrevOk (some p.curve) (ResrcStat.ofReply r now) := by
  rcases hopperStats_ghost hp hr with hg | ⟨ts, hg, hne, -, -⟩
  · left
    simp [ResrcStat.ofReply, hg]
  · right
    refine ⟨p.curve, rfl, hne, hp.curve, ?_, ?_⟩ <;> simp [ResrcStat.ofReply, hg]

omit [Field F] [LinearOrder F] [IsStrictOrderedRing F] [FloorRing F] in
/-- The epoch between the stored snapshot and a new one has a gain profile,
    or lacks a ghost list. -/
theorem epochOk_sub {c : Option (List CurveEntry)} {c' : List CurveEntry} {s s' epoch : ResrcStat}
    (hprev : PrevOk c s) (hnew : PrevOk (some c') s') (hl : LaterThan c c')
    (h : s'.sub s = .ok epoch) : EpochOk c'.length epoch := by
  obtain ⟨hhit, hmiss, -⟩ := ResrcStat.combine_eq_ok h
  rcases ResrcStat.ghostOp_eq_ok hhit with he | ⟨l', l, hs, hl', hl₀, hps, hsh⟩
  · exact .inl he
  rcases ResrcStat.ghostOp_eq_ok hmiss with he | ⟨m', m, ms, hm', hm₀, hms, hsm⟩
  · exact .inr (.inl he)
  -- both snapshots hold ghost lists, so both come from curves
  rcases hprev with hp | ⟨c₀, rfl, hne₀, hok₀, hh₀, hmm₀⟩
  · rw [hp] at hl₀; cases hl₀
  rcases hnew with hp | ⟨c₁, hc₁, hne₁, hok₁, hh₁, hmm₁⟩
  · rw [hp] at hl'; cases hl'
  cases hc₁
  rw [hh₀, Option.some_inj] at hl₀
  rw [hmm₀, Option.some_inj] at hm₀
  rw [hh₁, Option.some_inj] at hl'
  rw [hmm₁, Option.some_inj] at hm'
  subst hl₀ hm₀ hl' hm'
  have hlen := hl.length_le
  have hlh := length_of_zipWithPad (List.cons_ne_nil _ _) (List.cons_ne_nil _ _) hps
  have hlm := length_of_zipWithPad (List.cons_ne_nil _ _) (List.cons_ne_nil _ _) hms
  simp only [hits, List.length_cons, List.length_map] at hlh
  simp only [misses, List.length_cons, List.length_map] at hlm
  refine .inr (.inr ⟨hs, ms, hsh, hsm, ⟨?_, ?_, ?_, ?_⟩⟩)
  · exact List.length_pos_iff.mp (by omega)
  · omega
  · omega
  · have hext : ext hs = fun i => ext (hitList c') i - ext (hitList c₀) i :=
      funext (ext_zipWithPad (List.cons_ne_nil _ _) (List.cons_ne_nil _ _) hps)
    have mext : ext ms = fun i => ext (missList c') i - ext (missList c₀) i :=
      funext (ext_zipWithPad (List.cons_ne_nil _ _) (List.cons_ne_nil _ _) hms)
    rw [hext, mext]
    exact gainProfile_sub hok₀ hok₁ hne₀ hne₁ hl

/-- One poll keeps `PollInv`. -/
theorem PollInv.step {c : Option (List CurveEntry)} {t t' : Tenant F} {p : Poll F}
    (hinv : PollInv c t) (hp : PollOk p) (hl : LaterThan c p.curve)
    (h : t.step p = some (.ok t')) : PollInv (some p.curve) t' := by
  obtain ⟨r, hr, hk⟩ := Tenant.step_eq_ok h
  have hnew := prevOk_ofReply hp hr p.now
  have hold : ∀ e ∈ t.epochStatWindow, EpochOk p.curve.length e :=
    fun e he => (hinv.window e he).mono (bound_le hl)
  rcases hk with ⟨-, rfl⟩ | ⟨-, hpost⟩
  · exact ⟨hnew, hold, hinv.salt⟩
  · obtain ⟨t₁, sum, hmrc, hprev, hwin, hsalt⟩ := Tenant.pollPostSnapshot_eq_ok hpost
    obtain ⟨epoch, window, -, -, -, -, -, hep, hw, -, -, -, -, -, -, -, -, hprev₁, hwin₁, -, -, -,
      hsalt₁⟩ := Tenant.updateMrc_eq_ok hmrc
    refine ⟨by rw [hprev, hprev₁]; exact hnew, ?_, ?_⟩
    · rw [hwin, hwin₁]
      intro e he
      rcases List.mem_append.mp he with he | he
      · exact hold e (Tenant.dropOldest_subset hw e he)
      · rw [List.mem_singleton.mp he]
        exact epochOk_sub hinv.prev hnew hl hep
    · rw [hsalt, hsalt₁]
      exact hinv.salt

/-- A run of polls keeps `PollInv`. -/
theorem PollInv.run {c : Option (List CurveEntry)} {t t' : Tenant F} {ps : List (Poll F)}
    (hinv : PollInv c t) (hc : Contract c ps) (h : t.run ps = some (.ok t')) :
    PollInv (lastCurve c ps) t' := by
  induction ps generalizing c t with
  | nil =>
    cases h
    exact hinv
  | cons p ps ih =>
    obtain ⟨hp, hl, hc'⟩ := hc
    obtain ⟨t₁, h₁, h⟩ := Tenant.run_cons_eq_ok h
    exact ih (hinv.step hp hl h₁) hc' h

/-! ## The curve a poll builds -/

/-- What `MissRatioCurve` needs of the vectors it is built from. -/
structure VectorsSane (bytesStartup : Option ℤ) (ticks : List ℤ) (ratios : List F) : Prop where
  length_eq : ticks.length = ratios.length
  ticks_sorted : ticks.Pairwise (· ≤ ·)
  ticks_head : ticks.head? = bytesStartup
  ratios_head : ratios.head? = some 1
  ratios_mem : ∀ x ∈ ratios, 0 ≤ x ∧ x ≤ 1
  ratios_anti : ratios.Pairwise (· ≥ ·)

omit [Field F] [LinearOrder F] [IsStrictOrderedRing F] [FloorRing F] in
/-- The comprehension over `zip` of two lists of one length, read through
    their functions. -/
theorem zip_map_eq_range {hit miss : List ℤ} (hlen : hit.length = miss.length)
    (g : ℤ × ℤ → F) :
    (hit.zip miss).map g = (List.range hit.length).map fun i => g (ext hit i, ext miss i) := by
  apply List.ext_getElem (by simp [hlen])
  intro i h₁ h₂
  have hi : i < hit.length := by simpa using h₂
  rw [List.getElem_map, List.getElem_zip, List.getElem_map, List.getElem_range,
    ext_of_lt hi, ext_of_lt (hlen ▸ hi)]

omit [IsStrictOrderedRing F] [FloorRing F] in
/-- The first `n` values of a function that starts at 1, stays in `[0, 1]`
    and does not increase. -/
theorem range_map_ratios {f : ℕ → F} {n : ℕ} (hn : 0 < n) (h0 : f 0 = 1)
    (hmem : ∀ i, 0 ≤ f i ∧ f i ≤ 1) (hanti : Antitone f) :
    ((List.range n).map f).head? = some 1 ∧ (∀ x ∈ (List.range n).map f, 0 ≤ x ∧ x ≤ 1) ∧
      ((List.range n).map f).Pairwise (· ≥ ·) := by
  refine ⟨?_, ?_, ?_⟩
  · obtain ⟨k, rfl⟩ := Nat.exists_eq_add_of_lt hn
    rw [List.range_succ_eq_map]
    simp [h0]
  · intro x hx
    obtain ⟨i, -, rfl⟩ := List.mem_map.mp hx
    exact hmem i
  · rw [List.pairwise_map]
    exact List.pairwise_lt_range.imp fun hij => hanti hij.le

omit [Field F] [LinearOrder F] [IsStrictOrderedRing F] [FloorRing F] in
/-- pybind's conversion keeps sorted ticks of the range of `uint64_t` sorted. -/
theorem ofInt_sorted {ticks : List ℤ} (hs : ticks.Pairwise (· ≤ ·))
    (hr : ∀ t ∈ ticks, 0 ≤ t ∧ t < 2 ^ 64) : (ticks.map U64.ofInt).Pairwise (· ≤ ·) := by
  rw [List.pairwise_map]
  refine hs.imp_of_mem fun {a b} ha hb hab => ?_
  have ha' := U64.val_ofInt (hr a ha).1 (hr a ha).2
  have hb' := U64.val_ofInt (hr b hb).1 (hr b hb).2
  show (U64.ofInt a).val ≤ (U64.ofInt b).val
  omega

/-- The ticks of a reply whose `ghost.ticks` the tenant read. -/
theorem ticksOf_ok {q : Poll F} (hq : PollOk q) {r : StatsReply}
    (hr : hopperStats q.memStats q.curve q.counters = some (.ok r)) {ticks : List ℤ}
    (ht : Tenant.ticksOf r = some ticks) :
    TicksOk q.curve.length ticks ∧ ticks.head? = (calibrate q.memStats).map fun x => (x.1.val : ℤ) := by
  rcases hopperStats_ghost hq hr with hg | ⟨ts, hg, -, hts, hhead⟩
  · simp [Tenant.ticksOf, hg] at ht
  · simp only [Tenant.ticksOf, hg, Option.some.injEq] at ht
    subst ht
    exact ⟨hts, hhead⟩

omit [Field F] [LinearOrder F] [IsStrictOrderedRing F] [FloorRing F] in
theorem ext_zero_of_head? {l : List ℤ} {a : ℤ} (h : l.head? = some a) : ext l 0 = a := by
  cases l with
  | nil => cases h
  | cons b l =>
    simp only [List.head?_cons, Option.some.injEq] at h
    rw [ext_cons_zero, h]

/-- The curve that `updateMrc` builds from a tenant that `PollInv` describes,
    for a poll that meets the padded contract, is sane. -/
theorem updateMrc_sane {c : Option (List CurveEntry)} {t t' : Tenant F} {q : Poll F}
    {r : StatsReply} {sum : ResrcStat} (hinv : PollInv c t) (hq : PollOk q)
    (hl : LaterThan c q.curve) (hr : hopperStats q.memStats q.curve q.counters = some (.ok r))
    {now : Ieee ℚ} (h : t.updateMrc r now = .ok (t', sum)) :
    ∃ ticks ratios, ∃ m : MissRatioCurve F, t'.ghostTicks = some ticks ∧
      t'.ghostMissRatios = some ratios ∧
      VectorsSane ((calibrate q.memStats).map fun x => (x.1.val : ℤ)) ticks ratios ∧
      t'.mrc = some (m.ticks, m.missRatios) ∧ m.Sane ∧ m.checkSanity = .ok () := by
  obtain ⟨epoch, window, ticks, hit, miss, ratios, tickVals, hep, hw, hsum, hticks, hvalid, hh, hm,
    hratios, hlen, htv, -, -, hgt, hgr, hmrc, -⟩ := Tenant.updateMrc_eq_ok h
  -- the window, and with it its sum, has a gain profile
  have hwin : ∀ e ∈ window ++ [epoch], EpochOk q.curve.length e := by
    intro e he
    rcases List.mem_append.mp he with he | he
    · exact (hinv.window e (Tenant.dropOldest_subset hw e he)).mono (bound_le hl)
    · rw [List.mem_singleton.mp he]
      exact epochOk_sub hinv.prev (prevOk_ofReply hq hr now) hl hep
  have hsumOk : EpochOk q.curve.length sum := reduce_inv _ (fun _ _ _ => EpochOk.add) hwin hsum
  have p : ProfileOk q.curve.length hit miss := by
    rcases hsumOk with h' | h' | ⟨h₁, m₁, hh₁, hm₁, p⟩
    · rw [hh] at h'; cases h'
    · rw [hm] at h'; cases h'
    · rw [hh, Option.some_inj] at hh₁
      rw [hm, Option.some_inj] at hm₁
      subst hh₁ hm₁
      exact p
  -- `is_valid` makes the accesses of the window positive
  obtain ⟨hit', miss', h₀, m₀, hh', hm', hh₀, hm₀, hpos⟩ := ResrcStat.isValid_eq_ok_true hvalid
  rw [hh, Option.some_inj] at hh'
  rw [hm, Option.some_inj] at hm'
  subst hh' hm'
  have hacc : 0 < ext miss 0 := by
    have := p.gain.hit_zero
    rw [ext_zero_of_head? hh₀] at this
    rw [ext_zero_of_head? hm₀]
    omega
  -- the miss ratios, tick by tick
  have hratios' : ratios = (List.range hit.length).map (ratioAt t.mrcSalt (ext hit) (ext miss)) :=
    hratios.trans (zip_map_eq_range p.length_eq _)
  obtain ⟨rhead, rmem, ranti⟩ := range_map_ratios (List.length_pos_iff.mpr p.ne_nil)
    (p.gain.missRatio_zero hacc hinv.salt) (p.gain.missRatio_mem hacc hinv.salt)
    (p.gain.missRatio_anti hacc t.mrcSalt)
  rw [← hratios'] at rhead rmem ranti
  -- the ticks of the reply
  obtain ⟨hts, hhead⟩ := ticksOf_ok hq hr hticks
  have hrange : ∀ x ∈ ticks, 0 ≤ x ∧ x < 2 ^ 64 := fun x hx =>
    ⟨hts.nonneg x hx, lt_trans (hts.lt x hx) (by norm_num)⟩
  have htv' : tickVals = ticks.map U64.ofInt :=
    mapM_eq_ok_map (fun _ _ hu => (Tenant.toU64_eq_ok hu).1) htv
  have hne : tickVals ≠ [] := by
    rw [htv']
    simpa using List.ne_nil_of_length_eq_add_one hts.length_eq
  have hlen' : tickVals.length ≤ (ratios.map fin).length := by simp [htv', hlen]
  let m : MissRatioCurve F := MissRatioCurve.ofVectors tickVals (ratios.map fin) hne hlen'
  have hsane : m.Sane :=
    ⟨by simp [m, MissRatioCurve.ofVectors, htv', hlen],
      by simpa [m, MissRatioCurve.ofVectors, htv'] using ofInt_sorted hts.sorted hrange,
      ⟨ratios, rfl, rmem, ranti⟩⟩
  exact ⟨ticks, ratios, m, hgt, hgr, ⟨hlen, hts.sorted, hhead, rhead, rmem, ranti⟩, hmrc, hsane,
    hsane.checkSanity_eq_ok⟩

/-- The curve that `poll_post_snapshot` hands to the allocator, after any run
    of polls from a new tenant and under the padded contract, is sane: its
    ticks start at the calibrated `bytes_startup` and do not decrease, its
    miss ratios start at 1, lie in `[0, 1]` and do not increase, and the curve
    passes `check_sanity`. -/
theorem polled_curve_sane {salt : F} (hsalt : 0 ≤ salt) (smoothWindow : ℕ)
    {ps : List (Poll F)} (hps : Contract none ps) {t : Tenant F}
    (hrun : (Tenant.init salt smoothWindow).run ps = some (.ok t)) {q : Poll F} (hq : PollOk q)
    (hl : LaterThan (lastCurve none ps) q.curve) {r : StatsReply}
    (hr : hopperStats q.memStats q.curve q.counters = some (.ok r)) {t' : Tenant F}
    {sum : ResrcStat} {now : Ieee ℚ} (h : t.updateMrc r now = .ok (t', sum)) :
    ∃ ticks ratios, ∃ m : MissRatioCurve F, t'.ghostTicks = some ticks ∧
      t'.ghostMissRatios = some ratios ∧
      VectorsSane ((calibrate q.memStats).map fun x => (x.1.val : ℤ)) ticks ratios ∧
      t'.mrc = some (m.ticks, m.missRatios) ∧ m.Sane ∧ m.checkSanity = .ok () := by
  have hinv := (PollInv.init hsalt smoothWindow).run hps hrun
  exact updateMrc_sane hinv hq hl hr h

/-! ## Two polls of one key -/

/-- Memory statistics of a cache with one key. They take the fallback for an
    abnormal size per key: `bytes_per_key` is `avg_kv_size + 300 = 400` and
    `bytes_startup` is `4096 - 400 = 3696`. -/
def smallStats : MemStats ℚ := ⟨4096, 1, 1024, 0, 0, fin 100⟩

/-- The curve at the first poll: a cache of the one key, which missed 100 times. -/
def curveBefore : List CurveEntry := [⟨1, 100, 0, 100⟩]

/-- A later curve whose new entry, for two keys, agrees with the padded contract. -/
def curveGood : List CurveEntry := [⟨1, 100, 5, 105⟩, ⟨2, 200, 8, 102⟩]

/-- A later curve whose new entry has 60 hits where the first entry has none. -/
def curveAfter : List CurveEntry := [⟨1, 100, 0, 110⟩, ⟨2, 200, 60, 50⟩]

/-- The first poll. -/
def pollBefore : Poll ℚ :=
  ⟨.prev, smallStats, curveBefore, ⟨100, 0, 100, 100, 100, 0, 100, 0, 100⟩, fin 0⟩

/-- Its reply. -/
def replyBefore : StatsReply := ⟨.lists [3696, 4096] [0, 0] [100, 100], ⟨100, 0, 100, 100, 100, 0, 100, 0, 100⟩⟩

/-- The tenant after the first poll. -/
def tenantBefore : Tenant ℚ := (Tenant.init 0 1).pollPrevSnapshot replyBefore (fin 0)

theorem run_pollBefore : (Tenant.init (0 : ℚ) 1).run [pollBefore] = some (.ok tenantBefore) := by
  decide +kernel

theorem pollOk_pollBefore : PollOk pollBefore :=
  ⟨⟨by decide, by decide, by decide, by decide⟩, ⟨100, rfl, by norm_num⟩⟩

/-- The second poll when the curve has become `curveGood`, a second later. -/
def pollGood : Poll ℚ :=
  ⟨.post, smallStats, curveGood, ⟨110, 0, 110, 110, 110, 0, 110, 0, 110⟩, fin 1⟩

/-- Its reply. -/
def replyGood : StatsReply :=
  ⟨.lists [3696, 4096, 4496] [0, 5, 8] [110, 105, 102], ⟨110, 0, 110, 110, 110, 0, 110, 0, 110⟩⟩

/-- The window's sum over one second: of 10 accesses, 5 hits for one key and
    8 for two. -/
def sumGood : ResrcStat :=
  ⟨none, some (fin 1), some [0, 5, 8], some [10, 5, 2], 10, 0, 10, 10, 10, 0, 10, 0, 10⟩

/-- The tenant once the curve is built. -/
def tenantGood : Tenant ℚ :=
  { tenantBefore with
    prevSnapshot := .ofReply replyGood (fin 1)
    epochStatWindow := [sumGood]
    ghostTicks := some [3696, 4096, 4496]
    ghostMissRatios := some [1, 1 / 2, 1 / 5]
    mrc := some ([3696, 4096, 4496], [fin 1, fin (1 / 2), fin (1 / 5)]) }

theorem polled_curve_sane_twoPolls :
    Contract none [pollBefore] ∧ PollOk pollGood ∧ PaddedLater curveBefore curveGood ∧
      ∃ ticks ratios, ∃ m : MissRatioCurve ℚ, tenantGood.ghostTicks = some ticks ∧
        tenantGood.ghostMissRatios = some ratios ∧
        VectorsSane ((calibrate smallStats).map fun x => (x.1.val : ℤ)) ticks ratios ∧
        tenantGood.mrc = some (m.ticks, m.missRatios) ∧ m.Sane ∧ m.checkSanity = .ok () := by
  have hps : Contract none [pollBefore] := ⟨pollOk_pollBefore, trivial, trivial⟩
  have hq : PollOk pollGood := ⟨⟨by decide, by decide, by decide, by decide⟩, ⟨100, rfl, by norm_num⟩⟩
  have hl : PaddedLater curveBefore curveGood :=
    PaddedLater.of_lt (by decide) (by decide) (by decide +kernel) (by decide +kernel)
      (by decide +kernel)
  have hr : hopperStats pollGood.memStats pollGood.curve pollGood.counters =
      some (.ok replyGood) := by decide +kernel
  have h : tenantBefore.updateMrc replyGood (fin 1) = .ok (tenantGood, sumGood) := by decide +kernel
  exact ⟨hps, hq, hl, polled_curve_sane le_rfl 1 hps run_pollBefore hq hl hr h⟩

/-- The second poll when the curve has become `curveAfter`, a second later. -/
def pollAfter : Poll ℚ :=
  ⟨.post, smallStats, curveAfter, ⟨110, 0, 110, 110, 110, 0, 110, 0, 110⟩, fin 1⟩

/-- Its reply. -/
def replyAfter : StatsReply :=
  ⟨.lists [3696, 4096, 4496] [0, 0, 60] [110, 110, 50], ⟨110, 0, 110, 110, 110, 0, 110, 0, 110⟩⟩

/-- The window's sum: the second tick, padded from the first poll's last
    entry, lost 50 misses. -/
def sumAfter : ResrcStat :=
  ⟨none, some (fin 1), some [0, 0, 60], some [10, 10, -50], 10, 0, 10, 10, 10, 0, 10, 0, 10⟩

/-- The tenant once the curve is built. -/
def tenantAfter : Tenant ℚ :=
  { tenantBefore with
    prevSnapshot := .ofReply replyAfter (fin 1)
    epochStatWindow := [sumAfter]
    ghostTicks := some [3696, 4096, 4496]
    ghostMissRatios := some [1, 1, -5]
    mrc := some ([3696, 4096, 4496], [fin 1, fin 1, fin (-5)]) }

/-- The curve that the second poll hands over. -/
def curveNegative : MissRatioCurve ℚ :=
  MissRatioCurve.ofVectors [3696, 4096, 4496] [fin 1, fin 1, fin (-5)] (by simp) (by simp)

theorem literal_contract_negative_ratio :
    PollOk pollBefore ∧ PollOk pollAfter ∧ Later curveBefore curveAfter ∧
      ¬ PaddedLater curveBefore curveAfter ∧
      (Tenant.init (0 : ℚ) 1).run [pollBefore] = some (.ok tenantBefore) ∧
      hopperStats pollAfter.memStats pollAfter.curve pollAfter.counters = some (.ok replyAfter) ∧
      tenantBefore.updateMrc replyAfter (fin 1) = .ok (tenantAfter, sumAfter) ∧
      tenantAfter.mrc = some (curveNegative.ticks, curveNegative.missRatios) ∧
      curveNegative.checkSanity = .error "miss_ratio is out of range" := by
  refine ⟨pollOk_pollBefore, ⟨⟨by decide, by decide, by decide, by decide⟩, ⟨100, rfl, by norm_num⟩⟩,
    ⟨by decide, by decide, by decide, by decide⟩, fun hl => ?_, run_pollBefore, by decide +kernel,
    by decide +kernel, rfl, by decide +kernel⟩
  -- padded from the first curve, the second tick lost misses
  have := hl.miss_le 1
  revert this
  decide +kernel

end Controller
