-- SUMMARY: What the controller derives from the server's statistics (stats.cpp, tenant.py): along every run of requests on the server and polls of the controller, while no counter reaches 2^63, every epoch and every window sum counts an ordered tally of requests, so every demand per request is non-negative and every net_bw_alpha is in [0, 1].
import HopperKV.Module.Stats
import HopperKV.Control.Window

/-!
# The demand of a tenant

`poll_post_snapshot` divides the window's `db_rcu_consump_if_miss`,
`db_wcu_consump` and `net_bw_consump_if_miss` by its `req_cnt`, and sets
`net_bw_alpha` to one minus `net_bw_consump_if_hit / net_bw_consump_if_miss`.
The allocator's formulas need a demand that is not negative and an alpha in
`[0, 1]`. Both hold when the window's counters are those of an ordered tally
of requests (`ResrcStat.Admissible`, `Tenant.updateDemand_demandOk`).

The counters come from the server. Requests complete on the server between
the controller's polls, and each poll reads the counters as they are then
(`System.step`). A snapshot's counters are the tally of the requests so far
as long as no counter has reached `2 ^ 63`: below it the `uint64_t` counters
neither wrap nor turn negative as `long long`. An epoch is then the tally of
the requests between two snapshots, which is ordered, and so is a sum of
epochs, whether or not prev polls come in between (`System.Inv.run`).
-/

namespace Controller

open Hopper Hopper.Stats Ieee Hare

/-! ## Admissible counters -/

/-- A snapshot whose counters are those of an ordered tally of requests. -/
def ResrcStat.Admissible (s : ResrcStat) : Prop :=
  ∃ (a : Tally) (n : ℕ), a.Ordered n ∧ s.counters = a.toCounters

theorem zipCounters_add_toCounters (a b : Tally) :
    zipCounters (· + ·) a.toCounters b.toCounters = (a.add b).toCounters := by
  simp only [zipCounters, Tally.toCounters, Tally.add, Nat.cast_add]

theorem zipCounters_sub_toCounters (a d : Tally) :
    zipCounters (· - ·) (a.add d).toCounters a.toCounters = d.toCounters := by
  simp only [zipCounters, Tally.toCounters, Tally.add, Nat.cast_add, add_sub_cancel_left]

namespace ResrcStat

/-- The counters of a combination that returned. -/
theorem counters_of_combine {op : ℤ → ℤ → ℤ} {d : Option (Ieee ℚ)} {a b s : ResrcStat}
    (h : combine op d a b = .ok s) : s.counters = zipCounters op a.counters b.counters := by
  simp only [combine, bind, Except.bind] at h
  split at h
  · cases h
  · split at h
    · cases h
    · cases h
      rfl

theorem counters_ofReply (r : StatsReply) (now : Ieee ℚ) : (ofReply r now).counters = r.counters :=
  rfl

/-- A sum of admissible epochs is admissible. -/
theorem Admissible.add {a b c : ResrcStat} (ha : a.Admissible) (hb : b.Admissible)
    (h : a.add b = .ok c) : c.Admissible := by
  obtain ⟨x, n, hx, hxa⟩ := ha
  obtain ⟨y, m, hy, hyb⟩ := hb
  refine ⟨x.add y, n + m, hx.add hy, ?_⟩
  rw [counters_of_combine h, hxa, hyb, zipCounters_add_toCounters]

/-- The epoch between two snapshots whose tallies differ by an ordered tally
    is admissible. -/
theorem admissible_sub {s₀ s e : ResrcStat} {a d : Tally} {n : ℕ} (h₀ : s₀.counters = a.toCounters)
    (hs : s.counters = (a.add d).toCounters) (hd : d.Ordered n) (h : s.sub s₀ = .ok e) :
    e.Admissible :=
  ⟨d, n, hd, by rw [counters_of_combine h, hs, h₀, zipCounters_sub_toCounters]⟩

end ResrcStat

/-! ## The demand -/

namespace Tenant

variable {F : Type} [Field F] [LinearOrder F]

/-- What the allocator's formulas need of a tenant's demand. -/
structure DemandOk (t : Tenant F) : Prop where
  demand : ∀ d, t.demandIfMiss = some d →
    ∃ x y z : F, d = ⟨fin x, fin y, fin z⟩ ∧ 0 ≤ x ∧ 0 ≤ y ∧ 0 ≤ z
  alpha : ∀ α, t.netBwAlpha = some α → 0 ≤ α ∧ α ≤ 1

theorem DemandOk.congr {t t' : Tenant F} (h : t.DemandOk) (hd : t'.demandIfMiss = t.demandIfMiss)
    (ha : t'.netBwAlpha = t.netBwAlpha) : t'.DemandOk :=
  ⟨hd ▸ h.demand, ha ▸ h.alpha⟩

omit [LinearOrder F] in
theorem pyDiv_eq_ok {a b : ℤ} {x : F} (h : pyDiv a b = .ok x) : b ≠ 0 ∧ x = (a : F) / (b : F) := by
  unfold pyDiv at h
  split at h
  · cases h
  · cases h
    exact ⟨‹_›, rfl⟩

variable [IsStrictOrderedRing F]

/-- The quotient of two counters of a tally is not negative. -/
theorem div_toCounters_nonneg (m n : ℕ) : 0 ≤ ((m : ℤ) : F) / ((n : ℤ) : F) := by
  rw [Int.cast_natCast, Int.cast_natCast]
  exact div_nonneg (Nat.cast_nonneg m) (Nat.cast_nonneg n)

/-- From an admissible window sum, `poll_post_snapshot` derives a demand that
    is not negative and an alpha in `[0, 1]`. -/
theorem updateDemand_demandOk {t t' : Tenant F} {sum : ResrcStat} (hs : sum.Admissible)
    (h : t.updateDemand sum = .ok t') : t'.DemandOk := by
  obtain ⟨a, n, ho, hc⟩ := hs
  simp only [ResrcStat.counters, Tally.toCounters, ResrcCounters.mk.injEq] at hc
  obtain ⟨hreq, -, -, hrcu, hnet, hhit, -, hwcu, -⟩ := hc
  simp only [updateDemand] at h
  obtain ⟨rcu, hrcu', h⟩ := bind_eq_ok.mp h
  obtain ⟨wcu, hwcu', h⟩ := bind_eq_ok.mp h
  obtain ⟨net, hnet', h⟩ := bind_eq_ok.mp h
  obtain ⟨ratio, hratio, h⟩ := bind_eq_ok.mp h
  cases h
  obtain ⟨-, rfl⟩ := pyDiv_eq_ok hrcu'
  obtain ⟨-, rfl⟩ := pyDiv_eq_ok hwcu'
  obtain ⟨-, rfl⟩ := pyDiv_eq_ok hnet'
  obtain ⟨hmiss, rfl⟩ := pyDiv_eq_ok hratio
  rw [hreq, hrcu, hwcu, hnet, hhit] at *
  refine ⟨fun d hd => ⟨_, _, _, (Option.some_inj.mp hd).symm, div_toCounters_nonneg _ _,
    div_toCounters_nonneg _ _, div_toCounters_nonneg _ _⟩, fun α hα => ?_⟩
  cases Option.some_inj.mp hα
  -- the bytes of hits are at most the bytes of misses, which are not zero
  have hle : (a.netBwConsumpIfHit : F) ≤ a.netBwConsumpIfMiss :=
    Nat.cast_le.mpr (ho.netHit.trans ho.netMiss)
  have hpos : (0 : F) < a.netBwConsumpIfMiss :=
    Nat.cast_pos.mpr (Nat.pos_of_ne_zero fun h0 => hmiss (by rw [h0]; rfl))
  have hratio_le : ((a.netBwConsumpIfHit : ℤ) : F) / ((a.netBwConsumpIfMiss : ℤ) : F) ≤ 1 := by
    rw [Int.cast_natCast, Int.cast_natCast]
    exact div_le_one_of_le₀ hle hpos.le
  exact ⟨sub_nonneg.mpr hratio_le, sub_le_self _ (div_toCounters_nonneg _ _)⟩

end Tenant

/-! ## The server and the controller -/

/-- Requests that complete on the server, then a poll of the controller, with
    what `MEMORY STATS` reports, the curve of the ghost cache and the clock's
    reading. -/
structure Round (F : Type) where
  records : List Record
  kind : PollKind
  memStats : MemStats F
  curve : List CurveEntry
  now : Ieee ℚ

/-- The server's statistics and the controller's tenant. -/
structure System (F : Type) where
  stats : ResrcStats F
  tenant : Tenant F
  deriving DecidableEq

section System

variable {F : Type} [Field F] [LinearOrder F]

/-- The poll of a round: `collect_mem_stats` takes `avg_kv_size` from the
    statistics, and the reply carries their counters. -/
def Round.poll (r : Round F) (stats : ResrcStats F) : Poll F :=
  ⟨r.kind, { r.memStats with avgKvSize := stats.avgKvSize }, r.curve, replyCounters stats, r.now⟩

/-- The requests of all the rounds. -/
def Round.allRecords (rs : List (Round F)) : List Record := rs.flatMap Round.records

/-- A server that has served nothing and a tenant as `Tenant.__init__` leaves it. -/
def System.init (mrcSalt : F) (smoothWindow : ℕ) : System F :=
  ⟨.init, Tenant.init mrcSalt smoothWindow⟩

variable [FloorRing F]

/-- One round: the server records the requests, then the controller polls. -/
def System.step (cfg : Config) (σ : System F) (r : Round F) : Option (Except String (System F)) :=
  let stats := runRecords cfg r.records σ.stats
  (σ.tenant.step (r.poll stats)).map fun e => e.map fun t => ⟨stats, t⟩

/-- Rounds up to the first exception. -/
def System.run (cfg : Config) (σ : System F) : List (Round F) → Option (Except String (System F))
  | [] => some (.ok σ)
  | r :: rs =>
    match σ.step cfg r with
    | some (.ok σ') => σ'.run cfg rs
    | e => e

/-- A run that returned: its first round returned, and so did the rest. -/
theorem System.run_cons_eq_ok {cfg : Config} {σ σ' : System F} {r : Round F} {rs : List (Round F)}
    (h : σ.run cfg (r :: rs) = some (.ok σ')) :
    ∃ σ₁, σ.step cfg r = some (.ok σ₁) ∧ σ₁.run cfg rs = some (.ok σ') := by
  simp only [System.run] at h
  split at h
  · rename_i σ₁ h₁
    exact ⟨σ₁, h₁, h⟩
  · rename_i hne
    exact absurd h (hne σ')

/-- `HOPPER.STATS` replies with the counters it is given. -/
theorem hopperStats_counters {ms : MemStats F} {curve : List CurveEntry} {counters : ResrcCounters}
    {r : StatsReply} (h : hopperStats ms curve counters = some (.ok r)) : r.counters = counters := by
  unfold hopperStats at h
  split at h
  · cases h
  · obtain ⟨g, -, hg⟩ := Option.map_eq_some_iff.mp h
    cases hg
    rfl

/-! ## The invariant -/

/-- What holds of the server and the tenant after requests that tally `a`:
    the counters wrap the tally, the stored snapshot holds an earlier tally
    that the requests since then extend by an ordered one, and every epoch
    in the window is admissible, and so is the demand. -/
structure System.Inv (σ : System F) (a : Tally) : Prop where
  vals : σ.stats.vals = a.wrap
  ordered : ∃ n, a.Ordered n
  prev : ∃ (a₀ d : Tally) (n : ℕ), a = a₀.add d ∧ d.Ordered n ∧ σ.tenant.prevSnapshot.counters = a₀.toCounters
  window : ∀ e ∈ σ.tenant.epochStatWindow, e.Admissible
  demand : σ.tenant.DemandOk

omit [FloorRing F] in
theorem System.Inv.init (mrcSalt : F) (smoothWindow : ℕ) :
    (System.init mrcSalt smoothWindow).Inv .zero :=
  ⟨vals_init, ⟨0, Tally.zero_ordered⟩, ⟨.zero, .zero, 0, rfl, Tally.zero_ordered, rfl⟩,
    fun _ he => absurd he List.not_mem_nil, ⟨fun _ h => (nomatch h), fun _ h => (nomatch h)⟩⟩

variable [IsStrictOrderedRing F]

/-- The step: a round keeps the invariant, with the requests of the round
    added to the tally, while the tally stays below `2 ^ 63`. -/
theorem System.Inv.step {cfg : Config} {σ σ' : System F} {r : Round F} {a : Tally} (hinv : σ.Inv a)
    (hfit : (Tally.run cfg r.records a).Fits (2 ^ 63)) (h : σ.step cfg r = some (.ok σ')) :
    σ'.Inv (Tally.run cfg r.records a) := by
  have hvals : (runRecords cfg r.records σ.stats).vals = (Tally.run cfg r.records a).wrap :=
    vals_runRecords cfg _ _ _ hinv.vals
  obtain ⟨n, ho⟩ := hinv.ordered
  have ho' := ho.run cfg r.records
  obtain ⟨e, he, hσ⟩ := Option.map_eq_some_iff.mp h
  cases e with
  | error => cases hσ
  | ok t' =>
  cases hσ
  obtain ⟨rep, hrep, hcase⟩ := Tenant.step_eq_ok he
  -- the reply carries the tally of every request so far
  have hcounters : (ResrcStat.ofReply rep r.now).counters = (Tally.run cfg r.records a).toCounters := by
    rw [ResrcStat.counters_ofReply, hopperStats_counters hrep]
    exact replyCounters_eq hvals ho' hfit
  have hprev : ∃ (a₀ d : Tally) (n : ℕ), Tally.run cfg r.records a = a₀.add d ∧ d.Ordered n ∧
      (ResrcStat.ofReply rep r.now).counters = a₀.toCounters :=
    ⟨_, .zero, 0, (Tally.add_zero _).symm, Tally.zero_ordered, hcounters⟩
  rcases hcase with ⟨-, rfl⟩ | ⟨-, hpost⟩
  case inl =>
    -- a prev poll stores the snapshot and keeps the window
    exact ⟨hvals, ⟨_, ho'⟩, hprev, hinv.window, hinv.demand.congr rfl rfl⟩
  case inr =>
    simp only [Tenant.pollPostSnapshot] at hpost
    obtain ⟨⟨t₁, sum⟩, hmrc, hdemand⟩ := bind_eq_ok.mp hpost
    obtain ⟨epoch, window, -, -, -, -, -, hep, hdrop, hsum, -, -, -, -, -, -, -, hprev₁, hwin₁, -⟩ :=
      Tenant.updateMrc_eq_ok hmrc
    obtain ⟨hprev', hwin', -⟩ := Tenant.updateDemand_eq_ok hdemand
    -- the epoch is the tally of the requests since the stored snapshot
    obtain ⟨a₀, d, m, hsplit, hd, h₀⟩ := hinv.prev
    have hrun : Tally.run cfg r.records a = a₀.add (d.add (Tally.run cfg r.records .zero)) := by
      rw [Tally.run_eq_add, hsplit, Tally.add_assoc]
    have hepoch : epoch.Admissible :=
      ResrcStat.admissible_sub h₀ (hrun ▸ hcounters) (hd.add (Tally.zero_ordered.run cfg r.records)) hep
    have hwindow : ∀ e ∈ window ++ [epoch], e.Admissible := by
      intro e he
      rcases List.mem_append.mp he with he | he
      · exact hinv.window e (Tenant.dropOldest_subset hdrop e he)
      · rw [List.mem_singleton.mp he]
        exact hepoch
    have hsumOk : sum.Admissible :=
      reduce_inv ResrcStat.Admissible (fun _ _ _ ha hb h => ha.add hb h) hwindow hsum
    refine ⟨hvals, ⟨_, ho'⟩, ?_, ?_, Tenant.updateDemand_demandOk hsumOk hdemand⟩
    · rw [hprev', hprev₁]
      exact hprev
    · rw [hwin', hwin₁]
      exact hwindow

/-- The run: every run of rounds keeps the invariant while the tally of all
    its requests stays below `2 ^ 63`. -/
theorem System.Inv.run (cfg : Config) :
    ∀ (rounds : List (Round F)) {σ σ' : System F} {a : Tally}, σ.Inv a →
      (Tally.run cfg (Round.allRecords rounds) a).Fits (2 ^ 63) → σ.run cfg rounds = some (.ok σ') →
      σ'.Inv (Tally.run cfg (Round.allRecords rounds) a)
  | [], σ, σ', a, hinv, _, h => by
    cases h
    exact hinv
  | r :: rs, σ, σ', a, hinv, hfit, h => by
    obtain ⟨σ₁, h₁, hrest⟩ := System.run_cons_eq_ok h
    -- the requests of the first round come first in the tally
    have hsplit : Tally.run cfg (Round.allRecords (r :: rs)) a =
        Tally.run cfg (Round.allRecords rs) (Tally.run cfg r.records a) := by
      simp only [Round.allRecords, List.flatMap_cons, Tally.run, List.foldl_append]
    rw [hsplit] at hfit ⊢
    have hfit₁ : (Tally.run cfg r.records a).Fits (2 ^ 63) := by
      rw [Tally.run_eq_add cfg (Round.allRecords rs)] at hfit
      exact hfit.of_add
    exact System.Inv.run cfg rs (hinv.step hfit₁ h₁) hfit hrest

/-! ## The demand of every run -/

/-- While nothing has wrapped, every sequence of requests leaves the counters
    in the order the allocator needs; and along every run of the server and
    the controller in which no counter reaches `2 ^ 63`, whatever the window
    and wherever the prev polls fall, every demand per request that
    `poll_post_snapshot` derives is not negative and every `net_bw_alpha` is
    in `[0, 1]`. -/
theorem demand_admissible :
    (∀ (cfg : Config) (rs : List Record),
      (Tally.run cfg rs .zero).reqCnt < 2 ^ 64 → (Tally.run cfg rs .zero).dbRcuConsumpIfMiss < 2 ^ 64 →
      (Tally.run cfg rs .zero).netBwConsumpIfMiss < 2 ^ 64 →
      let s : ResrcStats F := runRecords cfg rs .init
      s.dbRcuConsump.val ≤ s.dbRcuConsumpIfMiss.val ∧ s.netBwConsump.val ≤ s.netBwConsumpIfMiss.val ∧
        s.netBwConsumpIfHit.val ≤ s.netBwConsump.val ∧
        s.reqCnt.val = s.hitCnt.val + s.missCnt.val + rs.countP Record.isSetDone) ∧
    (∀ (cfg : Config) (mrcSalt : F) (smoothWindow : ℕ) (rounds : List (Round F)) (σ : System F),
      (Tally.run cfg (Round.allRecords rounds) .zero).Fits (2 ^ 63) →
      (System.init mrcSalt smoothWindow).run cfg rounds = some (.ok σ) → σ.tenant.DemandOk) :=
  ⟨fun cfg rs hreq hrcu hnet => counters_ordered cfg rs ⟨hreq, hrcu, hnet⟩,
    fun cfg mrcSalt smoothWindow rounds _ hfit hrun =>
      ((System.Inv.init mrcSalt smoothWindow).run cfg rounds hfit hrun).demand⟩

end System

/-- A miss before a prev poll, then a hit and a miss before a post poll a
    second later, on items of 100 bytes. -/
def demandRounds : List (Round ℚ) :=
  [⟨[.getDone 4 96 true], .prev, smallStats, curveBefore, fin 0⟩,
    ⟨[.getDone 4 96 false, .getDone 4 96 true], .post, smallStats, curveGood, fin 1⟩]

/-- The requests of the two rounds. -/
def demandRecords : List Record := [.getDone 4 96 true, .getDone 4 96 false, .getDone 4 96 true]

/-- What the two rounds leave: the demand of the epoch of a hit and a miss,
    and an alpha of one half. -/
def demandSystem : System ℚ :=
  ⟨⟨3, 1, 2, 3, 600, 300, 2, 0, 500, fin 100⟩,
    ⟨.ofReply ⟨.lists [3696, 4096, 4496] [0, 5, 8] [110, 105, 102], ⟨3, 1, 2, 3, 600, 300, 2, 0, 500⟩⟩
        (fin 1),
      [⟨none, some (fin 1), some [0, 5, 8], some [10, 5, 2], 2, 1, 1, 2, 400, 200, 1, 0, 300⟩],
      some ([3696, 4096, 4496], [fin 1, fin (1 / 2), fin (1 / 5)]), some [3696, 4096, 4496],
      some [1, 1 / 2, 1 / 5], some ⟨fin 1, fin 0, fin 200⟩, some (1 / 2), 0, 1⟩⟩

theorem demand_admissible_twoRounds :
    (Tally.run Config.default demandRecords .zero).reqCnt < 2 ^ 64 ∧
      (let s : ResrcStats ℚ := runRecords Config.default demandRecords .init;
        s.dbRcuConsump.val ≤ s.dbRcuConsumpIfMiss.val ∧ s.netBwConsump.val ≤ s.netBwConsumpIfMiss.val ∧
          s.netBwConsumpIfHit.val ≤ s.netBwConsump.val ∧
          s.reqCnt.val = s.hitCnt.val + s.missCnt.val + demandRecords.countP Record.isSetDone) ∧
      (Tally.run Config.default (Round.allRecords demandRounds) .zero).Fits (2 ^ 63) ∧
      (System.init (0 : ℚ) 1).run Config.default demandRounds = some (.ok demandSystem) ∧
      demandSystem.tenant.DemandOk := by
  have hfit : (Tally.run Config.default (Round.allRecords demandRounds) .zero).Fits (2 ^ 63) :=
    ⟨by decide, by decide, by decide, by decide⟩
  have hrun : (System.init (0 : ℚ) 1).run Config.default demandRounds = some (.ok demandSystem) := by
    decide +kernel
  exact ⟨by decide, (demand_admissible (F := ℚ)).1 Config.default demandRecords (by decide)
    (by decide) (by decide), hfit, hrun, (demand_admissible (F := ℚ)).2 _ _ _ _ _ hfit hrun⟩

end Controller
