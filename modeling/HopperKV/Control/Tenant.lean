-- SUMMARY: The controller's polling of one tenant (tenant.py): poll, poll_prev_snapshot and poll_post_snapshot, which turn consecutive HOPPER.STATS replies and clock readings into epoch statistics, a smoothing window, the miss ratios and the MissRatioCurve handed to the allocator, and a run of polls.
import HopperKV.Control.ResrcStat
import HopperKV.Engine.Resrc

/-!
# Polling a tenant

`poll_prev_snapshot` stores a snapshot of the tenant's statistics.
`poll_post_snapshot` takes a new snapshot and subtracts the stored one,
which gives the epoch between them. It keeps the last `smooth_window` epochs
and sums them. From the sum it computes one miss ratio per tick,
`min(mc / (hc + mc) + mrc_salt, 1)`, builds the `MissRatioCurve` of the
ticks of the new reply and those ratios, and then computes the demand per
request and `net_bw_alpha`.

`poll_post_snapshot` is split at the construction of the curve.
`updateMrc` is everything up to and including `self.mrc = MissRatioCurve(...)`,
and `updateDemand` is the rest. A curve is handed over even when the rest
raises.

The miss ratios and the demand are values of `F`, computed without
rounding; the timestamps are binary64 `float`s (`ResrcStat`). The curve holds
the vectors that the C++ constructor copies. pybind converts the ticks to
`uint64_t` and raises `TypeError` on a value out of range. A poll's reply is
computed by `hopperStats` from what Redis holds (`Poll`). `Tenant.run` runs a
list of polls and ends at the first exception, which the controller does not
catch.
-/

namespace Controller

open Hopper Ieee Hare

/-- `AssertionError`. -/
def assertionError : String := "AssertionError"

/-- `ZeroDivisionError` of `/`. -/
def zeroDivisionError : String := "ZeroDivisionError: division by zero"

/-- `TypeError` of a call with arguments that pybind cannot convert, or of
    `zip(None, ...)`. -/
def typeError : String := "TypeError"

/-- `IndexError` of `deque.popleft` on an empty deque. -/
def popError : String := "IndexError: pop from an empty deque"

variable {F : Type} [Field F] [LinearOrder F]

/-- The fields of `Tenant` that polling reads or writes. -/
structure Tenant (F : Type) where
  prevSnapshot : ResrcStat
  epochStatWindow : List ResrcStat
  mrc : Option (List U64 × List (Ieee F))
  ghostTicks : Option (List ℤ)
  ghostMissRatios : Option (List F)
  demandIfMiss : Option (StatelessResrcVec F)
  netBwAlpha : Option F
  mrcSalt : F
  smoothWindow : ℕ
  deriving DecidableEq

namespace Tenant

/-- A tenant as `Tenant.__init__` leaves it. -/
def init (mrcSalt : F) (smoothWindow : ℕ) : Tenant F :=
  ⟨.empty, [], none, none, none, none, none, mrcSalt, smoothWindow⟩

/-- The `ghost.ticks` of a reply. -/
def ticksOf (r : StatsReply) : Option (List ℤ) :=
  match r.ghost with
  | .null => none
  | .lists ticks _ _ => some ticks

/-- `Tenant.poll`: set `ghost_ticks` and return the snapshot of the reply,
    taken at `now`. -/
def poll (t : Tenant F) (r : StatsReply) (now : Ieee ℚ) : Tenant F × ResrcStat :=
  ({ t with ghostTicks := ticksOf r }, .ofReply r now)

/-- `Tenant.poll_prev_snapshot`. -/
def pollPrevSnapshot (t : Tenant F) (r : StatsReply) (now : Ieee ℚ) : Tenant F :=
  let (t, s) := t.poll r now
  { t with prevSnapshot := s }

/-- `deque.popleft`, keeping the rest. -/
def popleft (w : List ResrcStat) : Except String (List ResrcStat) :=
  match w with
  | [] => .error popError
  | _ :: w => .ok w

/-- The window after `if len(window) >= smooth_window: window.popleft()`. -/
def dropOldest (smoothWindow : ℕ) (w : List ResrcStat) : Except String (List ResrcStat) :=
  if smoothWindow ≤ w.length then popleft w else .ok w

/-- `assert cond`. -/
def pyAssert (cond : Bool) : Except String Unit :=
  if cond then .ok () else .error assertionError

/-- `assert x is not None`, giving `x`. -/
def assertSome {α : Type} : Option α → Except String α
  | some a => .ok a
  | none => .error assertionError

/-- The two ghost lists that `zip` reads; `zip(None, ...)` raises. -/
def ghostLists (s : ResrcStat) : Except String (List ℤ × List ℤ) :=
  match s.ghostHitCnt, s.ghostMissCnt with
  | some hit, some miss => .ok (hit, miss)
  | _, _ => .error typeError

/-- `min(mc / (hc + mc) + self.mrc_salt, 1)`. -/
def missRatio (mrcSalt : F) (hc mc : ℤ) : Except String F :=
  if hc + mc = 0 then .error zeroDivisionError
  else .ok (min ((mc : F) / ((hc + mc : ℤ) : F) + mrcSalt) 1)

/-- pybind's conversion of a Python `int` to `uint64_t`. -/
def toU64 (n : ℤ) : Except String U64 :=
  if 0 ≤ n ∧ n < 2 ^ 64 then .ok (U64.ofInt n) else .error typeError

/-- The part of `poll_post_snapshot` up to and including
    `self.mrc = MissRatioCurve(self.ghost_ticks, self.ghost_miss_ratios)`;
    it also returns the window's sum. -/
def updateMrc (t : Tenant F) (r : StatsReply) (now : Ieee ℚ) :
    Except String (Tenant F × ResrcStat) := do
  let (t, curr) := t.poll r now
  let epoch ← curr.sub t.prevSnapshot
  let t := { t with prevSnapshot := curr }
  let window ← dropOldest t.smoothWindow t.epochStatWindow
  let t := { t with epochStatWindow := window ++ [epoch] }
  let sum ← reduce ResrcStat.add t.epochStatWindow
  let ticks ← assertSome t.ghostTicks
  let valid ← sum.isValid
  pyAssert valid
  let (hit, miss) ← ghostLists sum
  let ratios ← (hit.zip miss).mapM fun p => missRatio t.mrcSalt p.1 p.2
  let t := { t with ghostMissRatios := some ratios }
  pyAssert (ticks.length == ratios.length)
  let ticks ← ticks.mapM toU64
  pure ({ t with mrc := some (ticks, ratios.map fin) }, sum)

/-- Python's `/` on two `int`s. -/
def pyDiv (a b : ℤ) : Except String F :=
  if b = 0 then .error zeroDivisionError else .ok ((a : F) / (b : F))

/-- The rest of `poll_post_snapshot`: the demand per request and
    `net_bw_alpha` from the window's sum. -/
def updateDemand (t : Tenant F) (sum : ResrcStat) : Except String (Tenant F) := do
  let rcu ← pyDiv sum.dbRcuConsumpIfMiss sum.reqCnt
  let wcu ← pyDiv sum.dbWcuConsump sum.reqCnt
  let net ← pyDiv sum.netBwConsumpIfMiss sum.reqCnt
  let t := { t with demandIfMiss := some ⟨fin rcu, fin wcu, fin net⟩ }
  let ratio ← pyDiv sum.netBwConsumpIfHit sum.netBwConsumpIfMiss
  pure { t with netBwAlpha := some (1 - ratio) }

/-- `Tenant.poll_post_snapshot`. -/
def pollPostSnapshot (t : Tenant F) (r : StatsReply) (now : Ieee ℚ) : Except String (Tenant F) := do
  let (t, sum) ← t.updateMrc r now
  t.updateDemand sum

end Tenant

/-! ## What a call that returned did -/

namespace Tenant

omit [Field F] [LinearOrder F] in
theorem pyAssert_eq_ok {c : Bool} {u : Unit} (h : pyAssert c = .ok u) : c = true := by
  unfold pyAssert at h
  split at h
  · assumption
  · cases h

theorem assertSome_eq_ok {α : Type} {o : Option α} {a : α} (h : assertSome o = .ok a) :
    o = some a := by
  cases o with
  | none => cases h
  | some b => cases h; rfl

theorem ghostLists_eq_ok {s : ResrcStat} {hit miss : List ℤ} (h : ghostLists s = .ok (hit, miss)) :
    s.ghostHitCnt = some hit ∧ s.ghostMissCnt = some miss := by
  unfold ghostLists at h
  split at h
  · cases h
    exact ⟨‹_›, ‹_›⟩
  · cases h

theorem missRatio_eq_ok {salt x : F} {hc mc : ℤ} (h : missRatio salt hc mc = .ok x) :
    x = min ((mc : F) / ((hc + mc : ℤ) : F) + salt) 1 := by
  unfold missRatio at h
  split at h
  · cases h
  · cases h
    rfl

omit [Field F] [LinearOrder F] in
theorem toU64_eq_ok {n : ℤ} {u : U64} (h : toU64 n = .ok u) :
    u = U64.ofInt n ∧ 0 ≤ n ∧ n < 2 ^ 64 := by
  unfold toU64 at h
  split at h
  · cases h
    exact ⟨rfl, ‹_›⟩
  · cases h

omit [Field F] [LinearOrder F] in
/-- The window after dropping its oldest epoch holds only epochs it held. -/
theorem dropOldest_subset {k : ℕ} {w w' : List ResrcStat} (h : dropOldest k w = .ok w') :
    ∀ e ∈ w', e ∈ w := by
  unfold dropOldest at h
  split at h
  · unfold popleft at h
    split at h
    · cases h
    · cases h
      exact fun e he => List.mem_cons_of_mem _ he
  · cases h
    exact fun _ he => he

/-- Everything that `updateMrc` computed when it returned. -/
theorem updateMrc_eq_ok {t t' : Tenant F} {r : StatsReply} {now : Ieee ℚ} {sum : ResrcStat}
    (h : t.updateMrc r now = .ok (t', sum)) :
    ∃ epoch window ticks hit miss ratios tickVals,
      (ResrcStat.ofReply r now).sub t.prevSnapshot = .ok epoch ∧
      dropOldest t.smoothWindow t.epochStatWindow = .ok window ∧
      reduce ResrcStat.add (window ++ [epoch]) = .ok sum ∧
      ticksOf r = some ticks ∧ sum.isValid = .ok true ∧
      sum.ghostHitCnt = some hit ∧ sum.ghostMissCnt = some miss ∧
      ratios = (hit.zip miss).map (fun p => min ((p.2 : F) / ((p.1 + p.2 : ℤ) : F) + t.mrcSalt) 1) ∧
      ticks.length = ratios.length ∧ ticks.mapM toU64 = .ok tickVals ∧
      t'.prevSnapshot = .ofReply r now ∧ t'.epochStatWindow = window ++ [epoch] ∧
      t'.ghostTicks = some ticks ∧ t'.ghostMissRatios = some ratios ∧
      t'.mrc = some (tickVals, ratios.map fin) ∧ t'.mrcSalt = t.mrcSalt := by
  simp only [updateMrc, poll] at h
  obtain ⟨epoch, hep, h⟩ := bind_eq_ok.mp h
  obtain ⟨window, hw, h⟩ := bind_eq_ok.mp h
  obtain ⟨sum', hsum, h⟩ := bind_eq_ok.mp h
  obtain ⟨ticks, hticks, h⟩ := bind_eq_ok.mp h
  obtain ⟨valid, hvalid, h⟩ := bind_eq_ok.mp h
  obtain ⟨_, hassert, h⟩ := bind_eq_ok.mp h
  obtain ⟨⟨hit, miss⟩, hlists, h⟩ := bind_eq_ok.mp h
  obtain ⟨ratios, hratios, h⟩ := bind_eq_ok.mp h
  obtain ⟨_, hlen, h⟩ := bind_eq_ok.mp h
  obtain ⟨tickVals, htv, h⟩ := bind_eq_ok.mp h
  cases h
  obtain ⟨hh, hm⟩ := ghostLists_eq_ok hlists
  have hv := pyAssert_eq_ok hassert
  subst hv
  refine ⟨epoch, window, ticks, hit, miss, ratios, tickVals, hep, hw, hsum, assertSome_eq_ok hticks,
    hvalid, hh, hm, mapM_eq_ok_map (fun _ _ hx => missRatio_eq_ok hx) hratios,
    by simpa using pyAssert_eq_ok hlen, htv, rfl, rfl, assertSome_eq_ok hticks, rfl, rfl, rfl⟩

omit [LinearOrder F] in
/-- `updateDemand` leaves the snapshot and the window as they were. -/
theorem updateDemand_eq_ok {t t' : Tenant F} {sum : ResrcStat} (h : t.updateDemand sum = .ok t') :
    t'.prevSnapshot = t.prevSnapshot ∧ t'.epochStatWindow = t.epochStatWindow ∧
      t'.mrcSalt = t.mrcSalt := by
  simp only [updateDemand] at h
  obtain ⟨_, -, h⟩ := bind_eq_ok.mp h
  obtain ⟨_, -, h⟩ := bind_eq_ok.mp h
  obtain ⟨_, -, h⟩ := bind_eq_ok.mp h
  obtain ⟨_, -, h⟩ := bind_eq_ok.mp h
  cases h
  exact ⟨rfl, rfl, rfl⟩

theorem pollPostSnapshot_eq_ok {t t' : Tenant F} {r : StatsReply} {now : Ieee ℚ}
    (h : t.pollPostSnapshot r now = .ok t') :
    ∃ t₁ sum, t.updateMrc r now = .ok (t₁, sum) ∧ t'.prevSnapshot = t₁.prevSnapshot ∧
      t'.epochStatWindow = t₁.epochStatWindow ∧ t'.mrcSalt = t₁.mrcSalt := by
  simp only [pollPostSnapshot] at h
  obtain ⟨⟨t₁, sum⟩, h₁, h⟩ := bind_eq_ok.mp h
  exact ⟨t₁, sum, h₁, updateDemand_eq_ok h⟩

end Tenant

/-! ## Runs of polls -/

/-- Which of the two methods the controller calls. -/
inductive PollKind where
  | prev
  | post
  deriving DecidableEq, Repr

/-- One poll, with what Redis computes the reply of `HOPPER.STATS` from and
    the reading of `time.perf_counter()` that follows the reply. -/
structure Poll (F : Type) where
  kind : PollKind
  memStats : MemStats F
  curve : List CurveEntry
  counters : ResrcCounters
  now : Ieee ℚ

namespace Tenant

variable [FloorRing F]

/-- One poll: `none` where Redis's reply is undefined, an error where Redis
    replies with one or the method raises. -/
def step (t : Tenant F) (p : Poll F) : Option (Except String (Tenant F)) :=
  (hopperStats p.memStats p.curve p.counters).map fun r =>
    r >>= fun r =>
      match p.kind with
      | .prev => .ok (t.pollPrevSnapshot r p.now)
      | .post => t.pollPostSnapshot r p.now

/-- A list of polls, up to the first error. -/
def run (t : Tenant F) : List (Poll F) → Option (Except String (Tenant F))
  | [] => some (.ok t)
  | p :: ps =>
    match t.step p with
    | some (.ok t') => t'.run ps
    | r => r

/-- A poll that returned: Redis replied, and the method returned. -/
theorem step_eq_ok {t t' : Tenant F} {p : Poll F} (h : t.step p = some (.ok t')) :
    ∃ r, hopperStats p.memStats p.curve p.counters = some (.ok r) ∧
      (p.kind = .prev ∧ t' = t.pollPrevSnapshot r p.now ∨
        p.kind = .post ∧ t.pollPostSnapshot r p.now = .ok t') := by
  obtain ⟨e, he, h⟩ := Option.map_eq_some_iff.mp h
  obtain ⟨r, hr, h⟩ := bind_eq_ok.mp h
  subst hr
  refine ⟨r, he, ?_⟩
  cases hk : p.kind with
  | prev =>
    rw [hk] at h
    cases h
    exact .inl ⟨rfl, rfl⟩
  | post =>
    rw [hk] at h
    exact .inr ⟨rfl, h⟩

/-- A run that returned: its first poll returned, and so did the rest. -/
theorem run_cons_eq_ok {t t' : Tenant F} {p : Poll F} {ps : List (Poll F)}
    (h : t.run (p :: ps) = some (.ok t')) :
    ∃ t₁, t.step p = some (.ok t₁) ∧ t₁.run ps = some (.ok t') := by
  simp only [run] at h
  split at h
  · rename_i t₁ h₁
    exact ⟨t₁, h₁, h⟩
  · rename_i hne
    exact absurd h (hne t')

end Tenant

end Controller
