-- SUMMARY: HOPPER.RESRC.SET and HOPPER.RESRC.GET (resrc.cpp) over the three rate limiters of a Redis instance: a SET that fails changes nothing, a GET after a SET reports what it set with the cache size modulo 2^32, a rate set takes effect when its limiter's next frame begins, and under every interleaving of the storage thread's turns, the replies, the GET completions and the SETs each limiter stays throttled up to what completions consumed, and what GET reports agrees with what is enforced.
import HopperKV.Lib.Fallible
import HopperKV.Module.Rate

/-!
# Allocations set on a Redis instance

The controller sets a tenant's allocation on its Redis instance with
`HOPPER.RESRC.SET <cache_size> <db_rcu> <db_wcu> <net_bw>`. The cache size
becomes `maxmemory`; each rate is proposed to its limiter
(`rcu_rate_limiter` and `wcu_rate_limiter` of the storage thread,
`net_rate_limiter` of the network), which adopts it when its next frame
begins. A negative value leaves its resource alone. `allocated_resrc`
records what was set for `HOPPER.RESRC.GET`, the cache size as a
`uint32_t`.

An argument is modelled by what the two conversions of the module API make
of it (`Arg`), and the reply of `CONFIG SET MAXMEMORY` is an input of the
handler.

`system` runs the SETs together with the limiters' own events: the turns of
the storage thread on its two queues, the replies sent after their wait, and
the completions of GETs, which consume read units with no check. Each limiter
keeps the clock of the thread that checks it, so that a reply sleeping in the
main thread may overlap the storage thread's turns. A step of `system` is, for
each limiter, a step of `Rate.system` or nothing (`Step.project`), which
carries the limiter's invariant to the whole instance (`module_throttled`).

Left out: the other clients of the instance, whose `CONFIG SET` could change
`maxmemory` too, and `HOPPER.RESRC.GET`'s own arity error, which changes
nothing.
-/

namespace Hopper.Resrc

open Ieee
open Rate (Clocked RateLimiter pollQueue sendAfterWait carry)

set_option linter.unusedSectionVars false

variable {F : Type} [Field F] [LinearOrder F] [FloorRing F]

/-! ## The commands -/

/-- The three rates of an allocation, each enforced by its own limiter. -/
inductive Limit where
  | dbRcu
  | dbWcu
  | netBw
  deriving DecidableEq, Repr

/-- `allocated_resrc`. -/
structure AllocatedResrc (F : Type) where
  cacheSize : U32
  rate : Limit → Ieee F

/-- What the two commands read and write: `maxmemory` of the Redis
    configuration, `allocated_resrc`, and the three limiters. -/
structure State (F : Type) where
  maxmemory : ℤ
  allocated : AllocatedResrc F
  limiter : Limit → RateLimiter F

/-- A command argument, by what `RedisModule_StringToLongLong` and
    `RedisModule_StringToDouble` make of it; `none` for `REDISMODULE_ERR`. -/
structure Arg (F : Type) where
  longLong : Option ℤ
  double : Option (Ieee F)

/-- A reply to the admin client. -/
inductive Reply (F : Type) where
  | wrongArity
  | error (msg : String)
  | simple (s : String)
  | array (cacheSize : ℤ) (dbRcu dbWcu netBw : Ieee F)
  deriving DecidableEq

/-- What a SET asks for; a negative value leaves its resource alone. -/
structure Request (F : Type) where
  cacheSize : ℤ
  rate : Limit → Ieee F

/-- A conversion, with the error it replies when it fails. -/
def parseOr {α : Type} (msg : String) : Option α → Except (Reply F) α
  | some a => .ok a
  | none => .error (.error msg)

/-- The arguments of `HOPPER.RESRC.SET`, converted in the order of the
    code. -/
def parseSet : List (Arg F) → Except (Reply F) (Request F)
  | [_, a₁, a₂, a₃, a₄] => do
    let cacheSize ← parseOr "ERR Fail to parse <cache_size>" a₁.longLong
    let dbRcu ← parseOr "ERR Fail to parse <db_rcu>" a₂.double
    let dbWcu ← parseOr "ERR Fail to parse <db_wcu>" a₃.double
    let netBw ← parseOr "ERR Fail to parse <net_bw>" a₄.double
    return ⟨cacheSize, fun | .dbRcu => dbRcu | .dbWcu => dbWcu | .netBw => netBw⟩
  | _ => .error .wrongArity

/-- The state after `CONFIG SET MAXMEMORY c` succeeded, with `c` recorded
    as a `uint32_t`. -/
def State.withCacheSize (c : ℤ) (s : State F) : State F :=
  { s with maxmemory := c, allocated := { s.allocated with cacheSize := U32.ofInt c } }

/-- The cache size of a SET, unless it is negative; `configOk` is whether
    `CONFIG SET MAXMEMORY` replies a string. -/
def setCacheSize (configOk : Bool) (c : ℤ) (s : State F) : Except (Reply F) (State F) :=
  if 0 ≤ c then
    if configOk then .ok (s.withCacheSize c) else .error (.error "ERR Fail to set cache size")
  else .ok s

/-- `set_rcu_limit`, `set_wcu_limit` or `set_net_limit` of a rate, unless it
    is negative, and its record in `allocated_resrc`. -/
def setLimit (k : Limit) (x : Ieee F) (s : State F) : State F :=
  if fin 0 ≤ x then
    { s with
      limiter := Function.update s.limiter k ((s.limiter k).proposeNewRate x)
      allocated := { s.allocated with rate := Function.update s.allocated.rate k x } }
  else s

/-- The three rates of a SET, in the order of the code. -/
def setLimits (rate : Limit → Ieee F) (s : State F) : State F :=
  setLimit .netBw (rate .netBw) (setLimit .dbWcu (rate .dbWcu) (setLimit .dbRcu (rate .dbRcu) s))

/-- `RedisModule_HopperResrcSet`: the reply, and the state after it. -/
def resrcSet (configOk : Bool) (argv : List (Arg F)) (s : State F) : Reply F × State F :=
  match parseSet argv >>= fun q => (setCacheSize configOk q.cacheSize s).map (setLimits q.rate) with
  | .ok s' => (.simple "OK", s')
  | .error r => (r, s)

/-- `RedisModule_HopperResrcGet`. -/
def resrcGet (argv : List (Arg F)) (s : State F) : Reply F :=
  if argv.length ≠ 1 then .wrongArity
  else .array s.allocated.cacheSize.val (s.allocated.rate .dbRcu) (s.allocated.rate .dbWcu)
    (s.allocated.rate .netBw)

/-- A reply that reports a failure. -/
def Reply.IsError : Reply F → Prop
  | .wrongArity => True
  | .error _ => True
  | _ => False

/-! ## What a SET does -/

section Set

variable {configOk : Bool} {argv : List (Arg F)} {s : State F}

theorem parseOr_error {α : Type} {msg : String} {o : Option α} {r : Reply F}
    (h : parseOr msg o = .error r) : r = .error msg := by
  cases o with
  | some a => cases h
  | none =>
    cases h
    rfl

theorem parseSet_error {r : Reply F} (h : parseSet argv = .error r) : r.IsError := by
  match argv, h with
  | [_, a₁, a₂, a₃, a₄], h =>
    -- the first conversion that fails replies its own error
    rcases Fallible.bind_eq_error h with h | ⟨_, -, h⟩
    · rw [parseOr_error h]; trivial
    rcases Fallible.bind_eq_error h with h | ⟨_, -, h⟩
    · rw [parseOr_error h]; trivial
    rcases Fallible.bind_eq_error h with h | ⟨_, -, h⟩
    · rw [parseOr_error h]; trivial
    rcases Fallible.bind_eq_error h with h | ⟨_, -, h⟩
    · rw [parseOr_error h]; trivial
    · cases h
  | [], h | [_], h | [_, _], h | [_, _, _], h | [_, _, _, _], h
  | _ :: _ :: _ :: _ :: _ :: _ :: _, h =>
    cases h
    trivial

theorem setCacheSize_error {c : ℤ} {r : Reply F} (h : setCacheSize configOk c s = .error r) :
    r.IsError := by
  unfold setCacheSize at h
  split_ifs at h
  cases h
  trivial

theorem setCacheSize_ok {c : ℤ} {s' : State F} (h : setCacheSize configOk c s = .ok s') :
    (0 ≤ c → configOk = true) ∧ s' = if 0 ≤ c then s.withCacheSize c else s := by
  unfold setCacheSize at h
  split_ifs at h with hc hcfg
  · cases h
    exact ⟨fun _ => hcfg, by rw [if_pos hc]⟩
  · cases h
    exact ⟨fun h' => absurd h' hc, by rw [if_neg hc]⟩

/-- What a SET does: it fails with an error and changes nothing, or it
    converts all four arguments, succeeds in setting the cache size unless
    it is negative, and proposes the rates. -/
theorem resrcSet_cases (configOk : Bool) (argv : List (Arg F)) (s : State F) :
    ((resrcSet configOk argv s).1.IsError ∧ (resrcSet configOk argv s).2 = s) ∨
      ∃ q, parseSet argv = .ok q ∧ (0 ≤ q.cacheSize → configOk = true) ∧
        resrcSet configOk argv s =
          (.simple "OK", setLimits q.rate (if 0 ≤ q.cacheSize then s.withCacheSize q.cacheSize else s)) := by
  unfold resrcSet
  cases hp : parseSet argv with
  | error r => exact .inl ⟨parseSet_error hp, rfl⟩
  | ok q =>
    cases hc : setCacheSize configOk q.cacheSize s with
    | error r =>
      refine .inl ⟨?_, ?_⟩ <;> simp only [bind, Except.bind, Except.map, hc]
      exact setCacheSize_error hc
    | ok s₁ =>
      obtain ⟨hcfg, rfl⟩ := setCacheSize_ok hc
      simp only [bind, Except.bind, Except.map, hc]
      exact .inr ⟨q, rfl, hcfg, rfl⟩

/-- A SET never replies `OK` with an error, so a reply other than `OK`
    leaves the state as it was. -/
theorem resrcSet_of_not_ok (h : (resrcSet configOk argv s).1 ≠ .simple "OK") :
    (resrcSet configOk argv s).2 = s := by
  rcases resrcSet_cases configOk argv s with ⟨-, hs⟩ | ⟨q, -, -, heq⟩
  · exact hs
  · rw [heq] at h
    exact absurd rfl h

theorem resrcSet_of_ok {q : Request F} (hq : parseSet argv = .ok q)
    (h : (resrcSet configOk argv s).1 = .simple "OK") :
    (resrcSet configOk argv s).2 =
      setLimits q.rate (if 0 ≤ q.cacheSize then s.withCacheSize q.cacheSize else s) := by
  rcases resrcSet_cases configOk argv s with ⟨herr, -⟩ | ⟨q', hq', -, heq⟩
  · rw [h] at herr
    exact herr.elim
  · rw [hq, Except.ok.injEq] at hq'
    subst hq'
    rw [heq]

@[simp] theorem setLimit_maxmemory (k : Limit) (x : Ieee F) (s : State F) :
    (setLimit k x s).maxmemory = s.maxmemory := by
  unfold setLimit
  split_ifs <;> rfl

@[simp] theorem setLimit_cacheSize (k : Limit) (x : Ieee F) (s : State F) :
    (setLimit k x s).allocated.cacheSize = s.allocated.cacheSize := by
  unfold setLimit
  split_ifs <;> rfl

theorem setLimit_limiter (k j : Limit) (x : Ieee F) (s : State F) :
    (setLimit k x s).limiter j =
      if j = k ∧ fin 0 ≤ x then (s.limiter j).proposeNewRate x else s.limiter j := by
  unfold setLimit
  by_cases hx : fin 0 ≤ x
  · by_cases hj : j = k
    · subst hj
      simp [hx]
    · simp [hx, hj]
  · simp [hx]

theorem setLimit_rate (k j : Limit) (x : Ieee F) (s : State F) :
    (setLimit k x s).allocated.rate j = if j = k ∧ fin 0 ≤ x then x else s.allocated.rate j := by
  unfold setLimit
  by_cases hx : fin 0 ≤ x
  · by_cases hj : j = k
    · subst hj
      simp [hx]
    · simp [hx, hj]
  · simp [hx]

@[simp] theorem setLimits_maxmemory (rate : Limit → Ieee F) (s : State F) :
    (setLimits rate s).maxmemory = s.maxmemory := by
  simp [setLimits]

@[simp] theorem setLimits_cacheSize (rate : Limit → Ieee F) (s : State F) :
    (setLimits rate s).allocated.cacheSize = s.allocated.cacheSize := by
  simp [setLimits]

/-- Each limiter is proposed its own rate of the SET, unless it is
    negative; the three assignments touch different limiters. -/
theorem setLimits_limiter (rate : Limit → Ieee F) (s : State F) (k : Limit) :
    (setLimits rate s).limiter k =
      if fin 0 ≤ rate k then (s.limiter k).proposeNewRate (rate k) else s.limiter k := by
  cases k <;> simp [setLimits, setLimit_limiter]

theorem setLimits_rate (rate : Limit → Ieee F) (s : State F) (k : Limit) :
    (setLimits rate s).allocated.rate k = if fin 0 ≤ rate k then rate k else s.allocated.rate k := by
  cases k <;> simp [setLimits, setLimit_rate]

@[simp] theorem withCacheSize_limiter (c : ℤ) (s : State F) :
    (s.withCacheSize c).limiter = s.limiter := rfl

@[simp] theorem withCacheSize_rate (c : ℤ) (s : State F) :
    (s.withCacheSize c).allocated.rate = s.allocated.rate := rfl

/-- A limiter after a SET: as it was, or proposed the SET's rate for it. -/
theorem resrcSet_limiter (configOk : Bool) (argv : List (Arg F)) (s : State F) (k : Limit) :
    (resrcSet configOk argv s).2.limiter k = s.limiter k ∨
      ∃ q, parseSet argv = .ok q ∧
        (resrcSet configOk argv s).2.limiter k = (s.limiter k).proposeNewRate (q.rate k) := by
  rcases resrcSet_cases configOk argv s with ⟨-, hs⟩ | ⟨q, hq, -, heq⟩
  · exact .inl (by rw [hs])
  · have hl : (if 0 ≤ q.cacheSize then s.withCacheSize q.cacheSize else s).limiter = s.limiter := by
      split_ifs <;> rfl
    rw [heq]
    dsimp only
    rw [setLimits_limiter, hl]
    split_ifs
    · exact .inr ⟨q, hq, rfl⟩
    · exact .inl rfl

/-- `HOPPER.RESRC.GET` after a SET that replied `OK` reports what the SET
    set and, for each value it skipped as negative, what was there before;
    the cache size comes back modulo `2 ^ 32`, the range of the `uint32_t`
    that records it. -/
theorem resrcGet_resrcSet {q : Request F} (hq : parseSet argv = .ok q)
    (h : (resrcSet configOk argv s).1 = .simple "OK") (b : Arg F) :
    resrcGet [b] (resrcSet configOk argv s).2 =
      .array (if 0 ≤ q.cacheSize then q.cacheSize % 2 ^ 32 else s.allocated.cacheSize.val)
        (if fin 0 ≤ q.rate .dbRcu then q.rate .dbRcu else s.allocated.rate .dbRcu)
        (if fin 0 ≤ q.rate .dbWcu then q.rate .dbWcu else s.allocated.rate .dbWcu)
        (if fin 0 ≤ q.rate .netBw then q.rate .netBw else s.allocated.rate .netBw) := by
  rw [resrcSet_of_ok hq h]
  have hcache : ((setLimits q.rate (if 0 ≤ q.cacheSize then s.withCacheSize q.cacheSize else s)).allocated.cacheSize.val : ℤ) =
      if 0 ≤ q.cacheSize then q.cacheSize % 2 ^ 32 else (s.allocated.cacheSize.val : ℤ) := by
    rw [setLimits_cacheSize]
    split_ifs with hc
    · simp only [State.withCacheSize, U32.ofInt]
      omega
    · rfl
  have hrate : ∀ k, (setLimits q.rate (if 0 ≤ q.cacheSize then s.withCacheSize q.cacheSize else s)).allocated.rate k =
      if fin 0 ≤ q.rate k then q.rate k else s.allocated.rate k := by
    intro k
    rw [setLimits_rate]
    split_ifs <;> rfl
  simp only [resrcGet, List.length_singleton, ne_eq, not_true_eq_false, if_false, hcache, hrate]

/-- A cache size of `2 ^ 32 + 5` is stored and comes back as `5`,
    and skips `db_wcu`. -/
example :
    let s : State ℚ := ⟨0, ⟨0, fun _ => fin 0⟩, fun _ => RateLimiter.new (fin 1) 0⟩
    let argv : List (Arg ℚ) := [⟨none, none⟩, ⟨some (2 ^ 32 + 5), none⟩, ⟨none, some (fin 100)⟩,
      ⟨none, some (fin (-1))⟩, ⟨none, some (fin 1000)⟩]
    (resrcSet true argv s).1 = .simple "OK" ∧
      resrcGet [⟨none, none⟩] (resrcSet true argv s).2 = .array 5 (fin 100) (fin 0) (fin 1000) := by
  intro s argv
  have hq : parseSet argv = .ok ⟨2 ^ 32 + 5,
      fun | .dbRcu => fin 100 | .dbWcu => fin (-1) | .netBw => fin 1000⟩ := rfl
  have h : (resrcSet true argv s).1 = .simple "OK" := by decide +kernel
  refine ⟨h, ?_⟩
  rw [resrcGet_resrcSet hq h ⟨none, none⟩]
  decide +kernel

/-- A rate that a SET sets is enforced from the first turn of the storage
    thread that comes 370 ms or more after its limiter's frame began, and
    the old rate is enforced until then. -/
theorem resrcSet_takes_effect [IsStrictOrderedRing F] {q : Request F} (hq : parseSet argv = .ok q)
    (h : (resrcSet configOk argv s).1 = .simple "OK") {k : Limit} (hx : fin 0 ≤ q.rate k)
    (now : ℤ) (head : Option U64) :
    (pollQueue now head ((resrcSet configOk argv s).2.limiter k)).2.rate =
      if 370000000 ≤ now - (s.limiter k).timeFrameBegin then q.rate k else (s.limiter k).rate := by
  have hl : (resrcSet configOk argv s).2.limiter k = (s.limiter k).proposeNewRate (q.rate k) := by
    rw [resrcSet_of_ok hq h, setLimits_limiter, if_pos hx]
    split_ifs <;> rfl
  rw [hl, Rate.pollQueue_rate, RateLimiter.proposeNewRate_timeFrameBegin,
    RateLimiter.proposeNewRate_proposedRate, RateLimiter.proposeNewRate_rate]

/-- Setting `db_rcu` to `100` on limiters whose frames began at
    `0`: a turn at 100 ms still runs at the old rate, one at 400 ms at the
    new one. -/
example :
    let s : State ℚ := ⟨0, ⟨0, fun _ => fin 0⟩, fun _ => RateLimiter.new (fin 1) 0⟩
    let argv : List (Arg ℚ) := [⟨none, none⟩, ⟨some 1000, none⟩, ⟨none, some (fin 100)⟩,
      ⟨none, some (fin (-1))⟩, ⟨none, some (fin 1000)⟩]
    (resrcSet true argv s).1 = .simple "OK" ∧
      (pollQueue 100000000 none ((resrcSet true argv s).2.limiter .dbRcu)).2.rate = fin 1 ∧
      (pollQueue 400000000 none ((resrcSet true argv s).2.limiter .dbRcu)).2.rate = fin 100 := by
  intro s argv
  have hq : parseSet argv = .ok ⟨1000,
      fun | .dbRcu => fin 100 | .dbWcu => fin (-1) | .netBw => fin 1000⟩ := rfl
  have h : (resrcSet true argv s).1 = .simple "OK" := by decide +kernel
  have hx : (fin 0 : Ieee ℚ) ≤ fin 100 := by decide +kernel
  refine ⟨h, ?_, ?_⟩
  · rw [resrcSet_takes_effect hq h (k := .dbRcu) hx]
    rfl
  · rw [resrcSet_takes_effect hq h (k := .dbRcu) hx]
    rfl

end Set

/-! ## The instance over time -/

/-- The queues of the storage thread, each throttled by its own limiter. -/
inductive Queue where
  | get
  | set
  deriving DecidableEq, Repr

/-- `rcu_rate_limiter` for the GET tasks, `wcu_rate_limiter` for the SET
    tasks. -/
def Queue.limit : Queue → Limit
  | .get => .dbRcu
  | .set => .dbWcu

/-- The state, with the time of the last event of each limiter, read on the
    clock of the thread that checks it, and the consumption that GET
    completions added to each limiter's frame with no check. -/
structure Timed (F : Type) where
  clock : Limit → ℤ
  state : State F
  unchecked : Limit → ℕ

/-- One limiter with its clock, as `Rate.system` sees it. -/
def Timed.proj (s : Timed F) (k : Limit) : Clocked F :=
  ⟨s.clock k, s.state.limiter k, s.unchecked k⟩

/-- A limiter's own event at the time `t`. -/
def Timed.advance (k : Limit) (t : ℤ) (l : RateLimiter F) (s : Timed F) : Timed F :=
  ⟨Function.update s.clock k t, { s.state with limiter := Function.update s.state.limiter k l },
    Function.update s.unchecked k (carry (s.state.limiter k) l (s.unchecked k))⟩

/-- `rcu_rate_limiter.consume(t->rcu_cost() - 1)` of a GET whose read
    completes. -/
def Timed.complete (cost : U64) (s : Timed F) : Timed F :=
  ⟨s.clock,
    { s.state with limiter := Function.update s.state.limiter .dbRcu ((s.state.limiter .dbRcu).consume cost) },
    Function.update s.unchecked .dbRcu (s.unchecked .dbRcu + cost.val)⟩

/-- What changes the instance: a turn of the storage thread on one queue, a
    reply sent after its wait, the completion of a GET's read, and a SET. -/
inductive Event (F : Type) where
  | poll (q : Queue) (now : ℤ) (head : Option U64)
  | send (now wake : ℤ) (cost : U64)
  | complete (cost : U64)
  | set (configOk : Bool) (argv : List (Arg F))

/-- The events whose checked costs are at most `cmax`. -/
def Event.fits (cmax : ℕ) : Event F → Bool
  | .poll _ _ head => head.all (·.val ≤ cmax)
  | .send _ _ cost => decide (cost.val ≤ cmax)
  | .complete _ | .set _ _ => true

/-- The instance as a transition system: no limiter's clock goes back, and
    every checked cost is at most `cmax`. -/
def system (cmax : ℕ) : Transition.System (Timed F) (Event F) where
  enabled s e := e.fits cmax && match e with
    | .poll q now _ => decide (s.clock q.limit ≤ now)
    | .send now _ _ => decide (s.clock .netBw ≤ now)
    | .complete _ | .set _ _ => true
  handle s e := match e with
    | .poll q now head => some (s.advance q.limit now (pollQueue now head (s.state.limiter q.limit)).2)
    | .send now wake cost => (sendAfterWait now wake cost (s.state.limiter .netBw)).map
        (s.advance .netBw wake)
    | .complete cost => some (s.complete cost)
    | .set configOk argv => some ⟨s.clock, (resrcSet configOk argv s.state).2, s.unchecked⟩

/-- The rate each limiter is constructed with. -/
def initialRate : Limit → Ieee F
  | .dbRcu => ofNat 1000000
  | .dbWcu => ofNat 1000000
  | .netBw => ofNat 1000000000

/-- The instance when the module loads: `maxmemory` as configured, nothing
    allocated, and each limiter created at its own `start`. -/
def init (maxmemory : ℤ) (start : Limit → ℤ) : Timed F :=
  ⟨start, ⟨maxmemory, ⟨0, fun _ => fin 0⟩, fun k => RateLimiter.new (initialRate k) (start k)⟩,
    fun _ => 0⟩

/-- What `HOPPER.RESRC.GET` reports agrees with what the instance
    enforces, for each value that a SET has set: the cache size is
    `maxmemory` modulo `2 ^ 32`, and each rate is the one that its limiter
    adopts when its next frame begins. A value that no SET has set is
    reported as `0`, while the instance runs on the configured `maxmemory`
    and the limiter's initial rate. -/
structure Agree (maxmemory₀ : ℤ) (s : State F) : Prop where
  cache : (s.allocated.cacheSize.val : ℤ) = s.maxmemory % 2 ^ 32 ∨
    (s.allocated.cacheSize = 0 ∧ s.maxmemory = maxmemory₀)
  rate : ∀ k, s.allocated.rate k = (s.limiter k).proposedRate ∨
    (s.allocated.rate k = fin 0 ∧ (s.limiter k).proposedRate = initialRate k)

section Runs

variable [IsStrictOrderedRing F] {cmax : ℕ}

theorem advance_proj (k j : Limit) (t : ℤ) (l : RateLimiter F) (s : Timed F) :
    (s.advance k t l).proj j =
      if j = k then ⟨t, l, carry (s.state.limiter k) l (s.unchecked k)⟩ else s.proj j := by
  by_cases hj : j = k
  · subst hj
    simp [Timed.advance, Timed.proj]
  · simp [Timed.advance, Timed.proj, hj]

theorem complete_proj (k : Limit) (cost : U64) (s : Timed F) :
    (s.complete cost).proj k =
      if k = .dbRcu then ⟨s.clock k, (s.state.limiter k).consume cost, s.unchecked k + cost.val⟩
      else s.proj k := by
  by_cases hk : k = .dbRcu
  · subst hk
    simp [Timed.complete, Timed.proj]
  · simp [Timed.complete, Timed.proj, hk]

/-- Every step of the instance is, for each limiter, a step of `Rate.system`
    or no change: the storage thread's turn on a queue, a reply and a GET's
    completion are the limiter's own events, and a SET proposes each limiter
    a rate or leaves it alone. -/
theorem Step.project {s s' : Timed F} (h : (system cmax).Step s s') (k : Limit) :
    s'.proj k = s.proj k ∨ (Rate.system cmax).Step (s.proj k) (s'.proj k) := by
  obtain ⟨e, he, hh⟩ := h
  cases e with
  | poll q now head =>
    simp only [system, Event.fits, Bool.and_eq_true, decide_eq_true_eq] at he
    cases hh
    rw [advance_proj]
    split_ifs with hk
    · -- the turn on the queue that this limiter throttles
      subst hk
      refine .inr ⟨.poll now head, ?_, rfl⟩
      simp [Rate.system, Rate.Event.fits, Timed.proj, he.1, he.2]
    · exact .inl rfl
  | send now wake cost =>
    simp only [system, Event.fits, Bool.and_eq_true, decide_eq_true_eq] at he
    obtain ⟨l', hl', rfl⟩ := Option.map_eq_some_iff.mp hh
    rw [advance_proj]
    split_ifs with hk
    · subst hk
      refine .inr ⟨.send now wake cost, ?_, by simp [Rate.system, Timed.proj, hl']⟩
      simp [Rate.system, Rate.Event.fits, Timed.proj, he.1, he.2]
    · exact .inl rfl
  | complete cost =>
    cases hh
    rw [complete_proj]
    split_ifs with hk
    · -- the read units of the GET, on `rcu_rate_limiter`
      subst hk
      exact .inr ⟨.complete cost, rfl, rfl⟩
    · exact .inl rfl
  | set configOk argv =>
    cases hh
    rcases resrcSet_limiter configOk argv s.state k with hl | ⟨q, -, hl⟩
    · exact .inl (by simp only [Timed.proj, hl])
    · -- the SET proposes this limiter its rate
      exact .inr ⟨.propose (q.rate k), rfl, by simp only [Rate.system, Timed.proj, hl]⟩

/-- Each limiter of an instance runs `Rate.system` from its creation: every
    state the instance reaches shows it in a state that the limiter alone
    reaches. -/
theorem reachable_proj {maxmemory : ℤ} {start : Limit → ℤ} {s : Timed F}
    (hs : (system cmax).Reachable (init maxmemory start) s) (k : Limit) :
    (Rate.system cmax).Reachable ⟨start k, RateLimiter.new (initialRate k) (start k), 0⟩ (s.proj k) := by
  induction hs with
  | refl => exact Relation.ReflTransGen.refl
  | tail _ hst ih =>
    rcases Step.project hst k with heq | hstep
    · rwa [heq]
    · exact ih.tail hstep

/-- Under every interleaving of the storage thread's turns, the replies sent
    after their wait, the completions of GETs and the SETs of the controller,
    each limiter of the instance keeps the invariant of a limiter alone: its
    frame began on the grid of 370 ms from its creation, and the progress of
    the frame is at most the rate times the time since the frame began, plus
    `cmax`, plus what completions consumed in the frame. -/
theorem module_throttled (maxmemory : ℤ) (start : Limit → ℤ) {s : Timed F}
    (hs : (system cmax).Reachable (init maxmemory start) s) (k : Limit) :
    Rate.Inv cmax (start k) (s.proj k) :=
  Rate.limiter_throttled cmax (initialRate k) (start k) (reachable_proj hs k)

theorem agree_init (maxmemory : ℤ) (start : Limit → ℤ) :
    Agree maxmemory (init maxmemory start : Timed F).state where
  cache := .inr ⟨rfl, rfl⟩
  rate _ := .inr ⟨rfl, rfl⟩

/-- A limiter's own event keeps the agreement: it never writes
    `proposed_rate`. -/
theorem Agree.advance {m₀ : ℤ} {s : Timed F} (hs : Agree m₀ s.state) {k : Limit} {t : ℤ}
    {l : RateLimiter F} (hl : l.proposedRate = (s.state.limiter k).proposedRate) :
    Agree m₀ (s.advance k t l).state where
  cache := hs.cache
  rate j := by
    by_cases hj : j = k
    · subst hj
      simpa [Timed.advance, hl] using hs.rate j
    · simpa [Timed.advance, hj] using hs.rate j

/-- A GET's completion keeps the agreement: `consume` never writes
    `proposed_rate`. -/
theorem Agree.complete {m₀ : ℤ} {s : Timed F} (hs : Agree m₀ s.state) (cost : U64) :
    Agree m₀ (s.complete cost).state where
  cache := hs.cache
  rate j := by
    by_cases hj : j = .dbRcu
    · subst hj
      simpa [Timed.complete] using hs.rate .dbRcu
    · simpa [Timed.complete, hj] using hs.rate j

/-- A SET keeps the agreement: it sets `maxmemory` with the cache size, and
    each rate with its limiter's proposed rate. -/
theorem Agree.resrcSet {m₀ : ℤ} {s : State F} (hs : Agree m₀ s) (configOk : Bool)
    (argv : List (Arg F)) : Agree m₀ (resrcSet configOk argv s).2 := by
  rcases resrcSet_cases configOk argv s with ⟨-, heq⟩ | ⟨q, -, -, heq⟩
  · rwa [heq]
  · rw [heq]
    -- the cache size first, then the rates
    have h₁ : Agree m₀ (if 0 ≤ q.cacheSize then s.withCacheSize q.cacheSize else s) := by
      split_ifs with hc
      · refine ⟨.inl ?_, hs.rate⟩
        simp only [State.withCacheSize, U32.ofInt]
        omega
      · exact hs
    refine ⟨?_, fun k => ?_⟩
    · rw [setLimits_cacheSize, setLimits_maxmemory]
      exact h₁.cache
    · rw [setLimits_rate, setLimits_limiter]
      by_cases hx : fin 0 ≤ q.rate k
      · rw [if_pos hx, if_pos hx]
        exact .inl rfl
      · rw [if_neg hx, if_neg hx]
        exact h₁.rate k

theorem Agree.step {m₀ : ℤ} {s s' : Timed F} (hs : Agree m₀ s.state) (h : (system cmax).Step s s') :
    Agree m₀ s'.state := by
  obtain ⟨e, -, hh⟩ := h
  cases e with
  | poll q now head =>
    cases hh
    exact hs.advance (Rate.pollQueue_proposedRate now head _)
  | send now wake cost =>
    obtain ⟨l', hl', rfl⟩ := Option.map_eq_some_iff.mp hh
    exact hs.advance (Rate.sendAfterWait_proposedRate hl')
  | complete cost =>
    cases hh
    exact hs.complete cost
  | set configOk argv =>
    cases hh
    exact hs.resrcSet configOk argv

/-- Under every interleaving of the storage thread's turns, the replies and
    the SETs, what `HOPPER.RESRC.GET` reports agrees with what the instance
    enforces (`Agree`). -/
theorem resrcGet_agrees (maxmemory : ℤ) (start : Limit → ℤ) {s : Timed F}
    (hs : (system cmax).Reachable (init maxmemory start) s) : Agree maxmemory s.state :=
  Transition.System.Reachable.inv (fun s => Agree maxmemory s.state) (agree_init maxmemory start)
    (fun _ _ e _ hinv he hh => hinv.step ⟨e, he, hh⟩) hs

end Runs

end Hopper.Resrc
