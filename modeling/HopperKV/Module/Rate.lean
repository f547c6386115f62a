-- SUMMARY: hopper::rate::RateLimiter (rate.h) on the nanosecond clock, and the three ways the Redis module consumes under it: the storage thread's turn on a DynamoDB queue, network::wait_until_can_send before a reply, and the unchecked consume(rcu_cost() - 1) of a GET's completion; time frames stay on a grid of 0.37 s from the limiter's creation, a proposed rate takes effect only when a frame begins, and the consumption of a frame never runs ahead of the rate by more than one request plus what completions consumed in it.
import HopperKV.Lib.Scalar
import HopperKV.Lib.Transition
import Mathlib.Algebra.Order.Floor.Ring
import Mathlib.Data.Rat.Floor
import Mathlib.Tactic.FieldSimp
import Mathlib.Tactic.Ring

/-!
# Rate limiters

The Redis module enforces the allocation of `db_rcu`, `db_wcu` and `net_bw`
with one `RateLimiter` each. A limiter counts the consumption of the current
time frame, and `check_wait_time` returns how long to wait before that
consumption is within the rate. A frame lasts `TIME_FRAME_LEN_SEC = 0.37`
seconds; the next one begins at the last whole frame length before `now`,
with no progress and the proposed rate.

The clock is read in nanoseconds and the `double` durations are computed
without rounding, so the frames stay on a grid of 370 ms from the creation of
the limiter (`Inv.grid`); in binary64, `fmod` and the truncation back to
nanoseconds drift off that grid by a nanosecond at times. The model has one
zero, so a rate of `-0.0`, which `HOPPER.RESRC.SET` accepts, is not modelled.

Consumption comes three ways (`Event`): a turn of the storage thread submits
the task at the head of a queue when the wait time is not positive and
consumes its cost (`pollQueue`); a reply waits in
`network::wait_until_can_send` and consumes its bytes (`sendAfterWait`); and
a GET whose read completes consumes its read units beyond the prepaid one,
with no check. `Clocked.unchecked` counts the last kind within the frame, and
the invariant bounds the progress by the rate times the time since the frame
began, plus one request, plus that count (`Throttled`).
-/

namespace Hopper.Rate

open Ieee

set_option linter.unusedSectionVars false

variable {F : Type} [Field F] [LinearOrder F]

/-! ## Durations -/

/-- `TIME_FRAME_LEN_SEC`. -/
def timeFrameLenSec : F := 0.37

/-- `duration_cast<duration<double>>(d).count()`: a duration of the
    nanosecond clock in seconds. -/
def toSec (d : ℤ) : F := d / 1e9

/-- `duration_cast<high_resolution_clock::duration>(duration<double>(x))`: the
    seconds `x` in nanoseconds, truncated. -/
def toNanos [FloorRing F] (x : F) : ℤ := truncate (x * 1e9)

/-- `std::fmod(x, y)`: `x` less `y` times the truncated quotient. -/
def fmod [FloorRing F] (x y : F) : F := x - truncate (x / y) * y

/-! ## The limiter -/

/-- `RateLimiter<Progress_t>`. Both progress types are a `uint64_t` with
    `load`, `store` and `add`, the concurrent one atomically. -/
structure RateLimiter (F : Type) where
  rate : Ieee F
  timeFrameProgress : U64
  timeFrameBegin : ℤ
  proposedRate : Ieee F

namespace RateLimiter

variable [FloorRing F]

/-- The constructor, at the clock's `now`. -/
def new (rate : Ieee F) (now : ℤ) : RateLimiter F := ⟨rate, 0, now, rate⟩

/-- `update_time_frame()` at `now`: the time since the frame began, and the
    limiter. -/
def updateTimeFrame (now : ℤ) (l : RateLimiter F) : F × RateLimiter F :=
  let elapsed : F := toSec (now - l.timeFrameBegin)
  if timeFrameLenSec ≤ elapsed then
    let elapsed := fmod elapsed timeFrameLenSec
    let l₁ := { l with timeFrameBegin := now - toNanos elapsed, timeFrameProgress := 0 }
    -- the pending rate update, assigned when `new_rate != rate`
    let newRate := l₁.proposedRate
    (elapsed, if !(newRate.equal l₁.rate) then { l₁ with rate := newRate } else l₁)
  else (elapsed, l)

/-- `consume(consumption)`. -/
def consume (consumption : U64) (l : RateLimiter F) : RateLimiter F :=
  { l with timeFrameProgress := l.timeFrameProgress + consumption }

/-- `check_wait_time()` at `now`: the wait time, not positive when the
    limiter permits, and the limiter. -/
def checkWaitTime (now : ℤ) (l : RateLimiter F) : Ieee F × RateLimiter F :=
  let r := l.updateTimeFrame now
  let permittedElapsed := ofNat r.2.timeFrameProgress.val / r.2.rate
  (permittedElapsed - fin r.1, r.2)

/-- `propose_new_rate(new_rate)`. -/
def proposeNewRate (newRate : Ieee F) (l : RateLimiter F) : RateLimiter F :=
  { l with proposedRate := newRate }

@[simp] theorem consume_rate (c : U64) (l : RateLimiter F) : (l.consume c).rate = l.rate := rfl

@[simp] theorem consume_proposedRate (c : U64) (l : RateLimiter F) :
    (l.consume c).proposedRate = l.proposedRate := rfl

@[simp] theorem proposeNewRate_rate (x : Ieee F) (l : RateLimiter F) :
    (l.proposeNewRate x).rate = l.rate := rfl

@[simp] theorem proposeNewRate_proposedRate (x : Ieee F) (l : RateLimiter F) :
    (l.proposeNewRate x).proposedRate = x := rfl

@[simp] theorem proposeNewRate_timeFrameBegin (x : Ieee F) (l : RateLimiter F) :
    (l.proposeNewRate x).timeFrameBegin = l.timeFrameBegin := rfl

/-- Only `propose_new_rate` writes `proposed_rate`. -/
@[simp] theorem updateTimeFrame_proposedRate (now : ℤ) (l : RateLimiter F) :
    (l.updateTimeFrame now).2.proposedRate = l.proposedRate := by
  unfold updateTimeFrame
  dsimp only
  split_ifs <;> rfl

end RateLimiter

open RateLimiter

variable [FloorRing F]

/-- A turn of `storage_thread_main` on one queue at `now`: when the wait time
    is not positive, the task at the head of the queue, if any, is submitted
    and its cost `head` consumed. Whether a task was submitted, and the
    limiter. -/
def pollQueue (now : ℤ) (head : Option U64) (l : RateLimiter F) : Bool × RateLimiter F :=
  let r := l.checkWaitTime now
  if r.1 ≤ fin 0 then
    match head with
    | some cost => (true, r.2.consume cost)
    | none => (false, r.2)
  else (false, r.2)

/-- `network::wait_until_can_send()` at `now`, the thread waking at `wake`,
    then `network::consume(cost)`: `none` when `wake` comes before the end of
    the sleep of `wait_time` seconds. -/
def sendAfterWait (now wake : ℤ) (cost : U64) (l : RateLimiter F) : Option (RateLimiter F) :=
  let r := l.checkWaitTime now
  if now ≤ wake ∧ (fin 0 < r.1 → r.1 ≤ fin (toSec (wake - now))) then some (r.2.consume cost)
  else none

/-! ## The limiter with its clock -/

/-- A limiter, the time of the last event that read the clock, and the
    consumption that GET completions added to the current frame with no
    check. The last is an account of the model, not state of the program. -/
structure Clocked (F : Type) where
  clock : ℤ
  limiter : RateLimiter F
  unchecked : ℕ

/-- What happens to a limiter: a turn of the storage thread, a reply sent
    after its wait, a new rate from `HOPPER.RESRC.SET`, and the
    `rcu_rate_limiter.consume(t->rcu_cost() - 1)` of a GET whose read
    completes, in `storage::process_task_get` or `process_mock_dynamo`. -/
inductive Event (F : Type) where
  | poll (now : ℤ) (head : Option U64)
  | send (now wake : ℤ) (cost : U64)
  | propose (rate : Ieee F)
  | complete (cost : U64)

/-- The events whose checked costs are at most `cmax`. -/
def Event.fits (cmax : ℕ) : Event F → Bool
  | .poll _ head => head.all (·.val ≤ cmax)
  | .send _ _ cost => decide (cost.val ≤ cmax)
  | .propose _ | .complete _ => true

/-- The unchecked consumption that the frame of `l'` keeps from that of `l`:
    all of it in the same frame, none in a new one. -/
def carry (l l' : RateLimiter F) (u : ℕ) : ℕ :=
  if l'.timeFrameBegin = l.timeFrameBegin then u else 0

/-- The limiter as a transition system: the clock never goes back, and every
    checked cost is at most `cmax`. -/
def system (cmax : ℕ) : Transition.System (Clocked F) (Event F) where
  enabled s e := e.fits cmax && match e with
    | .poll now _ => decide (s.clock ≤ now)
    | .send now _ _ => decide (s.clock ≤ now)
    | .propose _ | .complete _ => true
  handle s e := match e with
    | .poll now head =>
      let l' := (pollQueue now head s.limiter).2
      some ⟨now, l', carry s.limiter l' s.unchecked⟩
    | .send now wake cost =>
      (sendAfterWait now wake cost s.limiter).map fun l' => ⟨wake, l', carry s.limiter l' s.unchecked⟩
    | .propose rate => some { s with limiter := s.limiter.proposeNewRate rate }
    | .complete cost =>
      some { s with limiter := s.limiter.consume cost, unchecked := s.unchecked + cost.val }

/-! ## Durations on the nanosecond grid -/

section Grid

variable [IsStrictOrderedRing F]

theorem timeFrameLenSec_eq : (timeFrameLenSec : F) = 37 / 100 := by
  unfold timeFrameLenSec
  norm_num

theorem toSec_eq (d : ℤ) : (toSec d : F) = d / 1000000000 := by
  unfold toSec
  norm_num

theorem toNanos_eq (x : F) : toNanos x = truncate (x * 1000000000) := by
  unfold toNanos
  norm_num

theorem toSec_nonneg {d : ℤ} (hd : 0 ≤ d) : (0 : F) ≤ toSec d := by
  rw [toSec_eq]
  exact div_nonneg (by exact_mod_cast hd) (by norm_num)

theorem toSec_add (d e : ℤ) : (toSec (d + e) : F) = toSec d + toSec e := by
  rw [toSec_eq, toSec_eq, toSec_eq]
  push_cast
  ring

theorem toSec_mono {d e : ℤ} (h : d ≤ e) : (toSec d : F) ≤ toSec e := by
  rw [toSec_eq, toSec_eq]
  exact div_le_div_of_nonneg_right (Int.cast_le.mpr h) (by norm_num)

/-- A frame has lasted `TIME_FRAME_LEN_SEC` once 370 ms have passed. -/
theorem timeFrameLenSec_le_toSec {d : ℤ} : (timeFrameLenSec : F) ≤ toSec d ↔ 370000000 ≤ d := by
  have h : (timeFrameLenSec : F) = toSec 370000000 := by
    rw [timeFrameLenSec_eq, toSec_eq]
    norm_num
  rw [h, toSec_eq, toSec_eq, div_le_div_iff_of_pos_right (by norm_num), Int.cast_le]

theorem toSec_lt_timeFrameLenSec {d : ℤ} (h : d < 370000000) : (toSec d : F) < timeFrameLenSec :=
  lt_of_not_ge fun h' => by
    have := timeFrameLenSec_le_toSec.mp h'
    omega

theorem truncate_intCast (z : ℤ) : truncate (z : F) = z := by
  unfold truncate
  split <;> simp

/-- On whole nanoseconds, `fmod` by `TIME_FRAME_LEN_SEC` is the remainder of
    the division by 370 ms, exactly. -/
theorem fmod_toSec {d : ℤ} (hd : 0 ≤ d) :
    fmod (toSec d : F) timeFrameLenSec = toSec (d % 370000000) := by
  have hdiv : (toSec d : F) / timeFrameLenSec = (d : F) / ((370000000 : ℕ) : F) := by
    rw [toSec_eq, timeFrameLenSec_eq]
    field_simp
    ring
  have hq : truncate ((toSec d : F) / timeFrameLenSec) = d / 370000000 := by
    rw [hdiv, truncate_of_nonneg (div_nonneg (by exact_mod_cast hd) (Nat.cast_nonneg _)),
      Int.floor_div_natCast, Int.floor_intCast]
    rfl
  unfold fmod
  rw [hq, Int.emod_def, toSec_eq, toSec_eq, timeFrameLenSec_eq]
  push_cast
  ring

/-- The truncation back to nanoseconds undoes the conversion to seconds. -/
theorem toNanos_toSec (d : ℤ) : toNanos (toSec d : F) = d := by
  rw [toNanos_eq, toSec_eq, div_mul_cancel₀ _ (by norm_num), truncate_intCast]

end Grid

/-! ## What one call does -/

/-- C++ `==` holds of equal values only. -/
theorem eq_of_equal {a b : Ieee F} (h : a.equal b = true) : a = b := by
  cases a <;> cases b <;> simp_all [Ieee.equal]

namespace RateLimiter

variable [IsStrictOrderedRing F] {now : ℤ} {l : RateLimiter F}

/-- `if (new_rate != rate) rate = new_rate;` leaves `new_rate` either way. -/
theorem assign_rate (l : RateLimiter F) (newRate : Ieee F) :
    (if !(newRate.equal l.rate) then { l with rate := newRate } else l) = { l with rate := newRate } := by
  cases h : newRate.equal l.rate
  case false => rfl
  case true =>
    rw [eq_of_equal h]
    simp

/-- What `update_time_frame` does: within a frame it returns the time since
    the frame began; once the frame has lasted 370 ms, the next frame begins
    at the last whole frame length before `now`, with no progress and the
    proposed rate. -/
theorem updateTimeFrame_cases (now : ℤ) (l : RateLimiter F) :
    (now - l.timeFrameBegin < 370000000 ∧
        l.updateTimeFrame now = (toSec (now - l.timeFrameBegin), l)) ∨
      (370000000 ≤ now - l.timeFrameBegin ∧
        l.updateTimeFrame now = (toSec ((now - l.timeFrameBegin) % 370000000),
          { l with
            timeFrameBegin := now - (now - l.timeFrameBegin) % 370000000
            timeFrameProgress := 0
            rate := l.proposedRate })) := by
  unfold updateTimeFrame
  dsimp only
  by_cases h : timeFrameLenSec ≤ (toSec (now - l.timeFrameBegin) : F)
  case pos =>
    -- a new frame
    have hd := timeFrameLenSec_le_toSec.mp h
    refine .inr ⟨hd, ?_⟩
    rw [if_pos h, fmod_toSec (by omega), toNanos_toSec]
    exact congrArg _ (assign_rate { l with
      timeFrameBegin := now - (now - l.timeFrameBegin) % 370000000
      timeFrameProgress := 0 } l.proposedRate)
  case neg =>
    have hd := mt timeFrameLenSec_le_toSec.mpr h
    exact .inl ⟨by omega, by rw [if_neg h]⟩

/-- The time that `update_time_frame` returns is the time since the frame it
    leaves began. -/
theorem updateTimeFrame_fst (now : ℤ) (l : RateLimiter F) :
    (l.updateTimeFrame now).1 = toSec (now - (l.updateTimeFrame now).2.timeFrameBegin) := by
  rcases updateTimeFrame_cases now l with ⟨-, h⟩ | ⟨-, h⟩
  · rw [h]
  · rw [h, sub_sub_cancel]

/-- The wait time at a finite, positive rate: the time the progress is worth,
    less the time since the frame began. -/
theorem checkWaitTime_fst {r : F} (hr : (l.updateTimeFrame now).2.rate = fin r) (hpos : 0 < r) :
    (l.checkWaitTime now).1 =
      fin (((l.updateTimeFrame now).2.timeFrameProgress.val : F) / r -
        toSec (now - (l.updateTimeFrame now).2.timeFrameBegin)) := by
  unfold checkWaitTime
  dsimp only
  rw [hr, ofNat_eq, fin_div_fin hpos.ne', ← updateTimeFrame_fst, fin_sub_fin]

end RateLimiter

namespace RateLimiter

variable [IsStrictOrderedRing F]

/-- The update keeps the rate, or takes the proposed one in a frame that
    begins later. -/
theorem updateTimeFrame_rate (now : ℤ) (l : RateLimiter F) :
    (l.updateTimeFrame now).2.rate = l.rate ∧
        (l.updateTimeFrame now).2.timeFrameBegin = l.timeFrameBegin ∨
      (l.updateTimeFrame now).2.rate = l.proposedRate ∧
        l.timeFrameBegin < (l.updateTimeFrame now).2.timeFrameBegin := by
  rcases updateTimeFrame_cases now l with ⟨-, h⟩ | ⟨hd, h⟩ <;> rw [h]
  · exact .inl ⟨rfl, rfl⟩
  · exact .inr ⟨rfl, by dsimp only; omega⟩

end RateLimiter

/-! ## The turns of the storage thread and the replies -/

section Callers

variable [IsStrictOrderedRing F] {now : ℤ} {l : RateLimiter F}

/-- At a finite, positive rate, a wait time of at most `δ` means a progress
    worth at most `δ` more than the time since the frame began. -/
theorem progress_le_of_wait_le {r δ : F} (hr : (l.updateTimeFrame now).2.rate = fin r)
    (hpos : 0 < r) (h : (l.checkWaitTime now).1 ≤ fin δ) :
    ((l.updateTimeFrame now).2.timeFrameProgress.val : F) ≤
      r * (toSec (now - (l.updateTimeFrame now).2.timeFrameBegin) + δ) := by
  rw [checkWaitTime_fst hr hpos, fin_le_fin, sub_le_iff_le_add, div_le_iff₀ hpos] at h
  linarith

/-- A turn of the storage thread updates the frame, and consumes nothing or
    the cost of the task it submits. -/
theorem pollQueue_snd (now : ℤ) (head : Option U64) (l : RateLimiter F) :
    (pollQueue now head l).2 = (l.updateTimeFrame now).2 ∨
      ∃ c, head = some c ∧ (l.checkWaitTime now).1 ≤ fin 0 ∧
        (pollQueue now head l).2 = (l.updateTimeFrame now).2.consume c := by
  unfold pollQueue
  dsimp only
  split
  case isTrue hw =>
    cases head with
    | none => exact .inl rfl
    | some c => exact .inr ⟨c, rfl, hw, rfl⟩
  case isFalse => exact .inl rfl

/-- A reply sent after its wait: the thread wakes no sooner than `now`, and
    no sooner than the wait time after it when that is positive. -/
theorem sendAfterWait_eq_some {wake : ℤ} {cost : U64} {l' : RateLimiter F}
    (h : sendAfterWait now wake cost l = some l') :
    now ≤ wake ∧ (fin 0 < (l.checkWaitTime now).1 → (l.checkWaitTime now).1 ≤ fin (toSec (wake - now))) ∧
      l' = (l.updateTimeFrame now).2.consume cost := by
  unfold sendAfterWait at h
  dsimp only at h
  split_ifs at h with hc
  cases h
  exact ⟨hc.1, hc.2, rfl⟩

theorem pollQueue_proposedRate (now : ℤ) (head : Option U64) (l : RateLimiter F) :
    (pollQueue now head l).2.proposedRate = l.proposedRate := by
  rcases pollQueue_snd now head l with h | ⟨c, -, -, h⟩ <;> simp [h]

theorem sendAfterWait_proposedRate {wake : ℤ} {cost : U64} {l' : RateLimiter F}
    (h : sendAfterWait now wake cost l = some l') : l'.proposedRate = l.proposedRate := by
  obtain ⟨-, -, rfl⟩ := sendAfterWait_eq_some h
  simp

/-- The rate after a turn of the storage thread: the proposed one once the
    frame has lasted 370 ms, the old one before. -/
theorem pollQueue_rate (now : ℤ) (head : Option U64) (l : RateLimiter F) :
    (pollQueue now head l).2.rate =
      if 370000000 ≤ now - l.timeFrameBegin then l.proposedRate else l.rate := by
  have hu : (pollQueue now head l).2.rate = (l.updateTimeFrame now).2.rate := by
    rcases pollQueue_snd now head l with h | ⟨c, -, -, h⟩ <;> simp [h]
  rw [hu]
  rcases updateTimeFrame_cases now l with ⟨hd, h⟩ | ⟨hd, h⟩ <;> rw [h]
  · rw [if_neg (by omega)]
  · rw [if_pos hd]

end Callers

/-! ## The invariant -/

section Invariant

variable [IsStrictOrderedRing F] {cmax : ℕ} {start : ℤ}

/-- The progress of the frame is at most what the rate allows for the time
    since the frame began, plus `cmax`, plus the unchecked consumption of the
    frame, when the rate is finite and positive. -/
def Throttled (cmax : ℕ) (s : Clocked F) : Prop :=
  ∀ r, s.limiter.rate = fin r → 0 < r →
    (s.limiter.timeFrameProgress.val : F) ≤
      r * toSec (s.clock - s.limiter.timeFrameBegin) + cmax + s.unchecked

/-- What every state of a limiter created at `start` keeps: its frame began
    on the grid of 370 ms from `start` and not after the clock, and it is
    throttled. -/
structure Inv (cmax : ℕ) (start : ℤ) (s : Clocked F) : Prop where
  grid : ∃ k : ℕ, s.limiter.timeFrameBegin = start + k * 370000000
  le_clock : s.limiter.timeFrameBegin ≤ s.clock
  throttled : Throttled cmax s

theorem inv_new (r₀ : Ieee F) (start : ℤ) : Inv cmax start ⟨start, RateLimiter.new r₀ start, 0⟩ where
  grid := ⟨0, by simp [RateLimiter.new]⟩
  le_clock := le_rfl
  throttled _ _ _ := by simp [RateLimiter.new, toSec_eq]

/-- `consume` adds to the progress, or wraps it to less. -/
theorem consume_progress_le (c : U64) (l : RateLimiter F) :
    ((l.consume c).timeFrameProgress.val : F) ≤ l.timeFrameProgress.val + c.val := by
  have h : (l.consume c).timeFrameProgress.val ≤ l.timeFrameProgress.val + c.val := by
    simp only [RateLimiter.consume, Fin.val_add]
    exact Nat.mod_le _ _
  exact_mod_cast h

@[simp] theorem consume_timeFrameBegin (c : U64) (l : RateLimiter F) :
    (l.consume c).timeFrameBegin = l.timeFrameBegin := rfl

/-- A consumption leaves the frame, and so what the frame keeps of the
    unchecked consumption. -/
@[simp] theorem carry_consume (l l' : RateLimiter F) (c : U64) (u : ℕ) :
    carry l (l'.consume c) u = carry l l' u := rfl

/-- The update at `now ≥ clock` keeps the invariant with the clock at `now`,
    and leaves a frame that began less than 370 ms before `now`. -/
theorem Inv.update {s : Clocked F} (hs : Inv cmax start s) {now : ℤ} (hnow : s.clock ≤ now) :
    Inv cmax start ⟨now, (s.limiter.updateTimeFrame now).2,
        carry s.limiter (s.limiter.updateTimeFrame now).2 s.unchecked⟩ ∧
      now - (s.limiter.updateTimeFrame now).2.timeFrameBegin < 370000000 := by
  obtain ⟨k, hk⟩ := hs.grid
  have hle := hs.le_clock
  rcases updateTimeFrame_cases now s.limiter with ⟨hd, h⟩ | ⟨hd, h⟩
  case inl =>
    -- the same frame, later, with the same unchecked consumption
    rw [h, carry, if_pos rfl]
    refine ⟨⟨⟨k, hk⟩, by dsimp only; omega, fun r hr hpos => ?_⟩, hd⟩
    calc _ ≤ r * toSec (s.clock - s.limiter.timeFrameBegin) + cmax + s.unchecked :=
          hs.throttled r hr hpos
      _ ≤ r * toSec (now - s.limiter.timeFrameBegin) + cmax + s.unchecked := by
        gcongr
        exact toSec_mono (by omega)
  case inr =>
    -- a new frame, a whole number of frame lengths after the old one
    rw [h]
    refine ⟨⟨⟨k + ((now - s.limiter.timeFrameBegin) / 370000000).toNat, ?_⟩, ?_,
      fun r _ hpos => ?_⟩, ?_⟩
    · dsimp only
      push_cast
      omega
    · dsimp only
      omega
    · have hsec : (0 : F) ≤ toSec (now - (now - (now - s.limiter.timeFrameBegin) % 370000000)) :=
        toSec_nonneg (by omega)
      simp only [Fin.val_zero, Nat.cast_zero]
      positivity
    · dsimp only
      omega

/-- Consuming at most `cmax` at the clock `t' ≥ t` keeps the invariant when
    the progress is worth at most the time from the beginning of the frame to
    `t'`. -/
theorem Inv.consume {t t' : ℤ} {l : RateLimiter F} {u : ℕ} (hs : Inv cmax start ⟨t, l, u⟩)
    (ht : t ≤ t') {c : U64} (hc : c.val ≤ cmax)
    (hwait : ∀ r, l.rate = fin r → 0 < r →
      (l.timeFrameProgress.val : F) ≤ r * toSec (t' - l.timeFrameBegin)) :
    Inv cmax start ⟨t', l.consume c, u⟩ := by
  refine ⟨hs.grid, le_trans hs.le_clock ht, fun r hr hpos => ?_⟩
  have hc' : (c.val : F) ≤ cmax := by exact_mod_cast hc
  have hu : (0 : F) ≤ u := Nat.cast_nonneg u
  calc ((l.consume c).timeFrameProgress.val : F) ≤ l.timeFrameProgress.val + c.val :=
        consume_progress_le c l
    _ ≤ r * toSec (t' - l.timeFrameBegin) + cmax + u := by linarith [hwait r hr hpos]

/-- The consumption of a completed GET keeps the invariant: it is counted
    among the unchecked consumption of the frame. -/
theorem Inv.complete {s : Clocked F} (hs : Inv cmax start s) (c : U64) :
    Inv cmax start ⟨s.clock, s.limiter.consume c, s.unchecked + c.val⟩ := by
  refine ⟨hs.grid, hs.le_clock, fun r hr hpos => ?_⟩
  calc ((s.limiter.consume c).timeFrameProgress.val : F) ≤ s.limiter.timeFrameProgress.val + c.val :=
        consume_progress_le c s.limiter
    _ ≤ r * toSec (s.clock - s.limiter.timeFrameBegin) + cmax + s.unchecked + c.val := by
        linarith [hs.throttled r hr hpos]
    _ = _ := by
        simp only [consume_timeFrameBegin, Nat.cast_add]
        ring

/-- A turn of the storage thread keeps the invariant, and leaves the clock in
    the frame. -/
theorem Inv.poll {s : Clocked F} (hs : Inv cmax start s) {now : ℤ} (hnow : s.clock ≤ now)
    {head : Option U64} (hhead : head.all (·.val ≤ cmax) = true) :
    Inv cmax start ⟨now, (pollQueue now head s.limiter).2,
        carry s.limiter (pollQueue now head s.limiter).2 s.unchecked⟩ ∧
      now - (pollQueue now head s.limiter).2.timeFrameBegin < 370000000 := by
  obtain ⟨hu, hframe⟩ := hs.update hnow
  rcases pollQueue_snd now head s.limiter with h | ⟨c, rfl, hw, h⟩
  · rw [h]
    exact ⟨hu, hframe⟩
  · -- a submitted task: the limiter permitted, so its progress was within the rate
    rw [h, carry_consume]
    refine ⟨hu.consume le_rfl (by simpa using hhead) fun r hr hpos => ?_, hframe⟩
    simpa using progress_le_of_wait_le hr hpos hw

/-- A reply sent after its wait keeps the invariant, with the clock at the
    time the thread wakes. -/
theorem Inv.send {s : Clocked F} (hs : Inv cmax start s) {now wake : ℤ} (hnow : s.clock ≤ now)
    {cost : U64} (hc : cost.val ≤ cmax) {l' : RateLimiter F}
    (h : sendAfterWait now wake cost s.limiter = some l') :
    Inv cmax start ⟨wake, l', carry s.limiter l' s.unchecked⟩ := by
  obtain ⟨hu, -⟩ := hs.update hnow
  obtain ⟨hwake, hsleep, rfl⟩ := sendAfterWait_eq_some h
  rw [carry_consume]
  refine hu.consume hwake hc fun r hr hpos => ?_
  have hδ : (0 : F) ≤ toSec (wake - now) := toSec_nonneg (by omega)
  have hsplit : (toSec (wake - (s.limiter.updateTimeFrame now).2.timeFrameBegin) : F) =
      toSec (now - (s.limiter.updateTimeFrame now).2.timeFrameBegin) + toSec (wake - now) := by
    rw [← toSec_add]
    congr 1
    ring
  rw [hsplit]
  by_cases hpos' : fin 0 < (s.limiter.checkWaitTime now).1
  case pos =>
    -- the thread slept the wait time
    exact progress_le_of_wait_le hr hpos (hsleep hpos')
  case neg =>
    -- no sleep: the limiter permitted already
    have hw : (s.limiter.checkWaitTime now).1 ≤ fin 0 := by
      rw [checkWaitTime_fst hr hpos, fin_le_fin]
      rw [checkWaitTime_fst hr hpos, fin_lt_fin] at hpos'
      exact le_of_not_gt hpos'
    have := progress_le_of_wait_le hr hpos hw
    nlinarith

/-- One step of the system keeps the invariant. -/
theorem Inv.step {s s' : Clocked F} (hs : Inv cmax start s) (h : (system cmax).Step s s') :
    Inv cmax start s' := by
  obtain ⟨e, he, hh⟩ := h
  cases e with
  | poll now head =>
    simp only [system, Event.fits, Bool.and_eq_true, decide_eq_true_eq] at he
    cases hh
    exact (hs.poll he.2 he.1).1
  | send now wake cost =>
    simp only [system, Event.fits, Bool.and_eq_true, decide_eq_true_eq] at he
    obtain ⟨l', hl', rfl⟩ := Option.map_eq_some_iff.mp hh
    exact hs.send he.2 he.1 hl'
  | propose rate =>
    cases hh
    exact ⟨hs.grid, hs.le_clock, hs.throttled⟩
  | complete cost =>
    cases hh
    exact hs.complete cost

end Invariant

/-! ## Over every run -/

section Runs

variable [IsStrictOrderedRing F]

/-- Every state that a limiter created at `start` reaches under turns of the
    storage thread, replies sent after their wait, new rates and GET
    completions, with every checked cost at most `cmax`, keeps `Inv`: its
    frame began on the grid of 370 ms from `start` and not after the clock,
    and the progress of the frame is at most the rate times the time since
    the frame began, plus `cmax`, plus what completions consumed in the
    frame. -/
theorem limiter_throttled (cmax : ℕ) (r₀ : Ieee F) (start : ℤ) {s : Clocked F}
    (hs : (system cmax).Reachable ⟨start, RateLimiter.new r₀ start, 0⟩ s) : Inv cmax start s :=
  Transition.System.Reachable.inv (Inv cmax start) (inv_new r₀ start)
    (fun _ _ e _ hinv he hh => hinv.step ⟨e, he, hh⟩) hs

/-- Within a frame the storage thread admits less than the rate allows for
    the whole frame, plus `cmax`, beyond what completions consumed: after any
    turn from a reachable state, the progress of the frame is below the rate
    times 0.37 s, plus `cmax`, plus the unchecked consumption of the frame. -/
theorem poll_frame_bound (cmax : ℕ) (r₀ : Ieee F) (start : ℤ) {s : Clocked F}
    (hs : (system cmax).Reachable ⟨start, RateLimiter.new r₀ start, 0⟩ s) {now : ℤ}
    (hnow : s.clock ≤ now) {head : Option U64} (hhead : head.all (·.val ≤ cmax) = true) {r : F}
    (hr : (pollQueue now head s.limiter).2.rate = fin r) (hpos : 0 < r) :
    ((pollQueue now head s.limiter).2.timeFrameProgress.val : F) <
      r * timeFrameLenSec + cmax + carry s.limiter (pollQueue now head s.limiter).2 s.unchecked := by
  obtain ⟨hinv, hframe⟩ := (limiter_throttled cmax r₀ start hs).poll hnow hhead
  calc _ ≤ r * toSec (now - (pollQueue now head s.limiter).2.timeFrameBegin) + cmax +
          carry s.limiter (pollQueue now head s.limiter).2 s.unchecked :=
        hinv.throttled r hr hpos
    _ < _ := by
        gcongr
        exact toSec_lt_timeFrameLenSec hframe

/-- A completion may take the progress past the rate times 0.37 s plus one
    request: at the rate 1000, a GET submitted at once and completed for 380
    more read units leaves a progress of 381, above 371. -/
example :
    ((system 1).run ⟨0, RateLimiter.new (fin (1000 : ℚ)) 0, 0⟩ [.poll 0 (some 1), .complete 380]).map
      (fun s => (s.limiter.timeFrameProgress, s.unchecked)) = some (381, 380) := by
  decide +kernel

/-- A new rate takes effect only when a frame begins: a step that changes the
    rate sets it to the rate proposed before, in a frame that begins later
    than the one before. -/
theorem step_rate {cmax : ℕ} {s s' : Clocked F} (h : (system cmax).Step s s')
    (hne : s'.limiter.rate ≠ s.limiter.rate) :
    s'.limiter.rate = s.limiter.proposedRate ∧
      s.limiter.timeFrameBegin < s'.limiter.timeFrameBegin := by
  obtain ⟨e, -, hh⟩ := h
  -- what the event leaves of the update: its rate and its frame
  have hframe : ∀ {now : ℤ} {l' : RateLimiter F},
      l'.rate = (s.limiter.updateTimeFrame now).2.rate →
      l'.timeFrameBegin = (s.limiter.updateTimeFrame now).2.timeFrameBegin →
      l'.rate ≠ s.limiter.rate →
      l'.rate = s.limiter.proposedRate ∧ s.limiter.timeFrameBegin < l'.timeFrameBegin :=
    fun hr hb hne' => by
      rw [hr, hb]
      rw [hr] at hne'
      rcases RateLimiter.updateTimeFrame_rate _ s.limiter with h' | h'
      · exact absurd h'.1 hne'
      · exact h'
  cases e with
  | poll now head =>
    cases hh
    rcases pollQueue_snd now head s.limiter with h' | ⟨c, -, -, h'⟩ <;> rw [h'] at hne ⊢
    · exact hframe rfl rfl hne
    · exact hframe rfl rfl hne
  | send now wake cost =>
    obtain ⟨l', hl', rfl⟩ := Option.map_eq_some_iff.mp hh
    obtain ⟨-, -, rfl⟩ := sendAfterWait_eq_some hl'
    exact hframe rfl rfl hne
  | propose rate =>
    cases hh
    exact absurd rfl hne
  | complete cost =>
    cases hh
    exact absurd rfl hne

end Runs

end Hopper.Rate
