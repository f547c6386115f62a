-- SUMMARY: The controller's ResrcStat (resrc.py): a snapshot of a tenant's HOPPER.STATS counters, ghost lists and time.perf_counter() timestamp, its padded fieldwise sum and difference with their binary64 durations, is_valid, and functools.reduce, with the Python exceptions they raise.
import HopperKV.Lib.Pad
import HopperKV.Lib.Binary64
import HopperKV.Module.Ghost

/-!
# `ResrcStat`

The controller polls each tenant's `HOPPER.STATS` and keeps the reply, with
the clock's reading, as a `ResrcStat`. The difference of two snapshots is the
statistics of the epoch between them, and the sum of a window of epochs is
what a curve is computed from. Both are fieldwise. The ghost lists are
combined by `ResrcStat.zip_pad`, which pads the shorter list with its last
element (`Pad.zipWithPad`); a `None` on either side gives `None`. The
difference takes the difference of the timestamps as its duration and the
sum adds the durations, as Python `float`s, so each rounds to binary64.

Python exceptions are `Except String` errors that carry the exception's
name, since the controller does not catch them.
-/

namespace Controller

open Hopper

/-- `IndexError` of `lst[-1]` or `lst[0]` on an empty list. -/
def indexError : String := "IndexError: list index out of range"

/-- `TypeError` of `functools.reduce` on an empty iterable. -/
def reduceError : String := "TypeError: reduce() of empty iterable with no initial value"

/-- A Python computation that returned: every step before it returned. -/
theorem bind_eq_ok {α β : Type} {x : Except String α} {f : α → Except String β} {b : β} :
    (x >>= f) = .ok b ↔ ∃ a, x = .ok a ∧ f a = .ok b := by
  cases x with
  | error e =>
    constructor
    · intro h
      cases h
    · rintro ⟨_, h, _⟩
      cases h
  | ok a =>
    constructor
    · intro h
      exact ⟨a, rfl, h⟩
    · rintro ⟨_, h, hf⟩
      cases h
      exact hf

/-- A step that returned hands its value to the rest. -/
@[simp] theorem ok_bind {α β : Type} (a : α) (f : α → Except String β) : (Except.ok a >>= f) = f a := rfl

@[simp] theorem pure_eq_ok {α : Type} (a : α) : (pure a : Except String α) = .ok a := rfl

/-- What `h` reads of the results of a successful `mapM` is what `g` reads of
    the inputs, when `h` reads `g` of every result of `f`. -/
theorem map_of_mapM_eq_ok {α β γ : Type} {f : α → Except String β} {h : β → γ} {g : α → γ}
    (hfg : ∀ a b, f a = .ok b → h b = g a) :
    ∀ {l : List α} {r : List β}, l.mapM f = .ok r → r.map h = l.map g
  | [], r, hl => by
    cases hl
    rfl
  | a :: l, r, hl => by
    rw [List.mapM_cons] at hl
    obtain ⟨b, hb, hl⟩ := bind_eq_ok.mp hl
    obtain ⟨bs, hbs, hl⟩ := bind_eq_ok.mp hl
    cases hl
    rw [List.map_cons, List.map_cons, hfg a b hb, map_of_mapM_eq_ok hfg hbs]

/-- A successful `mapM` is a `map` by a function that `f` agrees with. -/
theorem mapM_eq_ok_map {α β : Type} {f : α → Except String β} {g : α → β}
    (hfg : ∀ a b, f a = .ok b → b = g a) {l : List α} {r : List β} (hl : l.mapM f = .ok r) :
    r = l.map g := by
  simpa only [List.map_id] using map_of_mapM_eq_ok (h := id) hfg hl

/-- `ResrcStat`. The timestamp and the duration are `float`s. -/
structure ResrcStat where
  timestamp : Option (Ieee ℚ)
  duration : Option (Ieee ℚ)
  ghostHitCnt : Option (List ℤ)
  ghostMissCnt : Option (List ℤ)
  reqCnt : ℤ
  hitCnt : ℤ
  missCnt : ℤ
  dbRcuConsumpIfMiss : ℤ
  netBwConsumpIfMiss : ℤ
  netBwConsumpIfHit : ℤ
  dbRcuConsump : ℤ
  dbWcuConsump : ℤ
  netBwConsump : ℤ
  deriving DecidableEq

namespace ResrcStat

/-- `ResrcStat()`: no timestamp, duration or ghost lists, every counter zero. -/
def empty : ResrcStat := ⟨none, none, none, none, 0, 0, 0, 0, 0, 0, 0, 0, 0⟩

/-- The snapshot that `Tenant.poll` builds from a reply, with the timestamp
    `now = time.perf_counter()` that it then sets. -/
def ofReply (r : StatsReply) (now : Ieee ℚ) : ResrcStat :=
  let (hit, miss) := match r.ghost with
    | .null => (none, none)
    | .lists _ hit miss => (some hit, some miss)
  ⟨some now, none, hit, miss, r.counters.reqCnt, r.counters.hitCnt, r.counters.missCnt,
    r.counters.dbRcuConsumpIfMiss, r.counters.netBwConsumpIfMiss, r.counters.netBwConsumpIfHit,
    r.counters.dbRcuConsump, r.counters.dbWcuConsump, r.counters.netBwConsump⟩

/-- A ghost list of `__add__` or `__sub__`: `None` when either side is, else
    the padded elementwise operation. -/
def ghostOp (op : ℤ → ℤ → ℤ) : Option (List ℤ) → Option (List ℤ) → Except String (Option (List ℤ))
  | some l, some r =>
    match Pad.zipWithPad op l r with
    | some ps => .ok (some ps)
    | none => .error indexError
  | _, _ => .ok none

/-- The fieldwise operation that `__add__` and `__sub__` both are, with the
    duration that each computes in its own way; the timestamp is `None`. -/
def combine (op : ℤ → ℤ → ℤ) (duration : Option (Ieee ℚ)) (a b : ResrcStat) :
    Except String ResrcStat := do
  let hit ← ghostOp op a.ghostHitCnt b.ghostHitCnt
  let miss ← ghostOp op a.ghostMissCnt b.ghostMissCnt
  pure ⟨none, duration, hit, miss, op a.reqCnt b.reqCnt, op a.hitCnt b.hitCnt, op a.missCnt b.missCnt,
    op a.dbRcuConsumpIfMiss b.dbRcuConsumpIfMiss, op a.netBwConsumpIfMiss b.netBwConsumpIfMiss,
    op a.netBwConsumpIfHit b.netBwConsumpIfHit, op a.dbRcuConsump b.dbRcuConsump,
    op a.dbWcuConsump b.dbWcuConsump, op a.netBwConsump b.netBwConsump⟩

/-- The duration of `__add__`: the `float` sum of two durations, `None` when
    either is. -/
def addDurations (d d' : Option (Ieee ℚ)) : Option (Ieee ℚ) := do
  let x ← d
  let y ← d'
  pure (Binary64.rnd (x + y))

/-- The duration of `b - a`: the `float` difference of the timestamps, `None`
    when either is. -/
def elapsed (a b : ResrcStat) : Option (Ieee ℚ) := do
  let x ← b.timestamp
  let y ← a.timestamp
  pure (Binary64.rnd (x - y))

/-- `ResrcStat.__add__`: the durations add up. -/
def add (a b : ResrcStat) : Except String ResrcStat :=
  combine (· + ·) (addDurations a.duration b.duration) a b

/-- `ResrcStat.__sub__`: the duration is the difference of the timestamps. -/
def sub (a b : ResrcStat) : Except String ResrcStat :=
  combine (· - ·) (elapsed b a) a b

/-- `ResrcStat.is_valid`: `and` stops at the first `None`, and `[0]` of an
    empty list raises. -/
def isValid (s : ResrcStat) : Except String Bool :=
  match s.ghostHitCnt, s.ghostMissCnt with
  | some hit, some miss =>
    match hit.head?, miss.head? with
    | some h, some m => .ok (decide (0 < h + m))
    | _, _ => .error indexError
  | _, _ => .ok false

end ResrcStat

/-- `functools.reduce(f, xs)` with no initial value. -/
def reduce {α : Type} (f : α → α → Except String α) : List α → Except String α
  | [] => .error reduceError
  | x :: xs => xs.foldlM f x

/-! ## The ghost lists of a combination -/

namespace ResrcStat

theorem ghostOp_eq_ok {op : ℤ → ℤ → ℤ} {a b r : Option (List ℤ)} (h : ghostOp op a b = .ok r) :
    r = none ∨ ∃ l r' ps, a = some l ∧ b = some r' ∧ Pad.zipWithPad op l r' = some ps ∧ r = some ps := by
  unfold ghostOp at h
  split at h
  · rename_i l r'
    split at h
    · rename_i ps hps
      cases h
      exact .inr ⟨l, r', ps, rfl, rfl, hps, rfl⟩
    · cases h
  · cases h
    exact .inl rfl

/-- The ghost lists, the counters and the duration that a combination
    computes. -/
theorem combine_eq_ok {op : ℤ → ℤ → ℤ} {d : Option (Ieee ℚ)} {a b s : ResrcStat}
    (h : combine op d a b = .ok s) :
    ghostOp op a.ghostHitCnt b.ghostHitCnt = .ok s.ghostHitCnt ∧
      ghostOp op a.ghostMissCnt b.ghostMissCnt = .ok s.ghostMissCnt ∧
      s.reqCnt = op a.reqCnt b.reqCnt ∧ s.duration = d := by
  simp only [combine, bind, Except.bind] at h
  split at h
  · cases h
  · rename_i hit hhit
    split at h
    · cases h
    · rename_i miss hmiss
      cases h
      exact ⟨hhit, hmiss, rfl, rfl⟩

theorem isValid_eq_ok_true {s : ResrcStat} (h : s.isValid = .ok true) :
    ∃ hit miss h₀ m₀, s.ghostHitCnt = some hit ∧ s.ghostMissCnt = some miss ∧
      hit.head? = some h₀ ∧ miss.head? = some m₀ ∧ 0 < h₀ + m₀ := by
  unfold isValid at h
  split at h
  · rename_i hit miss hh hm
    split at h
    · rename_i h₀ m₀ hh₀ hm₀
      simp only [Except.ok.injEq, decide_eq_true_eq] at h
      exact ⟨hit, miss, h₀, m₀, hh, hm, hh₀, hm₀, h⟩
    · cases h
  · cases h

end ResrcStat

/-- A property of the start and of every element that `f` keeps holds of
    a successful fold. -/
theorem foldlM_inv {α : Type} {f : α → α → Except String α} (P : α → Prop)
    (hf : ∀ a b c, P a → P b → f a b = .ok c → P c) :
    ∀ {xs : List α} {acc r : α}, P acc → (∀ x ∈ xs, P x) → xs.foldlM f acc = .ok r → P r
  | [], acc, r, hacc, _, h => by
    cases h
    exact hacc
  | x :: xs, acc, r, hacc, hxs, h => by
    rw [List.foldlM_cons] at h
    obtain ⟨c, h₁, h₂⟩ := bind_eq_ok.mp h
    exact foldlM_inv P hf (hf _ _ _ hacc (hxs x List.mem_cons_self) h₁)
      (fun y hy => hxs y (List.mem_cons_of_mem _ hy)) h₂

/-- A property that every element has, and that `f` keeps, holds of a
    successful reduction. -/
theorem reduce_inv {α : Type} {f : α → α → Except String α} (P : α → Prop)
    (hf : ∀ a b c, P a → P b → f a b = .ok c → P c) {xs : List α} {r : α}
    (hxs : ∀ x ∈ xs, P x) (h : reduce f xs = .ok r) : P r := by
  cases xs with
  | nil => cases h
  | cons x xs =>
    exact foldlM_inv P hf (hxs x List.mem_cons_self)
      (fun y hy => hxs y (List.mem_cons_of_mem _ hy)) h

end Controller
