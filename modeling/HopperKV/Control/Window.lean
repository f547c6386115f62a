-- SUMMARY: The sum of a window of epochs (resrc.py, tenant.py): the epochs between consecutive snapshots add up, on every counter and on the padded ghost lists read as functions, to the last snapshot minus the first, while the duration is the float sum of the rounded differences of the timestamps, which need not be the difference of the first and last; post polls alone keep a window that sums so, and a prev poll in between breaks it.
import HopperKV.Control.CurveSound
import Mathlib.Tactic.Ring

/-!
# Epochs telescope

`poll_post_snapshot` subtracts consecutive snapshots and adds up the last
`smooth_window` differences. On the counters both operations are fieldwise,
so a sum of differences of consecutive snapshots is the difference of the
last and the first. On the ghost lists they pad the shorter list with its
last element; read as functions that repeat their last element (`Pad.ext`),
padded lists add and subtract pointwise, so the same holds of the functions,
and the sum is as long as the longest list in between
(`window_sum_telescopes`). The duration is a sum of `float` differences of
timestamps, rounded at each step (`durationSum`): it need not be the
difference of the last timestamp and the first (`window_duration_drifts`).

A tenant's window is such a sum when its epochs come from consecutive
snapshots (`Tenant.WindowFrom`), and post polls keep this
(`post_polls_window_sum`). A prev poll replaces the stored snapshot but keeps
the window, and the controller polls prev before every allocation, so with a
window of two epochs the sum skips an interval (`window_sum_skips_prev_poll`).
-/

namespace Controller

open Hopper Ieee

/-- The nine counters of a snapshot. -/
def ResrcStat.counters (s : ResrcStat) : ResrcCounters :=
  ⟨s.reqCnt, s.hitCnt, s.missCnt, s.dbRcuConsumpIfMiss, s.netBwConsumpIfMiss, s.netBwConsumpIfHit,
    s.dbRcuConsump, s.dbWcuConsump, s.netBwConsump⟩

/-- A fieldwise operation on counters. -/
def zipCounters (op : ℤ → ℤ → ℤ) (a b : ResrcCounters) : ResrcCounters :=
  ⟨op a.reqCnt b.reqCnt, op a.hitCnt b.hitCnt, op a.missCnt b.missCnt,
    op a.dbRcuConsumpIfMiss b.dbRcuConsumpIfMiss, op a.netBwConsumpIfMiss b.netBwConsumpIfMiss,
    op a.netBwConsumpIfHit b.netBwConsumpIfHit, op a.dbRcuConsump b.dbRcuConsump,
    op a.dbWcuConsump b.dbWcuConsump, op a.netBwConsump b.netBwConsump⟩

/-- A ghost list read as a function that repeats its last element. -/
def ghostExt (o : Option (List ℤ)) : ℕ → ℤ := Pad.ext (o.getD [])

/-- The length of a ghost list. -/
def ghostLen (o : Option (List ℤ)) : ℕ := (o.getD []).length

/-- A snapshot with two non-empty ghost lists, as a reply with a curve gives. -/
structure ResrcStat.Complete (s : ResrcStat) : Prop where
  hit : ∃ l, s.ghostHitCnt = some l ∧ l ≠ []
  miss : ∃ l, s.ghostMissCnt = some l ∧ l ≠ []

/-- The epochs between consecutive snapshots: `[s[i + 1] - s[i] for i in range(n)]`. -/
def epochs (ss : List ResrcStat) : Except String (List ResrcStat) :=
  (ss.zip ss.tail).mapM fun p => p.2.sub p.1

/-- The longest ghost list that `g` reads among the snapshots. -/
def maxGhostLen (g : ResrcStat → Option (List ℤ)) (ss : List ResrcStat) : ℕ :=
  (ss.map fun s => ghostLen (g s)).foldr max 0

@[simp] theorem maxGhostLen_nil (g : ResrcStat → Option (List ℤ)) : maxGhostLen g [] = 0 := rfl

@[simp] theorem maxGhostLen_cons (g : ResrcStat → Option (List ℤ)) (s : ResrcStat) (ss : List ResrcStat) :
    maxGhostLen g (s :: ss) = max (ghostLen (g s)) (maxGhostLen g ss) := rfl

/-- The duration that the sum of the epochs between consecutive snapshots
    computes: the `float` differences of consecutive timestamps, added up from
    the first epoch on; `None` without an epoch. -/
def durationSum (ss : List ResrcStat) : Option (Ieee ℚ) :=
  match (ss.zip ss.tail).map fun p => ResrcStat.elapsed p.1 p.2 with
  | [] => none
  | d :: ds => ds.foldl ResrcStat.addDurations d

@[simp] theorem epochs_singleton (s : ResrcStat) : epochs [s] = .ok [] := rfl

theorem epochs_cons_cons (a b : ResrcStat) (ss : List ResrcStat) :
    epochs (a :: b :: ss) = (b.sub a >>= fun e => epochs (b :: ss) >>= fun es => pure (e :: es)) := by
  simp only [epochs, List.tail_cons, List.zip_cons_cons, List.mapM_cons]

namespace ResrcStat

/-! ## One combination -/

/-- A padded operation on two non-empty lists: defined, non-empty, as long as
    the longer list, and pointwise on the functions. -/
theorem ghostOp_some (op : ℤ → ℤ → ℤ) {l r : List ℤ} (hl : l ≠ []) (hr : r ≠ []) :
    ∃ ps, ghostOp op (some l) (some r) = .ok (some ps) ∧ ps ≠ [] ∧
      (∀ i, Pad.ext ps i = op (Pad.ext l i) (Pad.ext r i)) ∧ ps.length = max l.length r.length := by
  have hz := Pad.zipWithPad_eq hl hr op
  refine ⟨_, by simp only [ghostOp, hz], ?_, Pad.ext_zipWithPad hl hr hz, Pad.length_of_zipWithPad hl hr hz⟩
  -- the longer list is not empty, and neither is the result
  have hpos : 0 < max l.length r.length :=
    Nat.lt_of_lt_of_le (List.length_pos_iff.mpr hl) (Nat.le_max_left _ _)
  intro hnil
  have := congrArg List.length hnil
  simp only [List.length_map, List.length_range, List.length_nil] at this
  omega

/-- A combination whose two ghost operations succeed. -/
theorem combine_of_ghostOp {op : ℤ → ℤ → ℤ} {d : Option (Ieee ℚ)} {a b : ResrcStat}
    {hit miss : Option (List ℤ)} (hhit : ghostOp op a.ghostHitCnt b.ghostHitCnt = .ok hit)
    (hmiss : ghostOp op a.ghostMissCnt b.ghostMissCnt = .ok miss) :
    ∃ s, combine op d a b = .ok s ∧ s.counters = zipCounters op a.counters b.counters ∧
      s.ghostHitCnt = hit ∧ s.ghostMissCnt = miss := by
  refine ⟨⟨none, d, hit, miss, op a.reqCnt b.reqCnt, op a.hitCnt b.hitCnt, op a.missCnt b.missCnt,
    op a.dbRcuConsumpIfMiss b.dbRcuConsumpIfMiss, op a.netBwConsumpIfMiss b.netBwConsumpIfMiss,
    op a.netBwConsumpIfHit b.netBwConsumpIfHit, op a.dbRcuConsump b.dbRcuConsump,
    op a.dbWcuConsump b.dbWcuConsump, op a.netBwConsump b.netBwConsump⟩, ?_, rfl, rfl, rfl⟩
  simp only [combine, hhit, hmiss, ok_bind, pure_eq_ok]

end ResrcStat

/-! ## The duration of the sum -/

/-- The durations of the epochs are the `float` differences of consecutive
    timestamps. -/
theorem epochs_map_duration {ss es : List ResrcStat} (h : epochs ss = .ok es) :
    es.map ResrcStat.duration = (ss.zip ss.tail).map fun p => ResrcStat.elapsed p.1 p.2 :=
  map_of_mapM_eq_ok (fun _ _ he => (ResrcStat.combine_eq_ok he).2.2.2) h

/-- Adding epochs to a sum adds their durations, one `float` addition each. -/
theorem foldlM_add_duration : ∀ {es : List ResrcStat} {acc r : ResrcStat},
    es.foldlM ResrcStat.add acc = .ok r →
      r.duration = (es.map ResrcStat.duration).foldl ResrcStat.addDurations acc.duration
  | [], acc, r, h => by
    cases h
    rfl
  | e :: es, acc, r, h => by
    rw [List.foldlM_cons] at h
    obtain ⟨c, hc, h⟩ := bind_eq_ok.mp h
    rw [foldlM_add_duration h, (ResrcStat.combine_eq_ok hc).2.2.2, List.map_cons, List.foldl_cons]

/-- The duration of the sum of the epochs between consecutive snapshots is
    `durationSum`. -/
theorem duration_of_reduce_epochs {ss : List ResrcStat} {sum : ResrcStat}
    (h : (epochs ss >>= reduce ResrcStat.add) = .ok sum) : sum.duration = durationSum ss := by
  obtain ⟨es, hes, hsum⟩ := bind_eq_ok.mp h
  unfold durationSum
  rw [← epochs_map_duration hes]
  cases es with
  | nil => cases hsum
  | cons e es => exact foldlM_add_duration hsum

/-! ## The sum of the epochs -/

/-- What the sum of the epochs from `s₀` to `s` holds: the counters of
    `s - s₀`, and ghost lists that read as those of `s` minus those of `s₀`,
    of length `n`. -/
structure SumInv (s₀ s acc : ResrcStat) (nHit nMiss : ℕ) : Prop where
  counters : acc.counters = zipCounters (· - ·) s.counters s₀.counters
  hit : ∃ l, acc.ghostHitCnt = some l ∧ l ≠ [] ∧
    (∀ i, Pad.ext l i = ghostExt s.ghostHitCnt i - ghostExt s₀.ghostHitCnt i) ∧ l.length = nHit
  miss : ∃ l, acc.ghostMissCnt = some l ∧ l ≠ [] ∧
    (∀ i, Pad.ext l i = ghostExt s.ghostMissCnt i - ghostExt s₀.ghostMissCnt i) ∧ l.length = nMiss

theorem zipCounters_add_sub (a b c : ResrcCounters) :
    zipCounters (· + ·) (zipCounters (· - ·) b a) (zipCounters (· - ·) c b) = zipCounters (· - ·) c a := by
  simp only [zipCounters, ResrcCounters.mk.injEq]
  omega

/-- The first epoch starts the sum. -/
theorem sumInv_sub {a b : ResrcStat} (ha : a.Complete) (hb : b.Complete) :
    ∃ e, b.sub a = .ok e ∧
      SumInv a b e (max (ghostLen b.ghostHitCnt) (ghostLen a.ghostHitCnt))
        (max (ghostLen b.ghostMissCnt) (ghostLen a.ghostMissCnt)) := by
  obtain ⟨la, hla, hla₀⟩ := ha.hit
  obtain ⟨lb, hlb, hlb₀⟩ := hb.hit
  obtain ⟨ma, hma, hma₀⟩ := ha.miss
  obtain ⟨mb, hmb, hmb₀⟩ := hb.miss
  obtain ⟨ph, hph, hph₀, hphx, hphl⟩ := ResrcStat.ghostOp_some (· - ·) hlb₀ hla₀
  obtain ⟨pm, hpm, hpm₀, hpmx, hpml⟩ := ResrcStat.ghostOp_some (· - ·) hmb₀ hma₀
  obtain ⟨e, he, hc, hh, hm⟩ := ResrcStat.combine_of_ghostOp (a := b) (b := a)
    (d := ResrcStat.elapsed a b)
    (by rw [hlb, hla]; exact hph) (by rw [hmb, hma]; exact hpm)
  refine ⟨e, he, ⟨hc, ⟨ph, hh, hph₀, ?_, ?_⟩, ⟨pm, hm, hpm₀, ?_, ?_⟩⟩⟩
  · simp only [ghostExt, hla, hlb, Option.getD_some, hphx, implies_true]
  · simp only [ghostLen, hla, hlb, Option.getD_some, hphl]
  · simp only [ghostExt, hma, hmb, Option.getD_some, hpmx, implies_true]
  · simp only [ghostLen, hma, hmb, Option.getD_some, hpml]

/-- Adding the epoch from `s` to `s'` to the sum up to `s` gives the sum up
    to `s'`. -/
theorem SumInv.add {s₀ s s' acc e : ResrcStat} {nHit nMiss : ℕ} (hacc : SumInv s₀ s acc nHit nMiss)
    (he : SumInv s s' e (max (ghostLen s'.ghostHitCnt) (ghostLen s.ghostHitCnt))
      (max (ghostLen s'.ghostMissCnt) (ghostLen s.ghostMissCnt))) :
    ∃ r, acc.add e = .ok r ∧
      SumInv s₀ s' r (max nHit (max (ghostLen s'.ghostHitCnt) (ghostLen s.ghostHitCnt)))
        (max nMiss (max (ghostLen s'.ghostMissCnt) (ghostLen s.ghostMissCnt))) := by
  obtain ⟨l, hl, hl₀, hlx, hll⟩ := hacc.hit
  obtain ⟨m, hm, hm₀, hmx, hml⟩ := hacc.miss
  obtain ⟨l', hl', hl'₀, hl'x, hl'l⟩ := he.hit
  obtain ⟨m', hm', hm'₀, hm'x, hm'l⟩ := he.miss
  obtain ⟨ph, hph, hph₀, hphx, hphl⟩ := ResrcStat.ghostOp_some (· + ·) hl₀ hl'₀
  obtain ⟨pm, hpm, hpm₀, hpmx, hpml⟩ := ResrcStat.ghostOp_some (· + ·) hm₀ hm'₀
  obtain ⟨r, hr, hc, hh, hmr⟩ := ResrcStat.combine_of_ghostOp (a := acc) (b := e)
    (d := ResrcStat.addDurations acc.duration e.duration)
    (by rw [hl, hl']; exact hph) (by rw [hm, hm']; exact hpm)
  refine ⟨r, hr, ⟨?_, ⟨ph, hh, hph₀, fun i => ?_, ?_⟩, ⟨pm, hmr, hpm₀, fun i => ?_, ?_⟩⟩⟩
  · rw [hc, hacc.counters, he.counters, zipCounters_add_sub]
  · rw [hphx, hlx, hl'x]
    omega
  · rw [hphl, hll, hl'l]
  · rw [hpmx, hmx, hm'x]
    omega
  · rw [hpml, hml, hm'l]

/-- The run of the sum: adding the epochs from `s` on to a sum up to `s`
    gives the sum up to the last snapshot. The lengths grow to the longest
    list after `s`; the one of `s` is already counted. -/
theorem SumInv.foldlM_epochs {s₀ : ResrcStat} :
    ∀ (ss : List ResrcStat) {s acc : ResrcStat} {nHit nMiss : ℕ}, s.Complete →
      (∀ x ∈ ss, x.Complete) → ghostLen s.ghostHitCnt ≤ nHit → ghostLen s.ghostMissCnt ≤ nMiss → SumInv s₀ s acc nHit nMiss →
      ∃ es r, epochs (s :: ss) = .ok es ∧ es.foldlM ResrcStat.add acc = .ok r ∧
        SumInv s₀ ((s :: ss).getLast (List.cons_ne_nil s ss)) r
          (max nHit (maxGhostLen ResrcStat.ghostHitCnt ss)) (max nMiss (maxGhostLen ResrcStat.ghostMissCnt ss))
  | [], s, acc, nHit, nMiss, _, _, _, _, hacc => by
    refine ⟨[], acc, rfl, rfl, ?_⟩
    simpa only [List.getLast_singleton, maxGhostLen_nil, Nat.max_zero] using hacc
  | s' :: ss, s, acc, nHit, nMiss, hs, hss, hlh, hlm, hacc => by
    have hs' := hss s' List.mem_cons_self
    obtain ⟨e, he, hinv⟩ := sumInv_sub hs hs'
    obtain ⟨r, hr, hr'⟩ := hacc.add hinv
    -- the length of `s` is already in the sum's
    rw [show max nHit (max (ghostLen s'.ghostHitCnt) (ghostLen s.ghostHitCnt)) =
        max nHit (ghostLen s'.ghostHitCnt) by omega,
      show max nMiss (max (ghostLen s'.ghostMissCnt) (ghostLen s.ghostMissCnt)) =
        max nMiss (ghostLen s'.ghostMissCnt) by omega] at hr'
    obtain ⟨es, r', hes, hfold, hinv'⟩ := SumInv.foldlM_epochs ss hs'
      (fun x hx => hss x (List.mem_cons_of_mem _ hx)) (Nat.le_max_right _ _) (Nat.le_max_right _ _) hr'
    refine ⟨e :: es, r', ?_, ?_, ?_⟩
    · rw [epochs_cons_cons, he, ok_bind, hes, ok_bind, pure_eq_ok]
    · rw [List.foldlM_cons, hr, ok_bind, hfold]
    · rw [List.getLast_cons_cons, maxGhostLen_cons, maxGhostLen_cons, ← Nat.max_assoc, ← Nat.max_assoc]
      exact hinv'

/-! ## The telescope -/

/-- The sum of the epochs between consecutive complete snapshots is the last
    snapshot minus the first on every counter, and on the ghost lists read as
    functions, with lists as long as the longest one. -/
theorem reduce_epochs_eq_sub {s₀ : ResrcStat} {ss : List ResrcStat} (hne : ss ≠ [])
    (h₀ : s₀.Complete) (hss : ∀ s ∈ ss, s.Complete) :
    ∃ sum, (epochs (s₀ :: ss) >>= reduce ResrcStat.add) = .ok sum ∧
      SumInv s₀ (ss.getLast hne) sum (maxGhostLen ResrcStat.ghostHitCnt (s₀ :: ss))
        (maxGhostLen ResrcStat.ghostMissCnt (s₀ :: ss)) := by
  obtain ⟨s₁, rest, rfl⟩ := List.exists_cons_of_ne_nil hne
  have h₁ := hss s₁ List.mem_cons_self
  obtain ⟨e₁, he₁, hinv₁⟩ := sumInv_sub h₀ h₁
  obtain ⟨es, r, hes, hfold, hinv⟩ := SumInv.foldlM_epochs rest h₁
    (fun x hx => hss x (List.mem_cons_of_mem _ hx)) (Nat.le_max_left _ _) (Nat.le_max_left _ _) hinv₁
  refine ⟨r, ?_, ?_⟩
  · rw [epochs_cons_cons, he₁, ok_bind, hes, ok_bind, pure_eq_ok, ok_bind]
    exact hfold
  · simp only [maxGhostLen_cons] at hinv ⊢
    rw [show max (ghostLen s₀.ghostHitCnt) (max (ghostLen s₁.ghostHitCnt) (maxGhostLen ResrcStat.ghostHitCnt rest)) =
        max (max (ghostLen s₁.ghostHitCnt) (ghostLen s₀.ghostHitCnt)) (maxGhostLen ResrcStat.ghostHitCnt rest) by omega,
      show max (ghostLen s₀.ghostMissCnt) (max (ghostLen s₁.ghostMissCnt) (maxGhostLen ResrcStat.ghostMissCnt rest)) =
        max (max (ghostLen s₁.ghostMissCnt) (ghostLen s₀.ghostMissCnt)) (maxGhostLen ResrcStat.ghostMissCnt rest) by omega]
    exact hinv

/-- `sum` is `s - s₀` on every counter, and on the ghost lists read as
    functions. -/
structure SumIsSub (sum s₀ s : ResrcStat) : Prop where
  sub : ∃ d, s.sub s₀ = .ok d ∧ sum.counters = d.counters
  hit : ∃ l, sum.ghostHitCnt = some l ∧
    ∀ i, Pad.ext l i = ghostExt s.ghostHitCnt i - ghostExt s₀.ghostHitCnt i
  miss : ∃ l, sum.ghostMissCnt = some l ∧
    ∀ i, Pad.ext l i = ghostExt s.ghostMissCnt i - ghostExt s₀.ghostMissCnt i

/-- A sum that holds the invariant is the difference: `s - s₀` holds it too. -/
theorem SumInv.sumIsSub {s₀ s sum : ResrcStat} {nHit nMiss : ℕ} (h : SumInv s₀ s sum nHit nMiss)
    (h₀ : s₀.Complete) (hs : s.Complete) : SumIsSub sum s₀ s := by
  obtain ⟨d, hd, hdinv⟩ := sumInv_sub h₀ hs
  obtain ⟨l, hl, -, hlx, -⟩ := h.hit
  obtain ⟨m, hm, -, hmx, -⟩ := h.miss
  refine ⟨⟨d, hd, ?_⟩, ⟨l, hl, hlx⟩, ⟨m, hm, hmx⟩⟩
  rw [h.counters, hdinv.counters]

/-! ## The window of a tenant -/

section Window

variable {F : Type} [Field F] [LinearOrder F]

/-- The epochs of a list with one more snapshot at the end: one more epoch,
    from the last snapshot to the new one. -/
theorem epochs_snoc (z : ResrcStat) {e : ResrcStat} :
    ∀ (a : ResrcStat) (l : List ResrcStat) {es : List ResrcStat}, epochs (a :: l) = .ok es →
      z.sub ((a :: l).getLast (List.cons_ne_nil a l)) = .ok e → epochs (a :: (l ++ [z])) = .ok (es ++ [e])
  | a, [], es, hes, he => by
    rw [epochs_singleton] at hes
    cases hes
    rw [List.getLast_singleton] at he
    rw [List.nil_append, epochs_cons_cons, he, ok_bind, epochs_singleton, ok_bind, pure_eq_ok]
    rfl
  | a, b :: l, es, hes, he => by
    rw [epochs_cons_cons] at hes
    obtain ⟨e', he', hes⟩ := bind_eq_ok.mp hes
    obtain ⟨es', hes', hes⟩ := bind_eq_ok.mp hes
    cases hes
    rw [List.getLast_cons_cons] at he
    rw [List.cons_append, epochs_cons_cons, he', ok_bind, epochs_snoc z b l hes' he, ok_bind, pure_eq_ok]
    rfl

/-- The epochs after the first one are those of the snapshots after the first. -/
theorem epochs_tail {a : ResrcStat} {l : List ResrcStat} {e : ResrcStat} {es : List ResrcStat}
    (h : epochs (a :: l) = .ok (e :: es)) : ∃ b l', l = b :: l' ∧ epochs (b :: l') = .ok es := by
  cases l with
  | nil => cases h
  | cons b l' =>
    rw [epochs_cons_cons] at h
    obtain ⟨e', -, h⟩ := bind_eq_ok.mp h
    obtain ⟨es', hes', h⟩ := bind_eq_ok.mp h
    cases h
    exact ⟨b, l', rfl, hes'⟩

omit [Field F] [LinearOrder F] in
/-- The window after dropping its oldest epoch is the window, or what follows
    its first epoch. -/
theorem dropOldest_eq_ok {k : ℕ} {w w' : List ResrcStat} (h : Tenant.dropOldest k w = .ok w') :
    w' = w ∨ ∃ e, w = e :: w' := by
  unfold Tenant.dropOldest Tenant.popleft at h
  split at h
  · split at h
    · cases h
    · cases h
      exact .inr ⟨_, rfl⟩
  · cases h
    exact .inl rfl

/-- The window holds the epochs between consecutive complete snapshots, from
    `s₀`, the snapshot preceding the window, to the stored one. -/
structure Tenant.WindowFrom (t : Tenant F) (s₀ : ResrcStat) (ss : List ResrcStat) : Prop where
  window : epochs (s₀ :: ss) = .ok t.epochStatWindow
  last : (s₀ :: ss).getLast (List.cons_ne_nil s₀ ss) = t.prevSnapshot
  complete : ∀ s ∈ s₀ :: ss, s.Complete

/-- A poll that calls `poll_post_snapshot` and whose replies hold two
    non-empty ghost lists. -/
def PostPoll [FloorRing F] (p : Poll F) : Prop :=
  p.kind = .post ∧
    ∀ r, hopperStats p.memStats p.curve p.counters = some (.ok r) →
      (ResrcStat.ofReply r p.now).Complete

namespace Tenant.WindowFrom

variable {t t' : Tenant F} {s₀ : ResrcStat} {ss : List ResrcStat}

omit [Field F] [LinearOrder F] in
/-- Only the stored snapshot and the window matter. -/
theorem congr (hw : t.WindowFrom s₀ ss) (hprev : t'.prevSnapshot = t.prevSnapshot)
    (hwin : t'.epochStatWindow = t.epochStatWindow) : t'.WindowFrom s₀ ss :=
  ⟨hwin ▸ hw.window, hprev ▸ hw.last, hw.complete⟩

omit [Field F] [LinearOrder F] in
/-- A prev poll on an empty window starts the window at the new snapshot. -/
theorem pollPrevSnapshot {r : StatsReply} {now : Ieee ℚ} (ht : t.epochStatWindow = [])
    (hr : (ResrcStat.ofReply r now).Complete) :
    (t.pollPrevSnapshot r now).WindowFrom (.ofReply r now) [] := by
  refine ⟨?_, rfl, ?_⟩
  · show Controller.epochs [_] = .ok t.epochStatWindow
    rw [ht, epochs_singleton]
  · simpa only [List.mem_singleton, forall_eq] using hr

/-- The step: a post poll with a complete reply adds the epoch to the stored
    snapshot at the end, and drops the first snapshot with the oldest epoch. -/
theorem updateMrc {r : StatsReply} {now : Ieee ℚ} {sum : ResrcStat} (hw : t.WindowFrom s₀ ss)
    (hr : (ResrcStat.ofReply r now).Complete) (h : t.updateMrc r now = .ok (t', sum)) :
    ∃ s₀' ss', t'.WindowFrom s₀' ss' := by
  obtain ⟨epoch, window, -, -, -, -, -, hep, hdrop, -, -, -, -, -, -, -, -, hprev, hwin, -⟩ :=
    Tenant.updateMrc_eq_ok h
  rw [← hw.last] at hep
  have hext := epochs_snoc _ s₀ ss hw.window hep
  -- every snapshot of the longer chain is complete
  have hcomplete : ∀ s ∈ s₀ :: (ss ++ [.ofReply r now]), s.Complete := by
    intro s hs
    simp only [List.mem_cons, List.mem_append, List.not_mem_nil, or_false] at hs
    rcases hs with rfl | hs | rfl
    · exact hw.complete _ List.mem_cons_self
    · exact hw.complete s (List.mem_cons_of_mem _ hs)
    · exact hr
  have hlast : (s₀ :: (ss ++ [.ofReply r now])).getLast (List.cons_ne_nil _ _) = t'.prevSnapshot := by
    rw [hprev, List.getLast_cons (List.append_ne_nil_of_right_ne_nil ss (List.cons_ne_nil _ _)),
      List.getLast_concat]
  rcases dropOldest_eq_ok hdrop with hkeep | ⟨e₀, hpop⟩
  case inl =>
    refine ⟨s₀, ss ++ [.ofReply r now], ⟨?_, hlast, hcomplete⟩⟩
    rw [hwin, hkeep]
    exact hext
  case inr =>
    -- the oldest epoch goes, and with it the first snapshot
    rw [hpop, List.cons_append] at hext
    obtain ⟨b, l, hbl, hepochs⟩ := epochs_tail hext
    refine ⟨b, l, ⟨hwin ▸ hepochs, ?_, fun s hs => hcomplete s ?_⟩⟩
    · rw [← hlast, List.getLast_cons (List.append_ne_nil_of_right_ne_nil ss (List.cons_ne_nil _ _))]
      exact List.getLast_congr _ _ hbl.symm
    · rw [hbl]
      exact List.mem_cons_of_mem _ hs

omit [Field F] [LinearOrder F] in
/-- A non-empty window sums to the stored snapshot minus the one preceding it,
    with the duration that its epochs add up to. -/
theorem sum (hw : t.WindowFrom s₀ ss) (hne : t.epochStatWindow ≠ []) :
    ∃ sum, reduce ResrcStat.add t.epochStatWindow = .ok sum ∧ SumIsSub sum s₀ t.prevSnapshot ∧
      sum.duration = durationSum (s₀ :: ss) := by
  have hss : ss ≠ [] := by
    rintro rfl
    exact hne (Except.ok.inj (hw.window.symm.trans (epochs_singleton s₀)))
  obtain ⟨sum, hsum, hinv⟩ := reduce_epochs_eq_sub hss (hw.complete s₀ List.mem_cons_self)
    (fun s hs => hw.complete s (List.mem_cons_of_mem _ hs))
  have hdur := duration_of_reduce_epochs hsum
  rw [hw.window, ok_bind] at hsum
  have hlast : ss.getLast hss = t.prevSnapshot := by
    rw [← hw.last, List.getLast_cons hss]
  rw [hlast] at hinv
  exact ⟨sum, hsum, hinv.sumIsSub (hw.complete s₀ List.mem_cons_self)
    (hlast ▸ hw.complete _ (List.mem_cons_of_mem _ (List.getLast_mem hss))), hdur⟩

variable [FloorRing F]

/-- The run: post polls alone keep the window made of consecutive snapshots. -/
theorem run_posts : ∀ (ps : List (Poll F)) {t t' : Tenant F} {s₀ : ResrcStat} {ss : List ResrcStat},
    (∀ p ∈ ps, PostPoll p) → t.WindowFrom s₀ ss → t.run ps = some (.ok t') →
      ∃ s₀' ss', t'.WindowFrom s₀' ss'
  | [], t, t', s₀, ss, _, hw, h => by
    cases h
    exact ⟨s₀, ss, hw⟩
  | p :: ps, t, t', s₀, ss, hps, hw, h => by
    obtain ⟨t₁, hstep, hrun⟩ := Tenant.run_cons_eq_ok h
    obtain ⟨hkind, hcomplete⟩ := hps p List.mem_cons_self
    obtain ⟨r, hr, hcase⟩ := Tenant.step_eq_ok hstep
    rcases hcase with ⟨hprev, -⟩ | ⟨-, hpost⟩
    · rw [hkind] at hprev
      cases hprev
    obtain ⟨t₂, sum, hmrc, hprev, hwin, -⟩ := Tenant.pollPostSnapshot_eq_ok hpost
    obtain ⟨s₁, ss₁, hw₂⟩ := hw.updateMrc (hcomplete r hr) hmrc
    exact run_posts ps (fun q hq => hps q (List.mem_cons_of_mem _ hq)) (hw₂.congr hprev hwin) hrun

end Tenant.WindowFrom

variable [FloorRing F]

/-! ## The smoothed statistic -/

/-- The sum of the epochs between consecutive complete snapshots is the last
    snapshot minus the first on every counter and on the ghost lists read as
    functions, its lists are as long as the longest one, and its duration is
    the `float` sum of the epochs' durations. -/
theorem window_sum_telescopes (s₀ : ResrcStat) (ss : List ResrcStat) (hne : ss ≠ [])
    (h₀ : s₀.Complete) (hss : ∀ s ∈ ss, s.Complete) :
    ∃ sum, (epochs (s₀ :: ss) >>= reduce ResrcStat.add) = .ok sum ∧
      SumIsSub sum s₀ (ss.getLast hne) ∧
      ghostLen sum.ghostHitCnt = maxGhostLen ResrcStat.ghostHitCnt (s₀ :: ss) ∧
      ghostLen sum.ghostMissCnt = maxGhostLen ResrcStat.ghostMissCnt (s₀ :: ss) ∧
      sum.duration = durationSum (s₀ :: ss) := by
  obtain ⟨sum, hsum, hinv⟩ := reduce_epochs_eq_sub hne h₀ hss
  obtain ⟨l, hl, -, -, hll⟩ := hinv.hit
  obtain ⟨m, hm, -, -, hml⟩ := hinv.miss
  refine ⟨sum, hsum, hinv.sumIsSub h₀ (hss _ (List.getLast_mem hne)), ?_, ?_,
    duration_of_reduce_epochs hsum⟩
  · simp only [ghostLen, hl, Option.getD_some, hll]
  · simp only [ghostLen, hm, Option.getD_some, hml]

/-- The first snapshot of two polls, taken at time 0. -/
def timedBefore : ResrcStat := ResrcStat.ofReply replyBefore (fin 0)

/-- The second, taken at time 1. -/
def timedGood : ResrcStat := ResrcStat.ofReply replyGood (fin 1)

theorem window_sum_telescopes_twoPolls :
    timedBefore.Complete ∧ timedGood.Complete ∧
      ∃ sum, (epochs [timedBefore, timedGood] >>= reduce ResrcStat.add) = .ok sum ∧
        SumIsSub sum timedBefore timedGood ∧
        ghostLen sum.ghostHitCnt = maxGhostLen ResrcStat.ghostHitCnt [timedBefore, timedGood] ∧
        ghostLen sum.ghostMissCnt = maxGhostLen ResrcStat.ghostMissCnt [timedBefore, timedGood] ∧
        sum.duration = durationSum [timedBefore, timedGood] := by
  have hb : timedBefore.Complete := ⟨⟨_, rfl, List.cons_ne_nil _ _⟩, ⟨_, rfl, List.cons_ne_nil _ _⟩⟩
  have hg : timedGood.Complete := ⟨⟨_, rfl, List.cons_ne_nil _ _⟩, ⟨_, rfl, List.cons_ne_nil _ _⟩⟩
  exact ⟨hb, hg, window_sum_telescopes timedBefore [timedGood] (List.cons_ne_nil _ _) hb
    (by simpa only [List.mem_singleton, forall_eq] using hg)⟩

/-- A snapshot of `replyGood` taken at the `float` nearest `now` seconds. -/
def clockStat (now : ℚ) : ResrcStat := ResrcStat.ofReply replyGood (Binary64.round now)

/-- The durations do not telescope: with snapshots at 1101.783444,
    1122.359932 and 4605.70983 seconds, the sum of the two epochs lasts
    3503.9263859999996 seconds, while the last snapshot minus the first lasts
    3503.926386. -/
theorem window_duration_drifts :
    (epochs [clockStat (1101783444 / 1000000), clockStat (1122359932 / 1000000),
        clockStat (460570983 / 100000)] >>= reduce ResrcStat.add).map ResrcStat.duration =
      .ok (some (fin (7705215608556273 / 2199023255552))) ∧
    ((clockStat (460570983 / 100000)).sub (clockStat (1101783444 / 1000000))).map
        ResrcStat.duration = .ok (some (fin (3852607804278137 / 1099511627776))) ∧
    (7705215608556273 / 2199023255552 : ℚ) ≠ 3852607804278137 / 1099511627776 := by
  decide +kernel

/-- A run of post polls keeps a window made of consecutive snapshots, and the
    window then sums to the stored snapshot minus the one preceding it, with
    the duration that its epochs add up to. -/
theorem post_polls_window_sum (ps : List (Poll F)) (t t' : Tenant F) (s₀ : ResrcStat)
    (ss : List ResrcStat) (hw : t.WindowFrom s₀ ss) (hps : ∀ p ∈ ps, PostPoll p)
    (hrun : t.run ps = some (.ok t')) (hne : t'.epochStatWindow ≠ []) :
    ∃ s₀' ss' sum, t'.WindowFrom s₀' ss' ∧ reduce ResrcStat.add t'.epochStatWindow = .ok sum ∧
      SumIsSub sum s₀' t'.prevSnapshot ∧ sum.duration = durationSum (s₀' :: ss') := by
  obtain ⟨s₀', ss', hw'⟩ := Tenant.WindowFrom.run_posts ps hps hw hrun
  obtain ⟨sum, hsum, hsub, hdur⟩ := hw'.sum hne
  exact ⟨s₀', ss', sum, hw', hsum, hsub, hdur⟩

/-- The tenant once the post poll of `curveGood` returns. -/
def tenantGoodPolled : Tenant ℚ :=
  { tenantGood with demandIfMiss := some ⟨fin 1, fin 0, fin 1⟩, netBwAlpha := some 1 }

theorem post_polls_window_sum_onePoll :
    tenantBefore.WindowFrom (.ofReply replyBefore (fin 0)) [] ∧ PostPoll pollGood ∧
      tenantBefore.run [pollGood] = some (.ok tenantGoodPolled) ∧ tenantGoodPolled.epochStatWindow ≠ [] ∧
      ∃ s₀' ss' sum, tenantGoodPolled.WindowFrom s₀' ss' ∧
        reduce ResrcStat.add tenantGoodPolled.epochStatWindow = .ok sum ∧
        SumIsSub sum s₀' tenantGoodPolled.prevSnapshot ∧ sum.duration = durationSum (s₀' :: ss') := by
  have hrb : (ResrcStat.ofReply replyBefore (fin 0)).Complete :=
    ⟨⟨_, rfl, List.cons_ne_nil _ _⟩, ⟨_, rfl, List.cons_ne_nil _ _⟩⟩
  have hr : hopperStats pollGood.memStats pollGood.curve pollGood.counters = some (.ok replyGood) := by
    decide +kernel
  have hw : tenantBefore.WindowFrom (.ofReply replyBefore (fin 0)) [] :=
    Tenant.WindowFrom.pollPrevSnapshot rfl hrb
  have hps : PostPoll pollGood := ⟨rfl, fun r h => by
    rw [hr, Option.some_inj, Except.ok.injEq] at h
    subst h
    exact ⟨⟨_, rfl, List.cons_ne_nil _ _⟩, ⟨_, rfl, List.cons_ne_nil _ _⟩⟩⟩
  have hrun : tenantBefore.run [pollGood] = some (.ok tenantGoodPolled) := by decide +kernel
  exact ⟨hw, hps, hrun, List.cons_ne_nil _ _, post_polls_window_sum [pollGood] tenantBefore
    tenantGoodPolled _ [] hw (by simpa only [List.mem_singleton, forall_eq] using hps) hrun
    (List.cons_ne_nil _ _)⟩

/-- A prev poll later on, when the one key has missed 200 times, at time 2. -/
def pollPrevAgain : Poll ℚ :=
  ⟨.prev, smallStats, [⟨1, 100, 0, 200⟩], ⟨200, 0, 200, 200, 200, 0, 200, 0, 200⟩, fin 2⟩

/-- Its reply. -/
def replyPrevAgain : StatsReply :=
  ⟨.lists [3696, 4096] [0, 0] [200, 200], ⟨200, 0, 200, 200, 200, 0, 200, 0, 200⟩⟩

/-- The post poll after it, ten accesses and a second later. -/
def pollPostAgain : Poll ℚ :=
  ⟨.post, smallStats, [⟨1, 100, 5, 205⟩, ⟨2, 200, 8, 202⟩], ⟨210, 0, 210, 210, 210, 0, 210, 0, 210⟩,
    fin 3⟩

/-- Its reply. -/
def replyPostAgain : StatsReply :=
  ⟨.lists [3696, 4096, 4496] [0, 5, 8] [210, 205, 202], ⟨210, 0, 210, 210, 210, 0, 210, 0, 210⟩⟩

/-- The controller polls prev, post, prev, post, as before every allocation.
    With a window of two epochs, the window holds the epochs from the first
    snapshot to the second and from the third to the fourth: it sums to 20
    requests, while the newest snapshot minus the one preceding the window
    has 110. -/
theorem window_sum_skips_prev_poll :
    ((Tenant.init (0 : ℚ) 2).run [pollBefore, pollGood, pollPrevAgain, pollPostAgain]).map
        (Except.map fun t => (t.prevSnapshot, t.epochStatWindow)) =
      some (.ok (.ofReply replyPostAgain (fin 3), [sumGood, sumGood])) ∧
    (ResrcStat.ofReply replyGood (fin 1)).sub (.ofReply replyBefore (fin 0)) = .ok sumGood ∧
    (ResrcStat.ofReply replyPostAgain (fin 3)).sub (.ofReply replyPrevAgain (fin 2)) = .ok sumGood ∧
    (reduce ResrcStat.add [sumGood, sumGood]).map ResrcStat.reqCnt = .ok 20 ∧
    ((ResrcStat.ofReply replyPostAgain (fin 3)).sub (.ofReply replyBefore (fin 0))).map
      ResrcStat.reqCnt = .ok 110 :=
  ⟨by decide +kernel, by decide +kernel, by decide +kernel, by decide +kernel, by decide +kernel⟩

end Window

end Controller
