-- SUMMARY: Loops as C++ writes them: a `while (true)` body that breaks or goes on, run with fuel or with a bound on its rounds; the invariant rule for both, and termination from a potential that strictly decreases within a finite set of values.
import Mathlib.Data.Finset.Card
import Mathlib.Order.Basic

/-!
# Loops

A loop body is a function from states to `Loop.Step`: it breaks with a state
or goes on with one. `Loop.run` runs it with fuel and returns `none` when the
fuel runs out, which models a loop with no bound of its own; `Loop.bounded`
stops after a given number of rounds, which models a loop that counts its
rounds and breaks at a limit.

The rules:

* `run_add`: more fuel does not change a result;
* `run_inv`: a property that every step keeps holds of the result;
* `Visits.inv`: it holds of every state the loop passes through, and
  `run_visits` and `bounded_visits` place the result among them;
* `run_isSome`: a loop terminates with `T.card + 1` fuel when a potential
  with values in the finite set `T` strictly decreases on every step that
  goes on; `run_eq_none`: it never breaks when every step goes on;
* `run_congr` and `Visits.of_congr`: a body that agrees with another on the
  states the other passes through runs as it does, and `allVisited` checks a
  property of all those states by running the loop;
* `bounded_sim`: two loops whose bodies step together end together.
-/

namespace Loop

/-- What one iteration does: break with a state, or go on with one. -/
inductive Step (σ : Type*) where
  | done (s : σ)
  | next (s : σ)

variable {σ : Type*} {body : σ → Step σ}

/-- `while (true) body`, with at most `fuel` iterations. -/
def run (body : σ → Step σ) : ℕ → σ → Option σ
  | 0, _ => none
  | fuel + 1, s =>
    match body s with
    | .done s' => some s'
    | .next s' => run body fuel s'

/-- A loop that breaks after `rounds` iterations at the latest. -/
def bounded (body : σ → Step σ) : ℕ → σ → σ
  | 0, s => s
  | rounds + 1, s =>
    match body s with
    | .done s' => s'
    | .next s' => bounded body rounds s'

theorem run_succ_of_done {s s' : σ} (fuel : ℕ) (h : body s = .done s') :
    run body (fuel + 1) s = some s' := by
  simp [run, h]

theorem run_succ_of_next {s s' : σ} (fuel : ℕ) (h : body s = .next s') :
    run body (fuel + 1) s = run body fuel s' := by
  simp [run, h]

theorem bounded_succ_of_done {s s' : σ} (rounds : ℕ) (h : body s = .done s') :
    bounded body (rounds + 1) s = s' := by
  simp [bounded, h]

theorem bounded_succ_of_next {s s' : σ} (rounds : ℕ) (h : body s = .next s') :
    bounded body (rounds + 1) s = bounded body rounds s' := by
  simp [bounded, h]

/-- More fuel does not change a result. -/
theorem run_add {s r : σ} {fuel : ℕ} (h : run body fuel s = some r) (k : ℕ) :
    run body (fuel + k) s = some r := by
  induction fuel generalizing s with
  | zero => simp [run] at h
  | succ fuel ih =>
    rw [Nat.add_right_comm]
    cases hb : body s with
    | done s' =>
      rw [run_succ_of_done fuel hb] at h
      rw [run_succ_of_done _ hb, h]
    | next s' =>
      rw [run_succ_of_next fuel hb] at h
      rw [run_succ_of_next _ hb]
      exact ih h

/-- The invariant rule of `run`: a property that every step keeps, the one
    that breaks included, holds of the result. -/
theorem run_inv (P : σ → Prop) (hdone : ∀ s s', P s → body s = .done s' → P s')
    (hnext : ∀ s s', P s → body s = .next s' → P s') :
    ∀ (fuel : ℕ) (s r : σ), P s → run body fuel s = some r → P r := by
  intro fuel
  induction fuel with
  | zero => intro s r _ h; simp [run] at h
  | succ fuel ih =>
    intro s r hs h
    cases hb : body s with
    | done s' =>
      rw [run_succ_of_done fuel hb] at h
      cases h
      exact hdone s _ hs hb
    | next s' =>
      rw [run_succ_of_next fuel hb] at h
      exact ih s' r (hnext s s' hs hb) h

/-- The states that the loop passes through from `s`: `s` itself, and after
    each round that goes on the states from the one it goes on with, up to
    the state it breaks with. -/
inductive Visits (body : σ → Step σ) : σ → σ → Prop
  | refl (s : σ) : Visits body s s
  | done {s s' : σ} : body s = .done s' → Visits body s s'
  | next {s s' s'' : σ} : body s = .next s' → Visits body s' s'' → Visits body s s''

/-- A loop whose every step from `P` goes on to `P` never breaks, whatever
    its fuel. -/
theorem run_eq_none (P : σ → Prop) (hnext : ∀ s, P s → ∃ s', body s = .next s' ∧ P s') :
    ∀ (fuel : ℕ) (s : σ), P s → run body fuel s = none := by
  intro fuel
  induction fuel with
  | zero => intro s _; rfl
  | succ fuel ih =>
    intro s hs
    obtain ⟨s', hb, hs'⟩ := hnext s hs
    rw [run_succ_of_next fuel hb]
    exact ih s' hs'

/-- The invariant rule over the states a loop passes through. -/
theorem Visits.inv (P : σ → Prop) (hdone : ∀ s s', P s → body s = .done s' → P s')
    (hnext : ∀ s s', P s → body s = .next s' → P s') {s s' : σ} (hs : P s)
    (h : Visits body s s') : P s' := by
  induction h with
  | refl => exact hs
  | done hb => exact hdone _ _ hs hb
  | next hb _ ih => exact ih (hnext _ _ hs hb)

/-- The result of a bounded loop is a state it passes through. -/
theorem bounded_visits : ∀ (rounds : ℕ) (s : σ), Visits body s (bounded body rounds s)
  | 0, s => .refl s
  | rounds + 1, s => by
    cases hb : body s with
    | done s' =>
      rw [bounded_succ_of_done rounds hb]
      exact .done hb
    | next s' =>
      rw [bounded_succ_of_next rounds hb]
      exact .next hb (bounded_visits rounds s')

/-- The result of a loop with fuel is a state it passes through. -/
theorem run_visits : ∀ {fuel : ℕ} {s r : σ}, run body fuel s = some r → Visits body s r
  | 0, _, _, h => by cases h
  | fuel + 1, s, r, h => by
    cases hb : body s with
    | done s' =>
      rw [run_succ_of_done fuel hb] at h
      cases h
      exact .done hb
    | next s' =>
      rw [run_succ_of_next fuel hb] at h
      exact .next hb (run_visits h)

/-- A loop whose body agrees with another's at every state the other passes
    through runs as the other does. -/
theorem run_congr {body' : σ → Step σ} :
    ∀ (fuel : ℕ) (s : σ), (∀ s₁, Visits body' s s₁ → body s₁ = body' s₁) →
      run body fuel s = run body' fuel s
  | 0, _, _ => rfl
  | fuel + 1, s, h => by
    cases hb : body' s with
    | done t => rw [run_succ_of_done fuel ((h s (.refl s)).trans hb), run_succ_of_done fuel hb]
    | next t =>
      rw [run_succ_of_next fuel ((h s (.refl s)).trans hb), run_succ_of_next fuel hb]
      exact run_congr fuel t fun s₁ hv => h s₁ (.next hb hv)

/-- It then passes through the states the other does. -/
theorem Visits.of_congr {body' : σ → Step σ} {s s₁ : σ} (hv : Visits body s s₁)
    (h : ∀ s₂, Visits body' s s₂ → body s₂ = body' s₂) : Visits body' s s₁ := by
  induction hv with
  | refl s => exact .refl s
  | done hb => exact .done ((h _ (.refl _)).symm.trans hb)
  | @next s t s₁ hb _ ih =>
    have hb' : body' s = .next t := (h s (.refl s)).symm.trans hb
    exact .next hb' (ih fun s₂ hv => h s₂ (.next hb' hv))

/-- Runs the loop with fuel and checks `P` at every state it passes through;
    `false` when the fuel runs out. -/
def allVisited (body : σ → Step σ) (P : σ → Bool) : ℕ → σ → Bool
  | 0, _ => false
  | fuel + 1, s =>
    P s && match body s with
      | .done s' => P s'
      | .next s' => allVisited body P fuel s'

/-- A check that passes: `P` holds of every state the loop passes through. -/
theorem allVisited_sound {P : σ → Bool} :
    ∀ {fuel : ℕ} {s s₁ : σ}, allVisited body P fuel s = true → Visits body s s₁ → P s₁ = true
  | 0, _, _, h, _ => absurd h (by simp [allVisited])
  | fuel + 1, s, s₁, h, hv => by
    simp only [allVisited, Bool.and_eq_true] at h
    obtain ⟨hs, hrest⟩ := h
    cases hv with
    | refl => exact hs
    | done hb =>
      rw [hb] at hrest
      exact hrest
    | next hb hv' =>
      rw [hb] at hrest
      exact allVisited_sound hrest hv'

/-! ## Simulation -/

/-- Two steps that both break or both go on, with states in `R`. -/
def Step.Rel {τ : Type*} (R : σ → τ → Prop) : Step σ → Step τ → Prop
  | .done s, .done s' => R s s'
  | .next s, .next s' => R s s'
  | _, _ => False

/-- The simulation rule of `bounded`: two loops whose bodies take states in
    `R` to steps in `Step.Rel R` end in states in `R`, when the first body
    needs `P` of its state and `P` holds of every state it passes through. -/
theorem bounded_sim {τ : Type*} {body' : τ → Step τ} (R : σ → τ → Prop) (P : σ → Prop)
    (hstep : ∀ s s', R s s' → P s → Step.Rel R (body s) (body' s')) :
    ∀ (rounds : ℕ) (s : σ) (s' : τ), R s s' → (∀ s₁, Visits body s s₁ → P s₁) →
      R (bounded body rounds s) (bounded body' rounds s')
  | 0, _, _, hR, _ => hR
  | rounds + 1, s, s', hR, hP => by
    have hs := hstep s s' hR (hP s (.refl s))
    cases hb : body s with
    | done t =>
      cases hb' : body' s' with
      | done t' =>
        rw [bounded_succ_of_done rounds hb, bounded_succ_of_done rounds hb']
        rw [hb, hb'] at hs
        exact hs
      | next t' =>
        rw [hb, hb'] at hs
        exact hs.elim
    | next t =>
      cases hb' : body' s' with
      | done t' =>
        rw [hb, hb'] at hs
        exact hs.elim
      | next t' =>
        rw [bounded_succ_of_next rounds hb, bounded_succ_of_next rounds hb']
        rw [hb, hb'] at hs
        exact bounded_sim R P hstep rounds t t' hs fun s₁ h => hP s₁ (.next hb h)

section Termination

variable {β : Type*} [Preorder β] (P : σ → Prop) (Φ : σ → β) (T : Finset β)

/-- The values of `T` below `b`. -/
private theorem card_below_lt [DecidableRel (α := β) (· < ·)] {b b' : β} (hb' : b' ∈ T)
    (hlt : b' < b) : (T.filter (· < b')).card < (T.filter (· < b)).card := by
  apply Finset.card_lt_card
  refine Finset.ssubset_iff_of_subset ?_ |>.mpr ⟨b', ?_, ?_⟩
  · intro x hx
    simp only [Finset.mem_filter] at hx ⊢
    exact ⟨hx.1, lt_trans hx.2 hlt⟩
  · exact Finset.mem_filter.mpr ⟨hb', hlt⟩
  · simp

/-- Termination from a potential: if every step that goes on keeps `P` and
    strictly decreases `Φ`, and `Φ` takes its values in `T` on `P`, then
    fuel beyond the number of values of `T` below `Φ s` suffices. -/
theorem run_isSome_of_card (hT : ∀ s, P s → Φ s ∈ T)
    (hnext : ∀ s s', P s → body s = .next s' → P s' ∧ Φ s' < Φ s) [DecidableRel (α := β) (· < ·)] :
    ∀ (fuel : ℕ) (s : σ), P s → (T.filter (· < Φ s)).card < fuel → (run body fuel s).isSome := by
  intro fuel
  induction fuel with
  | zero => intro s _ h; exact absurd h (Nat.not_lt_zero _)
  | succ fuel ih =>
    intro s hs hcard
    cases hb : body s with
    | done s' => simp [run_succ_of_done fuel hb]
    | next s' =>
      -- the step lowers the number of values below the potential
      obtain ⟨hs', hlt⟩ := hnext s s' hs hb
      have := card_below_lt T (hT s' hs') hlt
      rw [run_succ_of_next fuel hb]
      exact ih s' hs' (by omega)

/-- Termination within `T.card + 1` iterations. -/
theorem run_isSome (hT : ∀ s, P s → Φ s ∈ T)
    (hnext : ∀ s s', P s → body s = .next s' → P s' ∧ Φ s' < Φ s) (s : σ) (hs : P s) :
    (run body (T.card + 1) s).isSome := by
  classical
  exact run_isSome_of_card P Φ T hT hnext _ s hs
    (Nat.lt_succ_of_le (Finset.card_filter_le _ _))

end Termination

end Loop
