-- SUMMARY: Transition systems given by a guard and a partial handler per event: their steps, the states reachable from an initial one, runs of a list of events, and the invariant rule.
import Mathlib.Logic.Relation

/-!
# Transition systems

A system over states `σ` and events `ε` says of each event whether the
environment may fire it now (`enabled`, a scheduling condition such as "the
task has completed") and what its handler does (`handle`). A handler returns
`none` where the code it models has undefined behaviour or fails an assert,
so that "the handlers never fail from a reachable state" is a statement
(`Safe`) rather than an assumption. A step fires an enabled event whose
handler is defined.

The rules:

* `Reachable.inv`: a property of the initial state that every step keeps
  holds of every reachable state;
* `reachable_of_run`: a run of a list of events that succeeds ends in a
  reachable state, which is how a concrete interleaving is exhibited.
-/

namespace Transition

/-- A system: which events may fire, and what their handlers do. -/
structure System (σ ε : Type*) where
  enabled : σ → ε → Bool
  handle : σ → ε → Option σ

namespace System

variable {σ ε : Type*} (S : System σ ε)

/-- One step: an enabled event whose handler is defined. -/
def Step (s s' : σ) : Prop :=
  ∃ e, S.enabled s e = true ∧ S.handle s e = some s'

/-- The states that finitely many steps lead to from `s₀`. -/
def Reachable (s₀ s : σ) : Prop :=
  Relation.ReflTransGen S.Step s₀ s

/-- No enabled event has an undefined handler. -/
def Safe (s : σ) : Prop :=
  ∀ e, S.enabled s e = true → (S.handle s e).isSome

/-- Fire the events of a list in order; `none` as soon as one is not enabled
    or its handler is undefined. -/
def run : σ → List ε → Option σ
  | s, [] => some s
  | s, e :: es => if S.enabled s e then (S.handle s e).bind (run · es) else none

variable {S}

theorem Reachable.refl (s : σ) : S.Reachable s s :=
  Relation.ReflTransGen.refl

/-- The invariant rule: a property of `s₀` that every step from a reachable
    state keeps holds of every reachable state. -/
theorem Reachable.inv {s₀ : σ} (P : σ → Prop) (h₀ : P s₀)
    (hstep : ∀ s s' e, S.Reachable s₀ s → P s → S.enabled s e = true →
      S.handle s e = some s' → P s') :
    ∀ {s}, S.Reachable s₀ s → P s := by
  intro s hs
  induction hs with
  | refl => exact h₀
  | tail hr hst ih =>
    obtain ⟨e, he, hh⟩ := hst
    exact hstep _ _ e hr ih he hh

theorem reachable_of_run {s₀ s : σ} :
    ∀ {es : List ε}, S.run s₀ es = some s → S.Reachable s₀ s := by
  intro es
  induction es generalizing s₀ with
  | nil =>
    intro h
    cases h
    exact Relation.ReflTransGen.refl
  | cons e es ih =>
    intro h
    simp only [run] at h
    split at h
    · rename_i he
      cases hh : S.handle s₀ e with
      | none => rw [hh] at h; cases h
      | some s₁ =>
        rw [hh, Option.bind_some] at h
        exact Relation.ReflTransGen.head ⟨e, he, hh⟩ (ih h)
    · cases h

/-- The state a successful run ends in is reachable; `isSome` is what a
    concrete run is checked for. -/
theorem reachable_run_getD {s₀ : σ} {es : List ε} (h : (S.run s₀ es).isSome) :
    S.Reachable s₀ ((S.run s₀ es).getD s₀) := by
  obtain ⟨s, hs⟩ := Option.isSome_iff_exists.mp h
  rw [hs]
  exact reachable_of_run hs

/-- A run that ends in a state passing a check exhibits a reachable state
    that passes it. -/
theorem exists_reachable_of_run {s₀ : σ} {es : List ε} {p : σ → Bool}
    (h : (S.run s₀ es).map p = some true) : ∃ s, S.Reachable s₀ s ∧ p s = true := by
  cases hr : S.run s₀ es with
  | none => rw [hr] at h; cases h
  | some s =>
    rw [hr, Option.map_some, Option.some.injEq] at h
    exact ⟨s, reachable_of_run hr, h⟩

end System

end Transition
