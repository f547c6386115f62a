-- SUMMARY: Computations that may raise, modelled in Except: how a failed bind came about, and a map over a list whose every call succeeds, carrying a relation from a list of the old elements to the new ones.
import Mathlib.Data.List.Forall2

/-!
# Computations that may raise

A handler that may raise an exception is a function into `Except ε`. Two
rules take such computations apart:

* `bind_eq_error`: a bind that raised raised in its first computation, or in
  the one it ran next with that computation's result;
* `mapM_forall₂`: a loop that calls a method on each element of a list,
  `List.mapM`, raises nothing when the call succeeds on every element related
  to some element of a second list, and relates the results to that list as
  the call does.
-/

namespace Fallible

variable {ε α β γ δ : Type}

/-- A bind that raised raised first, or in what it ran next. -/
theorem bind_eq_error {x : Except ε α} {f : α → Except ε β} {e : ε}
    (h : x >>= f = .error e) : x = .error e ∨ ∃ a, x = .ok a ∧ f a = .error e := by
  cases x with
  | error e' =>
    have hb : (Except.error e' >>= f) = Except.error e' := rfl
    rw [hb, Except.error.injEq] at h
    exact .inl (h ▸ rfl)
  | ok a => exact .inr ⟨a, rfl, h⟩

/-- A call on each element succeeds, and carries the relation `R` from a
    second list to the relation `S` of the results: so does the loop. -/
theorem mapM_forall₂ {R : γ → α → Prop} {S : γ → β → Prop} {f : α → Except ε β}
    (hf : ∀ c a, R c a → ∃ b, f a = .ok b ∧ S c b) :
    ∀ {cs : List γ} {as : List α}, List.Forall₂ R cs as →
      ∃ bs, as.mapM f = .ok bs ∧ List.Forall₂ S cs bs := by
  intro cs as h
  induction h with
  | nil => exact ⟨[], rfl, .nil⟩
  | @cons c a cs as hca _ ih =>
    obtain ⟨b, hb, hs⟩ := hf c a hca
    obtain ⟨bs, hbs, hss⟩ := ih
    refine ⟨b :: bs, ?_, .cons hs hss⟩
    simp only [List.mapM_cons, hb, hbs]
    rfl

end Fallible
