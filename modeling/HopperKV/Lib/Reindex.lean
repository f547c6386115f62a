-- SUMMARY: A list that holds another's elements in another order, as a reindexing by a permutation of the positions: it commutes with `map` and with an update at one position, and it is a `List.Perm`.
import Mathlib.GroupTheory.Perm.Basic
import Mathlib.Data.List.FinRange
import Mathlib.Data.Fin.Tuple.Basic

/-!
# Reindexing

`Reindexed σ l l'` says that `l'` lists the elements of `l` in the order
`σ`: the `k`-th element of `l'` is the `σ k`-th of `l`. A program that keeps
its records in a list and identifies them by their position is run on a
reordered input by reindexing, and these are the rules that carry the
reindexing through it:

* `Reindexed.map`: a function applied to every element;
* `Reindexed.modify`: an update at the position `i` of `l` is an update at
  `σ⁻¹ i` of `l'`;
* `Reindexed.getElem`: reading position `k` of `l'` reads `σ k` of `l`;
* `Reindexed.perm`: `l'` is a permutation of `l`, so that every sum and every
  membership is the same.
-/

namespace List

variable {α β : Type*} {n : ℕ}

/-- `l'` lists the elements of `l` in the order `σ`. -/
structure Reindexed (σ : Equiv.Perm (Fin n)) (l l' : List α) : Prop where
  length : l.length = n
  length' : l'.length = n
  get : ∀ k : Fin n, l'[k.val]? = l[(σ k).val]?

namespace Reindexed

variable {σ : Equiv.Perm (Fin n)} {l l' : List α}

theorem refl (l : List α) : Reindexed (1 : Equiv.Perm (Fin l.length)) l l :=
  ⟨rfl, rfl, fun _ => rfl⟩

theorem getElem (h : Reindexed σ l l') (k : Fin n) (hk : k.val < l'.length)
    (hk' : (σ k).val < l.length) : l'[k.val] = l[(σ k).val] := by
  have hget := h.get k
  rw [List.getElem?_eq_getElem hk, List.getElem?_eq_getElem hk'] at hget
  exact Option.some.inj hget

theorem map (f : α → β) (h : Reindexed σ l l') : Reindexed σ (l.map f) (l'.map f) where
  length := by rw [List.length_map, h.length]
  length' := by rw [List.length_map, h.length']
  get k := by rw [List.getElem?_map, List.getElem?_map, h.get k]

theorem modify (f : α → α) (h : Reindexed σ l l') (i : Fin n) :
    Reindexed σ (l.modify i f) (l'.modify (σ.symm i) f) where
  length := by rw [List.length_modify, h.length]
  length' := by rw [List.length_modify, h.length']
  get k := by
    -- the update hits position `k` of `l'` exactly when it hits `σ k` of `l`
    have hiff : (σ.symm i).val = k.val ↔ i.val = (σ k).val := by
      rw [Fin.val_eq_val, Fin.val_eq_val, Equiv.symm_apply_eq, eq_comm]
    simp only [List.getElem?_modify, h.get k, hiff]

/-- The two lists are the same functions of their positions, precomposed by
`σ`, so `Equiv.Perm.ofFn_comp_perm` makes them permutations of each other. -/
theorem perm (h : Reindexed σ l l') : l'.Perm l := by
  let g : Fin n → α := fun i => l.get (Fin.cast h.length.symm i)
  have hl : l = List.ofFn g := by
    apply List.ext_getElem (by rw [List.length_ofFn, h.length])
    intro i hi _
    simp [g]
  have hl' : l' = List.ofFn (g ∘ σ) := by
    apply List.ext_getElem (by rw [List.length_ofFn, h.length'])
    intro k hk _
    have hk' : (σ ⟨k, h.length' ▸ hk⟩).val < l.length := h.length ▸ (σ ⟨k, h.length' ▸ hk⟩).isLt
    simp only [List.getElem_ofFn, Function.comp_apply, g, List.get_eq_getElem, Fin.val_cast]
    exact h.getElem ⟨k, h.length' ▸ hk⟩ hk hk'
  rw [hl', hl]
  exact Equiv.Perm.ofFn_comp_perm σ g

theorem mem_iff (h : Reindexed σ l l') {a : α} : a ∈ l' ↔ a ∈ l :=
  h.perm.mem_iff

end Reindexed

end List
