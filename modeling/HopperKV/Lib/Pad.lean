-- SUMMARY: Python's zip of two lists padded with their last elements, and the reading of a non-empty list as the function on all of ℕ that repeats its last element, under which a padded elementwise operation is the pointwise one.
import Mathlib.Data.List.GetD

/-!
# Padded zips

`zipPad l r` zips two lists after padding the shorter one with copies of its
last element. It is undefined (`none`, the `IndexError` of `lst[-1]`) when
the shorter list is empty and the longer one is not. `zipWithPad f l r`
applies `f` to the pairs, as a list comprehension over the padded zip does.

`ext l` reads a list as a function on all of `ℕ`: its elements, then its last
element forever. Padding a list does not change that function. So on
non-empty lists the padded operation is the pointwise one (`ext_zipWithPad`),
and its length is that of the longer list (`zipWithPad_eq`).
-/

namespace Pad

variable {α β : Type*}

/-- `lst + [lst[-1]] * (n - len(lst))`; `none` for the empty list. -/
def padLast (l : List α) (n : ℕ) : Option (List α) :=
  l.getLast?.map fun x => l ++ List.replicate (n - l.length) x

/-- Zip two lists, padding the shorter one with its last element. -/
def zipPad (l r : List α) : Option (List (α × α)) :=
  if l.length ≠ r.length then
    let n := max l.length r.length
    (if l.length = n then some l else padLast l n).bind fun l =>
      (if r.length = n then some r else padLast r n).map fun r => l.zip r
  else some (l.zip r)

/-- `[f(lhs, rhs) for lhs, rhs in zip_pad(l, r)]`. -/
def zipWithPad (f : α → α → β) (l r : List α) : Option (List β) :=
  (zipPad l r).map fun ps => ps.map fun p => f p.1 p.2

/-- A list as a function on `ℕ` that repeats its last element; `default`
    everywhere for the empty list. -/
def ext [Inhabited α] (l : List α) (i : ℕ) : α :=
  l.getD i (l.getLastD default)

/-! ## Reading a list as a function -/

section Ext

variable [Inhabited α] {l : List α}

theorem ext_of_lt {i : ℕ} (h : i < l.length) : ext l i = l[i] :=
  List.getD_eq_getElem _ _ h

/-- From its last index on, a non-empty list reads as its last element. -/
theorem ext_of_le (hl : l ≠ []) {i : ℕ} (h : l.length ≤ i + 1) : ext l i = l.getLast hl := by
  by_cases hi : i < l.length
  · rw [ext_of_lt hi, List.getLast_eq_getElem]
    congr 1
    omega
  · rw [ext, List.getD_eq_default _ _ (Nat.le_of_not_lt hi), List.getLastD_eq_getLast?,
      List.getLast?_eq_some_getLast hl, Option.getD_some]

/-- Clamping an index at a length past the list's own changes nothing. -/
theorem ext_min (hl : l ≠ []) {n : ℕ} (hn : l.length ≤ n) (i : ℕ) :
    ext l (min i (n - 1)) = ext l i := by
  rcases Nat.le_total i (n - 1) with h | h
  · rw [Nat.min_eq_left h]
  · have hpos : 0 < l.length := List.length_pos_iff.mpr hl
    rw [Nat.min_eq_right h, ext_of_le hl (by omega), ext_of_le hl (by omega)]

/-- Padding a non-empty list to length `n` gives the first `n` values of its
    function. -/
theorem pad_eq (hl : l ≠ []) {n : ℕ} (hn : l.length ≤ n) :
    l ++ List.replicate (n - l.length) (l.getLast hl) = (List.range n).map (ext l) := by
  apply List.ext_getElem (by simp; omega)
  intro i h₁ h₂
  rw [List.getElem_map, List.getElem_range]
  by_cases hi : i < l.length
  · rw [List.getElem_append_left hi, ext_of_lt hi]
  · rw [List.getElem_append_right (Nat.le_of_not_lt hi), List.getElem_replicate,
      ext_of_le hl (by omega)]

/-- What `zip_pad` makes of one side, when the other side is not longer than
    `n` and one of the two has length `n`. -/
theorem pad_side_eq (hl : l ≠ []) {n : ℕ} (hn : l.length ≤ n) :
    (if l.length = n then some l else padLast l n) = some ((List.range n).map (ext l)) := by
  split
  · rename_i h
    subst h
    have := pad_eq hl (Nat.le_refl l.length)
    rw [Nat.sub_self, List.replicate_zero, List.append_nil] at this
    exact congrArg some this
  · rw [padLast, List.getLast?_eq_some_getLast hl, Option.map_some, pad_eq hl hn]

theorem ext_range_map {n : ℕ} (hn : 0 < n) (g : ℕ → α) (i : ℕ) :
    ext ((List.range n).map g) i = g (min i (n - 1)) := by
  rcases Nat.lt_or_ge i n with h | h
  · rw [ext_of_lt (by simpa using h), List.getElem_map, List.getElem_range,
      Nat.min_eq_left (by omega)]
  · have hne : (List.range n).map g ≠ [] := by simp; omega
    rw [ext_of_le hne (by simp; omega), List.getLast_eq_getElem, List.getElem_map,
      List.getElem_range, Nat.min_eq_right (by omega)]
    simp

theorem ext_cons_zero (a : α) (l : List α) : ext (a :: l) 0 = a := rfl

/-- Reading past the head of a longer list. -/
theorem ext_cons_succ (a : α) (hl : l ≠ []) (i : ℕ) : ext (a :: l) (i + 1) = ext l i := by
  simp only [ext, List.getD_cons_succ]
  congr 1
  rw [List.getLastD_eq_getLast?, List.getLastD_eq_getLast?, List.getLast?_cons,
    List.getLast?_eq_some_getLast hl]
  rfl

/-- A non-empty list reads as one of its elements everywhere. -/
theorem ext_mem (hl : l ≠ []) (i : ℕ) : ext l i ∈ l := by
  by_cases hi : i < l.length
  · rw [ext_of_lt hi]
    exact List.getElem_mem hi
  · rw [ext_of_le hl (by omega)]
    exact List.getLast_mem hl

theorem ext_map [Inhabited β] (f : α → β) (hl : l ≠ []) (i : ℕ) : ext (l.map f) i = f (ext l i) := by
  by_cases hi : i < l.length
  · rw [ext_of_lt (by simpa using hi), ext_of_lt hi, List.getElem_map]
  · have hne : l.map f ≠ [] := by simpa using hl
    rw [ext_of_le hne (by simp; omega), ext_of_le hl (by omega), List.getLast_map]

end Ext

/-! ## The padded operation on non-empty lists -/

section ZipWithPad

variable [Inhabited α] {l r : List α}

/-- On non-empty lists the padded operation is defined, has the length of the
    longer list, and takes the values of the pointwise one. -/
theorem zipWithPad_eq (hl : l ≠ []) (hr : r ≠ []) (f : α → α → β) :
    zipWithPad f l r =
      some ((List.range (max l.length r.length)).map fun i => f (ext l i) (ext r i)) := by
  have hzip : ∀ n, l.length ≤ n → r.length ≤ n →
      ((List.range n).map (ext l)).zip ((List.range n).map (ext r)) =
        (List.range n).map fun i => (ext l i, ext r i) := fun _ _ _ => List.zip_map'
  unfold zipWithPad zipPad
  split
  · dsimp only
    rw [pad_side_eq hl (Nat.le_max_left _ _), Option.bind_some,
      pad_side_eq hr (Nat.le_max_right _ _), Option.map_some, Option.map_some,
      hzip _ (Nat.le_max_left _ _) (Nat.le_max_right _ _), List.map_map]
    rfl
  · rename_i h
    -- equal lengths: no padding, but each side is still its own function's range
    have hlr : l.length = r.length := Decidable.of_not_not h
    have hl' := pad_side_eq hl (Nat.le_refl l.length)
    have hr' := pad_side_eq hr (Nat.le_of_eq hlr.symm)
    rw [if_pos rfl, Option.some_inj] at hl'
    rw [if_pos hlr.symm, Option.some_inj] at hr'
    have hlr' : l.zip r = (List.range l.length).map fun i => (ext l i, ext r i) :=
      calc l.zip r
          = ((List.range l.length).map (ext l)).zip ((List.range l.length).map (ext r)) := by
            rw [← hl', ← hr']
        _ = _ := hzip _ (Nat.le_refl _) (Nat.le_of_eq hlr.symm)
    rw [Option.map_some, Nat.max_eq_left (Nat.le_of_eq hlr.symm), hlr', List.map_map]
    rfl

theorem ext_zipWithPad [Inhabited β] (hl : l ≠ []) (hr : r ≠ []) {f : α → α → β} {ps : List β}
    (h : zipWithPad f l r = some ps) (i : ℕ) : ext ps i = f (ext l i) (ext r i) := by
  rw [zipWithPad_eq hl hr, Option.some_inj] at h
  subst h
  have hpos : 0 < max l.length r.length :=
    Nat.lt_of_lt_of_le (List.length_pos_iff.mpr hl) (Nat.le_max_left _ _)
  rw [ext_range_map hpos, ext_min hl (Nat.le_max_left _ _), ext_min hr (Nat.le_max_right _ _)]

theorem length_of_zipWithPad (hl : l ≠ []) (hr : r ≠ []) {f : α → α → β} {ps : List β}
    (h : zipWithPad f l r = some ps) : ps.length = max l.length r.length := by
  rw [zipWithPad_eq hl hr, Option.some_inj] at h
  simp [← h]

end ZipWithPad

end Pad
