-- SUMMARY: The C++ standard algorithms as libstdc++ runs them: std::lower_bound as its binary search, std::max_element and std::min_element with a comparator, std::iter_swap, and the contract of std::sort.
import Mathlib.Algebra.BigOperators.Group.List.Basic
import Mathlib.Data.List.Permutation
import Mathlib.Data.List.Sort
import Mathlib.Tactic.Abel
import Mathlib.Order.Basic
import HopperKV.Lib.Scalar

/-!
# Standard algorithms

Each definition follows the libstdc++ implementation of the algorithm, so it
is defined on every input and not only on the inputs where the C++ standard
specifies the result. Positions are indices into the list, and the end
iterator is the length.

* `StdAlgo.lowerBound` is `std::__lower_bound`: a binary search that keeps a
  first position and a length. On a sorted list it returns the partition
  point (`lowerBound_spec`).
* `StdAlgo.maxElement` and `StdAlgo.minElement` scan from the left and move
  only on a strict comparison, so they return the first extremal position.
* `StdAlgo.iterSwap` exchanges two positions.
* `StdAlgo.foldl_update_apply`: in a loop of assignments to a map, the last
  assignment to a key wins.
* `StdAlgo.IeeeSort` is the contract of `std::sort` with a comparator
  `key a < key b`: a permutation, sorted when every key is finite. The order
  of equal keys is not specified, so it is a parameter.
-/

namespace StdAlgo

-- ---------------------------------------------------------------------------
-- std::lower_bound
-- ---------------------------------------------------------------------------

section LowerBound

variable {α : Type*} [LinearOrder α]

/-- The loop of libstdc++ `__lower_bound` over `[first, first + len)`. The
    length shrinks at every step, so `fuel ≥ len` never runs out: the fuel is
    the length of the list, and `lowerBoundLoop_inv` needs no more. -/
def lowerBoundLoop (l : List α) (v : α) : ℕ → ℕ → ℕ → ℕ
  | 0, first, _ => first
  | fuel + 1, first, len =>
    if len = 0 then first
    else
      let half := len / 2
      let middle := first + half
      if (l[middle]?).any (· < v) then lowerBoundLoop l v fuel (middle + 1) (len - half - 1)
      else lowerBoundLoop l v fuel first half

/-- `std::lower_bound(l.begin(), l.end(), v)`. -/
def lowerBound (l : List α) (v : α) : ℕ := lowerBoundLoop l v l.length 0 l.length

/-- The invariant of the binary search on a sorted list: every position below
    `first` holds a value below `v`, and every position from `first + len` on
    holds a value at least `v`. -/
def LowerBoundInv (l : List α) (v : α) (first len : ℕ) : Prop :=
  first + len ≤ l.length ∧
    (∀ i (h : i < l.length), i < first → l[i] < v) ∧
    (∀ i (h : i < l.length), first + len ≤ i → v ≤ l[i])

theorem lowerBoundLoop_inv {l : List α} {v : α} (hs : l.Pairwise (· ≤ ·)) :
    ∀ (fuel first len : ℕ), len ≤ fuel → LowerBoundInv l v first len →
      LowerBoundInv l v (lowerBoundLoop l v fuel first len) 0
  | 0, first, len, hle, hinv => by
    have : len = 0 := by omega
    subst this
    simpa [lowerBoundLoop] using hinv
  | fuel + 1, first, len, hle, ⟨hlen, hbelow, habove⟩ => by
    unfold lowerBoundLoop
    by_cases h0 : len = 0
    · subst h0
      rw [if_pos rfl]
      exact ⟨by omega, hbelow, fun i hi h => habove i hi (by omega)⟩
    · simp only [h0, if_false]
      have hmid : first + len / 2 < l.length := by omega
      rw [List.getElem?_eq_getElem hmid]
      by_cases hlt : l[first + len / 2] < v
      · simp only [Option.any_some, hlt, decide_true, if_true]
        refine lowerBoundLoop_inv hs fuel _ _ (by omega) ⟨by omega, ?_, ?_⟩
        · -- everything up to the middle is at most the middle, hence below `v`
          intro i hi hi'
          rcases Nat.lt_or_ge i first with hif | hif
          · exact hbelow i hi hif
          · rcases Nat.lt_or_eq_of_le (show i ≤ first + len / 2 by omega) with h | h
            · exact lt_of_le_of_lt (List.pairwise_iff_getElem.mp hs i _ hi hmid h) hlt
            · subst h; exact hlt
        · intro i hi hi'
          exact habove i hi (by omega)
      · simp only [Option.any_some, hlt, decide_false]
        refine lowerBoundLoop_inv hs fuel _ _ (by omega) ⟨by omega, hbelow, ?_⟩
        -- everything from the middle on is at least the middle, hence at least `v`
        intro i hi hi'
        rcases Nat.lt_or_eq_of_le hi' with h | h
        · exact le_trans (not_lt.mp hlt) (List.pairwise_iff_getElem.mp hs _ i hmid hi (by omega))
        · subst h; exact not_lt.mp hlt

/-- On a sorted list, `std::lower_bound` returns the partition point: a
    position at most the length, below which every value is less than `v`
    and from which every value is at least `v`. -/
theorem lowerBound_spec {l : List α} {v : α} (hs : l.Pairwise (· ≤ ·)) :
    lowerBound l v ≤ l.length ∧
      (∀ i (h : i < l.length), i < lowerBound l v → l[i] < v) ∧
      (∀ i (h : i < l.length), lowerBound l v ≤ i → v ≤ l[i]) := by
  unfold lowerBound
  obtain ⟨hlen, hbelow, habove⟩ := lowerBoundLoop_inv hs l.length 0 l.length le_rfl
    ⟨by simp, fun i _ h => absurd h (Nat.not_lt_zero i), fun i hi h => absurd hi (by omega)⟩
  exact ⟨by simpa using hlen, hbelow, fun i hi hi' => habove i hi (by simpa using hi')⟩

/-- On a sorted list the partition point is unique: a position with the
    properties of `lowerBound_spec` is the one `std::lower_bound` returns. -/
theorem lowerBound_eq {l : List α} {v : α} (hs : l.Pairwise (· ≤ ·)) {p : ℕ} (hp : p ≤ l.length)
    (hbelow : ∀ i (h : i < l.length), i < p → l[i] < v)
    (habove : ∀ i (h : i < l.length), p ≤ i → v ≤ l[i]) : lowerBound l v = p := by
  obtain ⟨hk, hkbelow, hkabove⟩ := lowerBound_spec (v := v) hs
  rcases lt_trichotomy (lowerBound l v) p with hlt | heq | hgt
  · have hi : lowerBound l v < l.length := by omega
    exact absurd (hbelow _ hi hlt) (not_lt.mpr (hkabove _ hi le_rfl))
  · exact heq
  · have hi : p < l.length := by omega
    exact absurd (hkbelow _ hi hgt) (not_lt.mpr (habove _ hi le_rfl))

/-- On a sorted list `std::lower_bound` is monotone in the value. -/
theorem lowerBound_mono {l : List α} (hs : l.Pairwise (· ≤ ·)) {v w : α} (hvw : v ≤ w) :
    lowerBound l v ≤ lowerBound l w := by
  obtain ⟨hv, hvbelow, -⟩ := lowerBound_spec (v := v) hs
  obtain ⟨-, -, hwabove⟩ := lowerBound_spec (v := w) hs
  by_contra hlt
  have hi : lowerBound l w < l.length := by omega
  exact absurd (lt_of_le_of_lt (hwabove _ hi le_rfl) (hvbelow _ hi (by omega))) (not_lt.mpr hvw)

example : lowerBound [10, 20, 20, 40] (20 : ℕ) = 1 := by decide
example : lowerBound [10, 20, 20, 40] (41 : ℕ) = 4 := by decide

end LowerBound

-- ---------------------------------------------------------------------------
-- std::max_element, std::min_element, std::iter_swap
-- ---------------------------------------------------------------------------

section Extremum

variable {α : Type*}

/-- The scan of `std::max_element`: `cur` is the element at position `best`,
    and it is replaced by a later element `b` exactly when `comp cur b`. -/
def maxElementScan (comp : α → α → Bool) : List α → α → ℕ → ℕ → ℕ
  | [], _, best, _ => best
  | b :: l, cur, best, i =>
    if comp cur b then maxElementScan comp l b i (i + 1) else maxElementScan comp l cur best (i + 1)

/-- `std::max_element(l.begin(), l.end(), comp)`, as a position. -/
def maxElement (comp : α → α → Bool) : List α → ℕ
  | [] => 0
  | a :: l => maxElementScan comp l a 0 1

/-- The scan of `std::min_element`: `cur` is replaced by a later element `b`
    exactly when `comp b cur`. -/
def minElementScan (comp : α → α → Bool) : List α → α → ℕ → ℕ → ℕ
  | [], _, best, _ => best
  | b :: l, cur, best, i =>
    if comp b cur then minElementScan comp l b i (i + 1) else minElementScan comp l cur best (i + 1)

/-- `std::min_element(l.begin(), l.end(), comp)`, as a position. -/
def minElement (comp : α → α → Bool) : List α → ℕ
  | [] => 0
  | a :: l => minElementScan comp l a 0 1

theorem maxElementScan_lt (comp : α → α → Bool) :
    ∀ (l : List α) (cur : α) (best i : ℕ), best < i → maxElementScan comp l cur best i < i + l.length
  | [], _, _, _, h => by simpa [maxElementScan, minElementScan] using h
  | b :: l, cur, best, i, h => by
    unfold maxElementScan
    split
    · have := maxElementScan_lt comp l b i (i + 1) (Nat.lt_succ_self i)
      simp only [List.length_cons]
      omega
    · have := maxElementScan_lt comp l cur best (i + 1) (by omega)
      simp only [List.length_cons]
      omega

theorem minElementScan_lt (comp : α → α → Bool) :
    ∀ (l : List α) (cur : α) (best i : ℕ), best < i → minElementScan comp l cur best i < i + l.length
  | [], _, _, _, h => by simpa [maxElementScan, minElementScan] using h
  | b :: l, cur, best, i, h => by
    unfold minElementScan
    split
    · have := minElementScan_lt comp l b i (i + 1) (Nat.lt_succ_self i)
      simp only [List.length_cons]
      omega
    · have := minElementScan_lt comp l cur best (i + 1) (by omega)
      simp only [List.length_cons]
      omega

/-- On a non-empty range `std::max_element` returns a position in it. -/
theorem maxElement_lt_length (comp : α → α → Bool) {l : List α} (h : l ≠ []) :
    maxElement comp l < l.length := by
  cases l with
  | nil => exact absurd rfl h
  | cons a l =>
    have := maxElementScan_lt comp l a 0 1 Nat.one_pos
    simp only [maxElement, List.length_cons]
    omega

/-- On a non-empty range `std::min_element` returns a position in it. -/
theorem minElement_lt_length (comp : α → α → Bool) {l : List α} (h : l ≠ []) :
    minElement comp l < l.length := by
  cases l with
  | nil => exact absurd rfl h
  | cons a l =>
    have := minElementScan_lt comp l a 0 1 Nat.one_pos
    simp only [minElement, List.length_cons]
    omega

section Key

variable {β : Type*} [LinearOrder β] (comp : α → α → Bool) (k : α → β) {L : List α}

/-- The scan of `std::max_element` with a comparator that compares keys in a
    linear order: it ends at an element whose key is the largest of `L`, when
    the part `pre` already scanned has none larger than `cur`. -/
theorem maxElementScan_max (hcomp : ∀ a ∈ L, ∀ b ∈ L, comp a b = decide (k a < k b)) :
    ∀ (rest pre : List α) (cur : α) (best : ℕ), L = pre ++ rest → L[best]? = some cur →
      (∀ b ∈ pre, k b ≤ k cur) →
      ∃ m, L[maxElementScan comp rest cur best pre.length]? = some m ∧ ∀ b ∈ L, k b ≤ k m
  | [], pre, cur, best, hL, hcur, hpre => ⟨cur, hcur, by simpa [hL] using hpre⟩
  | b :: rest, pre, cur, best, hL, hcur, hpre => by
    have hcurL : cur ∈ L := List.mem_of_getElem? hcur
    have hbL : b ∈ L := by simp [hL]
    have hL' : L = (pre ++ [b]) ++ rest := by simp [hL]
    have hlen : (pre ++ [b]).length = pre.length + 1 := by simp
    unfold maxElementScan
    split
    case isTrue h =>
      -- a larger key: the scan moves to `b`
      have hlt : k cur < k b := by simpa [hcomp cur hcurL b hbL] using h
      have hb : L[pre.length]? = some b := by simp [hL]
      have := maxElementScan_max hcomp rest (pre ++ [b]) b pre.length hL' hb fun x hx => by
        rcases List.mem_append.mp hx with hx | hx
        · exact (hpre x hx).trans hlt.le
        · rw [List.mem_singleton.mp hx]
      rwa [hlen] at this
    case isFalse h =>
      have hle : k b ≤ k cur := by simpa [hcomp cur hcurL b hbL] using h
      have := maxElementScan_max hcomp rest (pre ++ [b]) cur best hL' hcur fun x hx => by
        rcases List.mem_append.mp hx with hx | hx
        · exact hpre x hx
        · rw [List.mem_singleton.mp hx]
          exact hle
      rwa [hlen] at this

/-- The scan of `std::min_element`, read the same way. -/
theorem minElementScan_min (hcomp : ∀ a ∈ L, ∀ b ∈ L, comp a b = decide (k a < k b)) :
    ∀ (rest pre : List α) (cur : α) (best : ℕ), L = pre ++ rest → L[best]? = some cur →
      (∀ b ∈ pre, k cur ≤ k b) →
      ∃ m, L[minElementScan comp rest cur best pre.length]? = some m ∧ ∀ b ∈ L, k m ≤ k b
  | [], pre, cur, best, hL, hcur, hpre => ⟨cur, hcur, by simpa [hL] using hpre⟩
  | b :: rest, pre, cur, best, hL, hcur, hpre => by
    have hcurL : cur ∈ L := List.mem_of_getElem? hcur
    have hbL : b ∈ L := by simp [hL]
    have hL' : L = (pre ++ [b]) ++ rest := by simp [hL]
    have hlen : (pre ++ [b]).length = pre.length + 1 := by simp
    unfold minElementScan
    split
    case isTrue h =>
      -- a smaller key: the scan moves to `b`
      have hlt : k b < k cur := by simpa [hcomp b hbL cur hcurL] using h
      have hb : L[pre.length]? = some b := by simp [hL]
      have := minElementScan_min hcomp rest (pre ++ [b]) b pre.length hL' hb fun x hx => by
        rcases List.mem_append.mp hx with hx | hx
        · exact hlt.le.trans (hpre x hx)
        · rw [List.mem_singleton.mp hx]
      rwa [hlen] at this
    case isFalse h =>
      have hle : k cur ≤ k b := by simpa [hcomp b hbL cur hcurL] using h
      have := minElementScan_min hcomp rest (pre ++ [b]) cur best hL' hcur fun x hx => by
        rcases List.mem_append.mp hx with hx | hx
        · exact hpre x hx
        · rw [List.mem_singleton.mp hx]
          exact hle
      rwa [hlen] at this

/-- `std::max_element` with a comparator on keys returns the position of a
    largest key. -/
theorem maxElement_max (hl : L ≠ []) (hcomp : ∀ a ∈ L, ∀ b ∈ L, comp a b = decide (k a < k b)) :
    ∃ m, L[maxElement comp L]? = some m ∧ ∀ b ∈ L, k b ≤ k m := by
  cases L with
  | nil => exact absurd rfl hl
  | cons a l => exact maxElementScan_max comp k hcomp l [a] a 0 rfl rfl (by simp)

/-- `std::min_element` with a comparator on keys returns the position of a
    least key. -/
theorem minElement_min (hl : L ≠ []) (hcomp : ∀ a ∈ L, ∀ b ∈ L, comp a b = decide (k a < k b)) :
    ∃ m, L[minElement comp L]? = some m ∧ ∀ b ∈ L, k m ≤ k b := by
  cases L with
  | nil => exact absurd rfl hl
  | cons a l => exact minElementScan_min comp k hcomp l [a] a 0 rfl rfl (by simp)

end Key

/-- An update at one position, read through `map`. -/
theorem map_modify {β : Type*} (g : α → β) (f : α → α) {l : List α} {i : ℕ} (hi : i < l.length) :
    (l.modify i f).map g = (l.map g).set i (g (f l[i])) := by
  apply List.ext_getElem (by simp)
  intro j hj _
  simp only [List.getElem_map, List.getElem_modify, List.getElem_set]
  split <;> simp_all

/-- A property of every element survives an update at one position that
    keeps it there. -/
theorem forall_mem_modify {P : α → Prop} {l : List α} {i : ℕ} {f : α → α} (h : ∀ x ∈ l, P x)
    (hf : ∀ hi : i < l.length, P (f l[i])) : ∀ x ∈ l.modify i f, P x := by
  intro x hx
  obtain ⟨j, hj, rfl⟩ := List.getElem_of_mem hx
  rw [List.getElem_modify]
  split
  case isTrue hij =>
    subst hij
    exact hf (by simpa using hj)
  case isFalse => exact h _ (List.getElem_mem _)

/-- A `set` trades the element at its position for the new one in a sum. -/
theorem sum_set_add {β : Type*} [AddCommMonoid β] (l : List β) {n : ℕ} (hn : n < l.length) (b : β) :
    (l.set n b).sum + l[n] = l.sum + b := by
  have hset := List.sum_set l n b
  rw [if_pos hn] at hset
  have hl : l.sum = (l.take n).sum + l[n] + (l.drop (n + 1)).sum := by
    rw [← List.sum_take_add_sum_drop l n, List.drop_eq_getElem_cons hn, List.sum_cons, add_assoc]
  rw [hset, hl]
  abel

/-- Updates at two different positions change a sum by the two updates. -/
theorem sum_map_modify_modify {β : Type*} [AddCommMonoid β] (g : α → β) (f f' : α → α)
    {l : List α} {i j : ℕ} (hi : i < l.length) (hj : j < l.length) (hij : i ≠ j) :
    (((l.modify i f).modify j f').map g).sum + (g l[i] + g l[j]) =
      (l.map g).sum + (g (f l[i]) + g (f' l[j])) := by
  have hj' : j < (l.modify i f).length := by simpa using hj
  rw [map_modify _ _ hj', map_modify _ _ hi, List.getElem_modify, if_neg hij]
  have h₁ := sum_set_add ((l.map g).set i (g (f l[i]))) (n := j) (by simpa using hj)
    (g (f' l[j]))
  have h₂ := sum_set_add (l.map g) (n := i) (by simpa using hi) (g (f l[i]))
  rw [List.getElem_set, if_neg hij, List.getElem_map] at h₁
  rw [List.getElem_map] at h₂
  calc _ = (((l.map g).set i (g (f l[i]))).set j (g (f' l[j]))).sum + g l[j] + g l[i] := by
          abel
    _ = ((l.map g).set i (g (f l[i]))).sum + g l[i] + g (f' l[j]) := by rw [h₁]; abel
    _ = _ := by rw [h₂]; abel

/-- `std::iter_swap` on the positions `i` and `j`. -/
def iterSwap (l : List α) (i j : ℕ) : List α :=
  match l[i]?, l[j]? with
  | some a, some b => (l.set i b).set j a
  | _, _ => l

theorem length_iterSwap (l : List α) (i j : ℕ) : (iterSwap l i j).length = l.length := by
  unfold iterSwap
  split <;> simp

/-- `std::iter_swap(it, begin)` brings the element at `it` to the front. -/
theorem iterSwap_getElem?_zero {l : List α} {i : ℕ} (hi : i < l.length) :
    (iterSwap l i 0)[0]? = l[i]? := by
  unfold iterSwap
  have h0 : 0 < l.length := by omega
  rw [List.getElem?_eq_getElem hi, List.getElem?_eq_getElem h0]
  exact List.getElem?_set_self (by simpa using h0)

theorem iterSwap_perm (l : List α) (i j : ℕ) : (iterSwap l i j).Perm l := by
  unfold iterSwap
  split
  · rename_i a b ha hb
    obtain ⟨hi, rfl⟩ := List.getElem?_eq_some_iff.mp ha
    obtain ⟨hj, rfl⟩ := List.getElem?_eq_some_iff.mp hb
    exact List.set_set_perm hi hj
  · exact List.Perm.refl l

end Extremum

-- ---------------------------------------------------------------------------
-- std::sort
-- ---------------------------------------------------------------------------

/-- The contract of `std::sort(first, last, comp)` where `comp a b` is
    `key a < key b` on `double` keys: the result is a permutation, and it is
    sorted when every key is finite (with a NaN key the comparator is not a
    strict weak order and the standard leaves the result unspecified). The
    order of elements with equal keys is not specified either, so a model
    takes a sort as a parameter. -/
structure IeeeSort (α : Type*) (F : Type*) [Field F] [LinearOrder F] where
  sort : (α → Ieee F) → List α → List α
  perm : ∀ key l, (sort key l).Perm l
  sorted : ∀ key l, (∀ a ∈ l, Ieee.IsFin (key a)) → (sort key l).Pairwise (fun a b => key a ≤ key b)

/-- A sort that meets the contract: merge sort on the finite parts of the
    keys (`Ieee.weight`), which order finite keys as `<` does. -/
def IeeeSort.byFinitePart {α F : Type*} [Field F] [LinearOrder F] : IeeeSort α F where
  sort key l := l.mergeSort fun a b => decide ((Ieee.weight (key a)).2 ≤ (Ieee.weight (key b)).2)
  perm key l := List.mergeSort_perm _ _
  sorted key l hfin := by
    have hsorted := @List.pairwise_mergeSort _
      (fun a b => decide ((Ieee.weight (key a)).2 ≤ (Ieee.weight (key b)).2))
      (fun a b c hab hbc => by simp only [decide_eq_true_eq] at hab hbc ⊢; exact le_trans hab hbc)
      (fun a b => by simpa using le_total _ _) l
    refine hsorted.imp_of_mem fun {a b} ha hb hab => ?_
    -- on finite keys the finite parts are the keys
    have ha' := hfin a ((List.mergeSort_perm _ _).mem_iff.mp ha)
    have hb' := hfin b ((List.mergeSort_perm _ _).mem_iff.mp hb)
    obtain ⟨x, hx⟩ := ha'.exists_eq
    obtain ⟨y, hy⟩ := hb'.exists_eq
    have hxy := of_decide_eq_true hab
    rw [hx, hy] at hxy ⊢
    exact Ieee.fin_le_fin.mpr hxy

/-- On finite keys the finite parts order as the keys do. -/
theorem weight_le_of_isFin {F : Type*} [Field F] [LinearOrder F] {a b : Ieee F} (ha : a.IsFin)
    (hb : b.IsFin) (h : (Ieee.weight a).2 ≤ (Ieee.weight b).2) : a ≤ b := by
  obtain ⟨x, rfl⟩ := ha.exists_eq
  obtain ⟨y, rfl⟩ := hb.exists_eq
  exact Ieee.fin_le_fin.mpr h

/-- Another sort that meets the contract: insertion sort on the finite parts
    of the keys, which is structurally recursive and so evaluates by
    `decide`. -/
def IeeeSort.byInsertion {α F : Type*} [Field F] [LinearOrder F] : IeeeSort α F where
  sort key l := l.insertionSort fun a b => (Ieee.weight (key a)).2 ≤ (Ieee.weight (key b)).2
  perm key l := List.perm_insertionSort _ _
  sorted key l hfin := by
    let r : α → α → Prop := fun a b => (Ieee.weight (key a)).2 ≤ (Ieee.weight (key b)).2
    have : Std.Total r := ⟨fun a b => le_total _ _⟩
    have : IsTrans α r := ⟨fun _ _ _ => le_trans⟩
    refine (List.pairwise_insertionSort r l).imp_of_mem fun {a b} ha hb hab => ?_
    exact weight_le_of_isFin (hfin a ((List.perm_insertionSort r l).mem_iff.mp ha))
      (hfin b ((List.perm_insertionSort r l).mem_iff.mp hb)) hab

/-- Two elements with finite keys in increasing order stay in their order. -/
theorem IeeeSort.sort_pair {α F : Type*} [Field F] [LinearOrder F] (sort : IeeeSort α F)
    (key : α → Ieee F) {a b : α} {x y : F} (ha : key a = Ieee.fin x) (hb : key b = Ieee.fin y)
    (hxy : x < y) : sort.sort key [a, b] = [a, b] := by
  have hfin : ∀ c ∈ [a, b], Ieee.IsFin (key c) := by
    intro c hc
    rcases List.mem_pair.mp hc with rfl | rfl
    · rw [ha]; trivial
    · rw [hb]; trivial
  rcases List.perm_pair.mp (sort.perm key [a, b]) with h | h
  · exact h
  · -- the other order puts the larger key first
    have hsorted := sort.sorted key [a, b] hfin
    rw [h, List.pairwise_pair, ha, hb, Ieee.fin_le_fin] at hsorted
    exact absurd hsorted (not_le.mpr hxy)

/-- On finite, pairwise distinct keys the contract leaves one order, so any
    two sorts agree. -/
theorem IeeeSort.sort_eq_sort {α F : Type*} [Field F] [LinearOrder F] (sort sort' : IeeeSort α F)
    (key : α → Ieee F) {l : List α} (hfin : ∀ a ∈ l, Ieee.IsFin (key a))
    (hinj : ∀ a ∈ l, ∀ b ∈ l, key a = key b → a = b) : sort.sort key l = sort'.sort key l := by
  have hmem : ∀ (s : IeeeSort α F) {a : α}, a ∈ s.sort key l → a ∈ l :=
    fun s _ h => (s.perm key l).mem_iff.mp h
  refine @List.Perm.eq_of_pairwise _ (fun a b => key a ≤ key b) _ _ (fun a b ha hb hab hba => ?_)
    (sort.sorted key l hfin) (sort'.sorted key l hfin)
    ((sort.perm key l).trans (sort'.perm key l).symm)
  obtain ⟨x, hx⟩ := (hfin a (hmem sort ha)).exists_eq
  obtain ⟨y, hy⟩ := (hfin b (hmem sort' hb)).exists_eq
  rw [hx, hy, Ieee.fin_le_fin] at hab hba
  exact hinj a (hmem sort ha) b (hmem sort' hb) (by rw [hx, hy, le_antisymm hab hba])

-- ---------------------------------------------------------------------------
-- Assignments in a loop
-- ---------------------------------------------------------------------------

section Update

variable {κ ρ β : Type*} [DecidableEq κ]

/-- A loop `m[key(r)] = val(r)` over the rows leaves at `x` the value of the
    last row with key `x`, and the value it had where no row has key `x`. -/
theorem foldl_update_apply (key : ρ → κ) (val : ρ → β) (rows : List ρ) (m : κ → β) (x : κ) :
    rows.foldl (fun m r => Function.update m (key r) (val r)) m x =
      ((rows.reverse.find? fun r => key r = x).map val).getD (m x) := by
  induction rows generalizing m with
  | nil => rfl
  | cons r rows ih =>
    rw [List.foldl_cons, ih, List.reverse_cons, List.find?_append]
    -- a later row of key `x` hides the update of this one
    cases hfind : rows.reverse.find? (fun r => key r = x) with
    | some r' => rfl
    | none =>
      by_cases hx : key r = x
      · simp [hx]
      · simp [hx, Function.update_of_ne (Ne.symm hx)]

end Update

end StdAlgo
