-- SUMMARY: The stateless vectors of the allocator read in the field: the three resources as an index, vectors whose fields are finite, their sums and differences, and operator/ as the least quotient, a value of the field or +∞.
import HopperKV.Engine.Resrc
import Mathlib.Algebra.BigOperators.Pi

/-!
# Exact stateless vectors

The allocator adds, subtracts and scales `StatelessResrcVec`s field by field.
As long as every field is finite these are the operations of `Res → F`, the
functions from the three resources to `F`: `StatelessResrcVec.ofFun` turns
such a function into a vector, and `StatelessResrcVec.val` reads a vector
back. Sums over tenants are then sums in `Res → F`, and conservation of
resources is an equation there.

`operator/` takes the least of three quotients. When no field is `0 / 0`,
each quotient is a value of `F` or `+∞` (`Ieee.divTop`), and so is their
least (`ratioTop`, `ratio_ofFun`).
-/

namespace Hare

open Ieee

set_option linter.unusedSectionVars false

/-- The three stateless resources, in the order of `StatelessResrcVec`. -/
inductive Res where
  | dbRcu
  | dbWcu
  | netBw
  deriving DecidableEq

variable {F : Type} [Field F] [LinearOrder F]

namespace StatelessResrcVec

/-- The field of a resource. -/
def get (a : StatelessResrcVec F) : Res → Ieee F
  | .dbRcu => a.dbRcu
  | .dbWcu => a.dbWcu
  | .netBw => a.netBw

/-- The vector whose fields are the finite values `v`. -/
def ofFun (v : Res → F) : StatelessResrcVec F := ⟨fin (v .dbRcu), fin (v .dbWcu), fin (v .netBw)⟩

/-- Every field is finite. -/
def IsFin (a : StatelessResrcVec F) : Prop := ∀ r, (a.get r).IsFin

/-- The finite parts of the fields. -/
def val (a : StatelessResrcVec F) (r : Res) : F := (a.get r).val

@[simp] theorem ofFun_dbRcu (v : Res → F) : (ofFun v).dbRcu = fin (v .dbRcu) := rfl
@[simp] theorem ofFun_dbWcu (v : Res → F) : (ofFun v).dbWcu = fin (v .dbWcu) := rfl
@[simp] theorem ofFun_netBw (v : Res → F) : (ofFun v).netBw = fin (v .netBw) := rfl

@[simp] theorem get_ofFun (v : Res → F) (r : Res) : (ofFun v).get r = fin (v r) := by
  cases r <;> rfl

@[simp] theorem val_ofFun (v : Res → F) : (ofFun v).val = v := by
  funext r
  simp [val]

theorem isFin_ofFun (v : Res → F) : (ofFun v).IsFin := fun r => by simp

theorem IsFin.eq_ofFun {a : StatelessResrcVec F} (h : a.IsFin) : a = ofFun a.val := by
  have h₁ := (h .dbRcu).eq_fin
  have h₂ := (h .dbWcu).eq_fin
  have h₃ := (h .netBw).eq_fin
  cases a
  simp only [get] at h₁ h₂ h₃
  rw [h₁, h₂, h₃]
  rfl

theorem ofFun_injective : Function.Injective (ofFun : (Res → F) → StatelessResrcVec F) := by
  intro v w h
  funext r
  simpa using congrArg (fun a => (a.get r).val) h

@[simp] theorem ofFun_add (v w : Res → F) : ofFun v + ofFun w = ofFun (v + w) := rfl

@[simp] theorem ofFun_sub (v w : Res → F) : ofFun v - ofFun w = ofFun (v - w) := by
  show (⟨fin _ - fin _, fin _ - fin _, fin _ - fin _⟩ : StatelessResrcVec F) = _
  simp only [fin_sub_fin]
  rfl

theorem zero_eq_ofFun : (zero : StatelessResrcVec F) = ofFun 0 := rfl

@[simp] theorem scale_ofFun (v : Res → F) (k : F) :
    (ofFun v).scale (fin k) = ofFun fun r => v r * k := rfl

/-- A sum of finite vectors, read in `Res → F`. -/
theorem foldl_add_ofFun {α : Type*} (f : α → Res → F) (l : List α) (v : Res → F) :
    l.foldl (fun s x => s + ofFun (f x)) (ofFun v) = ofFun (v + (l.map f).sum) := by
  induction l generalizing v with
  | nil => simp
  | cons x l ih => rw [List.foldl_cons, ofFun_add, ih, List.map_cons, List.sum_cons, add_assoc]

end StatelessResrcVec

/-! ## Quotients -/

/-- The least of the three quotients of `a` by `b`, each of them a value of
    `F` or `+∞`. -/
def ratioTop (a b : Res → F) : WithTop F :=
  min (min (divTop (a .dbRcu) (b .dbRcu)) (divTop (a .dbWcu) (b .dbWcu)))
    (divTop (a .netBw) (b .netBw))

theorem ratioTop_le (a b : Res → F) (r : Res) : ratioTop a b ≤ divTop (a r) (b r) := by
  unfold ratioTop
  cases r with
  | dbRcu => exact le_trans (min_le_left _ _) (min_le_left _ _)
  | dbWcu => exact le_trans (min_le_left _ _) (min_le_right _ _)
  | netBw => exact min_le_right _ _

theorem le_ratioTop {a b : Res → F} {x : WithTop F} (h : ∀ r, x ≤ divTop (a r) (b r)) :
    x ≤ ratioTop a b :=
  le_min (le_min (h .dbRcu) (h .dbWcu)) (h .netBw)

/-- The least quotient is one of the three. -/
theorem exists_ratioTop_eq (a b : Res → F) : ∃ r, ratioTop a b = divTop (a r) (b r) := by
  unfold ratioTop
  rcases min_choice (min (divTop (a .dbRcu) (b .dbRcu)) (divTop (a .dbWcu) (b .dbWcu)))
    (divTop (a .netBw) (b .netBw)) with h | h
  · rw [h]
    rcases min_choice (divTop (a .dbRcu) (b .dbRcu)) (divTop (a .dbWcu) (b .dbWcu)) with h' | h'
    · exact ⟨.dbRcu, h'⟩
    · exact ⟨.dbWcu, h'⟩
  · exact ⟨.netBw, h⟩

/-- `operator/` on finite vectors with no field `0 / 0` and no negative field
    over zero. -/
theorem ratio_ofFun {a b : Res → F} (h : ∀ r, b r = 0 → 0 < a r) :
    (StatelessResrcVec.ofFun a).ratio (StatelessResrcVec.ofFun b) = ofTop (ratioTop a b) := by
  simp only [StatelessResrcVec.ratio, StatelessResrcVec.ratioWith, id, StatelessResrcVec.ofFun_dbRcu,
    StatelessResrcVec.ofFun_dbWcu, StatelessResrcVec.ofFun_netBw,
    fin_div_fin_eq_ofTop (h .dbRcu), fin_div_fin_eq_ofTop (h .dbWcu),
    fin_div_fin_eq_ofTop (h .netBw), stdMin_ofTop, ratioTop]

section Order

variable [IsStrictOrderedRing F]

theorem divTop_nonneg {a b : F} (ha : 0 ≤ a) (hb : 0 ≤ b) : 0 ≤ divTop a b := by
  by_cases h : b = 0
  · rw [h, divTop_zero]
    exact le_top
  · rw [divTop_of_ne h]
    exact WithTop.coe_nonneg.mpr (div_nonneg ha hb)

theorem ratioTop_nonneg {a b : Res → F} (ha : ∀ r, 0 ≤ a r) (hb : ∀ r, 0 ≤ b r) :
    0 ≤ ratioTop a b :=
  le_ratioTop fun r => divTop_nonneg (ha r) (hb r)

end Order

end Hare
