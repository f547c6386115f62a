-- SUMMARY: The controller's throughput estimate (tenant.py): estimate_tput with Python's division of floats, rounded by a parameter, and its special cases for zero demands; without rounding it is the throughput tp of hare::Tenant::collect_idle whenever the net_bw factor is not zero, and in binary64 the two differ.
import HopperKV.Control.Tenant
import HopperKV.Engine.Quote
import HopperKV.Lib.Binary64

/-!
# The controller's throughput estimate

`Tenant.estimate_tput(resrc)` takes the least of the quotients of `db_rcu`,
`db_wcu` and `net_bw` by their demands, the `db_rcu` demand scaled by the miss
ratio `mr` and the `net_bw` demand by `1 - net_bw_alpha + net_bw_alpha * mr`;
a zero demand, or a zero `mr` for `db_rcu`, gives `float("inf")`. `run.py`
compares it with the throughput `tp` of `hare::Tenant::collect_idle`.

Evaluated without rounding the two agree (`estimateTput_eq_collectIdleTp`)
whenever the allocator scales `net_bw` too or `net_bw_alpha = 0`, and the
`net_bw` factor is not zero; a negative miss ratio (from `mrc_salt`) can make
it zero. In binary64 they differ, since Python
divides twice where C++ multiplies and divides once
(`estimateTputBinary64_ne_collectIdleTp`). The query updates the curve's
memo, which never changes an answer and is left out of the result.
-/

namespace Controller

open Ieee Hare StatelessResrcVec

set_option linter.unusedSectionVars false

variable {F : Type} [Field F] [LinearOrder F]

/-- `ZeroDivisionError` of `/` on floats. -/
def floatDivisionError : String := "ZeroDivisionError: float division by zero"

/-- `ResrcTuple`. -/
structure ResrcTuple (F : Type) where
  cacheSize : ℤ
  dbRcu : F
  dbWcu : F
  netBw : F

/-- Python's `a / b` on floats, rounded by `rnd`, which raises when `b` is
    zero. -/
def pyDivWith (rnd : Ieee F → Ieee F) (a b : Ieee F) : Except String (Ieee F) :=
  if b.equal (fin 0) then .error floatDivisionError else .ok (rnd (a / b))

/-- Python's `min(a, b, c)`: it keeps the first argument and replaces it by
    each later one that compares smaller. -/
def pyMin3 (a b c : Ieee F) : Ieee F :=
  let m := if b < a then b else a
  if c < m then c else m

/-- `Tenant.estimate_tput(resrc)`, with `self.mrc`, `self.demand_if_miss`
    and `self.net_bw_alpha`, each float operation rounded by `rnd`. pybind
    converts `resrc.cache_size` to `uint64_t` for `get_miss_ratio`. -/
def estimateTputWith (rnd : Ieee F → Ieee F) (mrc : MissRatioCurve F)
    (demandIfMiss : StatelessResrcVec F) (netBwAlpha : F) (resrc : ResrcTuple F) :
    Except String (Ieee F) := do
  let cacheSize ← Tenant.toU64 resrc.cacheSize
  let mr := (mrc.getMissRatio cacheSize).1
  let rcuDemand := demandIfMiss.dbRcu
  let wcuDemand := demandIfMiss.dbWcu
  let netDemand := demandIfMiss.netBw
  -- the three conditional expressions of the source, each a term of its own
  let rcuTput ← (if !rcuDemand.equal (fin 0) && !mr.equal (fin 0) then
      pyDivWith rnd (fin resrc.dbRcu) rcuDemand >>= fun x => pyDivWith rnd x mr
    else pure posInf)
  let wcuTput ← (if !wcuDemand.equal (fin 0) then pyDivWith rnd (fin resrc.dbWcu) wcuDemand
    else pure posInf)
  let netTput ← (if !netDemand.equal (fin 0) then
      pyDivWith rnd (fin resrc.netBw) netDemand >>= fun x =>
        pyDivWith rnd x (rnd (rnd (fin 1 - fin netBwAlpha) + rnd (fin netBwAlpha * mr)))
    else pure posInf)
  pure (pyMin3 rcuTput wcuTput netTput)

/-- `Tenant.estimate_tput(resrc)` computed without rounding. -/
def estimateTput (mrc : MissRatioCurve F) (demandIfMiss : StatelessResrcVec F) (netBwAlpha : F)
    (resrc : ResrcTuple F) : Except String (Ieee F) :=
  estimateTputWith id mrc demandIfMiss netBwAlpha resrc

/-- The allocator's tenant for the same data: `demand_if_miss` as the demand,
    `resrc` as its resources, the curve and `net_bw_alpha`. -/
def engineTenant (mrc : MissRatioCurve F) (d : Res → F) (netBwAlpha : F) (resrc : ResrcTuple F) :
    Hare.Tenant F :=
  Hare.Tenant.new (ofFun d) ⟨U64.ofInt resrc.cacheSize, ⟨fin resrc.dbRcu, fin resrc.dbWcu, fin resrc.netBw⟩⟩
    mrc (fin netBwAlpha)

/-! ## The three quotients

Each special case of `estimate_tput` is what IEEE division of a positive
value by a zero demand gives, and a quotient by a demand and then by a
factor is the quotient by their product. -/

section Quotients

variable [IsStrictOrderedRing F] {r a b : F}

theorem toU64_of_mem {n : ℤ} (h₀ : 0 ≤ n) (h₁ : n < 2 ^ 64) : Tenant.toU64 n = .ok (U64.ofInt n) := by
  rw [Tenant.toU64, if_pos ⟨h₀, h₁⟩]

theorem pyDivWith_id_fin (hb : b ≠ 0) : pyDivWith id (fin a) (fin b) = .ok (fin (a / b)) := by
  simp [pyDivWith, hb]

/-- The `db_rcu` quotient: by the demand, then by the miss ratio. -/
theorem rcuTput_eq (hr : 0 < r) :
    (if !(fin a : Ieee F).equal (fin 0) && !(fin b : Ieee F).equal (fin 0) then
        pyDivWith id (fin r) (fin a) >>= fun x => pyDivWith id x (fin b)
      else pure posInf) = Except.ok (fin r / fin (a * b)) := by
  by_cases hab : a = 0 ∨ b = 0
  case pos =>
    -- a zero demand or a zero miss ratio: `+∞`, as the division by zero gives
    have h0 : a * b = 0 := mul_eq_zero.mpr hab
    rw [h0, fin_div_zero_of_pos hr]
    rcases hab with h | h <;> simp [h]
  case neg =>
    obtain ⟨ha, hb⟩ := not_or.mp hab
    simp only [equal_fin_fin, ha, hb, decide_false, Bool.not_false, Bool.and_self, if_true,
      pyDivWith_id_fin ha, ok_bind, pyDivWith_id_fin hb]
    rw [fin_div_fin (mul_ne_zero ha hb), div_div]

/-- The `db_wcu` quotient. -/
theorem wcuTput_eq (hr : 0 < r) :
    (if !(fin a : Ieee F).equal (fin 0) then pyDivWith id (fin r) (fin a) else pure posInf) =
      Except.ok (fin r / fin a) := by
  by_cases ha : a = 0
  case pos =>
    rw [ha, fin_div_zero_of_pos hr]
    simp
  case neg => simp [ha, pyDivWith_id_fin ha]

/-- The `net_bw` quotient: by the demand, then by a factor that is not zero. -/
theorem netTput_eq (hr : 0 < r) (hb : b ≠ 0) :
    (if !(fin a : Ieee F).equal (fin 0) then pyDivWith id (fin r) (fin a) >>= fun x => pyDivWith id x (fin b)
      else pure posInf) = Except.ok (fin r / fin (a * b)) := by
  by_cases ha : a = 0
  case pos =>
    rw [ha, zero_mul, fin_div_zero_of_pos hr]
    simp
  case neg =>
    simp only [equal_fin_fin, ha, decide_false, Bool.not_false, if_true, pyDivWith_id_fin ha, ok_bind,
      pyDivWith_id_fin hb]
    rw [fin_div_fin (mul_ne_zero ha hb), div_div]

end Quotients

/-! ## The estimate and `collect_idle` -/

theorem pyMin3_eq (a b c : Ieee F) : pyMin3 a b c = stdMin (stdMin a b) c := rfl

/-- The `net_bw` demand of `collect_idle`: scaled as Python scales it, with
    `alloc_total_net_bw` or with `net_bw_alpha = 0`. -/
theorem netBw_demandAt (p : Params) (t : Hare.Tenant F) (d : Res → F) (α m : F) (hd : t.demandCacheless = ofFun d)
    (hα : t.netBwAlpha = fin α) (hflag : p.allocTotalNetBw = true ∨ α = 0) :
    (t.demandAt p (fin m)).netBw = fin (d .netBw * (1 - α + α * m)) := by
  simp only [Hare.Tenant.demandAt, Hare.Tenant.demandAtWith, id, hd, hα, ofFun_netBw, fin_sub_fin, fin_mul_fin, fin_add_fin]
  rcases hflag with h | h
  case inl =>
    simp only [h, if_true, fin_inj]
    ring
  case inr =>
    cases p.allocTotalNetBw <;> simp [h]

/-- `estimate_tput` is the throughput `tp` of `collect_idle` on positive
    resources, when the allocator scales `net_bw` as the estimate does and
    the factor of the `net_bw` demand is not zero. -/
theorem estimateTput_eq_collectIdleTp [IsStrictOrderedRing F] (p : Params) (mrc : MissRatioCurve F)
    (d : Res → F) (α m : F) (resrc : ResrcTuple F)
    (hc : 0 ≤ resrc.cacheSize ∧ resrc.cacheSize < 2 ^ 64)
    (hpos : 0 < resrc.dbRcu ∧ 0 < resrc.dbWcu ∧ 0 < resrc.netBw)
    (hmr : mrc.getMissRatioConst (U64.ofInt resrc.cacheSize) = fin m)
    (hfactor : 1 - α + α * m ≠ 0) (hflag : p.allocTotalNetBw = true ∨ α = 0) :
    estimateTput mrc (ofFun d) α resrc = .ok ((engineTenant mrc d α resrc).collectIdleTp p) := by
  set t := engineTenant mrc d α resrc
  have hnet := netBw_demandAt p t d α m rfl rfl hflag
  have hrcu : (t.demandAt p (fin m)).dbRcu = fin (d .dbRcu * m) := by
    unfold Hare.Tenant.demandAt Hare.Tenant.demandAtWith
    split <;> rfl
  have hwcu : (t.demandAt p (fin m)).dbWcu = fin (d .dbWcu) := by
    unfold Hare.Tenant.demandAt Hare.Tenant.demandAtWith
    split <;> rfl
  have htp : t.collectIdleTp p = stdMin (stdMin (fin resrc.dbRcu / fin (d .dbRcu * m))
      (fin resrc.dbWcu / fin (d .dbWcu))) (fin resrc.netBw / fin (d .netBw * (1 - α + α * m))) := by
    rw [Hare.Tenant.collectIdleTp_eq_ratio, show t.mrc.getMissRatioConst t.resrc.cacheSize = fin m from hmr]
    simp only [StatelessResrcVec.ratio, StatelessResrcVec.ratioWith, id, hrcu, hwcu, hnet]
    rfl
  have hfac : (fin 1 - fin α + fin α * fin m : Ieee F) = fin (1 - α + α * m) := by simp
  -- the demand's fields, read everywhere, the conditions' instances included
  dsimp only [estimateTput, estimateTputWith, ofFun, id]
  simp only [toU64_of_mem hc.1 hc.2, MissRatioCurve.getMissRatio_fst, hmr, hfac, ok_bind]
  simp only [rcuTput_eq hpos.1, wcuTput_eq hpos.2.1, netTput_eq hpos.2.2 hfactor, ok_bind, htp,
    pyMin3_eq]
  rfl

/-- On the sane curve `testBasic`, with `net_bw_alpha = 0.5`: the miss ratio
    at `10` bytes is `0.9`. -/
theorem estimateTput_eq_collectIdleTp_testBasic :
    estimateTput MissRatioCurve.testBasic (ofFun fun _ => 1) (1 / 2) ⟨10, 1, 1, 1⟩ =
      .ok ((engineTenant MissRatioCurve.testBasic (fun _ => 1) (1 / 2) ⟨10, 1, 1, 1⟩).collectIdleTp
        Params.default) :=
  estimateTput_eq_collectIdleTp Params.default MissRatioCurve.testBasic (fun _ => 1) (1 / 2) (9 / 10)
    ⟨10, 1, 1, 1⟩ (by norm_num) (by norm_num) (by decide +kernel) (by norm_num) (.inl rfl)

/-- A curve whose miss ratio at its one tick, 1 byte, is 0.3125. -/
def fiveSixteenthsCurve : MissRatioCurve ℚ :=
  MissRatioCurve.ofVectors [1] [fin (5 / 16)] (by simp) (by simp)

/-- A demand of 9 read units and no other resource. -/
def readDemand : Res → ℚ
  | .dbRcu => 9
  | _ => 0

/-- In binary64, `estimate_tput` divides `db_rcu` by the demand and then by
    the miss ratio, rounding twice, where `collect_idle` rounds the scaled
    demand `9 * 0.3125 = 2.8125` exactly and divides once: the estimate is
    0.3555555555555555 and `tp` is 0.35555555555555557. -/
theorem estimateTputBinary64_ne_collectIdleTp :
    estimateTputWith Binary64.rnd fiveSixteenthsCurve (ofFun readDemand) 0 ⟨1, 1, 1, 1⟩ =
        .ok (fin (3202559735019019 / 9007199254740992)) ∧
      (engineTenant fiveSixteenthsCurve readDemand 0 ⟨1, 1, 1, 1⟩).collectIdleTpWith Binary64.rnd
        Params.default = fin (6405119470038039 / 18014398509481984) ∧
      (3202559735019019 / 9007199254740992 : ℚ) ≠ 6405119470038039 / 18014398509481984 := by
  decide +kernel

/-- A curve whose miss ratio at its one tick is `-1`. -/
def negativeCurve : MissRatioCurve ℚ :=
  MissRatioCurve.ofVectors [1] [fin (-1)] (by simp) (by simp)

/-- At the miss ratio `-1` with `net_bw_alpha = 0.5` the factor of the
    `net_bw` demand is `1 - 0.5 - 0.5 = 0`: `estimate_tput` raises
    `ZeroDivisionError`, while `collect_idle` divides `net_bw` by the zero
    demand, which gives `+∞`, and returns the `db_rcu` quotient `-1`. -/
example :
    estimateTput negativeCurve (ofFun fun _ => 1) (1 / 2) ⟨1, 1, 1, 1⟩ = .error floatDivisionError ∧
      (engineTenant negativeCurve (fun _ => 1) (1 / 2) ⟨1, 1, 1, 1⟩).collectIdleTp Params.default =
        fin (-1) :=
  ⟨by decide +kernel, by decide +kernel⟩

end Controller
