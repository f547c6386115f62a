-- SUMMARY: The request statistics of the Redis module (stats.cpp, utils.h): record_get_done and record_set_done on the uint64_t counters and the running average of the item size; the counters are an unbounded tally of what each call adds, modulo 2^64, and every tally keeps the counters in the order the allocator needs, so the counters do while nothing has wrapped, and a single GET of 2^63 bytes breaks it.
import HopperKV.Module.Ghost
import Mathlib.Algebra.Group.Fin.Basic

/-!
# Request statistics

Every completed GET and SET adds to nine `uint64_t` counters of
`resrc_stats`. A GET adds its read units to `db_rcu_consump_if_miss`, and to
`db_rcu_consump` only on a miss; its bytes go to the three network counters,
and the bytes from the backend only to `net_bw_consump_if_miss`, and to
`net_bw_consump` on a miss. A SET adds its write units and its bytes to all
three network counters. So the counters that count what a miss would cost
are never below the ones that count what was spent.

The model reads the counters as a tally of natural numbers (`Tally`): each
call adds `Record.amount` to it, and the `uint64_t` counters are the tally
modulo `2 ^ 64` (`vals_runRecords`). Every amount is ordered (`Tally.Ordered`), so
every tally is, and so are the counters as long as nothing wraps
(`counters_ordered`). Sizes are `size_t`, so `key_size + val_size` wraps
too: one GET of `2 ^ 63` bytes with the backend's bytes counted makes
`net_bw_consump_if_miss` wrap to `0` (`recordGetDone_wraps`).

The running average `avg_kv_size` is a `double`, computed without rounding.
`config::policy::alloc_total_net_bw` is a constant, `true` in the source, and
`config::cache::admit_write` a setting, `true` by default; both are kept as
parameters (`Config`).
-/

namespace Hopper.Stats

open Ieee

variable {F : Type} [Field F] [LinearOrder F]

/-- The two settings that the recording reads. -/
structure Config where
  allocTotalNetBw : Bool
  admitWrite : Bool
  deriving DecidableEq, Repr

/-- The settings of the source: `alloc_total_net_bw` and `admit_write` are `true`. -/
def Config.default : Config := ⟨true, true⟩

/-- `config::stats::kv_size_decay_rate`. -/
def kvSizeDecayRate : F := 99 / 100

/-- `resrc_stats`. -/
structure ResrcStats (F : Type) where
  reqCnt : U64
  hitCnt : U64
  missCnt : U64
  dbRcuConsumpIfMiss : U64
  netBwConsumpIfMiss : U64
  netBwConsumpIfHit : U64
  dbRcuConsump : U64
  dbWcuConsump : U64
  netBwConsump : U64
  avgKvSize : Ieee F
  deriving DecidableEq

/-- `resrc_stats` as the module starts with it. -/
def ResrcStats.init : ResrcStats F := ⟨0, 0, 0, 0, 0, 0, 0, 0, 0, fin 0⟩

/-! ## The source -/

/-- `kv_to_rcu` and `kv_to_wcu`: the whole units of the item, plus one. -/
def kvToUnits (unit keySize valSize : U64) : U64 := (keySize + valSize) / unit + 1

/-- `utils::resrc::kv_to_rcu`. -/
def kvToRcu (keySize valSize : U64) : U64 := kvToUnits 4096 keySize valSize

/-- `utils::resrc::kv_to_wcu`. -/
def kvToWcu (keySize valSize : U64) : U64 := kvToUnits 1024 keySize valSize

/-- The four `kv_to_net_*`: the bytes of the key and the value. -/
def kvToNet (keySize valSize : U64) : U64 := keySize + valSize

/-- `utils::resrc::kv_to_net_get_client`. -/
def kvToNetGetClient (keySize valSize : U64) : U64 := kvToNet keySize valSize

/-- `utils::resrc::kv_to_net_set_client`. -/
def kvToNetSetClient (keySize valSize : U64) : U64 := kvToNet keySize valSize

/-- `utils::resrc::kv_to_net_get_storage`. -/
def kvToNetGetStorage (keySize valSize : U64) : U64 := kvToNet keySize valSize

/-- `utils::resrc::kv_to_net_set_storage`. -/
def kvToNetSetStorage (keySize valSize : U64) : U64 := kvToNet keySize valSize

/-- The running average of the item size, as both functions update it:
    `avg ? avg * rate + curr * (1 - rate) : curr`. -/
def updateAvgKvSize (avg : Ieee F) (currKvSize : U64) : Ieee F :=
  if avg.equal (fin 0) then ofNat currKvSize.val
  else avg * fin kvSizeDecayRate + ofNat currKvSize.val * (fin 1 - fin kvSizeDecayRate)

/-- `stats::record_get_done`. -/
def recordGetDone (cfg : Config) (keySize valSize : U64) (isMiss : Bool) (s : ResrcStats F) :
    ResrcStats F :=
  let s := { s with reqCnt := s.reqCnt + 1 }
  let s := if isMiss then { s with missCnt := s.missCnt + 1 } else { s with hitCnt := s.hitCnt + 1 }
  let dbRcu := kvToRcu keySize valSize
  let s := { s with dbRcuConsumpIfMiss := s.dbRcuConsumpIfMiss + dbRcu }
  let s := if isMiss then { s with dbRcuConsump := s.dbRcuConsump + dbRcu } else s
  let netBwClient := kvToNetGetClient keySize valSize
  let s := { s with
    netBwConsumpIfMiss := s.netBwConsumpIfMiss + netBwClient
    netBwConsumpIfHit := s.netBwConsumpIfHit + netBwClient
    netBwConsump := s.netBwConsump + netBwClient }
  let s :=
    if cfg.allocTotalNetBw then
      let netBwStorage := kvToNetGetStorage keySize valSize
      let s := { s with netBwConsumpIfMiss := s.netBwConsumpIfMiss + netBwStorage }
      if isMiss then { s with netBwConsump := s.netBwConsump + netBwStorage } else s
    else s
  { s with avgKvSize := updateAvgKvSize s.avgKvSize (keySize + valSize) }

/-- `stats::record_set_done`. -/
def recordSetDone (cfg : Config) (keySize valSize : U64) (s : ResrcStats F) : ResrcStats F :=
  let s := { s with reqCnt := s.reqCnt + 1 }
  let s := { s with dbWcuConsump := s.dbWcuConsump + kvToWcu keySize valSize }
  let netBwClient := kvToNetSetClient keySize valSize
  let s := { s with
    netBwConsumpIfMiss := s.netBwConsumpIfMiss + netBwClient
    netBwConsumpIfHit := s.netBwConsumpIfHit + netBwClient
    netBwConsump := s.netBwConsump + netBwClient }
  let s :=
    if cfg.allocTotalNetBw then
      let netBwStorage := kvToNetSetStorage keySize valSize
      { s with
        netBwConsumpIfMiss := s.netBwConsumpIfMiss + netBwStorage
        netBwConsumpIfHit := s.netBwConsumpIfHit + netBwStorage
        netBwConsump := s.netBwConsump + netBwStorage }
    else s
  if cfg.admitWrite then { s with avgKvSize := updateAvgKvSize s.avgKvSize (keySize + valSize) }
  else s

/-- A completed request, as the handlers of GET and SET record it. -/
inductive Record where
  | getDone (keySize valSize : U64) (isMiss : Bool)
  | setDone (keySize valSize : U64)
  deriving DecidableEq, Repr

/-- One call of the recording functions. -/
def record (cfg : Config) : Record → ResrcStats F → ResrcStats F
  | .getDone keySize valSize isMiss => recordGetDone cfg keySize valSize isMiss
  | .setDone keySize valSize => recordSetDone cfg keySize valSize

/-- The calls in order. -/
def runRecords (cfg : Config) (rs : List Record) (s : ResrcStats F) : ResrcStats F :=
  rs.foldl (fun s r => record cfg r s) s

/-- The counters of `RedisModule_HopperStats`'s reply, each replied with
    `RedisModule_ReplyWithLongLong`. -/
def replyCounters (s : ResrcStats F) : ResrcCounters :=
  ⟨s.reqCnt.toLongLong, s.hitCnt.toLongLong, s.missCnt.toLongLong, s.dbRcuConsumpIfMiss.toLongLong,
    s.netBwConsumpIfMiss.toLongLong, s.netBwConsumpIfHit.toLongLong, s.dbRcuConsump.toLongLong,
    s.dbWcuConsump.toLongLong, s.netBwConsump.toLongLong⟩

/-! ## The tally -/

/-- The nine counters as natural numbers, which do not wrap. -/
structure Tally where
  reqCnt : ℕ
  hitCnt : ℕ
  missCnt : ℕ
  dbRcuConsumpIfMiss : ℕ
  netBwConsumpIfMiss : ℕ
  netBwConsumpIfHit : ℕ
  dbRcuConsump : ℕ
  dbWcuConsump : ℕ
  netBwConsump : ℕ
  deriving DecidableEq, Repr

namespace Tally

/-- No request yet. -/
def zero : Tally := ⟨0, 0, 0, 0, 0, 0, 0, 0, 0⟩

/-- Fieldwise sum. -/
@[simps]
def add (a b : Tally) : Tally :=
  ⟨a.reqCnt + b.reqCnt, a.hitCnt + b.hitCnt, a.missCnt + b.missCnt,
    a.dbRcuConsumpIfMiss + b.dbRcuConsumpIfMiss, a.netBwConsumpIfMiss + b.netBwConsumpIfMiss,
    a.netBwConsumpIfHit + b.netBwConsumpIfHit, a.dbRcuConsump + b.dbRcuConsump,
    a.dbWcuConsump + b.dbWcuConsump, a.netBwConsump + b.netBwConsump⟩

/-- Each counter modulo `2 ^ 64`: the values of `uint64_t` counters. -/
@[simps]
def wrap (a : Tally) : Tally :=
  ⟨a.reqCnt % 2 ^ 64, a.hitCnt % 2 ^ 64, a.missCnt % 2 ^ 64, a.dbRcuConsumpIfMiss % 2 ^ 64,
    a.netBwConsumpIfMiss % 2 ^ 64, a.netBwConsumpIfHit % 2 ^ 64, a.dbRcuConsump % 2 ^ 64,
    a.dbWcuConsump % 2 ^ 64, a.netBwConsump % 2 ^ 64⟩

theorem add_zero (a : Tally) : a.add zero = a := rfl

theorem zero_add (a : Tally) : zero.add a = a := by
  simp only [zero, add, Nat.zero_add]

theorem add_assoc (a b c : Tally) : (a.add b).add c = a.add (b.add c) := by
  simp only [add, Nat.add_assoc]

theorem wrap_add_wrap (a b : Tally) : (a.wrap.add b).wrap = (a.add b).wrap := by
  simp only [wrap, add, Nat.mod_add_mod]

end Tally

/-- Whether a call is a SET. -/
def Record.isSetDone : Record → Bool
  | .getDone .. => false
  | .setDone .. => true

/-- What one call adds to each counter: a GET of a hit spends no read unit and
    no byte of the backend, which the counters of a miss still count. -/
def Record.amount (cfg : Config) : Record → Tally
  | .getDone keySize valSize isMiss =>
    let rcu := (kvToRcu keySize valSize).val
    let client := (kvToNetGetClient keySize valSize).val
    let storage := if cfg.allocTotalNetBw then (kvToNetGetStorage keySize valSize).val else 0
    ⟨1, if isMiss then 0 else 1, if isMiss then 1 else 0, rcu, client + storage, client,
      if isMiss then rcu else 0, 0, client + if isMiss then storage else 0⟩
  | .setDone keySize valSize =>
    let bytes := (kvToNetSetClient keySize valSize).val +
      if cfg.allocTotalNetBw then (kvToNetSetStorage keySize valSize).val else 0
    ⟨1, 0, 0, 0, bytes, bytes, 0, (kvToWcu keySize valSize).val, bytes⟩

/-- The tally after the calls. -/
def Tally.run (cfg : Config) (rs : List Record) (a : Tally) : Tally :=
  rs.foldl (fun a r => a.add (r.amount cfg)) a

/-- The tally after calls is the tally before plus the tally of the calls. -/
theorem Tally.run_eq_add (cfg : Config) :
    ∀ (rs : List Record) (a : Tally), Tally.run cfg rs a = a.add (Tally.run cfg rs zero)
  | [], a => (Tally.add_zero a).symm
  | r :: rs, a => by
    show Tally.run cfg rs (a.add (r.amount cfg)) = a.add (Tally.run cfg rs (zero.add (r.amount cfg)))
    rw [Tally.run_eq_add cfg rs, Tally.run_eq_add cfg rs (zero.add _), Tally.zero_add, Tally.add_assoc]

/-- The values of the counters. -/
def ResrcStats.vals (s : ResrcStats F) : Tally :=
  ⟨s.reqCnt.val, s.hitCnt.val, s.missCnt.val, s.dbRcuConsumpIfMiss.val, s.netBwConsumpIfMiss.val,
    s.netBwConsumpIfHit.val, s.dbRcuConsump.val, s.dbWcuConsump.val, s.netBwConsump.val⟩

/-- The counters after adding a tally to each, wrapping. -/
def ResrcStats.addTally (s : ResrcStats F) (d : Tally) : ResrcStats F :=
  { s with
    reqCnt := s.reqCnt + Fin.ofNat _ d.reqCnt
    hitCnt := s.hitCnt + Fin.ofNat _ d.hitCnt
    missCnt := s.missCnt + Fin.ofNat _ d.missCnt
    dbRcuConsumpIfMiss := s.dbRcuConsumpIfMiss + Fin.ofNat _ d.dbRcuConsumpIfMiss
    netBwConsumpIfMiss := s.netBwConsumpIfMiss + Fin.ofNat _ d.netBwConsumpIfMiss
    netBwConsumpIfHit := s.netBwConsumpIfHit + Fin.ofNat _ d.netBwConsumpIfHit
    dbRcuConsump := s.dbRcuConsump + Fin.ofNat _ d.dbRcuConsump
    dbWcuConsump := s.dbWcuConsump + Fin.ofNat _ d.dbWcuConsump
    netBwConsump := s.netBwConsump + Fin.ofNat _ d.netBwConsump }

/-! ## The counters wrap the tally -/

theorem val_add_ofNat (a : U64) (d : ℕ) : (a + Fin.ofNat _ d).val = (a.val + d) % 2 ^ 64 := by
  rw [Fin.val_add, Fin.val_ofNat, Nat.add_mod_mod]

theorem ofNat_zero : (Fin.ofNat _ 0 : U64) = 0 := rfl

theorem ofNat_one : (Fin.ofNat _ 1 : U64) = 1 := rfl

theorem ofNat_val_add (a b : U64) : (Fin.ofNat _ (a.val + b.val) : U64) = a + b :=
  Fin.ext (by rw [Fin.val_ofNat, Fin.val_add])

omit [Field F] [LinearOrder F] in
theorem vals_addTally (s : ResrcStats F) (d : Tally) : (s.addTally d).vals = (s.vals.add d).wrap := by
  simp only [ResrcStats.vals, ResrcStats.addTally, Tally.add, Tally.wrap, val_add_ofNat]

/-- `record_get_done` adds the amount of its call to the counters. -/
theorem recordGetDone_eq (cfg : Config) (keySize valSize : U64) (isMiss : Bool) (s : ResrcStats F) :
    recordGetDone cfg keySize valSize isMiss s =
      { s.addTally ((Record.getDone keySize valSize isMiss).amount cfg) with
        avgKvSize := updateAvgKvSize s.avgKvSize (keySize + valSize) } := by
  obtain ⟨flag, write⟩ := cfg
  cases isMiss <;> cases flag <;>
    simp only [recordGetDone, ResrcStats.addTally, Record.amount, Bool.false_eq_true, ↓reduceIte,
      Nat.add_zero, Fin.ofNat_val_eq_self, ofNat_zero, ofNat_one, ofNat_val_add, Fin.add_zero, add_assoc]

/-- `record_set_done` adds the amount of its call to the counters. -/
theorem recordSetDone_eq (cfg : Config) (keySize valSize : U64) (s : ResrcStats F) :
    recordSetDone cfg keySize valSize s =
      { s.addTally ((Record.setDone keySize valSize).amount cfg) with
        avgKvSize := if cfg.admitWrite then updateAvgKvSize s.avgKvSize (keySize + valSize)
          else s.avgKvSize } := by
  obtain ⟨flag, write⟩ := cfg
  cases write <;> cases flag <;>
    simp only [recordSetDone, ResrcStats.addTally, Record.amount, Bool.false_eq_true, ↓reduceIte,
      Nat.add_zero, Fin.ofNat_val_eq_self, ofNat_zero, ofNat_one, ofNat_val_add, Fin.add_zero, add_assoc]

/-- One call adds its amount to the counters, wrapping. -/
theorem vals_record (cfg : Config) (r : Record) (s : ResrcStats F) :
    (record cfg r s).vals = (s.vals.add (r.amount cfg)).wrap := by
  cases r with
  | getDone keySize valSize isMiss =>
    rw [record, recordGetDone_eq, ← vals_addTally]
    rfl
  | setDone keySize valSize =>
    rw [record, recordSetDone_eq, ← vals_addTally]
    rfl

/-- The refinement: after any calls, the counters are the tally of the calls
    modulo `2 ^ 64`. -/
theorem vals_runRecords (cfg : Config) :
    ∀ (rs : List Record) (s : ResrcStats F) (a : Tally), s.vals = a.wrap →
      (runRecords cfg rs s).vals = (Tally.run cfg rs a).wrap
  | [], _, _, h => h
  | r :: rs, s, a, h => by
    have hr : (record cfg r s).vals = (a.add (r.amount cfg)).wrap := by
      rw [vals_record, h, Tally.wrap_add_wrap]
    exact vals_runRecords cfg rs _ _ hr

omit [LinearOrder F] in
theorem vals_init : (ResrcStats.init : ResrcStats F).vals = Tally.zero.wrap := rfl

/-! ## The order of the counters -/

/-- The order of the counters and the count of the requests, with `nSets`
    the SETs among them: what every tally of calls keeps. -/
structure Tally.Ordered (a : Tally) (nSets : ℕ) : Prop where
  dbRcu : a.dbRcuConsump ≤ a.dbRcuConsumpIfMiss
  netHit : a.netBwConsumpIfHit ≤ a.netBwConsump
  netMiss : a.netBwConsump ≤ a.netBwConsumpIfMiss
  reqCnt : a.reqCnt = a.hitCnt + a.missCnt + nSets

theorem Tally.zero_ordered : Tally.zero.Ordered 0 := ⟨le_rfl, le_rfl, le_rfl, rfl⟩

theorem Tally.Ordered.add {a b : Tally} {n m : ℕ} (ha : a.Ordered n) (hb : b.Ordered m) :
    (a.add b).Ordered (n + m) := by
  refine ⟨?_, ?_, ?_, ?_⟩ <;> simp only [Tally.add_dbRcuConsump, Tally.add_dbRcuConsumpIfMiss,
    Tally.add_netBwConsumpIfHit, Tally.add_netBwConsump, Tally.add_netBwConsumpIfMiss, Tally.add_reqCnt,
    Tally.add_hitCnt, Tally.add_missCnt]
  · exact Nat.add_le_add ha.dbRcu hb.dbRcu
  · exact Nat.add_le_add ha.netHit hb.netHit
  · exact Nat.add_le_add ha.netMiss hb.netMiss
  · rw [ha.reqCnt, hb.reqCnt]
    omega

/-- The amount of one call is ordered: a hit adds to the counters of a miss
    what it does not spend. -/
theorem Record.amount_ordered (cfg : Config) (r : Record) :
    (r.amount cfg).Ordered (if r.isSetDone then 1 else 0) := by
  cases r with
  | getDone keySize valSize isMiss =>
    cases isMiss
    case false => exact ⟨Nat.zero_le _, Nat.le_add_right _ _, Nat.add_le_add_left (Nat.zero_le _) _, rfl⟩
    case true => exact ⟨le_rfl, Nat.le_add_right _ _, le_rfl, rfl⟩
  | setDone keySize valSize => exact ⟨Nat.zero_le _, le_rfl, le_rfl, rfl⟩

/-- The run: every tally of calls is ordered. -/
theorem Tally.Ordered.run (cfg : Config) :
    ∀ (rs : List Record) {a : Tally} {n : ℕ}, a.Ordered n →
      (Tally.run cfg rs a).Ordered (n + rs.countP Record.isSetDone)
  | [], _, _, h => h
  | r :: rs, a, n, h => by
    have hr := (h.add (r.amount_ordered cfg)).run cfg rs
    -- the SET of the first call is counted before the others
    have hcount : n + (if r.isSetDone then 1 else 0) + rs.countP Record.isSetDone =
        n + (r :: rs).countP Record.isSetDone := by
      rw [List.countP_cons]
      split_ifs <;> omega
    rw [← hcount]
    exact hr

/-- While the request count, the read units of misses and the bytes of misses
    have not reached `2 ^ 64`, the counters are in the order the allocator
    needs and count every request. -/
theorem counters_ordered (cfg : Config) (rs : List Record)
    (hfit : (Tally.run cfg rs .zero).reqCnt < 2 ^ 64 ∧ (Tally.run cfg rs .zero).dbRcuConsumpIfMiss < 2 ^ 64 ∧
      (Tally.run cfg rs .zero).netBwConsumpIfMiss < 2 ^ 64) :
    let s : ResrcStats F := runRecords cfg rs .init
    s.dbRcuConsump.val ≤ s.dbRcuConsumpIfMiss.val ∧ s.netBwConsump.val ≤ s.netBwConsumpIfMiss.val ∧
      s.netBwConsumpIfHit.val ≤ s.netBwConsump.val ∧
      s.reqCnt.val = s.hitCnt.val + s.missCnt.val + rs.countP Record.isSetDone := by
  intro s
  have hv : s.vals = (Tally.run cfg rs .zero).wrap := vals_runRecords cfg rs _ _ vals_init
  have ho := Tally.zero_ordered.run cfg rs
  rw [Nat.zero_add] at ho
  obtain ⟨hreq, hrcu, hnet⟩ := hfit
  simp only [ResrcStats.vals, Tally.wrap, Tally.mk.injEq] at hv
  obtain ⟨h1, h2, h3, h4, h5, h6, h7, -, h9⟩ := hv
  -- below `2 ^ 64` nothing wraps, and the order of the tally is the order of the counters
  have := ho.dbRcu
  have := ho.netHit
  have := ho.netMiss
  have := ho.reqCnt
  rw [h1, h2, h3, h4, h5, h6, h7, h9]
  refine ⟨?_, ?_, ?_, ?_⟩ <;> rw [Nat.mod_eq_of_lt (by omega), Nat.mod_eq_of_lt (by omega)]
  · exact ho.dbRcu
  · exact ho.netMiss
  · exact ho.netHit
  · rw [Nat.mod_eq_of_lt (by omega)]
    exact ho.reqCnt

/-! ## The counters of the reply -/

/-- The counters of a tally as the controller reads them. -/
def Tally.toCounters (a : Tally) : ResrcCounters :=
  ⟨a.reqCnt, a.hitCnt, a.missCnt, a.dbRcuConsumpIfMiss, a.netBwConsumpIfMiss, a.netBwConsumpIfHit,
    a.dbRcuConsump, a.dbWcuConsump, a.netBwConsump⟩

/-- The largest counters of a tally are below `bound`; in an ordered tally,
    the others are below them. -/
structure Tally.Fits (a : Tally) (bound : ℕ) : Prop where
  reqCnt : a.reqCnt < bound
  dbRcuConsumpIfMiss : a.dbRcuConsumpIfMiss < bound
  netBwConsumpIfMiss : a.netBwConsumpIfMiss < bound
  dbWcuConsump : a.dbWcuConsump < bound

/-- A tally fits where a larger one does. -/
theorem Tally.Fits.of_add {a d : Tally} {bound : ℕ} (h : (a.add d).Fits bound) : a.Fits bound := by
  obtain ⟨h₁, h₂, h₃, h₄⟩ := h
  simp only [Tally.add_reqCnt, Tally.add_dbRcuConsumpIfMiss, Tally.add_netBwConsumpIfMiss,
    Tally.add_dbWcuConsump] at h₁ h₂ h₃ h₄
  exact ⟨by omega, by omega, by omega, by omega⟩

theorem toLongLong_of_wrap {u : U64} {x : ℕ} (h : u.val = x % 2 ^ 64) (hx : x < 2 ^ 63) :
    u.toLongLong = x := by
  have hu : u.val = x := by rw [h, Nat.mod_eq_of_lt (by omega)]
  rw [U64.toLongLong_of_lt (by omega), hu]

omit [Field F] [LinearOrder F] in
/-- Below `2 ^ 63`, the reply carries the tally: the counters neither wrap
    nor turn negative as `long long`. -/
theorem replyCounters_eq {s : ResrcStats F} {a : Tally} {n : ℕ} (hv : s.vals = a.wrap)
    (ho : a.Ordered n) (hfit : a.Fits (2 ^ 63)) : replyCounters s = a.toCounters := by
  simp only [ResrcStats.vals, Tally.wrap, Tally.mk.injEq] at hv
  obtain ⟨h1, h2, h3, h4, h5, h6, h7, h8, h9⟩ := hv
  obtain ⟨hreq, hrcu, hnet, hwcu⟩ := hfit
  have := ho.dbRcu
  have := ho.netHit
  have := ho.netMiss
  have := ho.reqCnt
  simp only [replyCounters, Tally.toCounters]
  rw [toLongLong_of_wrap h1 hreq, toLongLong_of_wrap h2 (by omega), toLongLong_of_wrap h3 (by omega),
    toLongLong_of_wrap h4 hrcu, toLongLong_of_wrap h5 hnet, toLongLong_of_wrap h6 (by omega),
    toLongLong_of_wrap h7 (by omega), toLongLong_of_wrap h8 hwcu, toLongLong_of_wrap h9 (by omega)]

/-- One GET that hits, of `2 ^ 63` bytes, with the bytes from the backend
    counted: `net_bw_consump_if_miss` wraps to `0`, below the bytes spent. -/
theorem recordGetDone_wraps :
    let s := runRecords (F := ℚ) Config.default [.getDone ⟨2 ^ 63, by decide⟩ 0 false] .init
    s.netBwConsumpIfMiss.val = 0 ∧ s.netBwConsump.val = 2 ^ 63 ∧
      ¬ s.netBwConsump.val ≤ s.netBwConsumpIfMiss.val := by
  decide +kernel

end Hopper.Stats
