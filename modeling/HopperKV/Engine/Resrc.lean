-- SUMMARY: The allocator's parameters (params.h) and resource vectors (resrc.h): stateless vectors of db_rcu, db_wcu and net_bw, and resource vectors with a cache size.
import HopperKV.Lib.Scalar

/-!
# Parameters and resource vectors

`hare::params` and the two vector types of `resrc.h`. Every `double` is an
`Ieee F` computed without rounding, and every `uint64_t` is a `U64`. A decimal
literal of the source (`0.0001`) is its exact rational value; the two limits
taken from `std::numeric_limits` are exact binary values.

Only the settable parameters that the allocator reads are fields of `Params`:
`min_db_rcu`, `min_db_wcu` and `min_net_bw` are read only by the Python
controller.
-/

namespace Hare

open Ieee

set_option linter.unusedSectionVars false

variable {F : Type} [Field F] [LinearOrder F]

-- ---------------------------------------------------------------------------
-- Parameters
-- ---------------------------------------------------------------------------

/-- The run-time parameters of `hare::params`: the flag
    `policy::alloc_total_net_bw` and the settable `alloc::cache_delta` and
    `alloc::min_cache_size`. -/
structure Params where
  allocTotalNetBw : Bool
  cacheDelta : U64
  minCacheSize : U64
  deriving DecidableEq

/-- The values of `params.cpp`: the flag is on and both sizes are 4 MiB. -/
def Params.default : Params where
  allocTotalNetBw := true
  cacheDelta := 4 * 1024 * 1024
  minCacheSize := 4 * 1024 * 1024

namespace Params

/-- `alloc::max_trade_round`. -/
def maxTradeRound : ℕ := 10000

/-- `alloc::min_improve_ratio_delta = 0.0001`. -/
def minImproveRatioDelta : Ieee F := fin (1 / 10000)

/-- `alloc::max_miss_ratio = 1.0`. -/
def maxMissRatio : Ieee F := fin 1

/-- `alloc::min_miss_ratio = 0`. -/
def minMissRatio : Ieee F := fin 0

/-- `alloc::memshare::reserved_ratio = 0.5`. -/
def reservedRatio : F := 1 / 2

/-- `numeric::db_rcu_epsilon`, `db_wcu_epsilon` and `net_bw_epsilon`, all
    `0.0001`. -/
def resrcEpsilon : Ieee F := fin (1 / 10000)

/-- `numeric::epilson = std::numeric_limits<double>::epsilon()`, which is
    `2 ^ -52`. -/
def epilson : Ieee F := fin (1 / 2 ^ 52)

/-- `numeric::relinq_abort_offer = 0`. -/
def relinqAbortOffer : Ieee F := fin 0

/-- `std::numeric_limits<float>::max()`, which is `(2 - 2 ^ -23) * 2 ^ 127`. -/
def fltMax : F := (2 ^ 24 - 1) * 2 ^ 104

/-- `numeric::compen_abort_offer = FLT_MAX`: the compensation that no tenant is
    meant to be able to afford. -/
def compenAbortOffer : Ieee F := fin fltMax

end Params

-- ---------------------------------------------------------------------------
-- Stateless resource vectors
-- ---------------------------------------------------------------------------

/-- `StatelessResrcVec`: DynamoDB read and write capacity units and network
    bandwidth. -/
structure StatelessResrcVec (F : Type) where
  dbRcu : Ieee F
  dbWcu : Ieee F
  netBw : Ieee F
  deriving DecidableEq

namespace StatelessResrcVec

/-- The default constructor: every field is `0`. -/
def zero : StatelessResrcVec F := ⟨fin 0, fin 0, fin 0⟩

instance : Add (StatelessResrcVec F) := ⟨fun a b => ⟨a.dbRcu + b.dbRcu, a.dbWcu + b.dbWcu, a.netBw + b.netBw⟩⟩
instance : Sub (StatelessResrcVec F) := ⟨fun a b => ⟨a.dbRcu - b.dbRcu, a.dbWcu - b.dbWcu, a.netBw - b.netBw⟩⟩

/-- `operator*(double scale_factor)`. -/
def scale (a : StatelessResrcVec F) (k : Ieee F) : StatelessResrcVec F :=
  ⟨a.dbRcu * k, a.dbWcu * k, a.netBw * k⟩

/-- `operator/(const StatelessResrcVec &other)`, each quotient rounded by
    `rnd`: the smallest of the three ratios, by `std::min` over an
    initializer list. -/
def ratioWith (rnd : Ieee F → Ieee F) (a b : StatelessResrcVec F) : Ieee F :=
  stdMin (stdMin (rnd (a.dbRcu / b.dbRcu)) (rnd (a.dbWcu / b.dbWcu))) (rnd (a.netBw / b.netBw))

/-- `operator/` computed without rounding. -/
def ratio (a b : StatelessResrcVec F) : Ieee F := ratioWith id a b

/-- `is_almost_empty()`: every field is below its epsilon in absolute value. -/
def isAlmostEmpty (a : StatelessResrcVec F) : Bool :=
  decide (abs a.dbRcu < Params.resrcEpsilon) && decide (abs a.dbWcu < Params.resrcEpsilon) &&
    decide (abs a.netBw < Params.resrcEpsilon)

/-- `is_almost_equal(other)`. -/
def isAlmostEqual (a b : StatelessResrcVec F) : Bool := (a - b).isAlmostEmpty

@[simp] theorem add_dbRcu (a b : StatelessResrcVec F) : (a + b).dbRcu = a.dbRcu + b.dbRcu := rfl
@[simp] theorem add_dbWcu (a b : StatelessResrcVec F) : (a + b).dbWcu = a.dbWcu + b.dbWcu := rfl
@[simp] theorem add_netBw (a b : StatelessResrcVec F) : (a + b).netBw = a.netBw + b.netBw := rfl
@[simp] theorem sub_dbRcu (a b : StatelessResrcVec F) : (a - b).dbRcu = a.dbRcu - b.dbRcu := rfl
@[simp] theorem sub_dbWcu (a b : StatelessResrcVec F) : (a - b).dbWcu = a.dbWcu - b.dbWcu := rfl
@[simp] theorem sub_netBw (a b : StatelessResrcVec F) : (a - b).netBw = a.netBw - b.netBw := rfl
@[simp] theorem scale_dbRcu (a : StatelessResrcVec F) (k : Ieee F) : (a.scale k).dbRcu = a.dbRcu * k := rfl
@[simp] theorem scale_dbWcu (a : StatelessResrcVec F) (k : Ieee F) : (a.scale k).dbWcu = a.dbWcu * k := rfl
@[simp] theorem scale_netBw (a : StatelessResrcVec F) (k : Ieee F) : (a.scale k).netBw = a.netBw * k := rfl
@[simp] theorem zero_dbRcu : (zero : StatelessResrcVec F).dbRcu = fin 0 := rfl
@[simp] theorem zero_dbWcu : (zero : StatelessResrcVec F).dbWcu = fin 0 := rfl
@[simp] theorem zero_netBw : (zero : StatelessResrcVec F).netBw = fin 0 := rfl

end StatelessResrcVec

-- ---------------------------------------------------------------------------
-- Resource vectors
-- ---------------------------------------------------------------------------

/-- `ResrcVec`: a cache size in bytes and a stateless vector. -/
structure ResrcVec (F : Type) where
  cacheSize : U64
  stateless : StatelessResrcVec F
  deriving DecidableEq

/-- `ResrcVec::operator+`: the cache sizes add modulo `2 ^ 64`. -/
instance : Add (ResrcVec F) := ⟨fun a b => ⟨a.cacheSize + b.cacheSize, a.stateless + b.stateless⟩⟩

@[simp] theorem ResrcVec.add_cacheSize (a b : ResrcVec F) :
    (a + b).cacheSize = a.cacheSize + b.cacheSize := rfl
@[simp] theorem ResrcVec.add_stateless (a b : ResrcVec F) :
    (a + b).stateless = a.stateless + b.stateless := rfl

end Hare
