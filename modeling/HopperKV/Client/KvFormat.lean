-- SUMMARY: The client's key-value format (kv_format.py): the parameters that get_format_params computes from a key size and a value size, with its assertions, and the keys and values that make_key and make_val write for an offset.
import HopperKV.Control.Tenant
import HopperKV.Lib.Text

/-!
# The key-value format of the workload

A key encodes an offset and the key size, a value the offset and the value
size, each padded to its size: `K<offset>s<key_size>E…EY` and
`V<offset>s<val_size>A…AL`, with the numbers zero-padded to `offset_len` and
`size_len` digits. `get_format_params` computes these lengths and asserts that
the sizes leave room for an offset. `make_key` and `make_val` assert that the
text has the size.

Python `int`s are integers and texts are lists of characters. `f"{n:0{w}}"`
is `Text.pyZeroPad`, and a negative width makes the format spec invalid,
which raises `ValueError`. `make_val` with `use_rand=True` fills the value
with `random.choice`, and is left out.
-/

namespace Workload

open Controller
open Controller.Tenant (pyAssert)

/-- `ValueError` of a format spec with a negative width. -/
def valueError : String := "ValueError: Invalid format specifier"

/-- `KvFormatParams`. -/
structure KvFormatParams where
  keySize : ℤ
  valSize : ℤ
  sizeLen : ℤ
  offsetLen : ℤ
  kPadLen : ℤ
  vPadLen : ℤ
  deriving DecidableEq, Repr

/-- `f"{n:0{w}}"`. -/
def zeroPad (w n : ℤ) : Except String (List Char) :=
  if w < 0 then .error valueError else .ok (Text.pyZeroPad w.toNat n)

/-- `make_key(offset, format_params)`. -/
def makeKey (offset : ℤ) (p : KvFormatParams) : Except String (List Char) := do
  let o ← zeroPad p.offsetLen offset
  let k ← zeroPad p.sizeLen p.keySize
  let key := ['K'] ++ o ++ ['s'] ++ k ++ List.replicate p.kPadLen.toNat 'E' ++ ['Y']
  pyAssert (key.length == p.keySize)
  pure key

/-- `make_val(offset, format_params, use_rand=False)`. -/
def makeVal (offset : ℤ) (p : KvFormatParams) : Except String (List Char) := do
  let o ← zeroPad p.offsetLen offset
  let v ← zeroPad p.sizeLen p.valSize
  let val := ['V'] ++ o ++ ['s'] ++ v ++ List.replicate p.vPadLen.toNat 'A' ++ ['L']
  pyAssert (val.length == p.valSize)
  pure val

/-- `get_format_params(key_size, val_size)`. -/
def getFormatParams (keySize valSize : ℤ) : Except String KvFormatParams := do
  let sizeLen : ℤ := max (Text.intText keySize).length (Text.intText valSize).length
  let leastLenLeft := min keySize valSize - 3 - sizeLen
  pyAssert (0 < leastLenLeft)
  -- `uint32_t` has ten digits, so the offset needs no more
  let offsetLen := if leastLenLeft < 10 then leastLenLeft else 10
  let kPadLen := keySize - 3 - sizeLen - offsetLen
  let vPadLen := valSize - 3 - sizeLen - offsetLen
  pyAssert (0 ≤ kPadLen)
  pyAssert (0 ≤ vPadLen)
  pure ⟨keySize, valSize, sizeLen, offsetLen, kPadLen, vPadLen⟩

-- ---------------------------------------------------------------------------
-- What the functions compute
-- ---------------------------------------------------------------------------

/-- The lengths that `get_format_params` derives from two sizes that are not
    negative, before its assertions. -/
def formatOf (keySize valSize : ℕ) : KvFormatParams :=
  let sizeLen : ℤ := max (Nat.toDigits 10 keySize).length (Nat.toDigits 10 valSize).length
  let leastLenLeft := min (keySize : ℤ) valSize - 3 - sizeLen
  let offsetLen := if leastLenLeft < 10 then leastLenLeft else 10
  ⟨keySize, valSize, sizeLen, offsetLen, keySize - 3 - sizeLen - offsetLen,
    valSize - 3 - sizeLen - offsetLen⟩

/-- The room left for the offset. -/
def leastLenLeft (keySize valSize : ℕ) : ℤ :=
  min (keySize : ℤ) valSize - 3 -
    max ((Nat.toDigits 10 keySize).length : ℤ) (Nat.toDigits 10 valSize).length

/-- Neither padding is negative: the offset takes at most the room that the
    smaller size leaves. -/
theorem pads_nonneg (k v l : ℤ) :
    0 ≤ k - 3 - l - (if min k v - 3 - l < 10 then min k v - 3 - l else 10) ∧
      0 ≤ v - 3 - l - (if min k v - 3 - l < 10 then min k v - 3 - l else 10) := by
  split <;> omega

/-- `get_format_params` fails its assertions exactly when no room is left for
    an offset. -/
theorem getFormatParams_eq (keySize valSize : ℕ) :
    getFormatParams keySize valSize =
      if 0 < leastLenLeft keySize valSize then .ok (formatOf keySize valSize) else .error assertionError := by
  by_cases h : 0 < leastLenLeft keySize valSize
  case pos =>
    have hpads := pads_nonneg keySize valSize
      (max ((Nat.toDigits 10 keySize).length : ℤ) (Nat.toDigits 10 valSize).length)
    rw [if_pos h]
    simp only [getFormatParams, Text.intText_ofNat, pyAssert, leastLenLeft] at h hpads ⊢
    simp only [decide_eq_true h, decide_eq_true hpads.1, decide_eq_true hpads.2, if_true]
    rfl
  case neg =>
    rw [if_neg h]
    simp only [getFormatParams, Text.intText_ofNat, pyAssert, leastLenLeft] at h ⊢
    simp only [decide_eq_false h]
    rfl

/-- A key or a value: its tag, the offset and the size zero-padded to their
    lengths, the padding and the last character. -/
def kvText (tag : Char) (offsetLen offset sizeLen size : ℕ) (pad : Char) (padLen : ℕ) (last : Char) :
    List Char :=
  [tag] ++ Text.padLeft offsetLen '0' (Nat.toDigits 10 offset) ++ ['s'] ++
    Text.padLeft sizeLen '0' (Nat.toDigits 10 size) ++ List.replicate padLen pad ++ [last]

theorem length_kvText (tag pad last : Char) (padLen : ℕ) {o offset s size : ℕ}
    (ho : (Nat.toDigits 10 offset).length ≤ o) (hs : (Nat.toDigits 10 size).length ≤ s) :
    (kvText tag o offset s size pad padLen last).length = 3 + o + s + padLen := by
  simp only [kvText, List.length_append, List.length_singleton, List.length_replicate,
    Text.length_padLeft_of_le ho, Text.length_padLeft_of_le hs]
  omega

theorem zeroPad_ofNat (w n : ℕ) : zeroPad w n = .ok (Text.padLeft w '0' (Nat.toDigits 10 n)) := by
  rw [zeroPad, if_neg (Int.not_lt.mpr (Int.natCast_nonneg w)), Int.toNat_natCast, Text.pyZeroPad_ofNat]

section Make

variable {p : KvFormatParams} {offset o s pad size : ℕ}

/-- `make_key` returns the key when the offset and the key size fit their
    lengths and the lengths add up to the key size. -/
theorem makeKey_eq (hO : p.offsetLen = o) (hS : p.sizeLen = s) (hP : p.kPadLen = pad)
    (hK : p.keySize = size) (hlen : 3 + o + s + pad = size)
    (ho : (Nat.toDigits 10 offset).length ≤ o) (hs : (Nat.toDigits 10 size).length ≤ s) :
    makeKey offset p = .ok (kvText 'K' o offset s size 'E' pad 'Y') := by
  have hlength := length_kvText 'K' 'E' 'Y' pad ho hs
  simp only [kvText] at hlength
  simp only [makeKey, hO, hS, hP, hK, zeroPad_ofNat, Int.toNat_natCast, bind, Except.bind,
    pyAssert, hlength, hlen, beq_self_eq_true, if_true]
  rfl

/-- `make_val`, likewise. -/
theorem makeVal_eq (hO : p.offsetLen = o) (hS : p.sizeLen = s) (hP : p.vPadLen = pad)
    (hV : p.valSize = size) (hlen : 3 + o + s + pad = size)
    (ho : (Nat.toDigits 10 offset).length ≤ o) (hs : (Nat.toDigits 10 size).length ≤ s) :
    makeVal offset p = .ok (kvText 'V' o offset s size 'A' pad 'L') := by
  have hlength := length_kvText 'V' 'A' 'L' pad ho hs
  simp only [kvText] at hlength
  simp only [makeVal, hO, hS, hP, hV, zeroPad_ofNat, Int.toNat_natCast, bind, Except.bind,
    pyAssert, hlength, hlen, beq_self_eq_true, if_true]
  rfl

end Make

end Workload
