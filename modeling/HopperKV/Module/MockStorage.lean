-- SUMMARY: The mock backend of the Redis module (storage.cpp, set.cpp, config.cpp): update_mock_format and make_mock_val, which synthesize a GET's value from its key, load_mock_image and HOPPER.LOAD, which read an image file, and HOPPER.CONFIG.SET dynamo.mock; where they agree with the client's key-value format and load what a well-formed file holds, and the inputs on which they reach undefined behaviour or let an exception escape.
import HopperKV.Lib.Cxx
import HopperKV.Lib.StdAlgo
import HopperKV.Client.KvFormat
import HopperKV.Module.Server

/-!
# The mock backend

With `dynamo.mock` on, the storage thread answers a GET itself. With an image
loaded it answers with a value of the size that the image records for the
key's hash, and otherwise `make_mock_val` synthesizes the value from the key,
in the client's format (`Workload.makeKey`, `Workload.makeVal`):
`update_mock_format` computes the format from the key and value sizes, in
`uint32_t` arithmetic converted to `int32_t`, and `make_mock_val` reads the
offset out of the key into an `int` and writes the value.

An image file is a header line `key,val_size` and then one line `key,size`
per key. `load_mock_image` records the sizes by `std::hash<std::string>` of
the key, truncated to `uint32_t`, and `HOPPER.LOAD` writes a value of the
size into the keyspace. Both read the size with `std::stoul` or `std::stoi`,
and neither catches what these throw.

`std::hash` is a parameter, files are a map from names to contents (`none`
for a file that cannot be opened), and a value of the keyspace is a string
or a key of another type. The argument checks of the commands
(`RedisModule_WrongArity` and the parsing of the sizes), the ghost cache that
`HOPPER.LOAD` warms up, and the rate limiter that a GET pays are left out.
-/

namespace Hopper.Storage

open Cxx Outcome

/-- `mock_format`. -/
structure MockFormat where
  keySize : U32
  valSize : U32
  sizeLen : U32
  offsetLen : U32
  kPadLen : U32
  vPadLen : U32
  deriving DecidableEq, Repr

/-- `throw std::invalid_argument(what)`. -/
def invalidArgument {α : Type} (what : List Char) : Outcome α := .throw (.invalidArgument what)

/-- `update_mock_format(key_size, val_size)`: the new format, which is stored
    only when nothing is thrown. -/
def updateMockFormat (keySize valSize : U32) : Outcome MockFormat := do
  let sizeLen : U32 :=
    Fin.ofNat _ (max (Nat.toDigits 10 keySize.val).length (Nat.toDigits 10 valSize.val).length)
  let leastLenLeft : ℤ := toInt32 (min keySize valSize - 3 - sizeLen)
  if leastLenLeft ≤ 0 then
    invalidArgument "Incorrect KV format: least_len_left <= 0".toList
  let offsetLen : U32 := U32.ofInt (min leastLenLeft 10)
  let kPadLen : ℤ := toInt32 (keySize - 3 - sizeLen - offsetLen)
  let vPadLen : ℤ := toInt32 (valSize - 3 - sizeLen - offsetLen)
  if kPadLen < 0 then
    invalidArgument "Incorrect KV format: k_pad_len < 0".toList
  if vPadLen < 0 then
    invalidArgument "Incorrect KV format: v_pad_len < 0".toList
  pure ⟨keySize, valSize, sizeLen, offsetLen, U32.ofInt kPadLen, U32.ofInt vPadLen⟩

/-- The loop of `make_mock_val` over the characters after the leading `K`:
    `offset = offset * 10 + (key[i] - '0')` in an `int`, up to the `s`. -/
def parseOffset (key : List Char) : List Char → ℤ → Outcome ℤ
  | [], offset => pure offset
  | c :: cs, offset =>
    if c = 's' then pure offset
    else if c.isDigit then do
      let m ← checkedInt (offset * 10)
      let o ← checkedInt (m + ((c.toNat : ℤ) - ('0'.toNat : ℤ)))
      parseOffset key cs o
    else invalidArgument ("Invalid key format: non-digit char found in offset: ".toList ++ key)

/-- `make_mock_val(key)`. -/
def makeMockVal (fmt : MockFormat) (key : List Char) : Outcome (List Char) := do
  if key.length ≠ fmt.keySize.val then
    invalidArgument ("Incorrect KV format: key length mismatch: ".toList ++ key)
  -- `key[0]` of an empty string is its terminating null character
  if key.head? ≠ some 'K' then
    invalidArgument ("Invalid key format: leading char must be 'K': ".toList ++ key)
  let offset ← parseOffset key key.tail 0
  pure (['V'] ++ putInt fmt.offsetLen.val '0' offset ++ ['s'] ++
    putInt fmt.sizeLen.val '0' fmt.valSize.val ++ List.replicate fmt.vPadLen.val 'A' ++ ['L'])

/-- `mock_image`: the value size recorded for each key hash. -/
abbrev MockImage := U32 → Option U32

/-- `std::hash<std::string>{}(key)` converted to `uint32_t`. -/
def keyHash (hash : List Char → U64) (key : List Char) : U32 := Fin.ofNat _ (hash key).val

/-- A GET of the mock backend (`process_mock_dynamo`): `.ok` with the value,
    or `.error` with the text that a failed GET carries. -/
def mockGet (hash : List Char → U64) (image : Option MockImage) (fmt : MockFormat)
    (key : List Char) : Outcome (Except (List Char) (List Char)) :=
  match image with
  | some img =>
    match img (keyHash hash key) with
    | some size => pure (.ok (List.replicate size.val 'v'))
    | none => pure (.error "key not found in image".toList)
  | none => catchInvalidArgument (Except.ok <$> makeMockVal fmt key) fun what => pure (.error what)

-- ---------------------------------------------------------------------------
-- Image files
-- ---------------------------------------------------------------------------

/-- The files: the contents of each name, `none` where it cannot be opened. -/
abbrev Files := List Char → Option (List Char)

/-- The header line of an image file. -/
def imageHeader : List Char := "key,val_size".toList

/-- The loop of `load_mock_image` over the lines after the header: its return
    code and the image. -/
def loadImageLines (hash : List Char → U64) : List (List Char) → MockImage → Outcome (ℤ × MockImage)
  | [], img => pure (0, img)
  | line :: lines, img =>
    match getline ',' line with
    | none => pure (-2, img)
    | some (key, rest) =>
      match getline '\n' rest with
      | none => pure (-2, img)
      | some (valSizeStr, _) => do
        let valSize ← stoul valSizeStr
        loadImageLines hash lines (Function.update img (keyHash hash key) (some (Fin.ofNat _ valSize)))

/-- `load_mock_image(image_filename)` into `img`. -/
def loadMockImage (files : Files) (hash : List Char → U64) (img : MockImage) (filename : List Char) :
    Outcome (ℤ × MockImage) :=
  match files filename with
  | none => pure (-1, img)
  | some content =>
    -- a failed `std::getline` leaves `line` empty
    let (header, rest) := (getline '\n' content).getD ([], [])
    if header ≠ imageHeader then pure (-2, img) else loadImageLines hash (getlines rest) img

/-- What `HOPPER.CONFIG.SET dynamo.mock` sets. -/
structure MockConfig where
  mock : Bool
  format : MockFormat
  image : Option MockImage

/-- The loop of `HOPPER.CONFIG.SET dynamo.mock image` over its files: the
    error of the first file that fails, and the image. -/
def loadImages (files : Files) (hash : List Char → U64) :
    List (List Char) → MockImage → Outcome (Option String × MockImage)
  | [], img => pure (none, img)
  | filename :: filenames, img => do
    let (rc, img') ← loadMockImage files hash img filename
    if rc = -1 then pure (some "ERR Failed to open image file", img')
    else if rc = -2 then pure (some "ERR Invalid image file format", img')
    else loadImages files hash filenames img'

/-- `HOPPER.CONFIG.SET dynamo.mock image filename...`. -/
def configSetMockImage (files : Files) (hash : List Char → U64) (cfg : MockConfig)
    (filenames : List (List Char)) : Outcome (Reply (List Char) × MockConfig) := do
  -- `init_mock_image` keeps an image that is already there
  let (err, img) ← loadImages files hash filenames (cfg.image.getD fun _ => none)
  match err with
  | some msg => pure (.error msg, { cfg with image := some img })
  | none => pure (.simple "OK", { cfg with image := some img, mock := true })

/-- `HOPPER.CONFIG.SET dynamo.mock format key_size val_size`, with the `long
    long` and the `unsigned long long` that the command reads. -/
def configSetMockFormat (cfg : MockConfig) (keySize : ℤ) (valSize : ℕ) :
    Outcome (Reply (List Char) × MockConfig) :=
  catchInvalidArgument
    ((fun fmt => (Reply.simple "OK", { cfg with format := fmt, mock := true })) <$>
      updateMockFormat (U32.ofInt keySize) (Fin.ofNat _ valSize))
    fun what => pure (.error ("ERR Ill-formed key-value format: " ++ String.ofList what), cfg)

-- ---------------------------------------------------------------------------
-- `HOPPER.LOAD`
-- ---------------------------------------------------------------------------

/-- What a key holds: a string, or a value of another type. -/
inductive KeyValue where
  | string (s : List Char)
  | other
  deriving DecidableEq, Repr

/-- The Redis keyspace. -/
abbrev Keyspace := List Char → Option KeyValue

/-- The text of the error replies of `HOPPER.LOAD` on a malformed file. -/
def invalidImage : String := "ERR Invalid image file format"

/-- The loop of `RedisModule_HopperLoad` over the lines after the header. -/
def hopperLoadLines : List (List Char) → Keyspace → Outcome (Reply (List Char) × Keyspace)
  | [], ks => pure (.simple "OK", ks)
  | line :: lines, ks =>
    match getline ',' line with
    | none => pure (.error invalidImage, ks)
    | some (key, rest) =>
      match getline '\n' rest with
      | none => pure (.error invalidImage, ks)
      | some (valSizeStr, _) => do
        let valSize ← stoi valSizeStr
        -- `std::string(val_size, 'v')` with a negative `int` asks for more than `max_size()`
        if valSize < 0 then
          .throw (.lengthError "basic_string::_M_create".toList)
        match ks key with
        | some .other => pure (.error invalidImage, ks)
        | _ => hopperLoadLines lines (Function.update ks key (some (.string (List.replicate valSize.toNat 'v'))))

/-- `HOPPER.LOAD filename`. -/
def hopperLoad (files : Files) (ks : Keyspace) (filename : List Char) :
    Outcome (Reply (List Char) × Keyspace) :=
  match files filename with
  | none => pure (.error "ERR Failed to open file", ks)
  | some content =>
    let (header, rest) := (getline '\n' content).getD ([], [])
    if header ≠ imageHeader then pure (.error invalidImage, ks) else hopperLoadLines (getlines rest) ks

-- ---------------------------------------------------------------------------
-- The format agrees with the client's
-- ---------------------------------------------------------------------------

open Workload

/-- The format that `update_mock_format` stores and the parameters that
    `get_format_params` returns have the same fields. -/
def Agrees (fmt : MockFormat) (p : KvFormatParams) : Prop :=
  p.keySize = fmt.keySize.val ∧ p.valSize = fmt.valSize.val ∧ p.sizeLen = fmt.sizeLen.val ∧
    p.offsetLen = fmt.offsetLen.val ∧ p.kPadLen = fmt.kPadLen.val ∧ p.vPadLen = fmt.vPadLen.val

theorem length_toDigits_le_ten {n : ℕ} (h : n < 2 ^ 31) : (Nat.toDigits 10 n).length ≤ 10 :=
  (Nat.length_toDigits_le_iff (by decide) (by decide)).mpr (by omega)

section Format

variable {k v : U32}

/-- The length of the sizes' digits, which no `uint32_t` conversion changes. -/
theorem val_sizeLen (hk : k.val < 2 ^ 31) (hv : v.val < 2 ^ 31) :
    (Fin.ofNat (2 ^ 32) (max (Nat.toDigits 10 k.val).length (Nat.toDigits 10 v.val).length) : U32).val =
      max (Nat.toDigits 10 k.val).length (Nat.toDigits 10 v.val).length := by
  have := length_toDigits_le_ten hk
  have := length_toDigits_le_ten hv
  rw [Fin.val_ofNat, Nat.mod_eq_of_lt (by omega)]

/-- A size less two lengths, taken in `uint32_t` and converted to `int32_t`,
    is the difference of the integers. -/
theorem toInt32_sub_sub {a b c : U32} (ha : a.val < 2 ^ 31) (hbc : b.val + c.val ≤ 2 ^ 30) :
    toInt32 (a - b - c) = (a.val : ℤ) - b.val - c.val := by
  have h₁ : (a - b).val = (2 ^ 32 - b.val + a.val) % 2 ^ 32 := Fin.sub_def a b ▸ rfl
  have h₂ : (a - b - c).val = (2 ^ 32 - c.val + (a - b).val) % 2 ^ 32 := Fin.sub_def (a - b) c ▸ rfl
  unfold toInt32
  split <;> omega

theorem toInt32_sub_sub_sub {a b c d : U32} (ha : a.val < 2 ^ 31) (hbcd : b.val + c.val + d.val ≤ 2 ^ 30) :
    toInt32 (a - b - c - d) = (a.val : ℤ) - b.val - c.val - d.val := by
  have h₁ : (a - b).val = (2 ^ 32 - b.val + a.val) % 2 ^ 32 := Fin.sub_def a b ▸ rfl
  have h₂ : (a - b - c).val = (2 ^ 32 - c.val + (a - b).val) % 2 ^ 32 := Fin.sub_def (a - b) c ▸ rfl
  have h₃ : (a - b - c - d).val = (2 ^ 32 - d.val + (a - b - c).val) % 2 ^ 32 :=
    Fin.sub_def (a - b - c) d ▸ rfl
  unfold toInt32
  split <;> omega

theorem val_three : (3 : U32).val = 3 := rfl

/-- A size less three, a length and an offset length, in `uint32_t` converted
    to `int32_t`: the padding that `update_mock_format` checks. -/
theorem toInt32_pad {a : U32} {l : ℕ} {o : ℤ} (ha : a.val < 2 ^ 31) (hl : l ≤ 10) (ho₀ : 0 ≤ o)
    (ho : o ≤ 10) : toInt32 (a - 3 - Fin.ofNat (2 ^ 32) l - U32.ofInt o) = (a.val : ℤ) - 3 - l - o := by
  have hlv : (Fin.ofNat (2 ^ 32) l : U32).val = l := by
    rw [Fin.val_ofNat, Nat.mod_eq_of_lt (by omega)]
  have hov : ((U32.ofInt o).val : ℤ) = o := U32.val_ofInt ho₀ (by omega)
  rw [toInt32_sub_sub_sub ha (by rw [val_three, hlv]; omega), val_three, hlv, hov]
  omega

theorem min_ten_eq (x : ℤ) : min x 10 = if x < 10 then x else 10 := by
  split <;> omega

/-- Below `2 ^ 31`, `update_mock_format` computes what `get_format_params`
    computes: it throws exactly where `get_format_params` fails an assertion,
    and otherwise stores the same lengths. -/
theorem updateMockFormat_refines (hk : k.val < 2 ^ 31) (hv : v.val < 2 ^ 31) :
    match getFormatParams k.val v.val with
    | .ok p => ∃ fmt, updateMockFormat k v = ret fmt ∧ Agrees fmt p
    | .error _ => ∃ what, updateMockFormat k v = .throw (.invalidArgument what) := by
  rw [getFormatParams_eq]
  have hL := max_le (length_toDigits_le_ten hk) (length_toDigits_le_ten hv)
  have hsize := val_sizeLen hk hv
  have hmin : (min k v).val < 2 ^ 31 := by rw [Fin.coe_min]; omega
  have hleast : toInt32 (min k v - 3 -
      Fin.ofNat (2 ^ 32) (max (Nat.toDigits 10 k.val).length (Nat.toDigits 10 v.val).length)) =
      leastLenLeft k.val v.val := by
    rw [toInt32_sub_sub hmin (by rw [hsize, val_three]; omega), hsize, Fin.coe_min, leastLenLeft,
      val_three]
    omega
  by_cases h : 0 < leastLenLeft k.val v.val
  case neg =>
    rw [if_neg h]
    refine ⟨"Incorrect KV format: least_len_left <= 0".toList, ?_⟩
    simp only [updateMockFormat, hleast, if_pos (not_lt.mp h), invalidArgument, throw_bind]
  case pos =>
    rw [if_pos h]
    -- the offset takes at most ten characters, and neither padding is negative
    have hO : ((U32.ofInt (min (leastLenLeft k.val v.val) 10)).val : ℤ) = min (leastLenLeft k.val v.val) 10 :=
      U32.val_ofInt (by omega) (by omega)
    have hpads := pads_nonneg k.val v.val
      (max ((Nat.toDigits 10 k.val).length : ℤ) (Nat.toDigits 10 v.val).length)
    rw [← min_ten_eq] at hpads
    have hk0 : ¬ ((k.val : ℤ) - 3 - ((max (Nat.toDigits 10 k.val).length (Nat.toDigits 10 v.val).length : ℕ) : ℤ) -
        min (leastLenLeft k.val v.val) 10 < 0) := by
      unfold leastLenLeft; omega
    have hv0 : ¬ ((v.val : ℤ) - 3 - ((max (Nat.toDigits 10 k.val).length (Nat.toDigits 10 v.val).length : ℕ) : ℤ) -
        min (leastLenLeft k.val v.val) 10 < 0) := by
      unfold leastLenLeft; omega
    have hkpad := toInt32_pad hk hL (by omega) (by omega : min (leastLenLeft k.val v.val) 10 ≤ 10)
    have hvpad := toInt32_pad hv hL (by omega) (by omega : min (leastLenLeft k.val v.val) 10 ≤ 10)
    simp only [updateMockFormat, hleast, if_neg (not_le.mpr h), hkpad, hvpad, if_neg hk0, if_neg hv0,
      pure_eq]
    refine ⟨_, rfl, rfl, rfl, ?_, ?_, ?_, ?_⟩
    · simp only [formatOf, hsize]
      omega
    · rw [hO]
      simp only [formatOf, leastLenLeft, min_ten_eq]
    · rw [U32.val_ofInt (not_lt.mp hk0) (by omega)]
      simp only [formatOf, leastLenLeft, min_ten_eq, Nat.cast_max]
    · rw [U32.val_ofInt (not_lt.mp hv0) (by omega)]
      simp only [formatOf, leastLenLeft, min_ten_eq, Nat.cast_max]

/-- The loop reads a run of digits up to the `s` as its value when the value
    stays below `2 ^ 31`, which bounds every value that it passes through. -/
theorem parseOffset_digits (key r : List Char) :
    ∀ (ds : List Char) (acc : ℕ), (∀ c ∈ ds, c.isDigit) → Nat.ofDigitChars 10 ds acc < 2 ^ 31 →
      parseOffset key (ds ++ 's' :: r) acc = ret (Nat.ofDigitChars 10 ds acc : ℤ)
  | [], acc, _, _ => by simp [parseOffset]
  | c :: cs, acc, hd, hv => by
    have hc := hd c List.mem_cons_self
    obtain ⟨h₀, h₁⟩ := Char.isDigit_iff_toNat.mp hc
    have h48 : '0'.toNat = 48 := rfl
    have hs : c ≠ 's' := by rintro rfl; simp at h₁
    rw [Nat.ofDigitChars_cons] at hv ⊢
    -- the value after this digit is at most the value of the run
    have hnext : 10 * acc + (c.toNat - '0'.toNat) ≤
        Nat.ofDigitChars 10 cs (10 * acc + (c.toNat - '0'.toNat)) := by
      rw [Nat.ofDigitChars_eq_ofDigitChars_zero]
      exact Nat.le_add_right_of_le (Nat.le_mul_of_pos_left _ (Nat.pow_pos (by decide)))
    have hcast : (acc : ℤ) * 10 + ((c.toNat : ℤ) - ('0'.toNat : ℤ)) =
        ((10 * acc + (c.toNat - '0'.toNat) : ℕ) : ℤ) := by
      omega
    simp only [List.cons_append, parseOffset, if_neg hs, hc, if_true]
    rw [checkedInt_of_range (by omega) (by omega), ret_bind, checkedInt_of_range (by omega) (by omega),
      ret_bind, hcast]
    exact parseOffset_digits key r cs _ (fun x hx => hd x (List.mem_cons_of_mem c hx)) hv

/-- `make_mock_val` on a key in the client's format, with an offset below
    `2 ^ 31`, writes the value in the client's format. -/
theorem makeMockVal_kvText {fmt : MockFormat} {offset : ℕ} (ho : offset < 2 ^ 31)
    (hlen : (kvText 'K' fmt.offsetLen.val offset fmt.sizeLen.val fmt.keySize.val 'E' fmt.kPadLen.val
      'Y').length = fmt.keySize.val) :
    makeMockVal fmt (kvText 'K' fmt.offsetLen.val offset fmt.sizeLen.val fmt.keySize.val 'E'
      fmt.kPadLen.val 'Y') =
      ret (kvText 'V' fmt.offsetLen.val offset fmt.sizeLen.val fmt.valSize.val 'A' fmt.vPadLen.val 'L') := by
  have hparse := parseOffset_digits
    (kvText 'K' fmt.offsetLen.val offset fmt.sizeLen.val fmt.keySize.val 'E' fmt.kPadLen.val 'Y')
    (Text.padLeft fmt.sizeLen.val '0' (Nat.toDigits 10 fmt.keySize.val) ++
      List.replicate fmt.kPadLen.val 'E' ++ ['Y'])
    (Text.padLeft fmt.offsetLen.val '0' (Nat.toDigits 10 offset)) 0
    (fun _ hc => Text.isDigit_of_mem_padLeft_toDigits hc)
    (by rw [Text.ofDigitChars_padLeft_toDigits]; exact ho)
  rw [Text.ofDigitChars_padLeft_toDigits, Nat.cast_zero] at hparse
  -- the key is `K`, the padded offset, `s` and the rest
  have hhead : (kvText 'K' fmt.offsetLen.val offset fmt.sizeLen.val fmt.keySize.val 'E'
      fmt.kPadLen.val 'Y').head? = some 'K' := rfl
  have htail : (kvText 'K' fmt.offsetLen.val offset fmt.sizeLen.val fmt.keySize.val 'E'
      fmt.kPadLen.val 'Y').tail = Text.padLeft fmt.offsetLen.val '0' (Nat.toDigits 10 offset) ++
        's' :: (Text.padLeft fmt.sizeLen.val '0' (Nat.toDigits 10 fmt.keySize.val) ++
          List.replicate fmt.kPadLen.val 'E' ++ ['Y']) := by
    simp [kvText]
  simp only [makeMockVal, hlen, hhead, htail, hparse, ne_eq, not_true_eq_false, if_false, pure_eq,
    ret_bind, putInt, Text.intText_ofNat]
  simp [kvText]

/-- The parameters of two sizes for which `get_format_params` returns. -/
theorem eq_formatOf_of_getFormatParams {p : KvFormatParams} (hp : getFormatParams k.val v.val = .ok p) :
    p = formatOf k.val v.val := by
  rw [getFormatParams_eq] at hp
  split_ifs at hp
  exact (Except.ok.inj hp).symm

/-- With the format of two sizes below `2 ^ 31`, a key that `make_key` writes
    for an offset below `2 ^ 31` is one on which `make_mock_val` returns what
    `make_val` writes. -/
theorem makeMockVal_makeKey (hk : k.val < 2 ^ 31) (hv : v.val < 2 ^ 31) {p : KvFormatParams}
    {fmt : MockFormat} (hp : getFormatParams k.val v.val = .ok p) (hfmt : updateMockFormat k v = ret fmt)
    {offset : ℕ} (ho : offset < 2 ^ 31) (hdig : (Nat.toDigits 10 offset).length ≤ p.offsetLen) :
    ∃ key val, makeKey offset p = .ok key ∧ makeVal offset p = .ok val ∧ makeMockVal fmt key = ret val := by
  have href := updateMockFormat_refines hk hv
  rw [hp, hfmt] at href
  obtain ⟨_, hfmt', hag⟩ := href
  cases hfmt'
  obtain ⟨hK, hV, hS, hO, hKP, hVP⟩ := hag
  have hpf := eq_formatOf_of_getFormatParams hp
  subst hpf
  -- the lengths add up to the sizes, and the sizes fit their length
  have hfields := And.intro hK (And.intro hV (And.intro hS (And.intro hO (And.intro hKP hVP))))
  simp only [formatOf] at hfields hdig
  obtain ⟨hK', hV', hS', hO', hKP', hVP'⟩ := hfields
  have hksum : 3 + fmt.offsetLen.val + fmt.sizeLen.val + fmt.kPadLen.val = fmt.keySize.val := by omega
  have hvsum : 3 + fmt.offsetLen.val + fmt.sizeLen.val + fmt.vPadLen.val = fmt.valSize.val := by omega
  have hkeq : k.val = fmt.keySize.val := by omega
  have hveq : v.val = fmt.valSize.val := by omega
  have hkdig : (Nat.toDigits 10 fmt.keySize.val).length ≤ fmt.sizeLen.val := by rw [← hkeq]; omega
  have hvdig : (Nat.toDigits 10 fmt.valSize.val).length ≤ fmt.sizeLen.val := by rw [← hveq]; omega
  have hodig : (Nat.toDigits 10 offset).length ≤ fmt.offsetLen.val := by omega
  refine ⟨_, _, makeKey_eq hO hS hKP hK hksum hodig hkdig,
    makeVal_eq hO hS hVP hV hvsum hodig hvdig, ?_⟩
  exact makeMockVal_kvText ho ((length_kvText 'K' 'E' 'Y' _ hodig hkdig).trans hksum)

theorem makeMockVal_makeKey_seven :
    let k : U32 := 16
    let v : U32 := 100
    let fmt : MockFormat := ⟨16, 100, 3, 10, 0, 84⟩
    k.val < 2 ^ 31 ∧ v.val < 2 ^ 31 ∧ getFormatParams k.val v.val = .ok (formatOf k.val v.val) ∧
      updateMockFormat k v = Outcome.ret fmt ∧ 7 < 2 ^ 31 ∧
      (Nat.toDigits 10 7).length ≤ (formatOf k.val v.val).offsetLen ∧
      ∃ key val, makeKey 7 (formatOf k.val v.val) = .ok key ∧ makeVal 7 (formatOf k.val v.val) = .ok val ∧
        makeMockVal fmt key = Outcome.ret val := by
  intro k v fmt
  have hp : getFormatParams k.val v.val = .ok (formatOf k.val v.val) := by decide +kernel
  have hfmt : updateMockFormat k v = Outcome.ret fmt := by decide +kernel
  have hdig : (Nat.toDigits 10 7).length ≤ (formatOf k.val v.val).offsetLen := by decide +kernel
  exact ⟨by decide, by decide, hp, hfmt, by decide, hdig,
    makeMockVal_makeKey (by decide) (by decide) hp hfmt (by decide) hdig⟩

/-- With the default format of `storage::init`, `update_mock_format(16, 500)`,
    an offset of ten digits from `2 ^ 31` on is one that `make_key` writes, and
    reading it back overflows the `int` of `make_mock_val`: undefined behaviour
    where the client expects the value of `make_val`. -/
theorem makeMockVal_offset_overflow :
    getFormatParams 16 500 = .ok ⟨16, 500, 3, 10, 0, 484⟩ ∧
      updateMockFormat 16 500 = ret ⟨16, 500, 3, 10, 0, 484⟩ ∧
      makeKey 2147483648 ⟨16, 500, 3, 10, 0, 484⟩ = .ok (kvText 'K' 10 2147483648 3 16 'E' 0 'Y') ∧
      makeVal 2147483648 ⟨16, 500, 3, 10, 0, 484⟩ = .ok (kvText 'V' 10 2147483648 3 500 'A' 484 'L') ∧
      makeMockVal ⟨16, 500, 3, 10, 0, 484⟩ (kvText 'K' 10 2147483648 3 16 'E' 0 'Y') = .undefined :=
  ⟨by decide, by decide, makeKey_eq rfl rfl rfl rfl rfl (by decide) (by decide),
    makeVal_eq rfl rfl rfl rfl rfl (by decide) (by decide), by decide⟩

end Format

-- ---------------------------------------------------------------------------
-- Loading an image file
-- ---------------------------------------------------------------------------

/-- A line of an image file: the key, a comma and the digits of the size. -/
def imageLine (row : List Char × List Char) : List Char := row.1 ++ ',' :: row.2

/-- A row that the loaders read as a key and a size below `2 ^ 31`. -/
structure RowOk (row : List Char × List Char) : Prop where
  key : ',' ∉ row.1
  digits : ∀ c ∈ row.2, c.isDigit
  ne_nil : row.2 ≠ []
  lt : Nat.ofDigitChars 10 row.2 0 < 2 ^ 31

/-- The size of a row. -/
def rowSize (row : List Char × List Char) : ℕ := Nat.ofDigitChars 10 row.2 0

/-- The two `std::getline` of a loader split a row's line at its comma. -/
theorem getline_imageLine {row : List Char × List Char} (h : RowOk row) :
    getline ',' (imageLine row) = some (row.1, row.2) ∧ getline '\n' row.2 = some (row.2, []) := by
  have hnl : '\n' ∉ row.2 := fun hn => by simpa using h.digits _ hn
  exact ⟨getline_of_delim h.key, getline_of_last hnl h.ne_nil⟩

/-- `load_mock_image` records each row's size under its key's hash, the
    last row of a hash winning. -/
theorem loadImageLines_rows (hash : List Char → U64) :
    ∀ (rows : List (List Char × List Char)) (img : MockImage), (∀ row ∈ rows, RowOk row) →
      loadImageLines hash (rows.map imageLine) img =
        ret (0, rows.foldl (fun (m : MockImage) row => Function.update m (keyHash hash row.1)
          (some (Fin.ofNat _ (rowSize row)))) img)
  | [], _, _ => rfl
  | row :: rows, img, h => by
    have hrow := h row List.mem_cons_self
    obtain ⟨hkey, hsize⟩ := getline_imageLine hrow
    have hstoul := stoul_digits hrow.digits hrow.ne_nil (by have := hrow.lt; omega)
    simp only [List.map_cons, loadImageLines, hkey, hsize, hstoul, ret_bind, List.foldl_cons]
    exact loadImageLines_rows hash rows _ fun r hr => h r (List.mem_cons_of_mem row hr)

/-- `HOPPER.LOAD` writes each row's value into the keyspace, the last row of
    a key winning, when no key holds a value of another type. -/
theorem hopperLoadLines_rows :
    ∀ (rows : List (List Char × List Char)) (ks : Keyspace), (∀ row ∈ rows, RowOk row) →
      (∀ row ∈ rows, ks row.1 ≠ some .other) →
      hopperLoadLines (rows.map imageLine) ks =
        ret ((.simple "OK" : Reply (List Char)), rows.foldl (fun (ks : Keyspace) row => Function.update ks row.1
          (some (KeyValue.string (List.replicate (rowSize row) 'v')))) ks)
  | [], _, _, _ => rfl
  | row :: rows, ks, h, hks => by
    have hrow := h row List.mem_cons_self
    obtain ⟨hkey, hsize⟩ := getline_imageLine hrow
    have hstoi := stoi_digits hrow.digits hrow.ne_nil hrow.lt
    -- the value of this row is a string, so the later rows find no other type
    have hks' : ∀ r ∈ rows, Function.update ks row.1
        (some (KeyValue.string (List.replicate (rowSize row) 'v'))) r.1 ≠ some .other := by
      intro r hr
      by_cases hr1 : r.1 = row.1
      · rw [hr1, Function.update_self]
        simp
      · rw [Function.update_of_ne hr1]
        exact hks r (List.mem_cons_of_mem row hr)
    have ih := hopperLoadLines_rows rows _ (fun r hr => h r (List.mem_cons_of_mem row hr)) hks'
    have hother := hks row List.mem_cons_self
    simp only [List.map_cons, hopperLoadLines, hkey, hsize, hstoi, ret_bind, List.foldl_cons]
    rw [if_neg (Int.not_lt.mpr (Int.natCast_nonneg _)), Int.toNat_natCast]
    exact ih

section WellFormed

variable {files : Files} {filename content rest : List Char} {rows : List (List Char × List Char)}

/-- `load_mock_image` of a file whose first line is the header and whose
    other lines are rows loads every row, the last row of a hash winning. -/
theorem loadMockImage_wellFormed (hash : List Char → U64) (img : MockImage)
    (hfile : files filename = some content) (hheader : getline '\n' content = some (imageHeader, rest))
    (hrows : getlines rest = rows.map imageLine) (hok : ∀ row ∈ rows, RowOk row) :
    ∃ img', loadMockImage files hash img filename = ret (0, img') ∧
      ∀ h, img' h = ((rows.reverse.find? fun r => keyHash hash r.1 = h).map
        fun r => some (Fin.ofNat _ (rowSize r))).getD (img h) := by
  refine ⟨rows.foldl (fun (m : MockImage) row => Function.update m (keyHash hash row.1)
    (some (Fin.ofNat _ (rowSize row)))) img, ?_, StdAlgo.foldl_update_apply _ _ rows img⟩
  simp only [loadMockImage, hfile, hheader, Option.getD_some, ne_eq, not_true_eq_false, if_false, hrows]
  exact loadImageLines_rows hash rows img hok

/-- `HOPPER.CONFIG.SET dynamo.mock image` of such a file turns the mock on
    with the rows added to the image. -/
theorem configSetMockImage_wellFormed (hash : List Char → U64) (cfg : MockConfig)
    (hfile : files filename = some content) (hheader : getline '\n' content = some (imageHeader, rest))
    (hrows : getlines rest = rows.map imageLine) (hok : ∀ row ∈ rows, RowOk row) :
    ∃ img', configSetMockImage files hash cfg [filename] =
        ret (.simple "OK", { cfg with image := some img', mock := true }) ∧
      ∀ h, img' h = ((rows.reverse.find? fun r => keyHash hash r.1 = h).map
        fun r => some (Fin.ofNat _ (rowSize r))).getD ((cfg.image.getD fun _ => none) h) := by
  obtain ⟨img', hload, himg⟩ := loadMockImage_wellFormed hash (cfg.image.getD fun _ => none) hfile hheader hrows hok
  refine ⟨img', ?_, himg⟩
  simp only [configSetMockImage, loadImages, hload, ret_bind]
  rfl

/-- The rows `k1,5` and `k1,12` are ones that the loaders read. -/
theorem rowOk_k1 : ∀ row ∈ [(['k', '1'], ['5']), (['k', '1'], ['1', '2'])], RowOk row := by
  intro row hrow
  simp only [List.mem_cons, List.not_mem_nil, or_false] at hrow
  -- the digits are checked one character at a time
  rcases hrow with rfl | rfl
  · refine ⟨by decide, fun c hc => ?_, by simp, by decide⟩
    rw [List.mem_singleton] at hc
    rw [hc]
    rfl
  · refine ⟨by decide, fun c hc => ?_, by simp, by decide⟩
    simp only [List.mem_cons, List.not_mem_nil, or_false] at hc
    rcases hc with rfl | rfl <;> rfl

theorem configSetMockImage_wellFormed_twoRows :
    let content := "key,val_size\nk1,5\nk1,12".toList
    let files : Files := fun p => if p = "img".toList then some content else none
    let rows := [(['k', '1'], ['5']), (['k', '1'], ['1', '2'])]
    let hash : List Char → U64 := fun key => Fin.ofNat _ key.length
    let cfg : MockConfig := ⟨false, ⟨16, 100, 3, 10, 0, 84⟩, none⟩
    files "img".toList = some content ∧
      getline '\n' content = some (imageHeader, "k1,5\nk1,12".toList) ∧
      getlines "k1,5\nk1,12".toList = rows.map imageLine ∧ (∀ row ∈ rows, RowOk row) ∧
      ∃ img', configSetMockImage files hash cfg ["img".toList] =
          ret (.simple "OK", { cfg with image := some img', mock := true }) ∧
        ∀ h, img' h = ((rows.reverse.find? fun r => keyHash hash r.1 = h).map
          fun r => some (Fin.ofNat _ (rowSize r))).getD ((cfg.image.getD fun _ => none) h) := by
  intro content files rows hash cfg
  have hfile : files "img".toList = some content := by simp [files]
  have hheader : getline '\n' content = some (imageHeader, "k1,5\nk1,12".toList) := by decide +kernel
  have hrows : getlines "k1,5\nk1,12".toList = rows.map imageLine := by decide +kernel
  exact ⟨hfile, hheader, hrows, rowOk_k1, configSetMockImage_wellFormed hash cfg hfile hheader hrows rowOk_k1⟩

/-- `HOPPER.LOAD` of such a file sets every row's key to a value of its size,
    the last row of a key winning, when no key holds a value of another type. -/
theorem hopperLoad_wellFormed (ks : Keyspace)
    (hfile : files filename = some content) (hheader : getline '\n' content = some (imageHeader, rest))
    (hrows : getlines rest = rows.map imageLine) (hok : ∀ row ∈ rows, RowOk row)
    (hother : ∀ row ∈ rows, ks row.1 ≠ some .other) :
    ∃ ks', hopperLoad files ks filename = ret (.simple "OK", ks') ∧
      ∀ key, ks' key = ((rows.reverse.find? fun r => r.1 = key).map
        fun r => some (KeyValue.string (List.replicate (rowSize r) 'v'))).getD (ks key) := by
  refine ⟨rows.foldl (fun (ks : Keyspace) row => Function.update ks row.1
    (some (KeyValue.string (List.replicate (rowSize row) 'v')))) ks, ?_,
    StdAlgo.foldl_update_apply _ _ rows ks⟩
  simp only [hopperLoad, hfile, hheader, Option.getD_some, ne_eq, not_true_eq_false, if_false, hrows]
  exact hopperLoadLines_rows rows ks hok hother

end WellFormed

theorem hopperLoad_wellFormed_twoRows :
    let content := "key,val_size\nk1,5\nk1,12".toList
    let files : Files := fun p => if p = "img".toList then some content else none
    let rows := [(['k', '1'], ['5']), (['k', '1'], ['1', '2'])]
    let ks : Keyspace := fun _ => none
    files "img".toList = some content ∧
      getline '\n' content = some (imageHeader, "k1,5\nk1,12".toList) ∧
      getlines "k1,5\nk1,12".toList = rows.map imageLine ∧ (∀ row ∈ rows, RowOk row) ∧
      (∀ row ∈ rows, ks row.1 ≠ some .other) ∧
      ∃ ks', hopperLoad files ks "img".toList = ret (.simple "OK", ks') ∧
        ∀ key, ks' key = ((rows.reverse.find? fun r => r.1 = key).map
          fun r => some (KeyValue.string (List.replicate (rowSize r) 'v'))).getD (ks key) := by
  intro content files rows ks
  have hfile : files "img".toList = some content := by simp [files]
  have hheader : getline '\n' content = some (imageHeader, "k1,5\nk1,12".toList) := by decide +kernel
  have hrows : getlines "k1,5\nk1,12".toList = rows.map imageLine := by decide +kernel
  have hok : ∀ row ∈ rows, RowOk row := rowOk_k1
  have hother : ∀ row ∈ rows, ks row.1 ≠ some .other := fun _ _ => by simp [ks]
  exact ⟨hfile, hheader, hrows, hok, hother, hopperLoad_wellFormed ks hfile hheader hrows hok hother⟩

/-- A row whose size is not a number makes `std::stoul` and
    `std::stoi` throw `std::invalid_argument`, and a negative size
    makes `std::string` throw `std::length_error`; neither command
    catches them. -/
theorem imageLoad_exception_escapes (hash : List Char → U64) (cfg : MockConfig) (ks : Keyspace) :
    configSetMockImage (fun _ => some "key,val_size\nk,abc\n".toList) hash cfg ["img".toList] =
        .throw (.invalidArgument "stoul".toList) ∧
      hopperLoad (fun _ => some "key,val_size\nk,abc\n".toList) ks "img".toList =
        .throw (.invalidArgument "stoi".toList) ∧
      hopperLoad (fun _ => some "key,val_size\nk,-1\n".toList) ks "img".toList =
        .throw (.lengthError "basic_string::_M_create".toList) :=
  ⟨rfl, rfl, rfl⟩

end Hopper.Storage
