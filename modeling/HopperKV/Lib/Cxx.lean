-- SUMMARY: C++ as its standard library runs it: computations that return, throw a standard exception or reach undefined behaviour, int arithmetic and uint32_t to int32_t, std::getline on a text and the lines of a file, std::stoul and std::stoi as strtoul and strtol read, and an integer written with std::setw and std::setfill.
import HopperKV.Lib.Scalar
import HopperKV.Lib.Text
import Mathlib.Data.List.TakeWhile

/-!
# C++ computations

A computation returns a value, throws one of the standard exceptions, or
reaches undefined behaviour (`Cxx.Outcome`), and `do` notation sequences
them. `catchInvalidArgument` is a `try` block with one handler for
`std::invalid_argument`; an exception that no handler catches is the outcome
of the whole computation. `int` arithmetic is undefined on overflow
(`checkedInt`), and a `uint32_t` converted to `int32_t` is its value modulo
`2 ^ 32` (`toInt32`).

The text functions are libstdc++'s. `getline delim s` is `std::getline` on
the rest `s` of a stream; it fails at the end of the stream, so a lone
delimiter is an empty line. `stoul` and `stoi` read what `strtoul` and
`strtol` read in base 10, whatever follows the digits, and throw
`std::invalid_argument` when no digit follows and `std::out_of_range` beyond
the range of the result. `putInt w c z` is
`os << std::setw(w) << std::setfill(c) << z`, filled in front of a sign too.

The rules: the bind lemma of `Outcome`, what `getline` reads of a line that
is followed by a delimiter or is the last, and what `stoul` and `stoi` read of
a run of digits.
-/

namespace Cxx

/-- The standard exceptions that the code meets, with their `what()`. -/
inductive Exception where
  | invalidArgument (what : List Char)
  | outOfRange (what : List Char)
  | lengthError (what : List Char)
  deriving DecidableEq, Repr

/-- What a computation does: return, throw, or reach undefined behaviour. -/
inductive Outcome (α : Type) where
  | ret (a : α)
  | throw (e : Exception)
  | undefined
  deriving DecidableEq, Repr

namespace Outcome

variable {α β : Type}

def bind : Outcome α → (α → Outcome β) → Outcome β
  | ret a, f => f a
  | throw e, _ => throw e
  | undefined, _ => undefined

instance : Monad Outcome where
  pure := ret
  bind := bind

@[simp] theorem pure_eq (a : α) : (pure a : Outcome α) = ret a := rfl

@[simp] theorem ret_bind (a : α) (f : α → Outcome β) : (ret a >>= f) = f a := rfl

@[simp] theorem throw_bind (e : Exception) (f : α → Outcome β) : (throw e >>= f) = throw e := rfl

@[simp] theorem undefined_bind (f : α → Outcome β) : (undefined >>= f) = undefined := rfl

/-- `try { x } catch (const std::invalid_argument &e) { handler(e.what()) }`. -/
def catchInvalidArgument (x : Outcome α) (handler : List Char → Outcome α) : Outcome α :=
  match x with
  | throw (.invalidArgument what) => handler what
  | x => x

@[simp] theorem catchInvalidArgument_ret (a : α) (handler : List Char → Outcome α) :
    catchInvalidArgument (ret a) handler = ret a := rfl

end Outcome

open Outcome

-- ---------------------------------------------------------------------------
-- Integers
-- ---------------------------------------------------------------------------

/-- An `int` result: undefined behaviour when it overflows. -/
def checkedInt (z : ℤ) : Outcome ℤ :=
  if -2 ^ 31 ≤ z ∧ z < 2 ^ 31 then ret z else undefined

/-- A `uint32_t` converted to `int32_t`: its value modulo `2 ^ 32`. -/
def toInt32 (x : U32) : ℤ :=
  if x.val < 2 ^ 31 then x.val else x.val - 2 ^ 32

theorem checkedInt_of_range {z : ℤ} (h₀ : -2 ^ 31 ≤ z) (h₁ : z < 2 ^ 31) : checkedInt z = ret z :=
  if_pos ⟨h₀, h₁⟩

-- ---------------------------------------------------------------------------
-- Streams
-- ---------------------------------------------------------------------------

/-- The characters before the first `delim`, and what follows it. -/
def breakAt (delim : Char) : List Char → List Char × List Char
  | [] => ([], [])
  | c :: s => if c = delim then ([], s) else ((c :: (breakAt delim s).1), (breakAt delim s).2)

/-- `std::getline(is, str, delim)` on the rest `s` of the stream. -/
def getline (delim : Char) : List Char → Option (List Char × List Char)
  | [] => none
  | c :: s => some (breakAt delim (c :: s))

/-- At most `fuel` rounds of `while (std::getline(in, line))`. -/
def getlinesAux : ℕ → List Char → List (List Char)
  | 0, _ => []
  | fuel + 1, s =>
    match getline '\n' s with
    | none => []
    | some (line, rest) => line :: getlinesAux fuel rest

/-- The lines that `while (std::getline(in, line))` reads from `s`: each
    round takes out a character at least, so `s.length` rounds read them all. -/
def getlines (s : List Char) : List (List Char) := getlinesAux s.length s

/-- `os << std::setw(w) << std::setfill(c) << z`. -/
def putInt (w : ℕ) (c : Char) (z : ℤ) : List Char := Text.padLeft w c (Text.intText z)

section Getline

variable {delim : Char} {l r s : List Char}

theorem breakAt_of_delim (h : delim ∉ l) : breakAt delim (l ++ delim :: r) = (l, r) := by
  induction l with
  | nil => simp [breakAt]
  | cons c l ih =>
    have hc : c ≠ delim := fun hc => h (hc ▸ List.mem_cons_self)
    simp only [List.cons_append, breakAt, if_neg hc, ih (fun hd => h (List.mem_cons_of_mem c hd))]

theorem breakAt_of_not_mem (h : delim ∉ l) : breakAt delim l = (l, []) := by
  induction l with
  | nil => rfl
  | cons c l ih =>
    have hc : c ≠ delim := fun hc => h (hc ▸ List.mem_cons_self)
    simp only [breakAt, if_neg hc, ih (fun hd => h (List.mem_cons_of_mem c hd))]

theorem getline_of_delim (h : delim ∉ l) : getline delim (l ++ delim :: r) = some (l, r) := by
  cases l with
  | nil => simp [getline, breakAt]
  | cons c l => rw [List.cons_append, getline, ← List.cons_append, breakAt_of_delim h]

/-- A last line that no delimiter follows. -/
theorem getline_of_last (h : delim ∉ l) (hne : l ≠ []) : getline delim l = some (l, []) := by
  obtain ⟨c, t, rfl⟩ := List.exists_cons_of_ne_nil hne
  rw [getline, breakAt_of_not_mem h]

end Getline

-- ---------------------------------------------------------------------------
-- Numbers in text
-- ---------------------------------------------------------------------------

/-- `isspace` in the C locale. -/
def isSpace (c : Char) : Bool :=
  c == ' ' || c == '\t' || c == '\n' || c == '\x0B' || c == '\x0C' || c == '\r'

/-- The sign in front of the digits (`true` for a minus), and what follows it. -/
def readSign : List Char → Bool × List Char
  | '-' :: t => (true, t)
  | '+' :: t => (false, t)
  | t => (false, t)

/-- The sign and the magnitude that `strtoul` and `strtol` read in base 10;
    `none` when no digit follows, where they convert nothing. -/
def scanDecimal (s : List Char) : Option (Bool × ℕ) :=
  let (neg, t) := readSign (s.dropWhile isSpace)
  match t.takeWhile Char.isDigit with
  | [] => none
  | ds => some (neg, Nat.ofDigitChars 10 ds 0)

/-- `std::stoul`, with a 64-bit `unsigned long`. -/
def stoul (s : List Char) : Outcome ℕ :=
  match scanDecimal s with
  | none => throw (.invalidArgument "stoul".toList)
  | some (neg, m) =>
    if m < 2 ^ 64 then ret (if neg then (2 ^ 64 - m) % 2 ^ 64 else m)
    else throw (.outOfRange "stoul".toList)

/-- `std::stoi`. -/
def stoi (s : List Char) : Outcome ℤ :=
  match scanDecimal s with
  | none => throw (.invalidArgument "stoi".toList)
  | some (neg, m) =>
    let z : ℤ := if neg then -m else m
    if -2 ^ 31 ≤ z ∧ z < 2 ^ 31 then ret z else throw (.outOfRange "stoi".toList)

section Digits

variable {ds : List Char}

theorem isSpace_of_isDigit {c : Char} (h : c.isDigit) : isSpace c = false := by
  simp only [Char.isDigit, Bool.and_eq_true, decide_eq_true_eq] at h
  obtain ⟨h₀, h₁⟩ := h
  simp only [isSpace, Bool.or_eq_false_iff, beq_eq_false_iff_ne]
  refine ⟨⟨⟨⟨⟨?_, ?_⟩, ?_⟩, ?_⟩, ?_⟩, ?_⟩ <;> rintro rfl <;> revert h₀ h₁ <;> decide

/-- A run of digits reads as its value, with no sign. -/
theorem scanDecimal_digits (hd : ∀ c ∈ ds, c.isDigit) (hne : ds ≠ []) :
    scanDecimal ds = some (false, Nat.ofDigitChars 10 ds 0) := by
  obtain ⟨x, t, rfl⟩ := List.exists_cons_of_ne_nil hne
  have hx : x.isDigit := hd x (by simp)
  have hdrop : (x :: t).dropWhile isSpace = x :: t := by simp [isSpace_of_isDigit hx]
  have htake : (x :: t).takeWhile Char.isDigit = x :: t := List.takeWhile_eq_self_iff.mpr hd
  have hsign : readSign (x :: t) = (false, x :: t) := by
    have hminus : x ≠ '-' := by rintro rfl; simp at hx
    have hplus : x ≠ '+' := by rintro rfl; simp at hx
    unfold readSign
    split <;> simp_all
  simp only [scanDecimal, hdrop, hsign, htake]

theorem stoul_digits (hd : ∀ c ∈ ds, c.isDigit) (hne : ds ≠ []) (h : Nat.ofDigitChars 10 ds 0 < 2 ^ 64) :
    stoul ds = ret (Nat.ofDigitChars 10 ds 0) := by
  simp only [stoul, scanDecimal_digits hd hne, if_pos h, Bool.false_eq_true, if_false]

theorem stoi_digits (hd : ∀ c ∈ ds, c.isDigit) (hne : ds ≠ []) (h : Nat.ofDigitChars 10 ds 0 < 2 ^ 31) :
    stoi ds = ret (Nat.ofDigitChars 10 ds 0 : ℤ) := by
  have h₀ : -2 ^ 31 ≤ (Nat.ofDigitChars 10 ds 0 : ℤ) := by omega
  have h₁ : (Nat.ofDigitChars 10 ds 0 : ℤ) < 2 ^ 31 := by exact_mod_cast h
  simp only [stoi, scanDecimal_digits hd hne, Bool.false_eq_true, if_false, if_pos (And.intro h₀ h₁)]

end Digits

end Cxx
