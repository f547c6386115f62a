-- SUMMARY: The tasks of the Redis module (TaskGet, TaskSet and their statuses) and its map of in-flight GETs, with check_inflight, add_dependent, begin_inflight, end_inflight and invalidate_inflight over a map from keys to task ids.
import Mathlib.Data.List.Nodup

/-!
# Tasks and in-flight GETs

A task is the record that a command hands to the storage thread: a GET
(`task::TaskGet`) carries its key, the client it blocks, the result once the
backend answered, and the clients that wait on the same key; a SET
(`task::TaskSet`) carries its key and value. Tasks live on the heap until the
callback that replies to their client frees them; the model names a live task
by an id, handed out once, and keeps the live ones in a table from ids to
tasks. The C++ map from keys to task pointers becomes a map from keys to ids:
two live tasks never share an id, and a freed task's id is never handed out
again, which is what the pointer comparison of `end_inflight` relies on.

`add_dependent` is the only operation here that dereferences a task; it is
undefined (`none`) when the map has no entry for the key, which its assert
excludes, or when the entry names a freed task.
-/

namespace Hopper

/-- `Task::Status` of a GET, with the value it read. -/
inductive GetStatus (V : Type*) where
  | none
  | ok (value : V)
  | err
  deriving DecidableEq, Repr

/-- `Task::Status` of a SET; a failure keeps the text that the completion
    handler wrote over the task's value. -/
inductive SetStatus where
  | none
  | ok
  | err (msg : String)
  deriving DecidableEq, Repr

/-- `task::TaskGet`. -/
structure TaskGet (K V : Type*) where
  key : K
  client : ℕ
  status : GetStatus V
  dependents : List ℕ
  deriving DecidableEq, Repr

/-- `task::TaskSet`. -/
structure TaskSet (K V : Type*) where
  key : K
  value : V
  client : ℕ
  status : SetStatus
  deriving DecidableEq, Repr

/-- The clients a GET task replies to: the one that issued it, then the ones
    that wait on it. -/
def TaskGet.members {K V : Type*} (g : TaskGet K V) : List ℕ :=
  g.client :: g.dependents

@[simp] theorem TaskGet.mem_members {K V : Type*} {g : TaskGet K V} {c : ℕ} :
    c ∈ g.members ↔ c = g.client ∨ c ∈ g.dependents := by
  simp [TaskGet.members]

/-- `task::TaskGet::add_dependent`. -/
def TaskGet.addDependent {K V : Type*} (g : TaskGet K V) (bc : ℕ) : TaskGet K V :=
  { g with dependents := g.dependents ++ [bc] }

@[simp] theorem TaskGet.addDependent_key {K V : Type*} (g : TaskGet K V) (bc : ℕ) :
    (g.addDependent bc).key = g.key := rfl

@[simp] theorem TaskGet.addDependent_client {K V : Type*} (g : TaskGet K V) (bc : ℕ) :
    (g.addDependent bc).client = g.client := rfl

@[simp] theorem TaskGet.addDependent_status {K V : Type*} (g : TaskGet K V) (bc : ℕ) :
    (g.addDependent bc).status = g.status := rfl

@[simp] theorem TaskGet.addDependent_dependents {K V : Type*} (g : TaskGet K V) (bc : ℕ) :
    (g.addDependent bc).dependents = g.dependents ++ [bc] := rfl

namespace Inflight

variable {K V : Type*} [DecidableEq K]

/-- `inflight::inflight_map`, from keys to the ids of live GET tasks. -/
abbrev Map (K : Type*) := K → Option ℕ

/-- `inflight::check_inflight`. -/
def checkInflight (m : Map K) (k : K) : Bool :=
  (m k).isSome

/-- `inflight::add_dependent`: append the client to the dependents of the
    task that the key maps to. -/
def addDependent (m : Map K) (gets : ℕ → Option (TaskGet K V)) (k : K) (bc : ℕ) :
    Option (ℕ → Option (TaskGet K V)) :=
  match m k with
  | none => none
  | some t =>
    match gets t with
    | none => none
    | some g => some (Function.update gets t (some (g.addDependent bc)))

/-- `inflight::begin_inflight`; its assert asks that the key has no entry. -/
def beginInflight (m : Map K) (k : K) (t : ℕ) : Option (Map K) :=
  if (m k).isSome then none else some (Function.update m k (some t))

/-- `inflight::end_inflight`: remove the entry if it still names this task,
    and say whether it did, that is, whether the cache should be updated. -/
def endInflight (m : Map K) (k : K) (t : ℕ) : Bool × Map K :=
  if m k = some t then (true, Function.update m k none) else (false, m)

/-- `inflight::invalidate_inflight`. -/
def invalidateInflight (m : Map K) (k : K) : Map K :=
  Function.update m k none

omit [DecidableEq K] in
theorem addDependent_eq_some {m : Map K} {gets gets' : ℕ → Option (TaskGet K V)} {k : K}
    {bc : ℕ} (h : addDependent m gets k bc = some gets') :
    ∃ t g, m k = some t ∧ gets t = some g ∧
      gets' = Function.update gets t (some (g.addDependent bc)) := by
  unfold addDependent at h
  split at h
  · cases h
  · rename_i t ht
    split at h
    · cases h
    · rename_i g hg
      cases h
      exact ⟨t, g, ht, hg, rfl⟩

omit [DecidableEq K] in
theorem addDependent_isSome {m : Map K} {gets : ℕ → Option (TaskGet K V)} {k : K} {t : ℕ}
    {g : TaskGet K V} (hm : m k = some t) (hg : gets t = some g) (bc : ℕ) :
    (addDependent m gets k bc).isSome := by
  simp [addDependent, hm, hg]

theorem beginInflight_eq_some {m m' : Map K} {k : K} {t : ℕ} (h : beginInflight m k t = some m') :
    m k = none ∧ m' = Function.update m k (some t) := by
  unfold beginInflight at h
  split at h
  · cases h
  · rename_i hk
    cases h
    exact ⟨Option.not_isSome_iff_eq_none.mp hk, rfl⟩

theorem beginInflight_of_not_checkInflight {m : Map K} {k : K} (h : checkInflight m k = false)
    (t : ℕ) : beginInflight m k t = some (Function.update m k (some t)) := by
  simp only [checkInflight] at h
  simp [beginInflight, h]

/-- What `end_inflight` answers: whether the key still names the task. -/
@[simp] theorem endInflight_fst (m : Map K) (k : K) (t : ℕ) :
    (endInflight m k t).1 = decide (m k = some t) := by
  unfold endInflight
  split <;> simp_all

/-- After `end_inflight` the key no longer names the task. -/
theorem endInflight_snd_ne (m : Map K) (k : K) (t : ℕ) : (endInflight m k t).2 k ≠ some t := by
  unfold endInflight
  split
  · simp
  · assumption

theorem endInflight_snd_of_ne (m : Map K) {k k' : K} (t : ℕ) (hk : k' ≠ k) :
    (endInflight m k t).2 k' = m k' := by
  unfold endInflight
  split
  · simp [Function.update_of_ne hk]
  · rfl

/-- `end_inflight` only ever removes the entry of its task. -/
theorem endInflight_snd_eq (m : Map K) (k k' : K) (t : ℕ) :
    (endInflight m k t).2 k' = m k' ∨ (m k' = some t ∧ (endInflight m k t).2 k' = none) := by
  by_cases hk : k' = k
  · subst hk
    unfold endInflight
    split
    · exact .inr ⟨‹_›, by simp⟩
    · exact .inl rfl
  · exact .inl (endInflight_snd_of_ne m t hk)

end Inflight

end Hopper
