-- SUMMARY: Coherence of the Redis module's cache with the backend once every task has finished: the states in question, and an interleaving, under either value of cache.admit_write, that ends with no task pending and a key cached with a value the backend no longer holds.
import HopperKV.Module.Dedup

/-!
# Coherence with the backend

A state is quiescent when no GET or SET task is live, and coherent when
every cached key holds what the backend holds. `HOPPER.SET` keeps the cache
coherent by writing the cache and invalidating the in-flight GET of its key
at the moment the command runs; a GET miss that begins after that moment is
not invalidated, yet its backend read may take effect before the SET's write
does. Once both have completed, the GET caches the old value:

1. `HOPPER.SET 0 1` from client 0 (cached only if writes are admitted);
2. Redis evicts key 0;
3. `HOPPER.GET 0` from client 1 misses and registers task 1;
4. the backend read of task 1 takes effect and returns the old value 0;
5. the backend write of task 0 takes effect;
6. the reply callback of the SET runs;
7. the storage callback of the GET finds its map entry and caches 0.
-/

namespace Hopper

variable {K V : Type*}

/-- No GET or SET task is pending. -/
def Quiescent (s : State K V) : Prop :=
  ∀ t, s.gets t = none ∧ s.sets t = none

/-- Every cached key holds the value the backend holds for it. -/
def Coherent (s : State K V) : Prop :=
  ∀ k v, s.keyspace k = some v → s.backend k = some v

/-- In a state of the invariant, quiescence is a check of the ids handed out. -/
theorem Inv.quiescent_iff {s : State K V} (hs : Inv s) :
    Quiescent s ↔ ∀ t < s.nextTask, s.gets t = none ∧ s.sets t = none := by
  constructor
  · exact fun h t _ => h t
  · intro h t
    by_cases ht : t < s.nextTask
    · exact h t ht
    · exact ⟨hs.gets_fresh t (Nat.le_of_not_lt ht), hs.sets_fresh t (Nat.le_of_not_lt ht)⟩

/-- The backend before the run: key 0 holds 0. -/
def staleBackend : ℕ → Option ℕ := fun _ => some 0

/-- The interleaving of the module's docstring. -/
def staleTrace : List (Event ℕ ℕ) :=
  [.set 0 0 1, .evict 0, .get 1 0, .read 1 false, .write 0 none, .callback 0, .callback 1]

/-- What the run is checked for at its end: no task left, key 0 cached with 0
    while the backend holds 1. -/
def staleCheck (s : State ℕ ℕ) : Bool :=
  (List.range s.nextTask).all (fun t => (s.gets t).isNone && (s.sets t).isNone) &&
    s.keyspace 0 == some 0 && s.backend 0 == some 1

theorem stale_value_after_quiescence (admitWrite : Bool) :
    ∃ s, (server admitWrite).Reachable (State.init staleBackend) s ∧ Quiescent s ∧
      ¬ Coherent s := by
  obtain ⟨s, hr, hp⟩ := Transition.System.exists_reachable_of_run (p := staleCheck)
    (by cases admitWrite <;> decide : ((server admitWrite).run (State.init staleBackend)
      staleTrace).map staleCheck = some true)
  simp only [staleCheck, Bool.and_eq_true, List.all_eq_true, List.mem_range, beq_iff_eq,
    Option.isNone_iff_eq_none] at hp
  obtain ⟨⟨hq, hk⟩, hb⟩ := hp
  refine ⟨s, hr, (Inv.of_reachable hr).quiescent_iff.mpr hq, fun hc => ?_⟩
  rw [hc 0 0 hk] at hb
  cases hb

end Hopper
