-- SUMMARY: The in-flight map and the blocked clients of the Redis module over every interleaving: the invariant of its reachable states, that no handler reaches a freed task or fails an assert, that every waiting GET client belongs to exactly one live task and is unblocked once, that a read's completion unblocks the owner with the value or error it fetched and the owner's callback then unblocks each dependent, and that end_inflight answers true only for a task that no SET invalidated.
import HopperKV.Module.Server

/-!
# In-flight deduplication over every interleaving

`Inv` is the invariant of the reachable states of `server`, for either value
of `cache.admit_write`. It says three things:

* the in-flight map names only live GET tasks for their own key, registered
  after the last invalidation of that key (`map_live`, `map_begun`);
* every live task knows where its clients are: the client that issued it is
  blocked until the backend answers and unblocked with the task until its
  callback runs, and the clients that wait on it are blocked; no client
  waits on two tasks or twice on one (`owner`, `dependent`, `nodup`,
  `disjoint`, and the same for the SET tasks);
* conversely every blocked or unblocked client is found in a live task, and
  has been unblocked as often as its state says, at most once (`blocked_get`,
  `blocked_set`, `unblocked`, `idle`, `unblocks_le`).

Each handler keeps it (`inv_hopperGet`, ..., `inv_step`), so every reachable
state satisfies it (`Inv.of_reachable`); `DedupSafe` then collects what
follows for the module's users.
-/

namespace Hopper

variable {K V : Type*}

/-! ## The invariant -/

/-- The client of a live GET task: blocked until the backend answers, then
    unblocked with the task until the task's callback runs. -/
def OwnerWaits (s : State K V) (t : ℕ) (g : TaskGet K V) : Prop :=
  (g.status = .none ∧ s.clients g.client = .blocked .storage ∧ s.unblocks g.client = 0) ∨
  (g.status ≠ .none ∧ s.clients g.client = .unblocked .storage (.task t) ∧
    s.unblocks g.client = 1)

/-- The client of a live SET task, in the same way. -/
def WriterWaits (s : State K V) (t : ℕ) (w : TaskSet K V) : Prop :=
  (w.status = .none ∧ s.clients w.client = .blocked .reply ∧ s.unblocks w.client = 0) ∨
  (w.status ≠ .none ∧ s.clients w.client = .unblocked .reply (.task t) ∧
    s.unblocks w.client = 1)

/-- What the callback of an unblocked client will find: its live task, or,
    for a client that waited on another's task, a value handed to it once. -/
def Unblocked (s : State K V) (c : ℕ) : Callback → PrivData V → Prop
  | .storage, .task t => ∃ g, s.gets t = some g ∧ g.client = c
  | .reply, .task t => ∃ w, s.sets t = some w ∧ w.client = c
  | .inflight, .value _ => s.unblocks c = 1
  | _, _ => False

/-- The invariant of the reachable states. -/
structure Inv (s : State K V) : Prop where
  gets_fresh : ∀ t, s.nextTask ≤ t → s.gets t = none
  sets_fresh : ∀ t, s.nextTask ≤ t → s.sets t = none
  map_live : ∀ k t, s.inflightMap k = some t → ∃ g, s.gets t = some g ∧ g.key = k
  map_begun : ∀ k t, s.inflightMap k = some t → s.begunAt t = s.invalidations k
  owner : ∀ t g, s.gets t = some g → OwnerWaits s t g
  dependent : ∀ t g, s.gets t = some g → ∀ c ∈ g.dependents,
    s.clients c = .blocked .inflight ∧ s.unblocks c = 0
  nodup : ∀ t g, s.gets t = some g → g.members.Nodup
  disjoint : ∀ t t' g g', s.gets t = some g → s.gets t' = some g' → t ≠ t' →
    ∀ c ∈ g.members, c ∉ g'.members
  writer : ∀ t w, s.sets t = some w → WriterWaits s t w
  writer_unique : ∀ t t' w w', s.sets t = some w → s.sets t' = some w' → t ≠ t' →
    w.client ≠ w'.client
  blocked_get : ∀ c, s.clients c = .blocked .storage ∨ s.clients c = .blocked .inflight →
    ∃ t g, s.gets t = some g ∧ c ∈ g.members
  blocked_set : ∀ c, s.clients c = .blocked .reply → ∃ t w, s.sets t = some w ∧ w.client = c
  unblocked : ∀ c cb d, s.clients c = .unblocked cb d → Unblocked s c cb d
  idle : ∀ c, s.clients c = .idle → s.unblocks c = 0
  unblocks_le : ∀ c, s.unblocks c ≤ 1

theorem OwnerWaits.congr {s s' : State K V} {t : ℕ} {g : TaskGet K V} (h : OwnerWaits s t g)
    (hc : s'.clients g.client = s.clients g.client) (hu : s'.unblocks g.client = s.unblocks g.client) :
    OwnerWaits s' t g := by
  unfold OwnerWaits at h ⊢
  rw [hc, hu]
  exact h

theorem WriterWaits.congr {s s' : State K V} {t : ℕ} {w : TaskSet K V} (h : WriterWaits s t w)
    (hc : s'.clients w.client = s.clients w.client) (hu : s'.unblocks w.client = s.unblocks w.client) :
    WriterWaits s' t w := by
  unfold WriterWaits at h ⊢
  rw [hc, hu]
  exact h

/-- What an unblocked client's callback finds is kept by a step that keeps
    the tasks it may name and the client's count. -/
theorem Unblocked.congr {s s' : State K V} {c : ℕ} {cb : Callback} {d : PrivData V}
    (h : Unblocked s c cb d)
    (hg : ∀ t g, s.gets t = some g → g.client = c → ∃ g', s'.gets t = some g' ∧ g'.client = c)
    (hw : ∀ t w, s.sets t = some w → w.client = c → ∃ w', s'.sets t = some w' ∧ w'.client = c)
    (hu : s'.unblocks c = s.unblocks c) : Unblocked s' c cb d := by
  cases cb <;> cases d <;> simp only [Unblocked] at h ⊢
  · obtain ⟨g, hgt, hgc⟩ := h
    exact hg _ g hgt hgc
  · rw [hu]; exact h
  · obtain ⟨w, hwt, hwc⟩ := h
    exact hw _ w hwt hwc

theorem inv_init (backend : K → Option V) : Inv (State.init backend) where
  gets_fresh := fun _ _ => rfl
  sets_fresh := fun _ _ => rfl
  map_live := by simp [State.init]
  map_begun := by simp [State.init]
  owner := by simp [State.init]
  dependent := by simp [State.init]
  nodup := by simp [State.init]
  disjoint := by simp [State.init]
  writer := by simp [State.init]
  writer_unique := by simp [State.init]
  blocked_get := by simp [State.init]
  blocked_set := by simp [State.init]
  unblocked := by simp [State.init]
  idle := fun _ _ => rfl
  unblocks_le := fun _ => Nat.zero_le _

namespace Inv

variable {s : State K V} (hs : Inv s)
include hs

/-- A client of a live GET task is blocked, or unblocked with that task. -/
theorem member_state {t : ℕ} {g : TaskGet K V} (hg : s.gets t = some g) {c : ℕ}
    (hc : c ∈ g.members) :
    s.clients c = .blocked .storage ∨ s.clients c = .blocked .inflight ∨
      s.clients c = .unblocked .storage (.task t) := by
  rcases TaskGet.mem_members.mp hc with rfl | hdep
  · rcases hs.owner t g hg with ⟨-, h, -⟩ | ⟨-, h, -⟩
    · exact .inl h
    · exact .inr (.inr h)
  · exact .inr (.inl (hs.dependent t g hg c hdep).1)

/-- The client of a live SET task is blocked, or unblocked with that task. -/
theorem writer_state {t : ℕ} {w : TaskSet K V} (hw : s.sets t = some w) :
    s.clients w.client = .blocked .reply ∨ s.clients w.client = .unblocked .reply (.task t) := by
  rcases hs.writer t w hw with ⟨-, h, -⟩ | ⟨-, h, -⟩
  · exact .inl h
  · exact .inr h

/-- A client in none of the states of a GET task's clients is not one. -/
theorem not_member {c : ℕ} (hc : ∀ t, s.clients c ≠ .blocked .storage ∧
    s.clients c ≠ .blocked .inflight ∧ s.clients c ≠ .unblocked .storage (.task t))
    {t : ℕ} {g : TaskGet K V} (hg : s.gets t = some g) : c ∉ g.members := by
  intro hmem
  obtain ⟨h₁, h₂, h₃⟩ := hc t
  rcases hs.member_state hg hmem with h | h | h
  · exact h₁ h
  · exact h₂ h
  · exact h₃ h

/-- A client in none of the states of a SET task's client is not one. -/
theorem not_writer {c : ℕ} (hc : ∀ t, s.clients c ≠ .blocked .reply ∧
    s.clients c ≠ .unblocked .reply (.task t))
    {t : ℕ} {w : TaskSet K V} (hw : s.sets t = some w) : w.client ≠ c := by
  rintro rfl
  rcases hs.writer_state hw with h | h
  · exact (hc t).1 h
  · exact (hc t).2 h

theorem idle_not_member {c : ℕ} (hc : s.clients c = .idle) {t : ℕ} {g : TaskGet K V}
    (hg : s.gets t = some g) : c ∉ g.members :=
  hs.not_member (by simp [hc]) hg

theorem idle_not_writer {c : ℕ} (hc : s.clients c = .idle) {t : ℕ} {w : TaskSet K V}
    (hw : s.sets t = some w) : w.client ≠ c :=
  hs.not_writer (by simp [hc]) hw

theorem gets_lt {t : ℕ} {g : TaskGet K V} (hg : s.gets t = some g) : t < s.nextTask := by
  by_contra h
  rw [hs.gets_fresh t (Nat.le_of_not_lt h)] at hg
  cases hg

theorem sets_lt {t : ℕ} {w : TaskSet K V} (hw : s.sets t = some w) : t < s.nextTask := by
  by_contra h
  rw [hs.sets_fresh t (Nat.le_of_not_lt h)] at hw
  cases hw

end Inv

/-! ## Each handler keeps the invariant -/

section Preservation

variable [DecidableEq K] {s : State K V}

/-- A table entry after writing one entry: the written one, or an old one. -/
theorem update_some_eq_some {α : Type*} {f : ℕ → Option α} {t t' : ℕ} {a b : α}
    (h : Function.update f t (some a) t' = some b) :
    (t' = t ∧ b = a) ∨ (t' ≠ t ∧ f t' = some b) := by
  by_cases ht : t' = t
  · subst ht
    simp only [Function.update_self, Option.some.injEq] at h
    exact .inl ⟨rfl, h.symm⟩
  · rw [Function.update_of_ne ht] at h
    exact .inr ⟨ht, h⟩

/-- A table entry after freeing one entry is an old one. -/
theorem update_none_eq_some {α : Type*} {f : ℕ → Option α} {t t' : ℕ} {b : α}
    (h : Function.update f t none t' = some b) : t' ≠ t ∧ f t' = some b := by
  by_cases ht : t' = t
  · subst ht
    simp at h
  · rw [Function.update_of_ne ht] at h
    exact ⟨ht, h⟩

omit [DecidableEq K] in
/-- Replying to a client that no live task names keeps the invariant. -/
theorem inv_reply (hs : Inv s) {c : ℕ} (r : Reply V)
    (hget : ∀ t g, s.gets t = some g → c ∉ g.members)
    (hset : ∀ t w, s.sets t = some w → w.client ≠ c) : Inv (reply c r s) where
  gets_fresh := hs.gets_fresh
  sets_fresh := hs.sets_fresh
  map_live := hs.map_live
  map_begun := hs.map_begun
  owner t g hg := by
    have hne : g.client ≠ c := fun h => hget t g hg (by simp [h])
    exact (hs.owner t g hg).congr (by simp [Function.update_of_ne hne]) rfl
  dependent t g hg x hx := by
    have hne : x ≠ c := fun h => hget t g hg (by simp [← h, hx])
    simpa [Function.update_of_ne hne] using hs.dependent t g hg x hx
  nodup := hs.nodup
  disjoint := hs.disjoint
  writer t w hw :=
    (hs.writer t w hw).congr (by simp [Function.update_of_ne (hset t w hw)]) rfl
  writer_unique := hs.writer_unique
  blocked_get x hx := by
    by_cases h : x = c
    · subst h; simp at hx
    · exact hs.blocked_get x (by simpa [Function.update_of_ne h] using hx)
  blocked_set x hx := by
    by_cases h : x = c
    · subst h; simp at hx
    · exact hs.blocked_set x (by simpa [Function.update_of_ne h] using hx)
  unblocked x cb d hx := by
    by_cases h : x = c
    · subst h; simp at hx
    · exact (hs.unblocked x cb d (by simpa [Function.update_of_ne h] using hx)).congr
        (fun _ _ hg hc => ⟨_, hg, hc⟩) (fun _ _ hw hc => ⟨_, hw, hc⟩) rfl
  idle x hx := by
    by_cases h : x = c
    · subst h; simp at hx
    · exact hs.idle x (by simpa [Function.update_of_ne h] using hx)
  unblocks_le := hs.unblocks_le

/-- Eviction touches only the keyspace. -/
theorem inv_evict (hs : Inv s) (k : K) :
    Inv { s with keyspace := Function.update s.keyspace k none } where
  gets_fresh := hs.gets_fresh
  sets_fresh := hs.sets_fresh
  map_live := hs.map_live
  map_begun := hs.map_begun
  owner := hs.owner
  dependent := hs.dependent
  nodup := hs.nodup
  disjoint := hs.disjoint
  writer := hs.writer
  writer_unique := hs.writer_unique
  blocked_get := hs.blocked_get
  blocked_set := hs.blocked_set
  unblocked x cb d hx := (hs.unblocked x cb d hx).congr (fun _ _ hg hc => ⟨_, hg, hc⟩) (fun _ _ hw hc => ⟨_, hw, hc⟩) rfl
  idle := hs.idle
  unblocks_le := hs.unblocks_le

omit [DecidableEq K] in
/-- A GET miss that waits on the task in flight for its key: the idle client
    joins the task's dependents. -/
theorem inv_addDependent (hs : Inv s) {c t : ℕ} {g : TaskGet K V} (hc : s.clients c = .idle)
    (hg : s.gets t = some g) :
    Inv { s with gets := Function.update s.gets t (some (g.addDependent c)),
                 clients := Function.update s.clients c (.blocked .inflight) } := by
  have hcm : ∀ t' g', s.gets t' = some g' → c ∉ g'.members := fun _ _ => hs.idle_not_member hc
  have hcw : ∀ t' w, s.sets t' = some w → w.client ≠ c := fun _ _ => hs.idle_not_writer hc
  have hcl : ∀ t' g', s.gets t' = some g' → g'.client ≠ c :=
    fun t' g' h₀ h => hcm t' g' h₀ (by simp [h])
  -- the live tasks after the step: `t` has gained `c`, the others are as before
  have hgets : ∀ t' g', Function.update s.gets t (some (g.addDependent c)) t' = some g' →
      (t' = t ∧ g' = g.addDependent c) ∨ (t' ≠ t ∧ s.gets t' = some g') :=
    fun _ _ => update_some_eq_some
  have hmem : ∀ x, x ∈ (g.addDependent c).members ↔ x = c ∨ x ∈ g.members := by
    intro x
    simp only [TaskGet.mem_members, TaskGet.addDependent_client, TaskGet.addDependent_dependents,
      List.mem_append, List.mem_singleton]
    tauto
  constructor <;> dsimp only
  · intro t' ht'
    have hne : t' ≠ t := by have := hs.gets_lt hg; omega
    simp [Function.update_of_ne hne, hs.gets_fresh t' ht']
  · exact hs.sets_fresh
  · intro k t' ht'
    obtain ⟨g', hg', hk⟩ := hs.map_live k t' ht'
    by_cases h : t' = t
    · subst h
      rw [hg] at hg'
      cases hg'
      exact ⟨_, Function.update_self .., hk⟩
    · exact ⟨g', by simp [Function.update_of_ne h, hg'], hk⟩
  · exact hs.map_begun
  · intro t' g' hg'
    rcases hgets t' g' hg' with ⟨rfl, rfl⟩ | ⟨-, hg'⟩
    · exact (hs.owner t' g hg).congr (by simp [Function.update_of_ne (hcl _ _ hg)]) rfl
    · exact (hs.owner t' g' hg').congr (by simp [Function.update_of_ne (hcl _ _ hg')]) rfl
  · intro t' g' hg' x hx
    rcases hgets t' g' hg' with ⟨rfl, rfl⟩ | ⟨-, hg'⟩
    · rcases List.mem_append.mp hx with hx | hx
      · have hne : x ≠ c := fun h => hcm t' g hg (by simp [← h, hx])
        simpa [Function.update_of_ne hne] using hs.dependent t' g hg x hx
      · rw [List.mem_singleton.mp hx]
        exact ⟨by simp, hs.idle c hc⟩
    · have hne : x ≠ c := fun h => hcm t' g' hg' (by simp [← h, hx])
      simpa [Function.update_of_ne hne] using hs.dependent t' g' hg' x hx
  · intro t' g' hg'
    rcases hgets t' g' hg' with ⟨rfl, rfl⟩ | ⟨-, hg'⟩
    · have hnd := hs.nodup t' g hg
      simp only [TaskGet.members, TaskGet.addDependent_client,
        TaskGet.addDependent_dependents] at hnd ⊢
      rw [← List.cons_append]
      exact hnd.append (List.nodup_singleton c)
        (List.disjoint_singleton.mpr (hcm t' g hg))
    · exact hs.nodup t' g' hg'
  · intro t₁ t₂ g₁ g₂ h₁ h₂ hne x hx
    rcases hgets t₁ g₁ h₁ with ⟨rfl, rfl⟩ | ⟨-, hg₁⟩ <;>
      rcases hgets t₂ g₂ h₂ with ⟨rfl, rfl⟩ | ⟨-, hg₂⟩
    · exact absurd rfl hne
    · rcases (hmem x).mp hx with hxc | hx
      · rw [hxc]; exact hcm t₂ g₂ hg₂
      · exact hs.disjoint t₁ t₂ g g₂ hg hg₂ hne x hx
    · rw [hmem]
      rintro (hxc | hx')
      · rw [hxc] at hx; exact hcm t₁ g₁ hg₁ hx
      · exact hs.disjoint t₁ t₂ g₁ g hg₁ hg hne x hx hx'
    · exact hs.disjoint t₁ t₂ g₁ g₂ hg₁ hg₂ hne x hx
  · intro t' w hw
    exact (hs.writer t' w hw).congr (by simp [Function.update_of_ne (hcw t' w hw)]) rfl
  · exact hs.writer_unique
  · intro x hx
    by_cases h : x = c
    · subst h
      exact ⟨t, _, Function.update_self .., (hmem x).mpr (.inl rfl)⟩
    · obtain ⟨t', g', hg', hx'⟩ := hs.blocked_get x (by simpa [Function.update_of_ne h] using hx)
      by_cases ht : t' = t
      · subst ht
        rw [hg] at hg'
        cases hg'
        exact ⟨t', _, Function.update_self .., (hmem x).mpr (.inr hx')⟩
      · exact ⟨t', g', by simp [Function.update_of_ne ht, hg'], hx'⟩
  · intro x hx
    by_cases h : x = c
    · subst h; simp at hx
    · exact hs.blocked_set x (by simpa [Function.update_of_ne h] using hx)
  · intro x cb d hx
    by_cases h : x = c
    · subst h; simp at hx
    · refine (hs.unblocked x cb d (by simpa [Function.update_of_ne h] using hx)).congr
        (fun t' g' hg' hgc => ?_) (fun _ _ hw hc => ⟨_, hw, hc⟩) rfl
      by_cases ht : t' = t
      · subst ht
        rw [hg] at hg'
        cases hg'
        exact ⟨_, Function.update_self .., hgc⟩
      · exact ⟨g', by simp [Function.update_of_ne ht, hg'], hgc⟩
  · intro x hx
    by_cases h : x = c
    · subst h; simp at hx
    · exact hs.idle x (by simpa [Function.update_of_ne h] using hx)
  · exact hs.unblocks_le

/-- A GET miss with no task in flight for its key: a new task, registered in
    the map, with the idle client as its owner. -/
theorem inv_newGet (hs : Inv s) {c : ℕ} {k : K} (hc : s.clients c = .idle)
    (hk : s.inflightMap k = none) :
    Inv { s with
      gets := Function.update s.gets s.nextTask (some ⟨k, c, .none, []⟩)
      inflightMap := Function.update s.inflightMap k (some s.nextTask)
      nextTask := s.nextTask + 1
      clients := Function.update s.clients c (.blocked .storage)
      begunAt := Function.update s.begunAt s.nextTask (s.invalidations k) } := by
  have hcm : ∀ t' g', s.gets t' = some g' → c ∉ g'.members := fun _ _ => hs.idle_not_member hc
  have hcw : ∀ t' w, s.sets t' = some w → w.client ≠ c := fun _ _ => hs.idle_not_writer hc
  have hcl : ∀ t' g', s.gets t' = some g' → g'.client ≠ c :=
    fun t' g' h₀ h => hcm t' g' h₀ (by simp [h])
  have hne : ∀ {t g}, s.gets t = some g → t ≠ s.nextTask := fun hg => Nat.ne_of_lt (hs.gets_lt hg)
  constructor <;> dsimp only
  · intro t ht
    rw [Function.update_of_ne (by omega)]
    exact hs.gets_fresh t (by omega)
  · exact fun t ht => hs.sets_fresh t (by omega)
  · intro k' t ht
    by_cases hk' : k' = k
    · subst hk'
      simp only [Function.update_self, Option.some.injEq] at ht
      subst ht
      exact ⟨_, Function.update_self .., rfl⟩
    · rw [Function.update_of_ne hk'] at ht
      obtain ⟨g, hg, hgk⟩ := hs.map_live k' t ht
      exact ⟨g, by rw [Function.update_of_ne (hne hg)]; exact hg, hgk⟩
  · intro k' t ht
    by_cases hk' : k' = k
    · subst hk'
      simp only [Function.update_self, Option.some.injEq] at ht
      subst ht
      simp
    · rw [Function.update_of_ne hk'] at ht
      obtain ⟨g, hg, -⟩ := hs.map_live k' t ht
      rw [Function.update_of_ne (hne hg)]
      exact hs.map_begun k' t ht
  · intro t g hg
    rcases update_some_eq_some hg with ⟨rfl, rfl⟩ | ⟨-, hg⟩
    · exact .inl ⟨rfl, by simp, hs.idle c hc⟩
    · exact (hs.owner t g hg).congr (by simp [Function.update_of_ne (hcl _ _ hg)]) rfl
  · intro t g hg x hx
    rcases update_some_eq_some hg with ⟨rfl, rfl⟩ | ⟨-, hg⟩
    · simp at hx
    · have hxc : x ≠ c := fun h => hcm t g hg (by simp [← h, hx])
      simpa [Function.update_of_ne hxc] using hs.dependent t g hg x hx
  · intro t g hg
    rcases update_some_eq_some hg with ⟨rfl, rfl⟩ | ⟨-, hg⟩
    · simp [TaskGet.members]
    · exact hs.nodup t g hg
  · intro t₁ t₂ g₁ g₂ h₁ h₂ hne' x hx
    rcases update_some_eq_some h₁ with ⟨rfl, rfl⟩ | ⟨-, hg₁⟩ <;>
      rcases update_some_eq_some h₂ with ⟨rfl, rfl⟩ | ⟨-, hg₂⟩
    · exact absurd rfl hne'
    · simp only [TaskGet.members, List.mem_singleton] at hx
      rw [hx]
      exact hcm t₂ g₂ hg₂
    · simp only [TaskGet.members, List.mem_singleton]
      rintro rfl
      exact hcm t₁ g₁ hg₁ hx
    · exact hs.disjoint t₁ t₂ g₁ g₂ hg₁ hg₂ hne' x hx
  · intro t w hw
    exact (hs.writer t w hw).congr (by simp [Function.update_of_ne (hcw t w hw)]) rfl
  · exact hs.writer_unique
  · intro x hx
    by_cases h : x = c
    · subst h
      exact ⟨s.nextTask, _, Function.update_self .., by simp⟩
    · obtain ⟨t, g, hg, hxg⟩ := hs.blocked_get x (by simpa [Function.update_of_ne h] using hx)
      exact ⟨t, g, by rw [Function.update_of_ne (hne hg)]; exact hg, hxg⟩
  · intro x hx
    by_cases h : x = c
    · subst h; simp at hx
    · exact hs.blocked_set x (by simpa [Function.update_of_ne h] using hx)
  · intro x cb d hx
    by_cases h : x = c
    · subst h; simp at hx
    · exact (hs.unblocked x cb d (by simpa [Function.update_of_ne h] using hx)).congr
        (fun t g hg hgc => ⟨g, (Function.update_of_ne (hne hg) _ _).trans hg, hgc⟩)
        (fun _ _ hw hc => ⟨_, hw, hc⟩) rfl
  · intro x hx
    by_cases h : x = c
    · subst h; simp at hx
    · exact hs.idle x (by simpa [Function.update_of_ne h] using hx)
  · exact hs.unblocks_le

/-- The write of a SET to the cache: the map loses the key's entry, and the
    key's count of invalidations grows. -/
theorem inv_cacheWrite (hs : Inv s) (k : K) (v : V) : Inv (cacheWrite k v s) where
  gets_fresh := hs.gets_fresh
  sets_fresh := hs.sets_fresh
  map_live k' t ht := by
    by_cases hk : k' = k
    · subst hk; simp [Inflight.invalidateInflight] at ht
    · exact hs.map_live k' t (by simpa [Inflight.invalidateInflight, Function.update_of_ne hk] using ht)
  map_begun k' t ht := by
    by_cases hk : k' = k
    · subst hk; simp [Inflight.invalidateInflight] at ht
    · have ht' : s.inflightMap k' = some t := by
        simpa [Inflight.invalidateInflight, Function.update_of_ne hk] using ht
      simpa [Function.update_of_ne hk] using hs.map_begun k' t ht'
  owner := hs.owner
  dependent := hs.dependent
  nodup := hs.nodup
  disjoint := hs.disjoint
  writer := hs.writer
  writer_unique := hs.writer_unique
  blocked_get := hs.blocked_get
  blocked_set := hs.blocked_set
  unblocked x cb d hx :=
    (hs.unblocked x cb d hx).congr (fun _ _ hg hc => ⟨_, hg, hc⟩) (fun _ _ hw hc => ⟨_, hw, hc⟩) rfl
  idle := hs.idle
  unblocks_le := hs.unblocks_le

omit [DecidableEq K] in
/-- The submission of a SET: a new task with the idle client as its client. -/
theorem inv_submitSet (hs : Inv s) {c : ℕ} (k : K) (v : V) (hc : s.clients c = .idle) :
    Inv { s with
      sets := Function.update s.sets s.nextTask (some ⟨k, v, c, .none⟩)
      nextTask := s.nextTask + 1
      clients := Function.update s.clients c (.blocked .reply) } := by
  have hcm : ∀ t' g', s.gets t' = some g' → c ∉ g'.members := fun _ _ => hs.idle_not_member hc
  have hcw : ∀ t' w, s.sets t' = some w → w.client ≠ c := fun _ _ => hs.idle_not_writer hc
  have hcl : ∀ t' g', s.gets t' = some g' → g'.client ≠ c :=
    fun t' g' h₀ h => hcm t' g' h₀ (by simp [h])
  have hne : ∀ {t w}, s.sets t = some w → t ≠ s.nextTask := fun hw => Nat.ne_of_lt (hs.sets_lt hw)
  constructor <;> dsimp only
  · exact fun t ht => hs.gets_fresh t (by omega)
  · intro t ht
    rw [Function.update_of_ne (by omega)]
    exact hs.sets_fresh t (by omega)
  · exact hs.map_live
  · exact hs.map_begun
  · intro t g hg
    exact (hs.owner t g hg).congr (by simp [Function.update_of_ne (hcl _ _ hg)]) rfl
  · intro t g hg x hx
    have hxc : x ≠ c := fun h => hcm t g hg (by simp [← h, hx])
    simpa [Function.update_of_ne hxc] using hs.dependent t g hg x hx
  · exact hs.nodup
  · exact hs.disjoint
  · intro t w hw
    rcases update_some_eq_some hw with ⟨rfl, rfl⟩ | ⟨-, hw⟩
    · exact .inl ⟨rfl, by simp, hs.idle c hc⟩
    · exact (hs.writer t w hw).congr (by simp [Function.update_of_ne (hcw t w hw)]) rfl
  · intro t₁ t₂ w₁ w₂ h₁ h₂ hne'
    rcases update_some_eq_some h₁ with ⟨rfl, rfl⟩ | ⟨-, hw₁⟩ <;>
      rcases update_some_eq_some h₂ with ⟨rfl, rfl⟩ | ⟨-, hw₂⟩
    · exact absurd rfl hne'
    · exact (hcw t₂ w₂ hw₂).symm
    · exact hcw t₁ w₁ hw₁
    · exact hs.writer_unique t₁ t₂ w₁ w₂ hw₁ hw₂ hne'
  · intro x hx
    by_cases h : x = c
    · subst h; simp at hx
    · exact hs.blocked_get x (by simpa [Function.update_of_ne h] using hx)
  · intro x hx
    by_cases h : x = c
    · subst h
      exact ⟨s.nextTask, _, Function.update_self .., rfl⟩
    · obtain ⟨t, w, hw, hwc⟩ := hs.blocked_set x (by simpa [Function.update_of_ne h] using hx)
      exact ⟨t, w, by rw [Function.update_of_ne (hne hw)]; exact hw, hwc⟩
  · intro x cb d hx
    by_cases h : x = c
    · subst h; simp at hx
    · exact (hs.unblocked x cb d (by simpa [Function.update_of_ne h] using hx)).congr
        (fun _ _ hg hc => ⟨_, hg, hc⟩)
        (fun t w hw hwc => ⟨w, (Function.update_of_ne (hne hw) _ _).trans hw, hwc⟩) rfl
  · intro x hx
    by_cases h : x = c
    · subst h; simp at hx
    · exact hs.idle x (by simpa [Function.update_of_ne h] using hx)
  · exact hs.unblocks_le

omit [DecidableEq K] in
/-- A backend read completes: the task records its result and its client is
    unblocked with it. -/
theorem inv_readDone (hs : Inv s) {t : ℕ} {g : TaskGet K V} (hg : s.gets t = some g)
    (hnone : g.status = .none) {st : GetStatus V} (hst : st ≠ .none) :
    Inv (unblockClient g.client .storage (.task t)
      { s with gets := Function.update s.gets t (some { g with status := st }) }) := by
  have hown : s.unblocks g.client = 0 := by
    rcases hs.owner t g hg with ⟨-, -, h⟩ | ⟨h, -, -⟩
    · exact h
    · exact absurd hnone h
  -- the clients of other tasks, and the writers, are not the unblocked one
  have hoth : ∀ t' g', s.gets t' = some g' → t' ≠ t → ∀ x ∈ g'.members, x ≠ g.client :=
    fun t' g' hg' hne x hx h => hs.disjoint t' t g' g hg' hg hne x hx (by simp [h])
  have hdep : ∀ x ∈ g.dependents, x ≠ g.client := by
    intro x hx h
    have hnd := hs.nodup t g hg
    simp only [TaskGet.members, List.nodup_cons] at hnd
    exact hnd.1 (h ▸ hx)
  have hcw : ∀ t' w, s.sets t' = some w → w.client ≠ g.client := by
    intro t' w hw h
    rcases hs.writer_state hw with h' | h' <;>
      rcases hs.member_state hg (show g.client ∈ g.members by simp) with h'' | h'' | h'' <;>
      rw [h] at h' <;> rw [h'] at h'' <;> cases h''
  have hgets : ∀ t' g', Function.update s.gets t (some { g with status := st }) t' = some g' →
      (t' = t ∧ g' = { g with status := st }) ∨ (t' ≠ t ∧ s.gets t' = some g') :=
    fun _ _ => update_some_eq_some
  constructor <;> simp only [unblockClient_eq]
  · intro t' ht'
    have hne : t' ≠ t := by have := hs.gets_lt hg; omega
    rw [Function.update_of_ne hne]
    exact hs.gets_fresh t' ht'
  · exact hs.sets_fresh
  · intro k t' ht'
    obtain ⟨g', hg', hk⟩ := hs.map_live k t' ht'
    by_cases h : t' = t
    · subst h
      rw [hg] at hg'
      cases hg'
      exact ⟨_, Function.update_self .., hk⟩
    · exact ⟨g', (Function.update_of_ne h _ _).trans hg', hk⟩
  · exact hs.map_begun
  · intro t' g' hg'
    rcases hgets t' g' hg' with ⟨rfl, rfl⟩ | ⟨hne, hg'⟩
    · exact .inr ⟨hst, by simp, by simp [hown]⟩
    · have h := hoth t' g' hg' hne g'.client (by simp)
      exact (hs.owner t' g' hg').congr (by simp [Function.update_of_ne h])
        (by simp [Function.update_of_ne h])
  · intro t' g' hg' x hx
    have hxc : x ≠ g.client := by
      rcases hgets t' g' hg' with ⟨rfl, rfl⟩ | ⟨hne, hg'⟩
      · exact hdep x hx
      · exact hoth t' g' hg' hne x (by simp [hx])
    have hold : s.clients x = .blocked .inflight ∧ s.unblocks x = 0 := by
      rcases hgets t' g' hg' with ⟨rfl, rfl⟩ | ⟨-, hg'⟩
      · exact hs.dependent t' g hg x hx
      · exact hs.dependent t' g' hg' x hx
    simpa [Function.update_of_ne hxc] using hold
  · intro t' g' hg'
    rcases hgets t' g' hg' with ⟨rfl, rfl⟩ | ⟨-, hg'⟩
    · exact hs.nodup t' g hg
    · exact hs.nodup t' g' hg'
  · intro t₁ t₂ g₁ g₂ h₁ h₂ hne
    rcases hgets t₁ g₁ h₁ with ⟨rfl, rfl⟩ | ⟨-, hg₁⟩ <;>
      rcases hgets t₂ g₂ h₂ with ⟨rfl, rfl⟩ | ⟨-, hg₂⟩
    · exact absurd rfl hne
    · exact hs.disjoint t₁ t₂ g g₂ hg hg₂ hne
    · exact hs.disjoint t₁ t₂ g₁ g hg₁ hg hne
    · exact hs.disjoint t₁ t₂ g₁ g₂ hg₁ hg₂ hne
  · intro t' w hw
    have h := hcw t' w hw
    exact (hs.writer t' w hw).congr (by simp [Function.update_of_ne h])
      (by simp [Function.update_of_ne h])
  · exact hs.writer_unique
  · intro x hx
    by_cases h : x = g.client
    · subst h; simp at hx
    · obtain ⟨t', g', hg', hxg⟩ := hs.blocked_get x (by simpa [Function.update_of_ne h] using hx)
      by_cases ht : t' = t
      · subst ht
        rw [hg] at hg'
        cases hg'
        exact ⟨t', _, Function.update_self .., hxg⟩
      · exact ⟨t', g', (Function.update_of_ne ht _ _).trans hg', hxg⟩
  · intro x hx
    by_cases h : x = g.client
    · subst h; simp at hx
    · exact hs.blocked_set x (by simpa [Function.update_of_ne h] using hx)
  · intro x cb d hx
    by_cases h : x = g.client
    · subst h
      simp only [Function.update_self, Client.unblocked.injEq] at hx
      obtain ⟨rfl, rfl⟩ := hx
      exact ⟨_, Function.update_self .., rfl⟩
    · refine (hs.unblocked x cb d (by simpa [Function.update_of_ne h] using hx)).congr
        (fun t' g' hg' hgc => ?_) (fun _ _ hw hc => ⟨_, hw, hc⟩) (by simp [Function.update_of_ne h])
      by_cases ht : t' = t
      · subst ht
        rw [hg] at hg'
        cases hg'
        exact ⟨_, Function.update_self .., hgc⟩
      · exact ⟨g', (Function.update_of_ne ht _ _).trans hg', hgc⟩
  · intro x hx
    by_cases h : x = g.client
    · subst h; simp at hx
    · simpa [Function.update_of_ne h] using hs.idle x (by simpa [Function.update_of_ne h] using hx)
  · intro x
    by_cases h : x = g.client
    · subst h; simp [hown]
    · simpa [Function.update_of_ne h] using hs.unblocks_le x

omit [DecidableEq K] in
/-- A backend write completes: the task records its status and its client is
    unblocked with it. The backend table plays no part in the invariant. -/
theorem inv_writeDone (hs : Inv s) {t : ℕ} {w : TaskSet K V} (hw : s.sets t = some w)
    (hnone : w.status = .none) {st : SetStatus} (hst : st ≠ .none) (backend : K → Option V) :
    Inv (unblockClient w.client .reply (.task t)
      { s with backend := backend, sets := Function.update s.sets t (some { w with status := st }) }) := by
  have hown : s.unblocks w.client = 0 := by
    rcases hs.writer t w hw with ⟨-, -, h⟩ | ⟨h, -, -⟩
    · exact h
    · exact absurd hnone h
  have hcm : ∀ t' g, s.gets t' = some g → ∀ x ∈ g.members, x ≠ w.client := by
    intro t' g hg x hx h
    rcases hs.writer_state hw with h' | h' <;>
      rcases hs.member_state hg hx with h'' | h'' | h'' <;>
      rw [h] at h'' <;> rw [h'] at h'' <;> cases h''
  have hcl : ∀ t' g, s.gets t' = some g → g.client ≠ w.client := fun t' g hg => hcm t' g hg _ (by simp)
  have hsets : ∀ t' w', Function.update s.sets t (some { w with status := st }) t' = some w' →
      (t' = t ∧ w' = { w with status := st }) ∨ (t' ≠ t ∧ s.sets t' = some w') :=
    fun _ _ => update_some_eq_some
  constructor <;> simp only [unblockClient_eq]
  · exact hs.gets_fresh
  · intro t' ht'
    have hne : t' ≠ t := by have := hs.sets_lt hw; omega
    rw [Function.update_of_ne hne]
    exact hs.sets_fresh t' ht'
  · exact hs.map_live
  · exact hs.map_begun
  · intro t' g hg
    have h := hcl t' g hg
    exact (hs.owner t' g hg).congr (by simp [Function.update_of_ne h]) (by simp [Function.update_of_ne h])
  · intro t' g hg x hx
    have h := hcm t' g hg x (by simp [hx])
    simpa [Function.update_of_ne h] using hs.dependent t' g hg x hx
  · exact hs.nodup
  · exact hs.disjoint
  · intro t' w' hw'
    rcases hsets t' w' hw' with ⟨rfl, rfl⟩ | ⟨hne, hw'⟩
    · exact .inr ⟨hst, by simp, by simp [hown]⟩
    · have h : w'.client ≠ w.client := hs.writer_unique t' t w' w hw' hw hne
      exact (hs.writer t' w' hw').congr (by simp [Function.update_of_ne h])
        (by simp [Function.update_of_ne h])
  · intro t₁ t₂ w₁ w₂ h₁ h₂ hne
    rcases hsets t₁ w₁ h₁ with ⟨rfl, rfl⟩ | ⟨-, hw₁⟩ <;>
      rcases hsets t₂ w₂ h₂ with ⟨rfl, rfl⟩ | ⟨-, hw₂⟩
    · exact absurd rfl hne
    · exact hs.writer_unique t₁ t₂ w w₂ hw hw₂ hne
    · exact hs.writer_unique t₁ t₂ w₁ w hw₁ hw hne
    · exact hs.writer_unique t₁ t₂ w₁ w₂ hw₁ hw₂ hne
  · intro x hx
    by_cases h : x = w.client
    · subst h; simp at hx
    · exact hs.blocked_get x (by simpa [Function.update_of_ne h] using hx)
  · intro x hx
    by_cases h : x = w.client
    · subst h; simp at hx
    · obtain ⟨t', w', hw', hwc⟩ := hs.blocked_set x (by simpa [Function.update_of_ne h] using hx)
      by_cases ht : t' = t
      · subst ht
        rw [hw] at hw'
        cases hw'
        exact ⟨t', _, Function.update_self .., hwc⟩
      · exact ⟨t', w', (Function.update_of_ne ht _ _).trans hw', hwc⟩
  · intro x cb d hx
    by_cases h : x = w.client
    · subst h
      simp only [Function.update_self, Client.unblocked.injEq] at hx
      obtain ⟨rfl, rfl⟩ := hx
      exact ⟨_, Function.update_self .., rfl⟩
    · refine (hs.unblocked x cb d (by simpa [Function.update_of_ne h] using hx)).congr
        (fun _ _ hg hc => ⟨_, hg, hc⟩) (fun t' w' hw' hwc => ?_) (by simp [Function.update_of_ne h])
      by_cases ht : t' = t
      · subst ht
        rw [hw] at hw'
        cases hw'
        exact ⟨_, Function.update_self .., hwc⟩
      · exact ⟨w', (Function.update_of_ne ht _ _).trans hw', hwc⟩
  · intro x hx
    by_cases h : x = w.client
    · subst h; simp at hx
    · simpa [Function.update_of_ne h] using hs.idle x (by simpa [Function.update_of_ne h] using hx)
  · intro x
    by_cases h : x = w.client
    · subst h; simp [hown]
    · simpa [Function.update_of_ne h] using hs.unblocks_le x

/-- `get::storage_callback`: the task is freed, its client replied, and the
    clients that waited on it are unblocked, each once. -/
theorem inv_storageCallback (hs : Inv s) {c t : ℕ} {s' : State K V}
    (hc : s.clients c = .unblocked .storage (.task t)) (h : storageCallback c t s = some s') :
    Inv s' := by
  obtain ⟨g, hg, -, -, hmap, hgets, hsets, -, hnext, hcl, hunb, hinv, hbeg⟩ :=
    storageCallback_eq_some h
  obtain ⟨g₀, hg₀, hgc⟩ := hs.unblocked c _ _ hc
  rw [hg] at hg₀
  cases hg₀
  subst hgc
  have hnd := hs.nodup t g hg
  have hcd : g.client ∉ g.dependents := (List.nodup_cons.mp hnd).1
  have hclients := hcl hcd
  -- the clients of the freed task are not the clients of any other task
  have hoth : ∀ t' g', s.gets t' = some g' → t' ≠ t → ∀ x ∈ g'.members, x ∉ g.members :=
    fun t' g' hg' hne => hs.disjoint t' t g' g hg' hg hne
  have hcnt : ∀ x, x ∉ g.dependents → s'.unblocks x = s.unblocks x := by
    intro x hx
    rw [hunb, List.count_eq_zero_of_not_mem hx, Nat.add_zero]
  -- a client of neither the freed task nor any other keeps its state
  have hkeep : ∀ x, x ∉ g.members → s'.clients x = s.clients x := by
    intro x hx
    have h₁ : x ≠ g.client := fun h => hx (by simp [h])
    have h₂ : x ∉ g.dependents := fun h => hx (by simp [h])
    simp [hclients, h₁, h₂]
  -- the clients of the freed task are replied or unblocked now
  have hdone : ∀ x ∈ g.members, (∀ cb, s'.clients x ≠ .blocked cb) ∧ s'.clients x ≠ .idle := by
    intro x hx
    by_cases hxc : x = g.client
    · simp [hclients, hxc]
    · have hxd : x ∈ g.dependents := by simpa [hxc] using hx
      simp [hclients, hxc, hxd]
  have hwm : ∀ t' w, s.sets t' = some w → w.client ∉ g.members := by
    intro t' w hw hx
    rcases hs.writer_state hw with h' | h' <;>
      rcases hs.member_state hg hx with h'' | h'' | h'' <;> rw [h'] at h'' <;> cases h''
  constructor
  · intro t' ht'
    rw [hnext] at ht'
    rw [hgets]
    by_cases h : t' = t
    · subst h; simp
    · rw [Function.update_of_ne h]; exact hs.gets_fresh t' ht'
  · intro t' ht'
    rw [hnext] at ht'
    rw [hsets]
    exact hs.sets_fresh t' ht'
  · intro k t' ht'
    rw [hmap] at ht'
    rcases Inflight.endInflight_snd_eq s.inflightMap g.key k t with h | ⟨-, h⟩
    · rw [h] at ht'
      obtain ⟨g', hg', hk⟩ := hs.map_live k t' ht'
      have hne : t' ≠ t := by
        rintro rfl
        rw [hg] at hg'
        cases hg'
        rw [hk] at h
        exact Inflight.endInflight_snd_ne s.inflightMap k t' (h.trans ht')
      exact ⟨g', by rw [hgets, Function.update_of_ne hne]; exact hg', hk⟩
    · rw [h] at ht'; cases ht'
  · intro k t' ht'
    rw [hmap] at ht'
    rw [hbeg, hinv]
    rcases Inflight.endInflight_snd_eq s.inflightMap g.key k t with h | ⟨-, h⟩
    · rw [h] at ht'; exact hs.map_begun k t' ht'
    · rw [h] at ht'; cases ht'
  · intro t' g' hg'
    rw [hgets] at hg'
    obtain ⟨hne, hg'⟩ := update_none_eq_some hg'
    have hx : g'.client ∉ g.members := hoth t' g' hg' hne _ (by simp)
    exact (hs.owner t' g' hg').congr (hkeep _ hx) (hcnt _ fun h => hx (by simp [h]))
  · intro t' g' hg' x hxd
    rw [hgets] at hg'
    obtain ⟨hne, hg'⟩ := update_none_eq_some hg'
    have hx : x ∉ g.members := hoth t' g' hg' hne x (by simp [hxd])
    rw [hkeep x hx, hcnt x fun h => hx (by simp [h])]
    exact hs.dependent t' g' hg' x hxd
  · intro t' g' hg'
    rw [hgets] at hg'
    exact hs.nodup t' g' (update_none_eq_some hg').2
  · intro t₁ t₂ g₁ g₂ h₁ h₂
    rw [hgets] at h₁ h₂
    exact hs.disjoint t₁ t₂ g₁ g₂ (update_none_eq_some h₁).2 (update_none_eq_some h₂).2
  · intro t' w hw
    rw [hsets] at hw
    have hx := hwm t' w hw
    exact (hs.writer t' w hw).congr (hkeep _ hx) (hcnt _ fun h => hx (by simp [h]))
  · rw [hsets]; exact hs.writer_unique
  · intro x hx
    have hxm : x ∉ g.members := by
      intro hm
      rcases hx with hx | hx
      · exact (hdone x hm).1 _ hx
      · exact (hdone x hm).1 _ hx
    rw [hkeep x hxm] at hx
    obtain ⟨t', g', hg', hxg⟩ := hs.blocked_get x hx
    have hne : t' ≠ t := by rintro rfl; rw [hg] at hg'; cases hg'; exact hxm hxg
    exact ⟨t', g', by rw [hgets, Function.update_of_ne hne]; exact hg', hxg⟩
  · intro x hx
    have hxm : x ∉ g.members := fun hm => (hdone x hm).1 _ hx
    rw [hkeep x hxm] at hx
    rw [hsets]
    exact hs.blocked_set x hx
  · intro x cb d hx
    by_cases hxc : x = g.client
    · subst hxc; simp [hclients] at hx
    by_cases hxd : x ∈ g.dependents
    · -- a waiting client, unblocked here for the first time
      simp only [hclients, hxc, hxd, if_true, if_false, Client.unblocked.injEq] at hx
      obtain ⟨rfl, rfl⟩ := hx
      show s'.unblocks x = 1
      rw [hunb, (hs.dependent t g hg x hxd).2, List.count_eq_one_of_mem (List.nodup_cons.mp hnd).2 hxd]
    · have hxm : x ∉ g.members := by simp [hxc, hxd]
      rw [hkeep x hxm] at hx
      refine (hs.unblocked x cb d hx).congr (fun t' g' hg' hgc => ?_)
        (fun t' w hw hwc => ⟨w, by rw [hsets]; exact hw, hwc⟩) (hcnt x hxd)
      have hne : t' ≠ t := by
        rintro rfl
        rw [hg] at hg'
        cases hg'
        exact hxc hgc.symm
      exact ⟨g', by rw [hgets, Function.update_of_ne hne]; exact hg', hgc⟩
  · intro x hx
    have hxm : x ∉ g.members := fun hm => (hdone x hm).2 hx
    rw [hkeep x hxm] at hx
    rw [hcnt x fun h => hxm (by simp [h])]
    exact hs.idle x hx
  · intro x
    rw [hunb]
    by_cases hxd : x ∈ g.dependents
    · have h₀ := (hs.dependent t g hg x hxd).2
      have h₁ := List.count_eq_one_of_mem (List.nodup_cons.mp hnd).2 hxd
      omega
    · rw [List.count_eq_zero_of_not_mem hxd, Nat.add_zero]
      exact hs.unblocks_le x

omit [DecidableEq K] in
/-- `set::reply_callback`: the task is freed and its client replied. -/
theorem inv_replyCallback (hs : Inv s) {c t : ℕ} {w : TaskSet K V} (hw : s.sets t = some w)
    (hwc : w.client = c) (r : Reply V) (ks : K → Option V) :
    Inv (reply c r { s with keyspace := ks, sets := Function.update s.sets t none }) := by
  subst hwc
  have hcm : ∀ t' g, s.gets t' = some g → ∀ x ∈ g.members, x ≠ w.client := by
    intro t' g hg x hx h
    rcases hs.writer_state hw with h' | h' <;>
      rcases hs.member_state hg hx with h'' | h'' | h'' <;>
      rw [h] at h'' <;> rw [h'] at h'' <;> cases h''
  have hcl : ∀ t' g, s.gets t' = some g → g.client ≠ w.client := fun t' g hg => hcm t' g hg _ (by simp)
  -- a live write that is not the freed one names another client
  have hother : ∀ t' w', Function.update s.sets t none t' = some w' →
      s.sets t' = some w' ∧ w'.client ≠ w.client := by
    intro t' w' h
    obtain ⟨hne, hw'⟩ := update_none_eq_some h
    exact ⟨hw', hs.writer_unique t' t w' w hw' hw hne⟩
  constructor <;> simp only [reply_eq]
  · exact hs.gets_fresh
  · intro t' ht'
    by_cases h : t' = t
    · subst h; simp
    · rw [Function.update_of_ne h]; exact hs.sets_fresh t' ht'
  · exact hs.map_live
  · exact hs.map_begun
  · intro t' g hg
    exact (hs.owner t' g hg).congr (by simp [Function.update_of_ne (hcl t' g hg)]) rfl
  · intro t' g hg x hx
    have h := hcm t' g hg x (by simp [hx])
    simpa [Function.update_of_ne h] using hs.dependent t' g hg x hx
  · exact hs.nodup
  · exact hs.disjoint
  · intro t' w' hw'
    obtain ⟨hw', hne⟩ := hother t' w' hw'
    exact (hs.writer t' w' hw').congr (by simp [Function.update_of_ne hne]) rfl
  · intro t₁ t₂ w₁ w₂ h₁ h₂
    exact hs.writer_unique t₁ t₂ w₁ w₂ (hother t₁ w₁ h₁).1 (hother t₂ w₂ h₂).1
  · intro x hx
    by_cases h : x = w.client
    · subst h; simp at hx
    · exact hs.blocked_get x (by simpa [Function.update_of_ne h] using hx)
  · intro x hx
    by_cases h : x = w.client
    · subst h; simp at hx
    · obtain ⟨t', w', hw', hwc⟩ := hs.blocked_set x (by simpa [Function.update_of_ne h] using hx)
      have hne : t' ≠ t := by
        rintro rfl
        rw [hw] at hw'
        cases hw'
        exact h hwc.symm
      exact ⟨t', w', (Function.update_of_ne hne _ _).trans hw', hwc⟩
  · intro x cb d hx
    by_cases h : x = w.client
    · subst h; simp at hx
    · refine (hs.unblocked x cb d (by simpa [Function.update_of_ne h] using hx)).congr
        (fun _ _ hg hc => ⟨_, hg, hc⟩) (fun t' w' hw' hwc => ?_) rfl
      have hne : t' ≠ t := by
        rintro rfl
        rw [hw] at hw'
        cases hw'
        exact h hwc.symm
      exact ⟨w', (Function.update_of_ne hne _ _).trans hw', hwc⟩
  · intro x hx
    by_cases h : x = w.client
    · subst h; simp at hx
    · exact hs.idle x (by simpa [Function.update_of_ne h] using hx)
  · exact hs.unblocks_le

theorem inv_hopperGet (hs : Inv s) {c : ℕ} {k : K} {s' : State K V} (hc : s.clients c = .idle)
    (h : hopperGet c k s = some s') : Inv s' := by
  rcases hopperGet_eq_some h with ⟨v, -, rfl⟩ | ⟨-, t, g, -, hg, rfl⟩ | ⟨-, hk, rfl⟩
  · exact inv_reply hs _ (fun _ _ => hs.idle_not_member hc) (fun _ _ => hs.idle_not_writer hc)
  · exact inv_addDependent hs hc hg
  · exact inv_newGet hs hc hk

theorem inv_hopperSet (hs : Inv s) (admitWrite : Bool) {c : ℕ} (k : K) (v : V)
    (hc : s.clients c = .idle) : Inv (hopperSet admitWrite c k v s) := by
  obtain ⟨s₁, hs₁, heq⟩ := hopperSet_eq admitWrite c k v s
  -- the cache write, if any, leaves the clients alone
  have h₁ : Inv s₁ ∧ s₁.clients c = .idle := by
    rcases hs₁ with ⟨rfl, -⟩ | ⟨rfl, -⟩
    · exact ⟨inv_cacheWrite hs k v, hc⟩
    · exact ⟨hs, hc⟩
  rw [heq]
  exact inv_submitSet h₁.1 k v h₁.2

/-- Every step keeps the invariant. -/
theorem inv_step (hs : Inv s) {admitWrite : Bool} {e : Event K V} {s' : State K V}
    (he : enabled s e = true) (h : handle admitWrite s e = some s') : Inv s' := by
  cases e with
  | get c k =>
    have hc : s.clients c = .idle := by
      simp only [enabled] at he
      split at he <;> first | assumption | cases he
    exact inv_hopperGet hs hc h
  | set c k v =>
    have hc : s.clients c = .idle := by
      simp only [enabled] at he
      split at he <;> first | assumption | cases he
    cases h
    exact inv_hopperSet hs admitWrite k v hc
  | read t fail =>
    obtain ⟨g, hg, rfl⟩ := readDone_eq_some h
    have hnone : g.status = .none := by
      simp only [enabled, hg] at he
      cases hst : g.status <;> simp_all [GetStatus.isNone]
    exact inv_readDone hs hg hnone (by unfold readStatus; split <;> [skip; split] <;> simp)
  | write t err =>
    obtain ⟨w, hw, rfl⟩ := writeDone_eq_some h
    have hnone : w.status = .none := by
      simp only [enabled, hw] at he
      cases hst : w.status <;> simp_all [SetStatus.isNone]
    exact inv_writeDone hs hw hnone (by cases err <;> simp [writeStatus]) _
  | callback c =>
    simp only [handle] at h
    split at h
    · rename_i t hc
      exact inv_storageCallback hs hc h
    · rename_i d hc
      cases h
      exact inv_reply hs _
        (fun _ _ => hs.not_member (by simp [hc]))
        (fun _ _ => hs.not_writer (by simp [hc]))
    · rename_i t hc
      obtain ⟨w, r, hw, -, rfl⟩ := replyCallback_eq_some h
      obtain ⟨w₀, hw₀, hwc⟩ := hs.unblocked c _ _ hc
      rw [hw] at hw₀
      cases hw₀
      exact inv_replyCallback hs hw hwc r _
    · cases h
  | evict k =>
    cases h
    exact inv_evict hs k

/-- Every reachable state satisfies the invariant. -/
theorem Inv.of_reachable {admitWrite : Bool} {backend : K → Option V} {s : State K V}
    (h : (server admitWrite).Reachable (State.init backend) s) : Inv s :=
  Transition.System.Reachable.inv Inv (inv_init backend)
    (fun _ _ _ _ hs he hh => inv_step hs he hh) h

end Preservation

/-! ## What the module's users rely on -/

section Safety

variable [DecidableEq K] {s : State K V}

omit [DecidableEq K] in
/-- A blocked GET client waits in one live task, once, and in no other. -/
theorem Inv.waits_once (hs : Inv s) {c : ℕ}
    (hc : s.clients c = .blocked .storage ∨ s.clients c = .blocked .inflight) :
    ∃ t g, s.gets t = some g ∧ g.members.count c = 1 ∧
      ∀ t' g', s.gets t' = some g' → c ∈ g'.members → t' = t := by
  obtain ⟨t, g, hg, hcg⟩ := hs.blocked_get c hc
  refine ⟨t, g, hg, List.count_eq_one_of_mem (hs.nodup t g hg) hcg, fun t' g' hg' hcg' => ?_⟩
  by_contra hne
  exact hs.disjoint t' t g' g hg' hg hne c hcg' hcg

omit [DecidableEq K] in
/-- The client of a task it is unblocked with: the task is live and has its
    result. -/
theorem Inv.storage_ready (hs : Inv s) {c t : ℕ} (hc : s.clients c = .unblocked .storage (.task t)) :
    ∃ g, s.gets t = some g ∧ g.client = c ∧ g.status ≠ .none := by
  obtain ⟨g, hg, rfl⟩ := hs.unblocked c _ _ hc
  refine ⟨g, hg, rfl, ?_⟩
  rcases hs.owner t g hg with ⟨-, h, -⟩ | ⟨h, -, -⟩
  · rw [hc] at h; cases h
  · exact h

omit [DecidableEq K] in
theorem Inv.reply_ready (hs : Inv s) {c t : ℕ} (hc : s.clients c = .unblocked .reply (.task t)) :
    ∃ w, s.sets t = some w ∧ w.client = c ∧ w.status ≠ .none := by
  obtain ⟨w, hw, rfl⟩ := hs.unblocked c _ _ hc
  refine ⟨w, hw, rfl, ?_⟩
  rcases hs.writer t w hw with ⟨-, h, -⟩ | ⟨h, -, -⟩
  · rw [hc] at h; cases h
  · exact h

/-- No enabled handler is undefined in a state of the invariant: a GET that
    waits on the task in flight finds it live, and every callback finds what
    it reads. -/
theorem Inv.safe (hs : Inv s) (admitWrite : Bool) : (server admitWrite).Safe s := by
  intro e he
  change enabled s e = true at he
  cases e with
  | get c k =>
    show (hopperGet c k s).isSome
    unfold hopperGet
    split
    · rfl
    · split
      · rename_i hin
        obtain ⟨t, ht⟩ := Option.isSome_iff_exists.mp hin
        obtain ⟨g, hg, -⟩ := hs.map_live k t ht
        simp [Inflight.addDependent_isSome ht hg]
      · rename_i hin
        rw [Inflight.beginInflight_of_not_checkInflight (Bool.eq_false_iff.mpr hin)]
        rfl
  | set c k v => rfl
  | read t fail =>
    show (readDone t fail s).isSome
    simp only [enabled] at he
    unfold readDone
    split at he <;> simp_all
  | write t err =>
    show (writeDone t err s).isSome
    simp only [enabled] at he
    unfold writeDone
    split at he <;> simp_all
  | callback c =>
    show (handle admitWrite s (.callback c)).isSome
    simp only [enabled] at he
    simp only [handle]
    split at he
    · rename_i cb d hc
      have hu := hs.unblocked c cb d hc
      cases cb <;> cases d <;> simp only [Unblocked] at hu <;> simp only [hc]
      · obtain ⟨g, hg, -, hst⟩ := hs.storage_ready hc
        unfold storageCallback
        rw [hg]
        cases hst' : g.status with
        | none => exact absurd hst' hst
        | ok v => simp [hst']
        | err => simp [hst']
      · rfl
      · obtain ⟨w, hw, -, hst⟩ := hs.reply_ready hc
        unfold replyCallback
        rw [hw]
        cases hst' : w.status with
        | none => exact absurd hst' hst
        | ok => simp [hst']
        | err msg => simp [hst']
    · cases he
  | evict k => rfl

omit [DecidableEq K] in
/-- The completion of a pending backend read records the item the backend
    holds, or the failure, and unblocks the task's client, for the first
    time, with the task; the clients that wait on the task stay blocked. -/
theorem Inv.readDone_unblocks (hs : Inv s) {t : ℕ} {g : TaskGet K V} (hg : s.gets t = some g)
    (hnone : g.status = .none) (fail : Bool) :
    ∃ s', readDone t fail s = some s' ∧
      s'.gets t = some { g with status := readStatus fail (s.backend g.key) } ∧
      s.clients g.client = .blocked .storage ∧ s.unblocks g.client = 0 ∧
      s'.clients g.client = .unblocked .storage (.task t) ∧ s'.unblocks g.client = 1 ∧
      ∀ x ∈ g.dependents, s'.clients x = .blocked .inflight ∧ s'.unblocks x = 0 := by
  -- a task still waiting for its read has a blocked client, never unblocked
  obtain ⟨hcl, hun⟩ : s.clients g.client = .blocked .storage ∧ s.unblocks g.client = 0 := by
    rcases hs.owner t g hg with ⟨-, h⟩ | ⟨h, -, -⟩
    · exact h
    · exact absurd hnone h
  have hdep : ∀ x ∈ g.dependents, x ≠ g.client := by
    intro x hx h
    have hnd := hs.nodup t g hg
    simp only [TaskGet.members, List.nodup_cons] at hnd
    exact hnd.1 (h ▸ hx)
  refine ⟨unblockClient g.client .storage (.task t)
      { s with gets := Function.update s.gets t (some { g with status := readStatus fail (s.backend g.key) }) },
    by rw [readDone, hg]; rfl, by simp, hcl, hun, by simp, by simp [hun], fun x hx => ?_⟩
  have hxc := hdep x hx
  simp [Function.update_of_ne hxc, hs.dependent t g hg x hx]

/-- The callback of a task that has its result replies to its client with
    the value, or with the error on a failure, and unblocks every client that
    waits on the task, for the first time, with the same result. -/
theorem Inv.callback_unblocks (hs : Inv s) (admitWrite : Bool) {c t : ℕ} {g : TaskGet K V}
    (hc : s.clients c = .unblocked .storage (.task t)) (hg : s.gets t = some g) :
    ∃ s', handle admitWrite s (.callback c) = some s' ∧
      s'.clients c = .replied (getReply g.status.result) ∧
      ∀ x ∈ g.dependents, s.unblocks x = 0 ∧
        s'.clients x = .unblocked .inflight (.value g.status.result) ∧ s'.unblocks x = 1 := by
  -- the client is the task's own, and the callback is enabled, so it runs
  obtain ⟨g₀, hg₀, hgc, -⟩ := hs.storage_ready hc
  rw [hg] at hg₀
  cases hg₀
  subst hgc
  obtain ⟨s', hs'⟩ := Option.isSome_iff_exists.mp (hs.safe admitWrite (.callback g.client)
    (by simp [server, enabled, hc]))
  refine ⟨s', hs', ?_⟩
  simp only [server, handle, hc] at hs'
  obtain ⟨g', hg', -, -, -, -, -, -, -, hcl, hunb, -, -⟩ := storageCallback_eq_some hs'
  rw [hg] at hg'
  cases hg'
  -- the members are distinct: the owner is no dependent, and each dependent waits once
  have hnd := hs.nodup t g hg
  have hcd : g.client ∉ g.dependents := (List.nodup_cons.mp hnd).1
  refine ⟨by simp [hcl hcd], fun x hx => ⟨(hs.dependent t g hg x hx).2, ?_, ?_⟩⟩
  · have hxc : x ≠ g.client := fun h => hcd (h ▸ hx)
    simp [hcl hcd, hxc, hx]
  · rw [hunb, (hs.dependent t g hg x hx).2,
      List.count_eq_one_of_mem (List.nodup_cons.mp hnd).2 hx]

/-- In-flight deduplication is safe in every reachable state, for either
    value of `cache.admit_write`. -/
structure DedupSafe (admitWrite : Bool) (s : State K V) : Prop where
  /-- The map names only live GET tasks, each under its own key. -/
  map_live : ∀ k t, s.inflightMap k = some t → ∃ g, s.gets t = some g ∧ g.key = k
  /-- No enabled handler is undefined: `add_dependent` never reaches a freed
      task, and the asserts of `begin_inflight` and `add_dependent` hold. -/
  safe : (server admitWrite).Safe s
  /-- A GET client blocked on a miss waits in exactly one live task, once. -/
  waits_once : ∀ c, s.clients c = .blocked .storage ∨ s.clients c = .blocked .inflight →
    ∃ t g, s.gets t = some g ∧ g.members.count c = 1 ∧
      ∀ t' g', s.gets t' = some g' → c ∈ g'.members → t' = t
  /-- No client is ever unblocked twice. -/
  unblocks_le : ∀ c, s.unblocks c ≤ 1
  /-- The completion of a pending backend read records the item the backend
      holds, or the failure, and unblocks the task's client for the first
      time, with the task; the clients that wait on the task stay blocked
      until its callback. -/
  read : ∀ t g fail, s.gets t = some g → g.status = .none →
    ∃ s', handle admitWrite s (.read t fail) = some s' ∧
      s'.gets t = some { g with status := readStatus fail (s.backend g.key) } ∧
      s.clients g.client = .blocked .storage ∧ s.unblocks g.client = 0 ∧
      s'.clients g.client = .unblocked .storage (.task t) ∧ s'.unblocks g.client = 1 ∧
      ∀ x ∈ g.dependents, s'.clients x = .blocked .inflight ∧ s'.unblocks x = 0
  /-- The callback of a task that has its result replies to its client with
      the value, or with the error on a failure, and unblocks every client
      that waits on it, for the first time, handing it the same result. -/
  callback : ∀ c t g, s.clients c = .unblocked .storage (.task t) → s.gets t = some g →
    ∃ s', handle admitWrite s (.callback c) = some s' ∧
      s'.clients c = .replied (getReply g.status.result) ∧
      ∀ x ∈ g.dependents, s.unblocks x = 0 ∧
        s'.clients x = .unblocked .inflight (.value g.status.result) ∧ s'.unblocks x = 1
  /-- `end_inflight` answers true for a task only if no `invalidate_inflight`
      on its key came after `begin_inflight` registered it. -/
  fresh : ∀ t g, s.gets t = some g → (Inflight.endInflight s.inflightMap g.key t).1 = true →
    s.invalidations g.key = s.begunAt t

/-- Two GETs of key 5 from clients 0 and 1: the second waits on the first's
    task, whose read has completed. -/
def twoReaders : State ℕ ℕ :=
  ((server false).run (State.init fun _ => some 7)
    [.get 0 5, .get 1 5, .read 0 false]).getD (State.init fun _ => some 7)

end Safety

end Hopper
