-- SUMMARY: The Redis module as a transition system: its state (keyspace, in-flight map, live tasks, backend table, clients), the handlers of HOPPER.GET and HOPPER.SET, of the backend's completions and of the reply callbacks, and the events that fire them.
import HopperKV.Lib.Transition
import HopperKV.Module.Inflight

/-!
# The Redis module as a transition system

The state is what the main thread, the storage thread and the backend share:
the Redis keyspace, `inflight::inflight_map`, the live tasks, the backend
table, and the clients. Every handler of the main thread is one atomic step,
as Redis runs them. A backend request takes effect at one instant between its
submission and its completion, and the completion handler, which only writes
the task's status and unblocks its client, runs at that instant too
(`readDone`, `writeDone`). Redis may evict any key at any step.

`RedisModule_BlockClient` records the reply callback a client waits for, and
`RedisModule_UnblockClient` hands it the private data that the callback reads
(`Client.unblocked`). Three fields are ghost state that the proofs read:
`unblocks` counts the unblocks of each client, `invalidations` the
`invalidate_inflight` calls on each key, and `begunAt` that count when
`begin_inflight` registered a GET task's key.

Left out: the ghost cache and the statistics (which no reply reads), the rate
limiters (`Hopper.Rate` and `Hopper.Resrc`), the mock backend, `HOPPER.SETC`,
`HOPPER.LOAD`, and the keys of other types (which only WRONGTYPE replies read).
-/

namespace Hopper

/-- The reply callback that `RedisModule_BlockClient` registers. -/
inductive Callback where
  /-- `get::storage_callback`, of the client that issued a GET task. -/
  | storage
  /-- `get::inflight_callback`, of a client that waits on another's task. -/
  | inflight
  /-- `set::reply_callback`. -/
  | reply
  deriving DecidableEq, Repr

/-- The private data of `RedisModule_UnblockClient`: a task, or the value
    handed to a waiting client (`none` for the null pointer of a failure). -/
inductive PrivData (V : Type*) where
  | task (t : ℕ)
  | value (v : Option V)
  deriving DecidableEq, Repr

/-- A reply to a client. -/
inductive Reply (V : Type*) where
  | value (v : V)
  | simple (s : String)
  | error (msg : String)
  deriving DecidableEq, Repr

/-- Where a client is. -/
inductive Client (V : Type*) where
  | idle
  | blocked (cb : Callback)
  | unblocked (cb : Callback) (data : PrivData V)
  | replied (r : Reply V)
  deriving DecidableEq, Repr

/-- The state of the module, the storage thread and the backend. -/
structure State (K V : Type*) where
  keyspace : K → Option V
  inflightMap : Inflight.Map K
  gets : ℕ → Option (TaskGet K V)
  sets : ℕ → Option (TaskSet K V)
  backend : K → Option V
  nextTask : ℕ
  clients : ℕ → Client V
  unblocks : ℕ → ℕ
  invalidations : K → ℕ
  begunAt : ℕ → ℕ

variable {K V : Type*} [DecidableEq K]

/-- A freshly loaded module over a backend table: empty cache, no tasks. -/
def State.init (backend : K → Option V) : State K V where
  keyspace := fun _ => none
  inflightMap := fun _ => none
  gets := fun _ => none
  sets := fun _ => none
  backend := backend
  nextTask := 0
  clients := fun _ => .idle
  unblocks := fun _ => 0
  invalidations := fun _ => 0
  begunAt := fun _ => 0

/-- The error reply of a failed GET, from either callback. -/
def getError : String := "ERR Fail to get from DynamoDB"

/-- What a GET replies once its task has a result: the value, or the error. -/
def getReply : Option V → Reply V
  | some v => .value v
  | none => .error getError

/-- The value a finished GET task hands to the clients that wait on it. -/
def GetStatus.result : GetStatus V → Option V
  | .ok v => some v
  | _ => Option.none

omit [DecidableEq K] in
@[simp] theorem GetStatus.result_ok (v : V) : (GetStatus.ok v).result = some v := rfl

omit [DecidableEq K] in
@[simp] theorem GetStatus.result_err : (GetStatus.err : GetStatus V).result = Option.none := rfl

omit [DecidableEq K] in
@[simp] theorem getReply_some (v : V) : getReply (some v) = .value v := rfl

omit [DecidableEq K] in
@[simp] theorem getReply_none : getReply (none : Option V) = .error getError := rfl

/-- `RedisModule_UnblockClient(bc, d)`; `cb` is the callback that the call
    site registered for `bc`. -/
def unblockClient (bc : ℕ) (cb : Callback) (d : PrivData V) (s : State K V) : State K V :=
  { s with clients := Function.update s.clients bc (.unblocked cb d),
           unblocks := Function.update s.unblocks bc (s.unblocks bc + 1) }

/-- The loop `for (auto bc : t->dependents) RedisModule_UnblockClient(bc, d)`
    of `get::storage_callback`. -/
def unblockDependents : List ℕ → Option V → State K V → State K V
  | [], _, s => s
  | bc :: bcs, d, s => unblockDependents bcs d (unblockClient bc .inflight (.value d) s)

/-- A reply from a callback or a command, which ends the client's command. -/
def reply (c : ℕ) (r : Reply V) (s : State K V) : State K V :=
  { s with clients := Function.update s.clients c (.replied r) }

/-- `RedisModule_HopperGet` from client `c` on key `k`: a hit replies at once;
    a miss waits on the in-flight task of the key if there is one, and else
    registers a new task and submits it. -/
def hopperGet (c : ℕ) (k : K) (s : State K V) : Option (State K V) :=
  match s.keyspace k with
  | some v => some (reply c (.value v) s)
  | none =>
    if Inflight.checkInflight s.inflightMap k then
      (Inflight.addDependent s.inflightMap s.gets k c).map fun gets =>
        { s with gets := gets, clients := Function.update s.clients c (.blocked .inflight) }
    else
      (Inflight.beginInflight s.inflightMap k s.nextTask).map fun m =>
        { s with
          gets := Function.update s.gets s.nextTask (some ⟨k, c, .none, []⟩)
          inflightMap := m
          nextTask := s.nextTask + 1
          clients := Function.update s.clients c (.blocked .storage)
          begunAt := Function.update s.begunAt s.nextTask (s.invalidations k) }

/-- The write of `RedisModule_HopperSet` to the cache, with the
    `invalidate_inflight` that follows it. -/
def cacheWrite (k : K) (v : V) (s : State K V) : State K V :=
  { s with keyspace := Function.update s.keyspace k (some v),
           inflightMap := Inflight.invalidateInflight s.inflightMap k,
           invalidations := Function.update s.invalidations k (s.invalidations k + 1) }

/-- `RedisModule_HopperSet` from client `c`: a cached key takes the new value,
    an absent one only under `cache.admit_write`; then the write is submitted. -/
def hopperSet (admitWrite : Bool) (c : ℕ) (k : K) (v : V) (s : State K V) : State K V :=
  let s :=
    match s.keyspace k with
    | some _ => cacheWrite k v s
    | none => if admitWrite then cacheWrite k v s else s
  { s with
    sets := Function.update s.sets s.nextTask (some ⟨k, v, c, .none⟩)
    nextTask := s.nextTask + 1
    clients := Function.update s.clients c (.blocked .reply) }

/-- The status a backend read leaves: the item the backend holds, or a
    failure, when the request fails or the item is absent. -/
def readStatus (fail : Bool) (item : Option V) : GetStatus V :=
  if fail then .err else
    match item with
    | some v => .ok v
    | none => .err

/-- The backend read of GET task `t` takes effect, and the completion handler
    of `storage::process_task_get` records it and unblocks the client. -/
def readDone (t : ℕ) (fail : Bool) (s : State K V) : Option (State K V) :=
  (s.gets t).map fun g =>
    let g' := { g with status := readStatus fail (s.backend g.key) }
    unblockClient g.client .storage (.task t) { s with gets := Function.update s.gets t (some g') }

/-- The status the completion handler of a write leaves, with the text it
    writes over the task's value on a failure. -/
def writeStatus : Option String → SetStatus
  | none => .ok
  | some msg => .err ("Fail to write to DynamoDB: " ++ msg)

/-- The backend write of SET task `t` takes effect (`err = none`) or fails,
    and the completion handler of `storage::process_task_set` records it and
    unblocks the client. -/
def writeDone (t : ℕ) (err : Option String) (s : State K V) : Option (State K V) :=
  (s.sets t).map fun w =>
    let s :=
      match err with
      | none => { s with backend := Function.update s.backend w.key (some w.value) }
      | some _ => s
    let w' := { w with status := writeStatus err }
    unblockClient w.client .reply (.task t) { s with sets := Function.update s.sets t (some w') }

/-- `get::storage_callback` of client `c` for task `t`; the task is freed
    when it returns. -/
def storageCallback (c t : ℕ) (s : State K V) : Option (State K V) :=
  match s.gets t with
  | none => none
  | some g =>
    let s₁ := { s with inflightMap := (Inflight.endInflight s.inflightMap g.key t).2,
                       gets := Function.update s.gets t none }
    match g.status with
    | .none => none
    | .err => some (reply c (.error getError) (unblockDependents g.dependents none s₁))
    | .ok v =>
      -- the cache is updated only if no SET invalidated the task
      let s₂ := if (Inflight.endInflight s.inflightMap g.key t).1 then
          { s₁ with keyspace := Function.update s₁.keyspace g.key (some v) }
        else s₁
      some (unblockDependents g.dependents (some v) (reply c (.value v) s₂))

/-- `get::inflight_callback` of client `c`, handed `d`. -/
def inflightCallback (c : ℕ) (d : Option V) (s : State K V) : State K V :=
  reply c (getReply d) s

/-- `set::reply_callback` of client `c` for task `t`; a failed write deletes
    the key from the cache. -/
def replyCallback (c t : ℕ) (s : State K V) : Option (State K V) :=
  match s.sets t with
  | none => none
  | some w =>
    let s₁ := { s with sets := Function.update s.sets t none }
    match w.status with
    | .none => none
    | .err msg =>
      some (reply c (.error ("ERR Fail to set to DynamoDB: " ++ msg))
        { s₁ with keyspace := Function.update s₁.keyspace w.key none })
    | .ok => some (reply c (.simple "OK") s₁)

/-! ## Events -/

/-- What may happen next. -/
inductive Event (K V : Type*) where
  /-- `HOPPER.GET k` from client `c`. -/
  | get (c : ℕ) (k : K)
  /-- `HOPPER.SET k v` from client `c`. -/
  | set (c : ℕ) (k : K) (v : V)
  /-- The backend read of a GET task takes effect, or fails. -/
  | read (t : ℕ) (fail : Bool)
  /-- The backend write of a SET task takes effect, or fails with a message. -/
  | write (t : ℕ) (err : Option String)
  /-- The reply callback of an unblocked client runs. -/
  | callback (c : ℕ)
  /-- Redis evicts a key. -/
  | evict (k : K)

/-- Whether a task has no result yet. -/
def GetStatus.isNone : GetStatus V → Bool
  | .none => true
  | _ => false

/-- Whether a write has not completed yet. -/
def SetStatus.isNone : SetStatus → Bool
  | .none => true
  | _ => false

/-- When the environment may fire an event: a command comes from a client
    that has not issued one, a backend request completes once, and a callback
    runs for an unblocked client. -/
def enabled (s : State K V) : Event K V → Bool
  | .get c _ | .set c _ _ =>
    match s.clients c with
    | .idle => true
    | _ => false
  | .read t _ =>
    match s.gets t with
    | some g => g.status.isNone
    | none => false
  | .write t _ =>
    match s.sets t with
    | some w => w.status.isNone
    | none => false
  | .callback c =>
    match s.clients c with
    | .unblocked _ _ => true
    | _ => false
  | .evict _ => true

/-- What an event does. A callback reads the private data it was handed. -/
def handle (admitWrite : Bool) (s : State K V) : Event K V → Option (State K V)
  | .get c k => hopperGet c k s
  | .set c k v => some (hopperSet admitWrite c k v s)
  | .read t fail => readDone t fail s
  | .write t err => writeDone t err s
  | .callback c =>
    match s.clients c with
    | .unblocked .storage (.task t) => storageCallback c t s
    | .unblocked .inflight (.value d) => some (inflightCallback c d s)
    | .unblocked .reply (.task t) => replyCallback c t s
    | _ => none
  | .evict k => some { s with keyspace := Function.update s.keyspace k none }

/-- The module under a value of `cache.admit_write`. -/
def server (admitWrite : Bool) : Transition.System (State K V) (Event K V) :=
  ⟨enabled, handle admitWrite⟩

/-! ## Equations -/

omit [DecidableEq K] in
@[simp] theorem unblockClient_eq (bc : ℕ) (cb : Callback) (d : PrivData V) (s : State K V) :
    unblockClient bc cb d s =
      { s with clients := Function.update s.clients bc (.unblocked cb d),
               unblocks := Function.update s.unblocks bc (s.unblocks bc + 1) } := rfl

omit [DecidableEq K] in
@[simp] theorem reply_eq (c : ℕ) (r : Reply V) (s : State K V) :
    reply c r s = { s with clients := Function.update s.clients c (.replied r) } := rfl

@[simp] theorem cacheWrite_eq (k : K) (v : V) (s : State K V) :
    cacheWrite k v s =
      { s with keyspace := Function.update s.keyspace k (some v),
               inflightMap := Inflight.invalidateInflight s.inflightMap k,
               invalidations := Function.update s.invalidations k (s.invalidations k + 1) } := rfl

omit [DecidableEq K] in
/-- The dependents loop sets every listed client to unblocked and counts one
    unblock per occurrence. -/
theorem unblockDependents_eq (bcs : List ℕ) (d : Option V) (s : State K V) :
    unblockDependents bcs d s =
      { s with clients := fun c => if c ∈ bcs then .unblocked .inflight (.value d) else s.clients c,
               unblocks := fun c => s.unblocks c + bcs.count c } := by
  induction bcs generalizing s with
  | nil => rfl
  | cons bc bcs ih =>
    rw [unblockDependents, ih]
    congr 1
    · funext c
      by_cases hb : c = bc
      · subst hb; simp
      · simp [hb]
    · funext c
      by_cases hb : c = bc
      · subst hb; simp; omega
      · simp [hb, Ne.symm hb]

/-! ## What each handler does -/

/-- The three paths of `RedisModule_HopperGet`. -/
theorem hopperGet_eq_some {c : ℕ} {k : K} {s s' : State K V} (h : hopperGet c k s = some s') :
    (∃ v, s.keyspace k = some v ∧ s' = reply c (.value v) s) ∨
    (s.keyspace k = none ∧ ∃ t g, s.inflightMap k = some t ∧ s.gets t = some g ∧
      s' = { s with gets := Function.update s.gets t (some (g.addDependent c)),
                    clients := Function.update s.clients c (.blocked .inflight) }) ∨
    (s.keyspace k = none ∧ s.inflightMap k = none ∧
      s' = { s with
        gets := Function.update s.gets s.nextTask (some ⟨k, c, .none, []⟩)
        inflightMap := Function.update s.inflightMap k (some s.nextTask)
        nextTask := s.nextTask + 1
        clients := Function.update s.clients c (.blocked .storage)
        begunAt := Function.update s.begunAt s.nextTask (s.invalidations k) }) := by
  unfold hopperGet at h
  split at h
  · -- hit
    rename_i v hv
    exact .inl ⟨v, hv, (Option.some.inj h).symm⟩
  · rename_i hk
    split at h
    · -- a task for the key is in flight
      obtain ⟨gets, hgets, rfl⟩ := Option.map_eq_some_iff.mp h
      obtain ⟨t, g, ht, hg, rfl⟩ := Inflight.addDependent_eq_some hgets
      exact .inr (.inl ⟨hk, t, g, ht, hg, rfl⟩)
    · -- a new task
      obtain ⟨m, hm, rfl⟩ := Option.map_eq_some_iff.mp h
      obtain ⟨hnone, rfl⟩ := Inflight.beginInflight_eq_some hm
      exact .inr (.inr ⟨hk, hnone, rfl⟩)

/-- `RedisModule_HopperSet` writes the cache exactly when the key is cached
    or writes are admitted. -/
theorem hopperSet_eq (admitWrite : Bool) (c : ℕ) (k : K) (v : V) (s : State K V) :
    ∃ s₁, (s₁ = cacheWrite k v s ∧ ((s.keyspace k).isSome ∨ admitWrite = true) ∨
        s₁ = s ∧ s.keyspace k = none ∧ admitWrite = false) ∧
      hopperSet admitWrite c k v s = { s₁ with
        sets := Function.update s₁.sets s₁.nextTask (some ⟨k, v, c, .none⟩)
        nextTask := s₁.nextTask + 1
        clients := Function.update s₁.clients c (.blocked .reply) } := by
  unfold hopperSet
  cases hk : s.keyspace k with
  | some v' => exact ⟨_, .inl ⟨rfl, .inl rfl⟩, rfl⟩
  | none =>
    cases admitWrite with
    | true => exact ⟨_, .inl ⟨rfl, .inr rfl⟩, rfl⟩
    | false => exact ⟨_, .inr ⟨rfl, rfl, rfl⟩, rfl⟩

omit [DecidableEq K] in
theorem readDone_eq_some {t : ℕ} {fail : Bool} {s s' : State K V} (h : readDone t fail s = some s') :
    ∃ g, s.gets t = some g ∧
      s' = unblockClient g.client .storage (.task t)
        { s with gets := Function.update s.gets t (some { g with status := readStatus fail (s.backend g.key) }) } := by
  obtain ⟨g, hg, rfl⟩ := Option.map_eq_some_iff.mp h
  exact ⟨g, hg, rfl⟩

theorem writeDone_eq_some {t : ℕ} {err : Option String} {s s' : State K V}
    (h : writeDone t err s = some s') :
    ∃ w, s.sets t = some w ∧
      s' = unblockClient w.client .reply (.task t) { s with
        backend := if err = none then Function.update s.backend w.key (some w.value) else s.backend,
        sets := Function.update s.sets t (some { w with status := writeStatus err }) } := by
  obtain ⟨w, hw, rfl⟩ := Option.map_eq_some_iff.mp h
  cases err with
  | none => exact ⟨w, hw, rfl⟩
  | some msg => exact ⟨w, hw, rfl⟩

/-- `get::storage_callback` on a task with a result: the map entry is ended,
    the task freed, the cache written if the entry still named the task, the
    client replied and the dependents unblocked. -/
theorem storageCallback_eq_some {c t : ℕ} {s s' : State K V} (h : storageCallback c t s = some s') :
    ∃ g, s.gets t = some g ∧ g.status ≠ .none ∧
      s'.keyspace = (match g.status with
        | .ok v => if s.inflightMap g.key = some t then
            Function.update s.keyspace g.key (some v) else s.keyspace
        | _ => s.keyspace) ∧
      s'.inflightMap = (Inflight.endInflight s.inflightMap g.key t).2 ∧
      s'.gets = Function.update s.gets t none ∧
      s'.sets = s.sets ∧ s'.backend = s.backend ∧ s'.nextTask = s.nextTask ∧
      (c ∉ g.dependents → s'.clients = fun x =>
        if x = c then .replied (getReply g.status.result)
        else if x ∈ g.dependents then .unblocked .inflight (.value g.status.result)
        else s.clients x) ∧
      (∀ x, s'.unblocks x = s.unblocks x + g.dependents.count x) ∧
      s'.invalidations = s.invalidations ∧ s'.begunAt = s.begunAt := by
  unfold storageCallback at h
  split at h
  · cases h
  · rename_i g hg
    refine ⟨g, hg, ?_⟩
    dsimp only at h
    split at h
    · cases h
    · -- failure
      rename_i hst
      cases h
      refine ⟨by simp [hst], ?_, ?_, ?_, ?_, ?_, ?_, fun hc => ?_, ?_, ?_, ?_⟩
      all_goals try simp [unblockDependents_eq, hst]
      funext x
      by_cases hx : x = c
      · subst hx; simp
      · simp [hx]
    · -- success
      rename_i v hst
      cases h
      by_cases hm : s.inflightMap g.key = some t
      all_goals
        refine ⟨by simp [hst], ?_, ?_, ?_, ?_, ?_, ?_, fun hc => ?_, ?_, ?_, ?_⟩
        all_goals try simp [unblockDependents_eq, hst, hm]
        funext x
        by_cases hx : x = c
        · subst hx; simp [hc]
        · simp [hx]

/-- `set::reply_callback` on a completed write: the task is freed, the key
    deleted from the cache if the write failed, and the client replied. -/
theorem replyCallback_eq_some {c t : ℕ} {s s' : State K V} (h : replyCallback c t s = some s') :
    ∃ w r, s.sets t = some w ∧ w.status ≠ .none ∧
      s' = reply c r { s with
        keyspace := if w.status = .ok then s.keyspace else Function.update s.keyspace w.key none,
        sets := Function.update s.sets t none } := by
  unfold replyCallback at h
  split at h
  · cases h
  · rename_i w hw
    dsimp only at h
    split at h
    · cases h
    · rename_i msg hst
      cases h
      exact ⟨w, .error ("ERR Fail to set to DynamoDB: " ++ msg), hw, by simp [hst], by simp [hst]⟩
    · rename_i hst
      cases h
      exact ⟨w, .simple "OK", hw, by simp [hst], by simp [hst]⟩

end Hopper
