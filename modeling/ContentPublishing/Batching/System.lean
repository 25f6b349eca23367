import ContentPublishing.Batching.Batches
import ContentPublishing.Lib.JobQueue
import ContentPublishing.Lib.Transition
import Mathlib.Tactic.SplitIfs

/-!
# Batching of one announcement queue by any number of workers

The asynchronous functions of the batching processor are cut at their awaits.
Each in-flight call of `process`, `setupActiveBatchTimeout` or `closeBatch` is a
value of `Call`, and one action lets one call take its next atomic step, moves
the shared clock, fires a timer, or makes a call or a whole worker fail. A Redis
script and the reply it causes are separate actions, so other calls may run in
between.

The system is stated over an interface `BatchStore` to the four keys of the
queue. `scripts` runs the Lua scripts on a Redis store; `Batches.store` is the
abstract pair of batches. `scripts_simulates` and `batchingStep_encode` connect the two.
-/
namespace ContentPublishing.Batching
open Transition

/-- What the validated environment tells the batching processor. A rational is the exact
value of the number that the environment holds. -/
structure Config where
  environment : ChainEnvironment
  queueName : QueueName
  batchIntervalSeconds : ℚ
  batchMaxCount : ℚ
  batchIntervalSeconds_min : 1 ≤ batchIntervalSeconds
  batchMaxCount_min : 1 ≤ batchMaxCount

/-- Batches of one second and two rows on a development chain. -/
def Config.sample : Config :=
  ⟨.dev, .broadcastQueue, 1, 2, by decide +kernel, by decide +kernel⟩

/-- The product in milliseconds, without the rounding of a number that has no exact double. -/
def Config.batchTimeoutMs (cfg : Config) : ℚ := cfg.batchIntervalSeconds * millisecondsPerSecond

def lockExpireMs : ℕ := batchLockExpireSeconds * 1000

/-- The Redis side of a queue: three operations and what can be read back. -/
structure BatchStore (A R : Type) where
  addToBatch : BatchId → ℕ → Row A → R → Except Redis.Error ℤ × R
  lockBatch : ℕ → ℕ → R → Except Redis.Error (LockReply (Value A)) × R
  delLocked : R → R
  metadata : R → Option BatchMetadata
  rows : R → List (Value A)
  lockedMetadata : R → Option BatchMetadata
  lockedRows : R → List (Value A)

abbrev WorkerId := ℕ
abbrev CallId := ℕ

/-- A job of the announcement queue. -/
structure Job (A : Type) where
  id : JobId
  data : A
  deriving DecidableEq, Repr

/-- The statuses `-1` and `1` under which `closeBatch` receives a batch. -/
inductive LockStatus where
  | leftover | locked
  deriving DecidableEq, Repr

/-- What a `closeBatch` call keeps in memory of the batch it received. -/
structure Snapshot (A : Type) where
  status : LockStatus
  batchId : BatchId
  batch : List (Value A)
  announcements : List A
  deriving DecidableEq, Repr

/-- The await a `closeBatch` call is suspended at. -/
inductive CloseStage (A : Type) where
  | lock (now : ℕ)
  | add (snapshot : Snapshot A)
  | del (snapshot : Snapshot A)
  | deleted (snapshot : Snapshot A)
  deriving DecidableEq, Repr

def CloseStage.snapshot? {A : Type} : CloseStage A → Option (Snapshot A)
  | .lock _ => none
  | .add snapshot | .del snapshot | .deleted snapshot => some snapshot

/-- An in-flight call with the worker it runs on. `joined` and `raisedFor` are
not held by the program: they record the batch a row went into and the batch on
whose behalf `closeBatch` was called. -/
inductive Call (A : Type) where
  | adding (worker : WorkerId) (job : Job A) (batchId : BatchId) (startTimestamp : ℕ)
  | added (worker : WorkerId) (job : Job A) (batchId : BatchId) (rowCount : ℤ) (joined : BatchId)
  | setup (worker : WorkerId) (metadata : Option BatchMetadata)
  | closing (worker : WorkerId) (batchId : BatchId) (timeout : Bool) (raisedFor : BatchId)
      (stage : CloseStage A)
  deriving DecidableEq, Repr

def Call.worker {A : Type} : Call A → WorkerId
  | .adding w _ _ _ | .added w _ _ _ _ | .setup w _ | .closing w _ _ _ _ => w

def Call.snapshot? {A : Type} : Call A → Option (Snapshot A)
  | .closing _ _ _ _ stage => stage.snapshot?
  | _ => none

/-- A timer registered under the name of its worker and batch. -/
structure Timeout where
  dueAt : ℕ
  fired : Bool
  deriving DecidableEq, Repr

structure BatchAnnouncerJobData (A : Type) where
  batchId : BatchId
  schemaId : ℕ
  announcements : List A
  deriving DecidableEq, Repr

/-- A job whose `addToBatch` succeeded, with the batch its row went into. -/
structure Accepted (A : Type) where
  jobId : JobId
  data : A
  batchId : BatchId
  deriving DecidableEq, Repr

/-- `issued` lists the results of `randomUUID`; `accepted` is the history of
`addToBatch`. -/
structure State (A R : Type) where
  redis : R
  batchQueue : JobQueue BatchId (BatchAnnouncerJobData A)
  calls : CallId → Option (Call A)
  timeouts : WorkerId → BatchId → Option Timeout
  clock : ℕ
  issued : List BatchId
  accepted : List (Accepted A)

def initial {A R : Type} (redis : R) : State A R :=
  ⟨redis, .empty, fun _ => none, fun _ _ => none, 0, [], []⟩

/-- Reads every second entry of the flat rows, as the loop of `closeBatch` does. -/
def parseAnnouncements {A : Type} : List (Value A) → Option (List A)
  | [] => some []
  | [_] => none
  | _ :: value :: rest => do
      let announcement ← value.announcement?
      let announcements ← parseAnnouncements rest
      return announcement :: announcements

theorem parseAnnouncements_flatten {A : Type} (rows : List (Row A)) :
    parseAnnouncements (Redis.flatten (hashFields rows)) = some (rows.map Prod.snd) := by
  induction rows with
  | nil => rfl
  | cons row rows ih =>
      simp only [hashFields, List.map_cons, Redis.flatten] at ih ⊢
      simp only [parseAnnouncements, Value.announcement?, ih]
      rfl

theorem jobId_mem_flatten {A : Type} {rows : List (Row A)} {j : JobId} :
    Value.jobId j ∈ Redis.flatten (hashFields rows) ↔ j ∈ rows.map Prod.fst := by
  induction rows with
  | nil => simp [hashFields, Redis.flatten]
  | cons row rows ih =>
      simp only [hashFields, List.map_cons, Redis.flatten, List.mem_cons] at ih ⊢
      simp [ih]

namespace State
variable {A R : Type}

def setCall (s : State A R) (i : CallId) (c : Call A) : State A R :=
  { s with calls := Function.update s.calls i (some c) }

def endCall (s : State A R) (i : CallId) : State A R :=
  { s with calls := Function.update s.calls i none }

/-- Writes one entry of a worker's timer registry. -/
def setTimeout (s : State A R) (w : WorkerId) (batchId : BatchId) (t : Option Timeout) :
    State A R :=
  { s with timeouts := Function.update s.timeouts w (Function.update (s.timeouts w) batchId t) }

def addBatchTimeout (s : State A R) (w : WorkerId) (batchId : BatchId) (timeoutMs : ℚ) :
    State A R :=
  s.setTimeout w batchId (some ⟨s.clock + setTimeoutDelay timeoutMs, false⟩)

def deleteTimeout (s : State A R) (w : WorkerId) (batchId : BatchId) : State A R :=
  s.setTimeout w batchId none

/-- `closeBatch` up to its first await: the clock is read and `lockBatch` sent. -/
def closeBatch (s : State A R) (i : CallId) (w : WorkerId) (batchId : BatchId) (timeout : Bool)
    (raisedFor : BatchId) : State A R :=
  s.setCall i (.closing w batchId timeout raisedFor (.lock s.clock))

/-- `process` after `addToBatch` has answered. A count of `-1` ends the call too,
by an exception. -/
def processReply (cfg : Config) (s : State A R) (i : CallId) (w : WorkerId) (batchId : BatchId)
    (rowCount : ℤ) (joined : BatchId) : State A R :=
  if rowCount = 1 then (s.addBatchTimeout w batchId cfg.batchTimeoutMs).endCall i
  else if cfg.batchMaxCount ≤ rowCount then s.closeBatch i w batchId false joined
  else s.endCall i

/-- `setupActiveBatchTimeout` after the metadata has been read. -/
def setupReply (cfg : Config) (s : State A R) (i : CallId) (w : WorkerId) :
    Option BatchMetadata → State A R
  | none => s.endCall i
  | some metadata =>
      let openTimeMs : ℤ := s.clock - metadata.startTimestamp
      if cfg.batchTimeoutMs ≤ openTimeMs then
        s.closeBatch i w metadata.batchId false metadata.batchId
      else
        (s.addBatchTimeout w metadata.batchId (cfg.batchTimeoutMs - openTimeMs)).endCall i

/-- The received batch is parsed; an empty one is not enqueued. -/
def receive (s : State A R) (i : CallId) (w : WorkerId) (batchId : BatchId) (timeout : Bool)
    (raisedFor : BatchId) (status : LockStatus) (batch : List (Value A)) (metadata : Value A) :
    State A R :=
  match metadata.metadata?, parseAnnouncements batch with
  | some m, some announcements =>
      let snapshot : Snapshot A := ⟨status, m.batchId, batch, announcements⟩
      s.setCall i (.closing w batchId timeout raisedFor
        (if announcements.isEmpty then .del snapshot else .add snapshot))
  | _, _ => s.endCall i

/-- `closeBatch` after `lockBatch` has answered. -/
def lockReply (s : State A R) (i : CallId) (w : WorkerId) (batchId : BatchId) (timeout : Bool)
    (raisedFor : BatchId) : LockReply (Value A) → State A R
  | .noBatch => s.endCall i
  | .stillLocked => s.endCall i
  | .leftover batch metadata => s.receive i w batchId timeout raisedFor .leftover batch metadata
  | .locked batch metadata => s.receive i w batchId timeout raisedFor .locked batch metadata

/-- The end of `closeBatch`: after a leftover it starts over. -/
def finish (s : State A R) (i : CallId) (w : WorkerId) (batchId : BatchId) (timeout : Bool)
    (raisedFor : BatchId) : LockStatus → State A R
  | .leftover => s.closeBatch i w batchId timeout raisedFor
  | .locked => s.endCall i

end State

/-- The batch job that `closeBatch` puts into the output queue. -/
def Config.batchJob {A : Type} (cfg : Config) (snapshot : Snapshot A) :
    BatchAnnouncerJobData A :=
  ⟨snapshot.batchId, getSchemaId cfg.environment (queueNameToAnnouncementMap cfg.queueName),
    snapshot.announcements⟩

inductive Action (A : Type) where
  | tick (ms : ℕ)
  | process (w : WorkerId) (i : CallId) (job : Job A) (batchId : BatchId)
  | addToBatch (i : CallId)
  | addReply (i : CallId)
  | setupActiveBatchTimeout (w : WorkerId) (i : CallId)
  | setupReply (i : CallId)
  | fire (w : WorkerId) (batchId : BatchId) (i : CallId)
  | lockBatch (i : CallId)
  | add (i : CallId)
  | del (i : CallId)
  | delReply (i : CallId)
  | delFail (i : CallId)
  | throw (i : CallId)
  | crash (w : WorkerId)
  deriving DecidableEq, Repr

section Step
variable {A R : Type} (store : BatchStore A R) (cfg : Config)

/-- One atomic step. A batch identifier drawn by `process` has never been drawn
before; a timer fires once and not before it is due; `add` of a known batch
identifier changes nothing; a failed `MULTI` is caught and `closeBatch` goes on;
any other failure ends the call. -/
def step (s : State A R) : Action A → Option (State A R)
  | .tick ms => some { s with clock := s.clock + ms }
  | .process w i job batchId =>
      if (s.calls i).isSome ∨ batchId ∈ s.issued then none else
        some ({ s with issued := batchId :: s.issued }.setCall i (.adding w job batchId s.clock))
  | .addToBatch i =>
      match s.calls i with
      | some (.adding w job batchId startTimestamp) =>
          match store.addToBatch batchId startTimestamp (job.id, job.data) s.redis with
          | (.ok rowCount, r) =>
              let joined := (store.metadata r).elim batchId BatchMetadata.batchId
              let accepted := if rowCount = -1 then s.accepted else
                s.accepted ++ [⟨job.id, job.data, joined⟩]
              some ({ s with redis := r, accepted := accepted }.setCall i
                (.added w job batchId rowCount joined))
          | (.error _, r) => some ({ s with redis := r }.endCall i)
      | _ => none
  | .addReply i =>
      match s.calls i with
      | some (.added w _ batchId rowCount joined) =>
          some (s.processReply cfg i w batchId rowCount joined)
      | _ => none
  | .setupActiveBatchTimeout w i =>
      if (s.calls i).isSome then none else
        some (s.setCall i (.setup w (store.metadata s.redis)))
  | .setupReply i =>
      match s.calls i with
      | some (.setup w metadata) => some (s.setupReply cfg i w metadata)
      | _ => none
  | .fire w batchId i =>
      match s.timeouts w batchId with
      | some t =>
          if (s.calls i).isSome ∨ t.fired ∨ s.clock < t.dueAt then none else
            some ((s.setTimeout w batchId (some { t with fired := true })).closeBatch i w batchId
              true batchId)
      | none => none
  | .lockBatch i =>
      match s.calls i with
      | some (.closing w batchId timeout raisedFor (.lock now)) =>
          match store.lockBatch now lockExpireMs s.redis with
          | (.ok reply, r) =>
              some ({ s with redis := r }.lockReply i w batchId timeout raisedFor reply)
          | (.error _, r) => some ({ s with redis := r }.endCall i)
      | _ => none
  | .add i =>
      match s.calls i with
      | some (.closing w batchId timeout raisedFor (.add snapshot)) =>
          some ({ s with
            batchQueue := s.batchQueue.add snapshot.batchId (cfg.batchJob snapshot) }.setCall i
              (.closing w batchId timeout raisedFor (.del snapshot)))
      | _ => none
  | .del i =>
      match s.calls i with
      | some (.closing w batchId timeout raisedFor (.del snapshot)) =>
          some ({ s with redis := store.delLocked s.redis }.setCall i
            (.closing w batchId timeout raisedFor (.deleted snapshot)))
      | _ => none
  | .delReply i =>
      match s.calls i with
      | some (.closing w batchId timeout raisedFor (.deleted snapshot)) =>
          some ((s.deleteTimeout w batchId).finish i w batchId timeout raisedFor snapshot.status)
      | _ => none
  | .delFail i =>
      match s.calls i with
      | some (.closing w batchId timeout raisedFor (.del snapshot))
      | some (.closing w batchId timeout raisedFor (.deleted snapshot)) =>
          some (s.finish i w batchId timeout raisedFor snapshot.status)
      | _ => none
  | .throw i => if (s.calls i).isSome then some (s.endCall i) else none
  | .crash w =>
      some { s with
        calls := fun i => (s.calls i).filter (fun c => c.worker != w)
        timeouts := Function.update s.timeouts w (fun _ => none) }

end Step

/-! What an action asks of Redis, read off the call that takes the step. -/

structure LockRequest where
  batchId : BatchId
  raisedFor : BatchId
  now : ℕ
  deriving DecidableEq, Repr

namespace State
variable {A R : Type} (s : State A R)

def addRequest? : Action A → Option (Job A)
  | .addToBatch i => (s.calls i).bind fun
      | .adding _ job _ _ => some job
      | _ => none
  | _ => none

def lockRequest? : Action A → Option LockRequest
  | .lockBatch i => (s.calls i).bind fun
      | .closing _ batchId _ raisedFor (.lock now) => some ⟨batchId, raisedFor, now⟩
      | _ => none
  | _ => none

def delRequest? : Action A → Option (Snapshot A)
  | .del i => (s.calls i).bind Call.snapshot?
  | _ => none

/-- No call and no timer exists, as after a crash of all workers. -/
def Down : Prop := (∀ i, s.calls i = none) ∧ ∀ w b, s.timeouts w b = none

/-- No call is in flight and every timer has fired. -/
def Quiet : Prop :=
  (∀ i, s.calls i = none) ∧ ∀ w b t, s.timeouts w b = some t → t.fired = true

end State

/-- Failures: of one call, of a whole worker, or of a `MULTI` that is caught. -/
def Action.isFault {A : Type} : Action A → Bool
  | .delFail _ | .throw _ | .crash _ => true
  | _ => false

/-! ## Two stores and their correspondence -/

/-- The Lua scripts on the four Redis keys of a queue. -/
def scripts {A K : Type} [DecidableEq A] [DecidableEq K] (keys : BatchKeys K) :
    BatchStore A (Redis.Store K (Value A)) where
  addToBatch batchId startTimestamp row :=
    Effects.exec (addToBatch keys.metadata keys.data
      (.metadata ⟨batchId, startTimestamp, some 1, none⟩) (.jobId row.1) (.announcement row.2))
  lockBatch now interval :=
    Effects.exec
      (lockBatch keys.metadata keys.data keys.lockedMetadata keys.lockedData now interval)
  delLocked r :=
    Function.update (Function.update r keys.lockedMetadata none) keys.lockedData none
  metadata r := Redis.stringAt r keys.metadata |>.bind Value.metadata?
  rows r := Redis.flatten (Redis.fieldsAt r keys.data)
  lockedMetadata r := Redis.stringAt r keys.lockedMetadata |>.bind Value.metadata?
  lockedRows r := Redis.flatten (Redis.fieldsAt r keys.lockedData)

/-- The same interface over the abstract pair of batches. -/
def Batches.store {A : Type} : BatchStore A (Batches A) where
  addToBatch batchId startTimestamp row b :=
    (.ok (b.add batchId startTimestamp row).1, (b.add batchId startTimestamp row).2)
  lockBatch now interval b := (.ok (b.lock now interval).1, (b.lock now interval).2)
  delLocked := Batches.clear
  metadata b := b.current.map OpenBatch.metadata
  rows b := Redis.flatten (b.current.elim [] fun o => hashFields o.rows)
  lockedMetadata b := b.locked.map LockedBatch.lockedMetadata
  lockedRows b := Redis.flatten (b.locked.elim [] fun l => hashFields l.rows)

/-- `f` carries one store to the other and commutes with every operation. -/
structure BatchStore.Simulates {A R R' : Type} (store' : BatchStore A R') (store : BatchStore A R)
    (f : R → R') : Prop where
  addToBatch : ∀ b t row r, store'.addToBatch b t row (f r) =
    Prod.map id f (store.addToBatch b t row r)
  lockBatch : ∀ now interval r, store'.lockBatch now interval (f r) =
    Prod.map id f (store.lockBatch now interval r)
  delLocked : ∀ r, store'.delLocked (f r) = f (store.delLocked r)
  metadata : ∀ r, store'.metadata (f r) = store.metadata r
  rows : ∀ r, store'.rows (f r) = store.rows r
  lockedMetadata : ∀ r, store'.lockedMetadata (f r) = store.lockedMetadata r
  lockedRows : ∀ r, store'.lockedRows (f r) = store.lockedRows r

/-- The scripts on encoded batches do what the abstract operations do. -/
theorem scripts_simulates {A K : Type} [DecidableEq A] [DecidableEq K] (keys : BatchKeys K) :
    (scripts keys).Simulates (Batches.store (A := A)) (Batches.encode keys) where
  addToBatch b t row r := Batches.exec_addToBatch keys r b t row
  lockBatch now interval r := Batches.exec_lockBatch keys r now interval
  delLocked r := Batches.encode_clear keys r
  metadata r := by
    cases h : r.current <;>
      simp [scripts, Batches.store, Redis.stringAt, Batches.encode_metadata, h, Value.metadata?]
  rows r := by
    cases h : r.current <;>
      simp [scripts, Batches.store, Redis.fieldsAt, Batches.encode_data, h]
  lockedMetadata r := by
    cases h : r.locked <;>
      simp [scripts, Batches.store, Redis.stringAt, Batches.encode_lockedMetadata, h,
        Value.metadata?]
  lockedRows r := by
    cases h : r.locked <;>
      simp [scripts, Batches.store, Redis.fieldsAt, Batches.encode_lockedData, h]

section Simulation
variable {A R R' : Type} {store : BatchStore A R} {store' : BatchStore A R'} {f : R → R'}

/-- Replaces the Redis component of a state. -/
def State.mapRedis (f : R → R') (s : State A R) : State A R' :=
  ⟨f s.redis, s.batchQueue, s.calls, s.timeouts, s.clock, s.issued, s.accepted⟩

namespace State

theorem mapRedis_processReply (cfg : Config) (s : State A R) (i : CallId) (w : WorkerId)
    (b : BatchId) (n : ℤ) (joined : BatchId) :
    (s.mapRedis f).processReply cfg i w b n joined =
      (s.processReply cfg i w b n joined).mapRedis f := by
  unfold processReply
  split_ifs <;> rfl

theorem mapRedis_setupReply (cfg : Config) (s : State A R) (i : CallId) (w : WorkerId)
    (m : Option BatchMetadata) :
    (s.mapRedis f).setupReply cfg i w m = (s.setupReply cfg i w m).mapRedis f := by
  cases m with
  | none => rfl
  | some m =>
      dsimp only [setupReply, mapRedis]
      split_ifs <;> rfl

theorem mapRedis_receive (s : State A R) (i : CallId) (w : WorkerId) (b : BatchId)
    (timeout : Bool) (raisedFor : BatchId) (status : LockStatus) (batch : List (Value A))
    (metadata : Value A) :
    (s.mapRedis f).receive i w b timeout raisedFor status batch metadata =
      (s.receive i w b timeout raisedFor status batch metadata).mapRedis f := by
  unfold receive
  split <;> rfl

theorem mapRedis_lockReply (s : State A R) (i : CallId) (w : WorkerId) (b : BatchId)
    (timeout : Bool) (raisedFor : BatchId) (reply : LockReply (Value A)) :
    (s.mapRedis f).lockReply i w b timeout raisedFor reply =
      (s.lockReply i w b timeout raisedFor reply).mapRedis f := by
  cases reply with
  | noBatch => rfl
  | stillLocked => rfl
  | leftover batch metadata => exact mapRedis_receive ..
  | locked batch metadata => exact mapRedis_receive ..

theorem mapRedis_finish (s : State A R) (i : CallId) (w : WorkerId) (b : BatchId)
    (timeout : Bool) (raisedFor : BatchId) (status : LockStatus) :
    (s.mapRedis f).finish i w b timeout raisedFor status =
      (s.finish i w b timeout raisedFor status).mapRedis f := by
  cases status <;> rfl

end State

/-- A step of one system is a step of the other, if the stores agree on the script that
it runs. -/
theorem step_mapRedis_of {cfg : Config} {s : State A R} {a : Action A}
    (hadd : ∀ i w job b t, a = .addToBatch i → s.calls i = some (.adding w job b t) →
      store'.addToBatch b t (job.id, job.data) (f s.redis) =
        Prod.map id f (store.addToBatch b t (job.id, job.data) s.redis))
    (hlock : ∀ i w b timeout raisedFor now, a = .lockBatch i →
      s.calls i = some (.closing w b timeout raisedFor (.lock now)) →
        store'.lockBatch now lockExpireMs (f s.redis) =
          Prod.map id f (store.lockBatch now lockExpireMs s.redis))
    (hdel : store'.delLocked (f s.redis) = f (store.delLocked s.redis))
    (hmetadata : ∀ r, store'.metadata (f r) = store.metadata r) :
    step store' cfg (s.mapRedis f) a = (step store cfg s a).map (State.mapRedis f) := by
  have hcalls : (s.mapRedis f).calls = s.calls := rfl
  cases a with
  | tick ms => rfl
  | process w i job batchId =>
      by_cases hb : (s.calls i).isSome ∨ batchId ∈ s.issued
      · have hb' : ((s.mapRedis f).calls i).isSome ∨ batchId ∈ (s.mapRedis f).issued := hb
        simp only [step, if_pos hb, if_pos hb', Option.map_none]
      · have hb' : ¬(((s.mapRedis f).calls i).isSome ∨ batchId ∈ (s.mapRedis f).issued) := hb
        simp only [step, if_neg hb, if_neg hb']
        rfl
  | addToBatch i =>
      simp only [step, hcalls]
      split
      · next w job b t hcall =>
          rw [show (s.mapRedis f).redis = f s.redis from rfl, hadd i w job b t rfl hcall]
          cases hr : store.addToBatch b t (job.id, job.data) s.redis with
          | mk reply r =>
              cases reply with
              | error e => rfl
              | ok n =>
                  simp only [Prod.map_apply, id_eq, hmetadata]
                  rfl
      · rfl
  | addReply i =>
      simp only [step, hcalls]
      split
      · rw [State.mapRedis_processReply]; rfl
      · rfl
  | setupActiveBatchTimeout w i =>
      simp only [step, hcalls]
      split_ifs
      · rfl
      · simp only [State.mapRedis, hmetadata]; rfl
  | setupReply i =>
      simp only [step, hcalls]
      split
      · rw [State.mapRedis_setupReply]; rfl
      · rfl
  | fire w b i =>
      have htimeouts : (s.mapRedis f).timeouts = s.timeouts := rfl
      simp only [step, htimeouts]
      split
      · next t _ =>
          by_cases hb : (s.calls i).isSome ∨ t.fired ∨ s.clock < t.dueAt
          · have hb' : ((s.mapRedis f).calls i).isSome ∨ t.fired ∨
                (s.mapRedis f).clock < t.dueAt := hb
            rw [if_pos hb, if_pos hb', Option.map_none]
          · have hb' : ¬(((s.mapRedis f).calls i).isSome ∨ t.fired ∨
                (s.mapRedis f).clock < t.dueAt) := hb
            rw [if_neg hb, if_neg hb']
            rfl
      · rfl
  | lockBatch i =>
      simp only [step, hcalls]
      split
      · next w b timeout raisedFor now hcall =>
          rw [show (s.mapRedis f).redis = f s.redis from rfl,
            hlock i w b timeout raisedFor now rfl hcall]
          cases hr : store.lockBatch now lockExpireMs s.redis with
          | mk reply r =>
              cases reply with
              | error e => rfl
              | ok reply =>
                  exact congrArg some (State.mapRedis_lockReply { s with redis := r } ..)
      · rfl
  | add i =>
      simp only [step, hcalls]
      split <;> rfl
  | del i =>
      simp only [step, hcalls]
      split
      · simp only [State.mapRedis, hdel]; rfl
      · rfl
  | delReply i =>
      simp only [step, hcalls]
      split
      · exact congrArg some (State.mapRedis_finish (s.deleteTimeout _ _) ..)
      · rfl
  | delFail i =>
      simp only [step, hcalls]
      split
      · exact congrArg some (State.mapRedis_finish s ..)
      · exact congrArg some (State.mapRedis_finish s ..)
      · rfl
  | throw i =>
      simp only [step, hcalls]
      split_ifs <;> rfl
  | crash w => rfl

/-- Every step of one system is a step of the other. -/
theorem step_mapRedis (h : store'.Simulates store f) (cfg : Config) (s : State A R)
    (a : Action A) :
    step store' cfg (s.mapRedis f) a = (step store cfg s a).map (State.mapRedis f) :=
  step_mapRedis_of (fun _ _ job b t _ _ => h.addToBatch b t (job.id, job.data) s.redis)
    (fun _ _ _ _ _ now _ _ => h.lockBatch now lockExpireMs s.redis) (h.delLocked s.redis)
    h.metadata

end Simulation

/-! ## The running system -/

section Running
variable {A : Type}

/-- Nothing stored, nothing running. -/
def start : State A (Redis.Store String (Value A)) := initial fun _ => none

/-- The state with the batches written to the keys of the queue. -/
def State.encode (cfg : Config) (s : State A (Batches A)) :
    State A (Redis.Store String (Value A)) :=
  s.mapRedis (Batches.encode (batchKeys cfg.queueName.text))

theorem encode_initial (cfg : Config) : (initial .empty : State A (Batches A)).encode cfg = start :=
  congrArg initial (Batches.encode_empty _)

variable [DecidableEq A]

/-- The system as deployed: the scripts on the keys named after the queue. -/
def batchingStore (cfg : Config) : BatchStore A (Redis.Store String (Value A)) :=
  scripts (batchKeys cfg.queueName.text)

def batchingStep (cfg : Config) (s : State A (Redis.Store String (Value A))) (a : Action A) :
    Option (State A (Redis.Store String (Value A))) :=
  step (batchingStore cfg) cfg s a

theorem batchingStep_encode (cfg : Config) (s : State A (Batches A)) (a : Action A) :
    batchingStep cfg (s.encode cfg) a = (step Batches.store cfg s a).map (State.encode cfg) :=
  step_mapRedis (scripts_simulates _) cfg s a

/-- A schedule takes the deployed system to the encoding of the state to which
it takes the abstract batches. -/
theorem exists_of_run {cfg : Config} {as : List (Action A)}
    {s : State A (Redis.Store String (Value A))} (h : run (batchingStep cfg) start as = some s) :
    ∃ t, run (step Batches.store cfg) (initial .empty) as = some t ∧ t.encode cfg = s := by
  rw [← encode_initial cfg, run_map (batchingStep_encode cfg)] at h
  exact Option.map_eq_some_iff.mp h

/-- A condition on the steps of a schedule, read over the abstract batches. -/
theorem eachStep_encode {cfg : Config} {as : List (Action A)}
    {C : State A (Redis.Store String (Value A)) → Action A → Prop}
    (h : EachStep (batchingStep cfg) C start as) :
    EachStep (step Batches.store cfg) (fun t a => C (t.encode cfg) a) (initial .empty) as := by
  rw [← encode_initial cfg] at h
  exact h.of_map (batchingStep_encode cfg)

section Reads
variable (cfg : Config) (t : State A (Batches A))

/-! What the deployed store shows of an encoded state. -/

@[simp] theorem metadata_encode :
    (batchingStore cfg).metadata (t.encode cfg).redis = Batches.store.metadata t.redis :=
  (scripts_simulates _).metadata _

@[simp] theorem rows_encode :
    (batchingStore cfg).rows (t.encode cfg).redis = Batches.store.rows t.redis :=
  (scripts_simulates _).rows _

@[simp] theorem lockedMetadata_encode :
    (batchingStore cfg).lockedMetadata (t.encode cfg).redis =
      Batches.store.lockedMetadata t.redis :=
  (scripts_simulates _).lockedMetadata _

@[simp] theorem lockedRows_encode :
    (batchingStore cfg).lockedRows (t.encode cfg).redis = Batches.store.lockedRows t.redis :=
  (scripts_simulates _).lockedRows _

@[simp] theorem lockBatch_encode (now interval : ℕ) :
    ((batchingStore cfg).lockBatch now interval (t.encode cfg).redis).1 =
      (Batches.store.lockBatch now interval t.redis).1 :=
  congrArg Prod.fst ((scripts_simulates _).lockBatch now interval t.redis)

end Reads

end Running

end ContentPublishing.Batching
