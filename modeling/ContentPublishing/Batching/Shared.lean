import ContentPublishing.Announcer.Announce
import ContentPublishing.Batching.System
import ContentPublishing.Lib.Footprint
import ContentPublishing.Nonce.Service

/-!
# One Redis for all queues

The six announcement queues keep their batches in one Redis, next to what the other
services keep there. The scripts of a queue stay on its four keys, and no two purposes
have a key in common, so every queue behaves as if it had a Redis of its own.
-/
namespace ContentPublishing.Batching
open Announcer (schemaCacheKey schemaCacheKey_injective)
open Assets (getAssetDataKey_injective getAssetDataKey_ne getAssetMetadataKey
  getAssetMetadataKey_injective assetMetadataKeyPrefix)
open Dependencies (getAssetDataKey assetDataKeyPrefix)
open Nonce (getNonceKey chainNonceKey)
open Effects Redis Transition

/-! ## Scripts and their keys -/

section Scripts
variable {A K : Type}

def BatchKeys.toList (keys : BatchKeys K) : List K :=
  [keys.metadata, keys.data, keys.lockedMetadata, keys.lockedData]

theorem within_decodeMetadata (keys : List K) (raw : Value A) :
    Within keys (decodeMetadata raw) := by
  unfold decodeMetadata
  cases raw.metadata? with
  | none => exact .throw _
  | some metadata => exact .pure metadata

variable [DecidableEq K]

theorem within_lockBatch (keys : BatchKeys K) (now interval : ℕ) :
    Within keys.toList (lockBatch (A := A) keys.metadata keys.data keys.lockedMetadata
      keys.lockedData now interval) := by
  have hmetadata : keys.metadata ∈ keys.toList := by simp [BatchKeys.toList]
  have hdata : keys.data ∈ keys.toList := by simp [BatchKeys.toList]
  have hlockedMetadata : keys.lockedMetadata ∈ keys.toList := by simp [BatchKeys.toList]
  have hlockedData : keys.lockedData ∈ keys.toList := by simp [BatchKeys.toList]
  unfold lockBatch
  refine (Within.get hmetadata).bind fun raw => ?_
  cases raw with
  | none => exact .pure _
  | some raw =>
      refine (Within.get hlockedMetadata).bind fun previous => ?_
      cases previous with
      | some previous =>
          refine (within_decodeMetadata _ previous).bind fun metadata => ?_
          cases metadata.lockTimestamp with
          | none => exact .throw _
          | some lockTimestamp =>
              dsimp only
              split_ifs
              · exact (Within.hgetall hlockedData).bind fun _ => .pure _
              · exact .pure _
      | none =>
          refine (Within.rename hmetadata hlockedMetadata).bind fun _ =>
            (Within.rename hdata hlockedData).bind fun _ =>
              (Within.get hlockedMetadata).bind fun renamed => ?_
          cases renamed with
          | none => exact .throw _
          | some renamed =>
              exact (within_decodeMetadata _ renamed).bind fun _ =>
                (Within.set hlockedMetadata _).bind fun _ =>
                  (Within.hgetall hlockedData).bind fun _ => .pure _

variable [DecidableEq A]

theorem within_addToBatch (keys : BatchKeys K) (newMetadata newJobId newData : Value A) :
    Within keys.toList (addToBatch keys.metadata keys.data newMetadata newJobId newData) := by
  have hmetadata : keys.metadata ∈ keys.toList := by simp [BatchKeys.toList]
  have hdata : keys.data ∈ keys.toList := by simp [BatchKeys.toList]
  unfold addToBatch
  refine (Within.get hmetadata).bind fun raw => ?_
  cases raw with
  | none =>
      exact (Within.set hmetadata _).bind fun _ => (Within.hsetnx hdata _ _).bind fun _ => .pure _
  | some raw =>
      refine (within_decodeMetadata _ raw).bind fun metadata => ?_
      cases metadata.rowCount with
      | none => exact .pure _
      | some rowCount =>
          exact (Within.set hmetadata _).bind fun _ =>
            (Within.hsetnx hdata _ _).bind fun _ => .pure _

theorem within_delLocked (keys : BatchKeys K) (store : Store K (Value A)) :
    ((scripts keys).delLocked (restrict keys.toList store) =
      restrict keys.toList ((scripts keys).delLocked store)) ∧
    ∀ k ∉ keys.toList, (scripts keys).delLocked store k = store k := by
  have hdel : Within keys.toList (do
      del keys.lockedMetadata
      del keys.lockedData : Script K (Value A) Unit) :=
    (Within.del (by simp [BatchKeys.toList])).bind fun _ => .del (by simp [BatchKeys.toList])
  exact ⟨congrArg Prod.snd (hdel.exec_restrict store), hdel.frame store⟩

/-- The keys of the queue are enough for its scripts. -/
theorem scripts_restrict (keys : BatchKeys K) :
    (scripts keys).Simulates (scripts (A := A) keys) (restrict keys.toList) where
  addToBatch b t row := (within_addToBatch keys _ _ _).exec_restrict
  lockBatch now interval := (within_lockBatch keys now interval).exec_restrict
  delLocked store := (within_delLocked keys store).1
  metadata store := by
    simp only [scripts]
    rw [stringAt_restrict (by simp [BatchKeys.toList])]
  rows store := by
    simp only [scripts]
    rw [fieldsAt_restrict (by simp [BatchKeys.toList])]
  lockedMetadata store := by
    simp only [scripts]
    rw [stringAt_restrict (by simp [BatchKeys.toList])]
  lockedRows store := by
    simp only [scripts]
    rw [fieldsAt_restrict (by simp [BatchKeys.toList])]

end Scripts

/-! ## What a step does to Redis -/

section Frame
variable {A R : Type}

theorem State.redis_processReply (cfg : Config) (s : State A R) (i : CallId) (w : WorkerId)
    (batchId : BatchId) (rowCount : ℤ) (joined : BatchId) :
    (s.processReply cfg i w batchId rowCount joined).redis = s.redis := by
  unfold processReply
  split_ifs <;> rfl

theorem State.redis_setupReply (cfg : Config) (s : State A R) (i : CallId) (w : WorkerId)
    (metadata : Option BatchMetadata) : (s.setupReply cfg i w metadata).redis = s.redis := by
  cases metadata with
  | none => rfl
  | some metadata =>
      dsimp only [setupReply]
      split_ifs <;> rfl

theorem State.redis_receive (s : State A R) (i : CallId) (w : WorkerId) (batchId : BatchId)
    (timeout : Bool) (raisedFor : BatchId) (status : LockStatus) (batch : List (Value A))
    (metadata : Value A) :
    (s.receive i w batchId timeout raisedFor status batch metadata).redis = s.redis := by
  unfold receive
  split <;> rfl

theorem State.redis_lockReply (s : State A R) (i : CallId) (w : WorkerId) (batchId : BatchId)
    (timeout : Bool) (raisedFor : BatchId) (reply : LockReply (Value A)) :
    (s.lockReply i w batchId timeout raisedFor reply).redis = s.redis := by
  cases reply with
  | noBatch | stillLocked => rfl
  | leftover batch metadata | locked batch metadata => exact redis_receive ..

theorem State.redis_finish (s : State A R) (i : CallId) (w : WorkerId) (batchId : BatchId)
    (timeout : Bool) (raisedFor : BatchId) (status : LockStatus) :
    (s.finish i w batchId timeout raisedFor status).redis = s.redis := by
  cases status <;> rfl

/-- What the three operations keep, every step keeps. -/
theorem redis_of_step {store : BatchStore A R} {cfg : Config} {s t : State A R} {a : Action A}
    {P : R → R → Prop} (hrefl : ∀ r, P r r)
    (hadd : ∀ b startTimestamp row r, P r (store.addToBatch b startTimestamp row r).2)
    (hlock : ∀ now interval r, P r (store.lockBatch now interval r).2)
    (hdel : ∀ r, P r (store.delLocked r)) (hstep : step store cfg s a = some t) :
    P s.redis t.redis := by
  cases a with
  | tick ms =>
      cases hstep
      exact hrefl _
  | process w i job batchId =>
      dsimp only [step] at hstep
      split_ifs at hstep
      cases hstep
      exact hrefl _
  | addToBatch i =>
      dsimp only [step] at hstep
      split at hstep
      · next w job batchId startTimestamp _ =>
          have hkeeps := hadd batchId startTimestamp (job.id, job.data) s.redis
          split at hstep
          · next r heq =>
              cases hstep
              rwa [heq] at hkeeps
          · next r heq =>
              cases hstep
              rwa [heq] at hkeeps
      · cases hstep
  | addReply i =>
      dsimp only [step] at hstep
      split at hstep
      · cases hstep
        rw [State.redis_processReply]
        exact hrefl _
      · cases hstep
  | setupActiveBatchTimeout w i =>
      dsimp only [step] at hstep
      split_ifs at hstep
      cases hstep
      exact hrefl _
  | setupReply i =>
      dsimp only [step] at hstep
      split at hstep
      · cases hstep
        rw [State.redis_setupReply]
        exact hrefl _
      · cases hstep
  | fire w batchId i =>
      dsimp only [step] at hstep
      split at hstep
      · split_ifs at hstep
        cases hstep
        exact hrefl _
      · cases hstep
  | lockBatch i =>
      dsimp only [step] at hstep
      split at hstep
      · next w batchId timeout raisedFor now _ =>
          have hkeeps := hlock now lockExpireMs s.redis
          split at hstep
          · next reply r heq =>
              cases hstep
              rw [State.redis_lockReply]
              rwa [heq] at hkeeps
          · next r heq =>
              cases hstep
              rwa [heq] at hkeeps
      · cases hstep
  | add i =>
      dsimp only [step] at hstep
      split at hstep
      · cases hstep
        exact hrefl _
      · cases hstep
  | del i =>
      dsimp only [step] at hstep
      split at hstep
      · cases hstep
        exact hdel _
      · cases hstep
  | delReply i =>
      dsimp only [step] at hstep
      split at hstep
      · cases hstep
        rw [State.redis_finish]
        exact hrefl _
      · cases hstep
  | delFail i =>
      dsimp only [step] at hstep
      split at hstep
      · cases hstep
        rw [State.redis_finish]
        exact hrefl _
      · cases hstep
        rw [State.redis_finish]
        exact hrefl _
      · cases hstep
  | throw i =>
      dsimp only [step] at hstep
      split_ifs at hstep
      cases hstep
      exact hrefl _
  | crash w =>
      cases hstep
      exact hrefl _

/-- A queue leaves all keys but its own alone. -/
theorem frame_of_step [DecidableEq A] {cfg : Config} {a : Action A}
    {s t : State A (Redis.Store String (Value A))} (hstep : batchingStep cfg s a = some t)
    {k : String} (hk : k ∉ (batchKeys cfg.queueName.text).toList) : t.redis k = s.redis k :=
  redis_of_step (P := fun r r' => r' k = r k) (fun _ => rfl)
    (fun _ _ _ r => (within_addToBatch _ _ _ _).frame r k hk)
    (fun now interval r => (within_lockBatch _ now interval).frame r k hk)
    (fun r => (within_delLocked _ r).2 k hk) hstep

end Frame

/-! ## Keys -/

def epochCapacityKey (epoch : ℕ) : String := "epochCapacity:" ++ toString epoch

theorem epochCapacityKey_injective : Function.Injective epochCapacityKey := fun _ _ h =>
  schemaCacheKey_injective
    (congrArg ("schema:" ++ ·) ((String.append_right_inj _).mp h))

/-- What the other services keep. -/
inductive ServiceKey where
  | assetData (assetId : String)
  | assetMetadata (assetId : String)
  | nonce (suffix : String)
  | epochCapacity (epoch : ℕ)
  | schema (schemaId : ℕ)
  deriving DecidableEq, Repr

def ServiceKey.text : ServiceKey → String
  | .assetData assetId => getAssetDataKey assetId
  | .assetMetadata assetId => getAssetMetadataKey assetId
  | .nonce suffix => getNonceKey suffix
  | .epochCapacity epoch => epochCapacityKey epoch
  | .schema schemaId => schemaCacheKey schemaId

theorem text_queueName_injective : Function.Injective QueueName.text := by
  intro q q' h
  cases q <;> cases q' <;> first | rfl | exact absurd h (by decide)

/-- The keys of a queue end in its name. -/
theorem batchKeys_disjoint {q q' : QueueName} (hq : q ≠ q') {k : String}
    (h : k ∈ (batchKeys q.text).toList) : k ∉ (batchKeys q'.text).toList := by
  intro h'
  have htext : q.text ≠ q'.text := text_queueName_injective.ne hq
  simp only [BatchKeys.toList, batchKeys, List.mem_cons, List.not_mem_nil, or_false] at h h'
  rcases h with rfl | rfl | rfl | rfl <;> rcases h' with h' | h' | h' | h' <;>
    simp_all [getBatchMetadataKey, getBatchDataKey, getLockKey, ← String.toList_inj]

theorem ServiceKey.text_notMem (key : ServiceKey) (q : QueueName) :
    key.text ∉ (batchKeys q.text).toList := by
  cases key <;> simp [text, batchKeys, BatchKeys.toList, getBatchMetadataKey, getBatchDataKey,
    getLockKey, getAssetDataKey, assetDataKeyPrefix, getAssetMetadataKey, assetMetadataKeyPrefix,
    getNonceKey, chainNonceKey, epochCapacityKey, schemaCacheKey, ← String.toList_inj]

theorem ServiceKey.text_injective : Function.Injective ServiceKey.text := by
  intro key key' h
  -- seven characters tell the purposes apart
  have hkind := congrArg (fun text : String => text.toList.take 7) h
  cases key <;> cases key' <;> simp [text, getAssetDataKey, assetDataKeyPrefix,
    getAssetMetadataKey, assetMetadataKeyPrefix, getNonceKey, chainNonceKey, epochCapacityKey,
    schemaCacheKey] at hkind
  case assetData.assetData => exact congrArg _ (getAssetDataKey_injective h)
  case assetMetadata.assetMetadata => exact congrArg _ (getAssetMetadataKey_injective h)
  case nonce.nonce => exact congrArg _ ((String.append_right_inj _).mp h)
  case epochCapacity.epochCapacity => exact congrArg _ (epochCapacityKey_injective h)
  case schema.schema => exact congrArg _ (schemaCacheKey_injective h)

/-! ## The shared store -/

/-- One Redis, and of each queue all but its Redis. -/
structure Shared (A : Type) where
  redis : Redis.Store String (Value A)
  queues : QueueName → State A Unit

def Shared.start {A : Type} : Shared A := ⟨fun _ => none, fun _ => initial ()⟩

/-- A service of a queue takes a step, or another service writes or deletes. -/
inductive SharedAction (A : Type) where
  | queue (queueName : QueueName) (a : Action A)
  | write (key : ServiceKey) (entry : Option (Entry (Value A)))

/-- The part of a queue in what happens. -/
def SharedAction.at? {A : Type} (queueName : QueueName) : SharedAction A → Option (Action A)
  | .queue q a => if q = queueName then some a else none
  | .write _ _ => none

def SharedAction.written? {A : Type} (key : ServiceKey) :
    SharedAction A → Option (Option (Entry (Value A)))
  | .queue _ _ => none
  | .write k entry => if k = key then some entry else none

/-- What was last written for the key. -/
def lastWritten {A : Type} (as : List (SharedAction A)) (key : ServiceKey) :
    Option (Entry (Value A)) :=
  (as.filterMap (SharedAction.written? key)).getLast?.join

def Config.forQueue (cfg : Config) (queueName : QueueName) : Config :=
  { cfg with queueName := queueName }

section Shared
variable {A : Type}

/-- The queue with the whole of Redis. -/
def Shared.view (s : Shared A) (queueName : QueueName) :
    State A (Redis.Store String (Value A)) :=
  (s.queues queueName).mapRedis fun _ => s.redis

def Shared.put (s : Shared A) (queueName : QueueName)
    (t : State A (Redis.Store String (Value A))) : Shared A :=
  ⟨t.redis, Function.update s.queues queueName (t.mapRedis fun _ => ())⟩

/-- The queue with its own keys. -/
def Shared.alone (s : Shared A) (queueName : QueueName) :
    State A (Redis.Store String (Value A)) :=
  (s.view queueName).mapRedis (restrict (batchKeys queueName.text).toList)

variable [DecidableEq A] {cfg : Config} {s t : Shared A} {q : QueueName}
  {as : List (SharedAction A)}

def sharedStep (cfg : Config) (s : Shared A) : SharedAction A → Option (Shared A)
  | .queue queueName a =>
      (batchingStep (cfg.forQueue queueName) (s.view queueName) a).map (s.put queueName)
  | .write key entry => some { s with redis := Function.update s.redis key.text entry }

omit [DecidableEq A] in
@[simp] theorem view_put_self (u : State A (Redis.Store String (Value A))) :
    (s.put q u).view q = u := by
  simp [Shared.put, Shared.view, State.mapRedis]

omit [DecidableEq A] in
theorem alone_congr (hqueue : t.queues q = s.queues q)
    (hredis : ∀ k ∈ (batchKeys q.text).toList, t.redis k = s.redis k) :
    t.alone q = s.alone q := by
  simp only [Shared.alone, Shared.view, State.mapRedis, hqueue, restrict_eq_of_frame hredis]

/-- A step of the queue is a step it could take alone. -/
theorem alone_of_queue {a : Action A} (hstep : sharedStep cfg s (.queue q a) = some t) :
    batchingStep (cfg.forQueue q) (s.alone q) a = some (t.alone q) := by
  obtain ⟨u, hu, rfl⟩ := Option.map_eq_some_iff.mp hstep
  rw [Shared.alone, Shared.alone, view_put_self]
  exact (step_mapRedis (scripts_restrict _) _ (s.view q) a).trans
    (congrArg (Option.map _) hu)

/-- A step of another queue, or of another service, is not seen. -/
theorem alone_of_other {a : SharedAction A} (hstep : sharedStep cfg s a = some t)
    (ha : a.at? q = none) : t.alone q = s.alone q := by
  cases a with
  | queue q' a =>
      have hq : q' ≠ q := fun heq => by simp [SharedAction.at?, heq] at ha
      obtain ⟨u, hu, rfl⟩ := Option.map_eq_some_iff.mp hstep
      refine alone_congr (Function.update_of_ne hq.symm ..) fun k hk => ?_
      exact frame_of_step hu (batchKeys_disjoint hq.symm hk)
  | write key entry =>
      cases hstep
      refine alone_congr rfl fun k hk => Function.update_of_ne ?_ ..
      exact fun heq => key.text_notMem q (heq ▸ hk)

/-- What a service wrote last is what it finds. -/
theorem redis_of_step_service {a : SharedAction A} (hstep : sharedStep cfg s a = some t)
    (key : ServiceKey) :
    t.redis key.text = (a.written? key).getD (s.redis key.text) := by
  cases a with
  | queue q a =>
      obtain ⟨u, hu, rfl⟩ := Option.map_eq_some_iff.mp hstep
      exact frame_of_step hu (key.text_notMem q)
  | write k entry =>
      cases hstep
      by_cases hk : k = key
      · simp [SharedAction.written?, hk]
      · simp [SharedAction.written?, hk, (ServiceKey.text_injective.ne (Ne.symm hk))]

omit [DecidableEq A] in
theorem lastWritten_concat (as : List (SharedAction A)) (a : SharedAction A) (key : ServiceKey) :
    lastWritten (as ++ [a]) key = (a.written? key).getD (lastWritten as key) := by
  unfold lastWritten
  cases ha : a.written? key with
  | none => rw [List.filterMap_append, List.filterMap_cons_none ha, List.filterMap_nil,
      List.append_nil, Option.getD_none]
  | some entry =>
      rw [List.filterMap_append, List.filterMap_cons_some ha, List.filterMap_nil,
        List.getLast?_concat, Option.join_some, Option.getD_some]

omit [DecidableEq A] in
theorem alone_start (q : QueueName) : (Shared.start : Shared A).alone q = start := by
  refine congrArg initial (funext fun k => ?_)
  unfold restrict
  exact ite_self none

/-- All queues and all other services use one Redis. Each queue makes the run that it would
make alone, and every other service finds what was written last under its key. -/
theorem alone_of_run (h : run (sharedStep cfg) .start as = some s) :
    (∀ q, run (batchingStep (cfg.forQueue q)) start (as.filterMap (SharedAction.at? q)) =
      some (s.alone q)) ∧
    ∀ key : ServiceKey, s.redis key.text = lastWritten as key := by
  refine ⟨fun q => ?_, fun key => ?_⟩
  · rw [← alone_start q]
    refine run_filterMap (f := fun s => s.alone q) (fun s a t b hstep ha => ?_)
      (fun s a t => alone_of_other) h
    cases a with
    | queue q' a =>
        dsimp only [SharedAction.at?] at ha
        split_ifs at ha with hq
        cases ha
        cases hq
        exact alone_of_queue hstep
    | write key entry => cases ha
  · refine run_induction (C := fun _ _ => True)
      (I := fun as (s : Shared A) => s.redis key.text = lastWritten as key) rfl
      (fun as t a u _ ht _ hstep => ?_) (fun _ _ _ _ _ => trivial) h
    rw [redis_of_step_service hstep, ht, lastWritten_concat]

end Shared

/-! ## Two queues and a nonce -/

section Sample

/-- Two queues get a row each while a nonce is reserved. -/
def twoQueues : List (SharedAction ℕ) :=
  [.queue .replyQueue (.process 0 0 ⟨"a", 1⟩ "b"), .queue .updateQueue (.process 0 0 ⟨"c", 2⟩ "d"),
    .queue .replyQueue (.addToBatch 0), .write (.nonce "70") (some (.string (.jobId "1"))),
    .queue .updateQueue (.addToBatch 0), .queue .replyQueue (.addReply 0)]

theorem alone_twoQueues : ∃ s, run (sharedStep .sample) .start twoQueues = some s ∧
    (∀ q, run (batchingStep (Config.sample.forQueue q)) start
      (twoQueues.filterMap (SharedAction.at? q)) = some (s.alone q)) ∧
    ∀ key : ServiceKey, s.redis key.text = lastWritten twoQueues key := by
  obtain ⟨s, hs⟩ : ∃ s, run (sharedStep .sample) .start twoQueues = some s :=
    Option.isSome_iff_exists.mp (by decide +kernel)
  exact ⟨s, hs, alone_of_run hs⟩

end Sample

end ContentPublishing.Batching
