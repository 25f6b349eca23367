import ContentPublishing.Blockchain.Crawl
import ContentPublishing.Common.Constants
import ContentPublishing.Lib.Effects
import ContentPublishing.Lib.JobQueue
import Mathlib.Logic.Function.Basic

/-!
# The transaction status monitor

A receipt job looks for its transaction in the blocks after the one that was
final when the transaction was sent. The job records the capacity that the
transaction used, and decides whether the batch is published again.
-/
namespace ContentPublishing.Monitor
open Blockchain Effects

/-- A job of the receipt queue with the options and counters the processor reads. -/
structure ReceiptJob where
  data : ITxMonitorJob
  attempts : Option ℕ
  attemptsMade : ℕ
  deriving DecidableEq, Repr

/-- Redis and queue calls that may fail. -/
inductive ServiceCall where
  | getCapacity | setCapacity | pause | remove | add
  deriving DecidableEq, Repr

/-- What surrounds one attempt at a job. -/
structure Env extends Node where
  serviceFails : ServiceCall → Bool

/-- A node at block 1, and no call that fails. -/
def Env.sample (chain : Chain) : Env where
  chain := chain
  bestNumber := 1
  epochLength := 100
  fails _ := false
  serviceFails _ := false

inductive Failure where
  | rpc (call : RpcCall)
  | service (call : ServiceCall)
  | txNotFound (attemptsMade : ℕ)
  | unrecoverable (id : String) (error : RegistryError)
  deriving DecidableEq, Repr

/-- BullMQ does not try a job again after an `UnrecoverableError`. -/
def Failure.isUnrecoverable : Failure → Bool
  | .unrecoverable _ _ => true
  | _ => false

/-- `readded` is the history of completed `retryPublishJob` calls. -/
structure MonitorState where
  epochCapacity : ℕ → Option ℕ
  publishQueue : JobQueue String IPublisherJob
  paused : Bool
  readded : List IPublisherJob

def MonitorState.start : MonitorState := ⟨fun _ => none, .empty, false, []⟩

/-- Code that runs within one attempt. -/
abbrev Attempt := EStateM Failure MonitorState

def askNode {α : Type} (x : Except RpcCall α) : Attempt α := ask (x.mapError .rpc)

section Service
variable (env : Env)

/-- A Redis or queue call that changes the state unless it fails. -/
def serve (call : ServiceCall) (f : MonitorState → MonitorState) : Attempt Unit :=
  if env.serviceFails call then throw (.service call) else modify f

/-- The blocks from `previous` on, up to `current`, at most `left` of them. -/
def blocksFrom (current : ℕ) : ℕ → ℕ → List ℕ
  | 0, _ => []
  | left + 1, i => if i ≤ current then i :: blocksFrom current left (i + 1) else []

def successEvents : List SuccessEvent := [⟨"system", "ExtrinsicSuccess"⟩]

/-- The reads of `process`: the block list, and what the crawl makes of it. -/
def blockList (job : ReceiptJob) : Except RpcCall (List ℕ) := do
  let previous ← env.call (.getBlock job.data.lastFinalizedBlockHash)
    (env.chain.block job.data.lastFinalizedBlockHash).number
  let current ← env.call .getBestBlock env.bestNumber
  return blocksFrom current numberBlocksToCrawl previous

def txResult (job : ReceiptJob) : Except RpcCall TxResult := do
  crawlBlockListForTx env.toNode job.data.txHash (← blockList env job) successEvents

def retryPublishJob (publishJob : IPublisherJob) : Attempt Unit := do
  serve env .remove fun s => { s with publishQueue := s.publishQueue.remove publishJob.id }
  serve env .add fun s => { s with
    publishQueue := s.publishQueue.add publishJob.id publishJob
    readded := s.readded ++ [publishJob] }

/-- The capacity used so far is read, added to and written back. -/
def addEpochCapacity (epoch : ℕ) (capacityWithdrawn : ℕ) : Attempt Unit := do
  serve env .getCapacity id
  let savedCapacity := (← get).epochCapacity epoch
  let newEpochCapacity := savedCapacity.getD 0 + capacityWithdrawn
  let _ ← askNode (env.call .epochLength env.epochLength)
  serve env .setCapacity fun s => { s with
    epochCapacity := Function.update s.epochCapacity epoch (some newEpochCapacity) }

/-- Any failure is caught and logged. -/
def setEpochCapacity (epoch : ℕ) (capacityWithdrawn : ℕ) : Attempt Unit :=
  tryCatch (addEpochCapacity env epoch capacityWithdrawn) fun _ => pure ()

/-- What to do about a module error. -/
structure ErrorReport where
  pause : Bool
  retry : Bool
  deriving DecidableEq, Repr

def handleMessagesFailure (moduleError : RegistryError) : ErrorReport :=
  match moduleError.method with
  | "TooManyMessagesInBlock" => ⟨false, true⟩
  | "UnAuthorizedDelegate" | "InvalidMessageSourceAccount" | "InvalidSchemaId"
  | "ExceedsMaxMessagePayloadSizeBytes" | "InvalidPayloadLocation" | "UnsupportedCid"
  | "InvalidCid" => ⟨false, false⟩
  | _ => ⟨false, false⟩

/-- The branch for a transaction that is in none of the blocks. -/
def handleNotFound (job : ReceiptJob) : Attempt Unit :=
  if job.attemptsMade < job.attempts.getD 3 then throw (.txNotFound job.attemptsMade)
  else retryPublishJob env job.data.referencePublishJob

/-- The branch for a transaction that failed with a module error. -/
def handleError (job : ReceiptJob) (error : RegistryError) : Attempt Unit := do
  let errorReport := handleMessagesFailure error
  if errorReport.pause then serve env .pause fun s => { s with paused := true }
  if errorReport.retry then retryPublishJob env job.data.referencePublishJob
  else throw (.unrecoverable job.data.id error)

def process (job : ReceiptJob) : Attempt TxResult := do
  let txResult ← askNode (txResult env job)
  if txResult.found then
    setEpochCapacity env (txResult.capacityEpoch.getD 0) (txResult.capacityWithdrawn.getD 0)
    match txResult.error with
    | some error => handleError env job error
    | none => pure ()
  else handleNotFound env job
  return txResult

end Service

/-! ## One specification for each function -/

section Specification
variable {env : Env} {job : ReceiptJob} {s : MonitorState}

theorem keeps_serve {P : MonitorState → Prop} (call : ServiceCall)
    {f : MonitorState → MonitorState} (h : ∀ s, P s → P (f s)) : Keeps P (serve env call f) := by
  unfold serve
  split
  · exact keeps_throw _
  · exact keeps_modify h

/-- A call that returns has had its effect. -/
theorem of_exec_serve {call : ServiceCall} {f : MonitorState → MonitorState} {u : Unit}
    {t : MonitorState} (h : exec (serve env call f) s = (.ok u, t)) : f s = t := by
  unfold serve at h
  split at h
  · cases h
  · cases h
    rfl

/-- A retry throws, or the publish job is back in the queue. -/
theorem exec_retryPublishJob (publishJob : IPublisherJob) {u : Unit} {t : MonitorState}
    (h : exec (retryPublishJob env publishJob) s = (.ok u, t)) :
    t.readded = s.readded ++ [publishJob] ∧ (publishJob.id, publishJob) ∈ t.publishQueue.jobs := by
  obtain ⟨_, s', hremove, hadd⟩ := of_exec_bind h
  obtain rfl := of_exec_serve hremove
  obtain rfl := of_exec_serve hadd
  exact ⟨rfl, JobQueue.mem_jobs_add_remove ..⟩

theorem keeps_addEpochCapacity {P : MonitorState → Prop} (epoch c : ℕ)
    (h : ∀ s f, P s → P { s with epochCapacity := f }) :
    Keeps P (addEpochCapacity env epoch c) :=
  keeps_bind (keeps_serve _ fun _ hs => hs) fun _ => keeps_bind keeps_get fun _ =>
    keeps_bind (keeps_ask _) fun _ => keeps_serve _ fun s hs => h s _ hs

/-- What no queue operation changes is kept by both branches of `process`. -/
theorem keeps_retryPublishJob {P : MonitorState → Prop} (publishJob : IPublisherJob)
    (h : ∀ s q p r, P s → P { s with publishQueue := q, paused := p, readded := r }) :
    Keeps P (retryPublishJob env publishJob) :=
  keeps_bind (keeps_serve _ fun s => h s _ _ _) fun _ => keeps_serve _ fun s => h s _ _ _

theorem keeps_handleNotFound {P : MonitorState → Prop}
    (h : ∀ s q p r, P s → P { s with publishQueue := q, paused := p, readded := r }) :
    Keeps P (handleNotFound env job) := by
  unfold handleNotFound
  split
  · exact keeps_throw _
  · exact keeps_retryPublishJob _ h

theorem keeps_handleError {P : MonitorState → Prop} (error : RegistryError)
    (h : ∀ s q p r, P s → P { s with publishQueue := q, paused := p, readded := r }) :
    Keeps P (handleError env job error) := by
  have hrest : Keeps P (if (handleMessagesFailure error).retry then
      retryPublishJob env job.data.referencePublishJob
      else throw (.unrecoverable job.data.id error)) := by
    split
    · exact keeps_retryPublishJob _ h
    · exact keeps_throw _
  unfold handleError
  dsimp only
  split
  · exact keeps_bind (keeps_serve _ fun s => h s _ _ _) fun _ => hrest
  · exact hrest

/-- Where the transaction of a job is found, if all answers are received. -/
def locateTx (env : Env) (job : ReceiptJob) : Except RpcCall (Option TxLocation) := do
  locate env.toNode job.data.txHash (← blockList env job)

theorem txResult_eq : txResult env job = (locateTx env job).map fun loc =>
    loc.elim .notFound (receipt env.toNode successEvents) := by
  unfold txResult locateTx
  cases blockList env job with
  | error c => rfl
  | ok ns => exact crawlBlockListForTx_eq ns

theorem exec_process_error {c : RpcCall} (h : locateTx env job = .error c) :
    exec (process env job) s = (.error (.rpc c), s) := by
  unfold process
  rw [txResult_eq, h]
  rfl

theorem exec_process_none (h : locateTx env job = .ok none) :
    exec (process env job) s = exec (do handleNotFound env job; return .notFound) s := by
  unfold process
  rw [txResult_eq, h]
  rfl

/-- A transaction that was found: nothing is added to the capacity of its epoch. -/
theorem exec_process_some {loc : TxLocation} (h : locateTx env job = .ok (some loc)) :
    exec (process env job) s =
      exec (do
        match (receipt env.toNode successEvents loc).error with
        | some error => handleError env job error
        | none => pure ()
        return receipt env.toNode successEvents loc)
        (exec (addEpochCapacity env loc.capacityEpoch 0) s).2 := by
  have hset : exec (setEpochCapacity env loc.capacityEpoch 0) s =
      (.ok (), (exec (addEpochCapacity env loc.capacityEpoch 0) s).2) :=
    exec_tryCatch_pure _ _
  unfold process
  rw [txResult_eq, h]
  exact exec_bind _ hset

end Specification

end ContentPublishing.Monitor
