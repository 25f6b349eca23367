import ContentPublishing.Common.Constants
import ContentPublishing.Common.Interfaces
import ContentPublishing.Lib.BigInt
import ContentPublishing.Lib.Effects
import ContentPublishing.Lib.JobQueue
import Mathlib.Data.List.Infix
import Mathlib.Logic.Function.Basic

/-!
# Publishing batches while there is capacity

A publish job sends one transaction, hands it over to the receipt queue and then
checks the capacity that is left. The check reads the chain and the record of the
receipt jobs, and raises one of two events, whose handlers pause the publish queue
and keep a timer for the next epoch. This is the code of one instance of the service.
-/
namespace ContentPublishing.Publisher
open Effects

/-! ## What surrounds the service -/

structure CapacityDetails where
  remainingCapacity : ℕ
  totalCapacityIssued : ℕ
  deriving DecidableEq, Repr

/-- What the chain answers to the queries of one `capacityInfo` call. -/
structure CapacityReadings where
  epochStart : ℕ
  epochLength : ℕ
  capacityLedger : Option CapacityDetails
  number : ℕ
  currentEpoch : ℕ
  deriving DecidableEq, Repr

inductive CapacityQuery where
  | currentEpochInfo | epochLength | capacityLedger | number | currentEpoch
  deriving DecidableEq, Repr

/-- The two functions that call `capacityInfo`. -/
inductive Caller where
  | checkCapacity | handleCapacityExhausted
  deriving DecidableEq, Repr

/-- Everything that may throw while one job is processed. -/
inductive Call where
  | getLatestFinalizedBlockHash
  | createKeys | createExtrinsicCall | createExtrinsic | getNextNonce | signAndSend
  | addReceiptJob
  | capacityInfo (caller : Caller) (query : CapacityQuery)
  | getUsedCapacity
  | pause
  deriving DecidableEq, Repr

/-- What is thrown: an `Error` with its message, or any other value. The last three
are thrown by `BigInt` and by the scheduler registry. -/
inductive Thrown where
  | error (message : String)
  | other
  | notABigInt
  | duplicateTimeout
  | noSuchTimeout
  deriving DecidableEq, Repr

/-- `e.message.includes(…)`, for an `Error`. -/
def Thrown.includes (pattern : String) : Thrown → Bool
  | .error message => decide (pattern.toList <:+: message.toList)
  | _ => false

/-- The answers of one attempt, and which calls fail instead. -/
structure Env where
  finalizedHead : Hash
  txHash : Option Hash
  capacity : Caller → CapacityReadings
  usedCapacity : ℕ → Option ℕ
  fails : Call → Option Thrown

def Env.call {α : Type} (env : Env) (c : Call) (answer : α) : Except Thrown α :=
  match env.fails c with
  | some e => .error e
  | none => .ok answer

inductive CapacityLimitType where
  | percentage | amount
  deriving DecidableEq, Repr

/-- The configured value is a JSON number or a text that reads as one. -/
inductive LimitValue where
  | number (value : ℚ)
  | text (value : String)
  deriving DecidableEq

structure ICapacityLimit where
  type : CapacityLimitType
  value : LimitValue
  deriving DecidableEq

def ICapacityLimit.sample : ICapacityLimit := ⟨.percentage, .number 80⟩

/-- Everything succeeds, and the provider has this much capacity left. -/
def Env.sample (remainingCapacity : ℕ) : Env where
  finalizedHead := "head"
  txHash := some "tx"
  capacity _ := ⟨0, 100, some ⟨remainingCapacity, 1000⟩, 10, 1⟩
  usedCapacity _ := none
  fails _ := none

/-! ## What the service keeps -/

structure Timer where
  id : ℕ
  delay : ℕ
  deriving DecidableEq, Repr

/-- A receipt job with the options it is added with. -/
structure ReceiptEntry where
  data : ITxMonitorJob
  delay : ℕ
  attempts : ℕ
  backoffDelay : ℕ
  deriving DecidableEq, Repr

/-- The history of `ipfsPublisher.publish`. -/
inductive Submission where
  | called (job : IPublisherJob)
  | returned (job : IPublisherJob) (txHash : Hash)
  deriving DecidableEq, Repr

/-- `emitted` counts the events whose handlers were started without being awaited. -/
structure PublisherState where
  capacityExhausted : Bool
  queuePaused : Bool
  receiptQueue : JobQueue String ReceiptEntry
  timeouts : String → Option ℕ
  pending : List Timer
  created : ℕ
  emitted : ℕ
  submissions : List Submission

def PublisherState.start : PublisherState where
  capacityExhausted := false
  queuePaused := false
  receiptQueue := .empty
  timeouts _ := none
  pending := []
  created := 0
  emitted := 0
  submissions := []

abbrev Action := EStateM Thrown PublisherState

/-! ## Timers -/

def setTimeout (ms : ℤ) : Action ℕ := do
  let s ← get
  modify fun s => { s with
    pending := s.pending ++ [⟨s.created, setTimeoutDelay ms⟩]
    created := s.created + 1 }
  return s.created

def addTimeout (name : String) (timer : ℕ) : Action Unit := do
  let s ← get
  if (s.timeouts name).isSome then throw .duplicateTimeout
  else modify fun s => { s with timeouts := Function.update s.timeouts name (some timer) }

/-- The registry forgets the timer and clears it. -/
def deleteTimeout (name : String) : Action Unit := do
  let s ← get
  match s.timeouts name with
  | none => throw .noSuchTimeout
  | some timer => modify fun s => { s with
      pending := s.pending.filter (·.id ≠ timer)
      timeouts := Function.update s.timeouts name none }

/-! ## Capacity -/

structure CapacityInfo where
  currentEpoch : ℕ
  currentBlockNumber : ℕ
  nextEpochStart : ℕ
  remainingCapacity : ℕ
  totalCapacityIssued : ℕ
  deriving DecidableEq, Repr

def LimitValue.toBigInt : LimitValue → Option ℤ
  | .number value => BigInt.ofNumber value
  | .text value => BigInt.ofText value

/-- `used >= value` in JavaScript; a text that is no integer compares false. -/
def LimitValue.reachedBy (used : ℕ) : LimitValue → Bool
  | .number value => value ≤ used
  | .text value =>
      match BigInt.ofText value with
      | none => false
      | some n => n ≤ used

/-- The verdict of a check; `none` if the limit does not convert. -/
def outOfCapacity (capacityLimit : ICapacityLimit) (capacity : CapacityInfo)
    (epochUsedCapacity : ℕ) : Option Bool :=
  if capacity.remainingCapacity ≤ 0 then some true
  else
    match capacityLimit.type with
    | .percentage =>
        capacityLimit.value.toBigInt.map fun capacityLimitPercentage =>
          let capacityLimitThreshold : ℤ :=
            Int.tdiv (capacity.totalCapacityIssued * capacityLimitPercentage) 100
          decide (capacityLimitThreshold ≤ epochUsedCapacity)
    | .amount => some (capacityLimit.value.reachedBy epochUsedCapacity)

section Service
variable (capacityLimit : ICapacityLimit) (env : Env)

def capacityInfo (caller : Caller) : Except Thrown CapacityInfo := do
  let readings := env.capacity caller
  let epochStart ← env.call (.capacityInfo caller .currentEpochInfo) readings.epochStart
  let epochBlockLength ← env.call (.capacityInfo caller .epochLength) readings.epochLength
  let capacityDetailsOption ←
    env.call (.capacityInfo caller .capacityLedger) readings.capacityLedger
  let details := capacityDetailsOption.getD ⟨0, 0⟩
  let currentBlock ← env.call (.capacityInfo caller .number) readings.number
  let currentEpoch ← env.call (.capacityInfo caller .currentEpoch) readings.currentEpoch
  return {
    currentEpoch := currentEpoch
    currentBlockNumber := currentBlock
    nextEpochStart := epochStart + epochBlockLength
    remainingCapacity := details.remainingCapacity
    totalCapacityIssued := details.totalCapacityIssued }

/-- The second half of `handleCapacityExhausted`: a timeout for the next epoch is
created, and registered unless there is one. -/
def scheduleCheck : Action Unit := do
  let capacity ← ask (capacityInfo env .handleCapacityExhausted)
  let blocksRemaining : ℤ := capacity.nextEpochStart - capacity.currentBlockNumber
  tryCatch
    (do
      let timer ← setTimeout (blocksRemaining * secondsPerBlock * millisecondsPerSecond)
      addTimeout capacityEpochTimeoutName timer)
    fun _ => pure ()

def handleCapacityExhausted : Action Unit := do
  modify fun s => { s with capacityExhausted := true }
  ask (env.call .pause ())
  modify fun s => { s with queuePaused := true }
  scheduleCheck env

def handleCapacityRefilled : Action Unit := do
  modify fun s => { s with capacityExhausted := false }
  tryCatch (deleteTimeout capacityEpochTimeoutName) fun _ => pure ()

/-- The part of `checkCapacity` that comes to the verdict. -/
def verdict : Except Thrown Bool := do
  let capacity ← capacityInfo env .checkCapacity
  let used ← env.call .getUsedCapacity (env.usedCapacity capacity.currentEpoch)
  match outOfCapacity capacityLimit capacity (used.getD 0) with
  | none => throw .notABigInt
  | some outOfCapacity => return outOfCapacity

/-- The handler of an event is awaited. What it throws is logged and goes no further. -/
def emitAsync (handler : Action Unit) : Action Unit := tryCatch handler fun _ => pure ()

/-- What the event of a verdict does. -/
def raise (exhausted : Bool) : Action Unit :=
  emitAsync (if exhausted then handleCapacityExhausted env else handleCapacityRefilled)

def checkCapacity : Action Unit := do
  let outOfCapacity ← ask (verdict capacityLimit env)
  raise env outOfCapacity

def onApplicationBootstrap : Action Unit := checkCapacity capacityLimit env

/-! ## Publishing -/

def processSingleBatch : Except Thrown Hash := do
  env.call .createExtrinsic ()
  env.call .getNextNonce ()
  match ← env.call .signAndSend env.txHash with
  | none => throw (.error "Tx hash is undefined")
  | some txHash => return txHash

/-- The steps of `publish`, apart from its history. -/
def send : Except Thrown Hash := do
  env.call .createKeys ()
  env.call .createExtrinsicCall ()
  processSingleBatch env

def publish (message : IPublisherJob) : Action Hash := do
  modify fun s => { s with submissions := s.submissions ++ [.called message] }
  let txHash ← ask (send env)
  modify fun s => { s with submissions := s.submissions ++ [.returned message txHash] }
  return txHash

def receiptEntry (jobData : IPublisherJob) (txHash lastFinalizedBlockHash : Hash) :
    ReceiptEntry where
  data := ⟨txHash, txHash, lastFinalizedBlockHash, jobData⟩
  delay := 1 * secondsPerBlock * millisecondsPerSecond
  attempts := 4
  backoffDelay := 3 * secondsPerBlock * millisecondsPerSecond

def sendJobToTxReceiptQueue (jobData : IPublisherJob) (txHash lastFinalizedBlockHash : Hash) :
    Action Unit := do
  ask (env.call .addReceiptJob ())
  let entry := receiptEntry jobData txHash lastFinalizedBlockHash
  modify fun s => { s with receiptQueue := s.receiptQueue.add entry.data.id entry }

structure PublishResult where
  success : Bool
  deriving DecidableEq, Repr

/-- What is tried first, up to the entry in the receipt queue. -/
def submit (job : IPublisherJob) : Action PublishResult := do
  let currentBlockHash ← ask (env.call .getLatestFinalizedBlockHash env.finalizedHead)
  let txHash ← publish env job
  sendJobToTxReceiptQueue env job txHash currentBlockHash
  return { success := true }

/-- The event of a fee failure is raised without waiting for its handler. -/
def process (job : IPublisherJob) : Action PublishResult :=
  tryFinally
    (tryCatch (submit env job) fun e => do
      if e.includes "Inability to pay some fees" then
        modify fun s => { s with emitted := s.emitted + 1 }
      throw e)
    (checkCapacity capacityLimit env)

end Service

/-! ## One specification for each function -/

section Outcome
variable {capacityLimit : ICapacityLimit} {env : Env}

theorem exec_checkCapacity {exhausted : Bool} (h : verdict capacityLimit env = .ok exhausted)
    (s : PublisherState) :
    exec (checkCapacity capacityLimit env) s = exec (raise env exhausted) s :=
  exec_bind _ ((exec_ask _ s).trans (congrArg (·, s) h))

/-- A handler leaves what it did before it threw. -/
theorem exec_raise (exhausted : Bool) (s : PublisherState) : exec (raise env exhausted) s =
    (.ok (), (exec (if exhausted then handleCapacityExhausted env else handleCapacityRefilled)
      s).2) :=
  exec_tryCatch_pure _ s

theorem exec_checkCapacity_error {e : Thrown} (h : verdict capacityLimit env = .error e)
    (s : PublisherState) : exec (checkCapacity capacityLimit env) s = (.error e, s) :=
  exec_bind_error _ ((exec_ask _ s).trans (congrArg (·, s) h))

/-- A queue that can be paused is, before the chain is asked for the next epoch. -/
theorem exec_handleCapacityExhausted (h : env.fails .pause = none) (s : PublisherState) :
    exec (handleCapacityExhausted env) s = exec (scheduleCheck env)
      { s with capacityExhausted := true, queuePaused := true } := by
  have hpause : ∀ t : PublisherState, exec (ask (env.call .pause ())) t = (.ok (), t) := by
    intro t
    rw [exec_ask, Env.call, h]
  unfold handleCapacityExhausted
  rw [exec_bind _ (exec_modify _ _), exec_bind _ (hpause _), exec_bind _ (exec_modify _ _)]

/-- The call of `publish` is on record whether it returns or not. -/
theorem exec_publish (message : IPublisherJob) (s : PublisherState) :
    exec (publish env message) s =
      match send env with
      | .error e => (.error e, { s with submissions := s.submissions ++ [.called message] })
      | .ok txHash => (.ok txHash, { s with
          submissions := s.submissions ++ [.called message] ++ [.returned message txHash] }) := by
  unfold publish
  rw [exec_bind _ (exec_modify _ _)]
  cases send env with
  | error e => rw [exec_bind_error _ (exec_ask _ _)]
  | ok txHash => rw [exec_bind _ (exec_ask _ _), exec_bind _ (exec_modify _ _), exec_pure]

end Outcome

section Keeping
variable {capacityLimit : ICapacityLimit} {env : Env} {P : PublisherState → Prop}

/-- What no operation on timers changes. -/
def OfNoTimer (P : PublisherState → Prop) : Prop :=
  ∀ s timeouts pending created, P s → P { s with
    timeouts := timeouts
    pending := pending
    created := created }

/-- What no event handler changes, apart from the queue being paused. -/
def OfNoHandler (P : PublisherState → Prop) : Prop :=
  ∀ s exhausted timeouts pending created, P s → P { s with
    capacityExhausted := exhausted
    timeouts := timeouts
    pending := pending
    created := created }

theorem OfNoHandler.ofNoTimer (h : OfNoHandler P) : OfNoTimer P :=
  fun s => h s s.capacityExhausted

theorem keeps_setTimeout (h : OfNoTimer P) (ms : ℤ) : Keeps P (setTimeout ms) :=
  keeps_bind keeps_get fun _ => keeps_bind (keeps_modify fun s => h s _ _ _) fun _ => keeps_pure _

theorem keeps_addTimeout (h : OfNoTimer P) (name : String) (timer : ℕ) :
    Keeps P (addTimeout name timer) := by
  refine keeps_bind keeps_get fun s => ?_
  split
  · exact keeps_throw _
  · exact keeps_modify fun s => h s _ _ _

theorem keeps_deleteTimeout (h : OfNoTimer P) (name : String) : Keeps P (deleteTimeout name) := by
  refine keeps_bind keeps_get fun s => ?_
  split
  · exact keeps_throw _
  · exact keeps_modify fun s => h s _ _ _

theorem keeps_handleCapacityRefilled (h : OfNoHandler P) : Keeps P handleCapacityRefilled :=
  keeps_bind (keeps_modify fun s => h s _ _ _ _) fun _ =>
    keeps_tryCatch (keeps_deleteTimeout h.ofNoTimer _) fun _ => keeps_pure _

theorem keeps_scheduleCheck (h : OfNoTimer P) : Keeps P (scheduleCheck env) :=
  keeps_bind (keeps_ask _) fun _ => keeps_tryCatch
    (keeps_bind (keeps_setTimeout h _) fun _ => keeps_addTimeout h _ _) fun _ => keeps_pure _

theorem keeps_handleCapacityExhausted (h : OfNoHandler P)
    (hpause : ∀ s, P s → P { s with queuePaused := true }) :
    Keeps P (handleCapacityExhausted env) :=
  keeps_bind (keeps_modify fun s => h s _ _ _ _) fun _ => keeps_bind (keeps_ask _) fun _ =>
    keeps_bind (keeps_modify hpause) fun _ => keeps_scheduleCheck h.ofNoTimer

theorem keeps_checkCapacity (h : OfNoHandler P)
    (hpause : ∀ s, P s → P { s with queuePaused := true }) :
    Keeps P (checkCapacity capacityLimit env) := by
  refine keeps_bind (keeps_ask _) fun outOfCapacity =>
    keeps_tryCatch ?_ fun _ => keeps_pure _
  split
  · exact keeps_handleCapacityExhausted h hpause
  · exact keeps_handleCapacityRefilled h

end Keeping

end ContentPublishing.Publisher
