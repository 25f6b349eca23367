import ContentPublishing.Common.Interfaces
import Mathlib.Algebra.BigOperators.Group.List.Basic

/-!
# Looking for a transaction on the chain

A node answers from a chain and may fail to answer any call. The crawl reads a
list of blocks and reports the first one that contains the transaction, with
what the events of that transaction say. It first finds out where the
transaction is (`locate`) and then reads its events (`receipt`).
-/
namespace ContentPublishing.Blockchain

structure ModuleError where
  index : ℕ
  error : ℕ
  deriving DecidableEq, Repr

/-- Why an extrinsic failed; only the `module` variant carries a module error. -/
inductive DispatchError where
  | other | cannotLookup | badOrigin
  | module (error : ModuleError)
  | consumerRemaining | noProviders | tooManyConsumers
  | token (error : String)
  | arithmetic (error : String)
  | transactional (error : String)
  | exhausted | corruption | unavailable | rootNotAllowed
  deriving DecidableEq, Repr

/-- `asModule` throws for every other variant. -/
def DispatchError.asModule : DispatchError → Option ModuleError
  | .module error => some error
  | _ => none

structure RegistryError where
  pallet : String
  method : String
  deriving DecidableEq, Repr

inductive Event where
  | capacityWithdrawn (amount : ℕ)
  | extrinsicSuccess
  | extrinsicFailed (dispatchError : DispatchError)
  | other (pallet method : String)
  deriving DecidableEq, Repr

def Event.pallet : Event → String
  | .capacityWithdrawn _ => "capacity"
  | .extrinsicSuccess => "system"
  | .extrinsicFailed _ => "system"
  | .other pallet _ => pallet

def Event.method : Event → String
  | .capacityWithdrawn _ => "CapacityWithdrawn"
  | .extrinsicSuccess => "ExtrinsicSuccess"
  | .extrinsicFailed _ => "ExtrinsicFailed"
  | .other _ method => method

inductive Phase where
  | applyExtrinsic (index : ℕ)
  | finalization
  | initialization
  deriving DecidableEq, Repr

structure EventRecord where
  phase : Phase
  event : Event
  deriving DecidableEq, Repr

/-- A block, by its number and the hashes of its extrinsics. -/
structure Block where
  number : ℕ
  extrinsics : List Hash
  deriving DecidableEq, Repr

structure Chain where
  blockHash : ℕ → Hash
  block : Hash → Block
  currentEpoch : Hash → ℕ
  events : Hash → List EventRecord
  findMetaError : ModuleError → Option RegistryError

/-- Every block holds one extrinsic, which leaves these events. -/
def Chain.sample (txHash : Hash) (events : List Event) : Chain where
  blockHash _ := "block"
  block _ := ⟨1, [txHash]⟩
  currentEpoch _ := 1
  events _ := events.map (EventRecord.mk (.applyExtrinsic 0))
  findMetaError _ := none

inductive RpcCall where
  | getBlockHash (number : ℕ)
  | getBlock (hash : Hash)
  | getBestBlock
  | at (hash : Hash)
  | currentEpoch (hash : Hash)
  | events (hash : Hash)
  | epochLength
  deriving DecidableEq, Repr

/-- What a node answers while one job is processed, and which calls fail. -/
structure Node where
  chain : Chain
  bestNumber : ℕ
  epochLength : ℕ
  fails : RpcCall → Bool

def Node.call {α : Type} (node : Node) (c : RpcCall) (answer : α) : Except RpcCall α :=
  if node.fails c then .error c else .ok answer

/-- An event that stands for the success of the transaction. -/
structure SuccessEvent where
  pallet : String
  event : String
  deriving DecidableEq, Repr

/-- What the event loop has found out so far. -/
structure EventSummary where
  isTxSuccess : Bool
  totalBlockCapacity : ℕ
  txError : Option RegistryError
  deriving DecidableEq, Repr

def EventSummary.empty : EventSummary := ⟨false, 0, none⟩

/-- The amount an event withdraws. -/
def Event.withdrawn : Event → ℕ
  | .capacityWithdrawn amount => amount
  | _ => 0

/-- The first two checks made for an event. -/
def EventSummary.note (successEvents : List SuccessEvent) (s : EventSummary) (event : Event) :
    EventSummary where
  isTxSuccess := s.isTxSuccess ||
    successEvents.any fun e => e.pallet == event.pallet && e.event == event.method
  totalBlockCapacity := s.totalBlockCapacity + event.withdrawn
  txError := s.txError

/-- The module error of a failed extrinsic; decoding may throw. -/
def Chain.decodeError (chain : Chain) (dispatchError : DispatchError) : Option RegistryError :=
  dispatchError.asModule.bind chain.findMetaError

/-- The event loop. An exception leaves the loop and is only logged. -/
def readEvents (chain : Chain) (successEvents : List SuccessEvent) :
    EventSummary → List Event → EventSummary
  | s, [] => s
  | s, event :: events =>
      match event with
      | .extrinsicFailed dispatchError =>
          match chain.decodeError dispatchError with
          | none => s.note successEvents event
          | some moduleError =>
              readEvents chain successEvents
                { s.note successEvents event with txError := some moduleError } events
      | _ => readEvents chain successEvents (s.note successEvents event) events

/-- The result record. `capacityWithdrawn` is the declared field, `capacityWithDrawn`
the one that the crawl fills in. -/
structure TxResult where
  found : Bool
  success : Bool
  blockHash : Option Hash := none
  capacityEpoch : Option ℕ := none
  capacityWithdrawn : Option ℕ := none
  capacityWithDrawn : Option ℕ := none
  error : Option RegistryError := none
  deriving DecidableEq, Repr

def TxResult.notFound : TxResult := { found := false, success := false }

/-- Where a transaction was executed. -/
structure TxLocation where
  blockHash : Hash
  txIndex : ℕ
  capacityEpoch : ℕ
  deriving DecidableEq, Repr

/-- The events that the block attributes to the transaction. -/
def Chain.txEvents (chain : Chain) (loc : TxLocation) : List Event :=
  ((chain.events loc.blockHash).filter fun record =>
    record.phase == .applyExtrinsic loc.txIndex).map EventRecord.event

section Crawl
variable (node : Node) (txHash : Hash)

/-- The reads for one block up to the epoch of the transaction. -/
def findTx (blockNumber : ℕ) : Except RpcCall (Option TxLocation) := do
  let blockHash ← node.call (.getBlockHash blockNumber) (node.chain.blockHash blockNumber)
  let block ← node.call (.getBlock blockHash) (node.chain.block blockHash)
  match block.extrinsics.findIdx? (· == txHash) with
  | none => return none
  | some txIndex =>
      node.call (.at blockHash) ()
      let capacityEpoch ← node.call (.currentEpoch blockHash) (node.chain.currentEpoch blockHash)
      return some ⟨blockHash, txIndex, capacityEpoch⟩

/-- The receipt of a transaction that was found. A failing events query is caught. -/
def receipt (successEvents : List SuccessEvent) (loc : TxLocation) : TxResult :=
  let summary : EventSummary :=
    match node.call (.events loc.blockHash) (node.chain.txEvents loc) with
    | .error _ => .empty
    | .ok events => readEvents node.chain successEvents .empty events
  { found := true
    success := summary.isTxSuccess
    blockHash := some loc.blockHash
    capacityEpoch := some loc.capacityEpoch
    capacityWithDrawn := some summary.totalBlockCapacity
    error := summary.txError }

def crawlBlock (successEvents : List SuccessEvent) (blockNumber : ℕ) :
    Except RpcCall TxResult := do
  match ← findTx node txHash blockNumber with
  | none => return .notFound
  | some loc => return receipt node successEvents loc

def crawlBlockListForTx (blockList : List ℕ) (successEvents : List SuccessEvent) :
    Except RpcCall TxResult := do
  let results ← blockList.mapM (crawlBlock node txHash successEvents)
  return (results.find? TxResult.found).getD .notFound

/-- Where the crawl finds the transaction, if it gets all answers. -/
def locate (blockList : List ℕ) : Except RpcCall (Option TxLocation) := do
  let locations ← blockList.mapM (findTx node txHash)
  return locations.findSome? id

end Crawl

/-! ## What a receipt says -/

section Receipts
variable {chain : Chain} {node : Node} {txHash : Hash} {successEvents : List SuccessEvent}

/-- The first failure among the events, where the loop may stop. -/
def firstFailure (events : List Event) : Option DispatchError :=
  events.findSome? fun
    | .extrinsicFailed dispatchError => some dispatchError
    | _ => none

/-- An error is reported if and only if the first failure can be decoded. -/
theorem isSome_txError_readEvents (s : EventSummary) (events : List Event) :
    (readEvents chain successEvents s events).txError.isSome ↔
      s.txError.isSome ∨ ((firstFailure events).bind chain.decodeError).isSome := by
  induction events generalizing s with
  | nil => simp [readEvents, firstFailure]
  | cons event events ih =>
      cases event with
      | extrinsicFailed dispatchError =>
          have hfirst : firstFailure (.extrinsicFailed dispatchError :: events) =
              some dispatchError := rfl
          rw [hfirst, Option.bind_some, readEvents]
          cases hd : chain.decodeError dispatchError with
          | none => simp [EventSummary.note]
          | some moduleError =>
              dsimp only
              rw [ih]
              simp
      | _ =>
          rw [readEvents, ih]
          · rfl
          · intro d hd
            cases hd

theorem isSome_error_receipt (node : Node) (successEvents : List SuccessEvent) (loc : TxLocation) :
    (receipt node successEvents loc).error.isSome ↔
      node.fails (.events loc.blockHash) = false ∧
        ((firstFailure (node.chain.txEvents loc)).bind node.chain.decodeError).isSome := by
  unfold receipt Node.call
  cases hf : node.fails (.events loc.blockHash) with
  | true => simp [EventSummary.empty]
  | false =>
      simp only [Bool.false_eq_true, if_false, true_and]
      rw [isSome_txError_readEvents]
      simp [EventSummary.empty]

theorem crawlBlock_eq (n : ℕ) : crawlBlock node txHash successEvents n =
    (findTx node txHash n).map fun loc => loc.elim .notFound (receipt node successEvents) := by
  unfold crawlBlock
  cases findTx node txHash n with
  | error e => rfl
  | ok loc => cases loc <;> rfl

theorem mapM_crawlBlock (ns : List ℕ) : ns.mapM (crawlBlock node txHash successEvents) =
    (ns.mapM (findTx node txHash)).map fun locs =>
      locs.map fun loc => loc.elim .notFound (receipt node successEvents) := by
  induction ns with
  | nil => rfl
  | cons n ns ih =>
      rw [List.mapM_cons, List.mapM_cons, ih, crawlBlock_eq]
      cases findTx node txHash n with
      | error e => rfl
      | ok loc => cases ns.mapM (findTx node txHash) <;> rfl

/-- The first receipt found belongs to the first location found. -/
theorem find?_found_receipts (locs : List (Option TxLocation)) :
    ((locs.map fun loc => loc.elim .notFound (receipt node successEvents)).find?
      TxResult.found).getD .notFound =
        (locs.findSome? id).elim .notFound (receipt node successEvents) := by
  induction locs with
  | nil => rfl
  | cons loc locs ih =>
      cases loc with
      | none => simpa [TxResult.notFound] using ih
      | some loc => rfl

/-- The crawl reports the receipt of the transaction it has located. -/
theorem crawlBlockListForTx_eq (blockList : List ℕ) :
    crawlBlockListForTx node txHash blockList successEvents =
      (locate node txHash blockList).map fun loc =>
        loc.elim .notFound (receipt node successEvents) := by
  unfold crawlBlockListForTx locate
  rw [mapM_crawlBlock]
  cases blockList.mapM (findTx node txHash) with
  | error e => rfl
  | ok locs => exact congrArg Except.ok (find?_found_receipts locs)

theorem Node.call_of_succeeds {α : Type} (h : ∀ c, node.fails c = false) (c : RpcCall) (a : α) :
    node.call c a = .ok a := by
  rw [Node.call, h, if_neg Bool.false_ne_true]

theorem findTx_of_not_mem (h : ∀ c, node.fails c = false) {n : ℕ}
    (hn : txHash ∉ (node.chain.block (node.chain.blockHash n)).extrinsics) :
    findTx node txHash n = .ok none := by
  have hidx : (node.chain.block (node.chain.blockHash n)).extrinsics.findIdx? (· == txHash) =
      none := by
    refine List.findIdx?_eq_none_iff.mpr fun hash hhash => beq_eq_false_iff_ne.mpr ?_
    rintro rfl
    exact hn hhash
  unfold findTx
  simp only [Node.call_of_succeeds h, bind, Except.bind, hidx]
  rfl

theorem locate_of_forall_none {blockList : List ℕ}
    (h : ∀ n ∈ blockList, findTx node txHash n = .ok none) :
    locate node txHash blockList = .ok none := by
  have hmap : blockList.mapM (findTx node txHash) = .ok (blockList.map fun _ => none) := by
    induction blockList with
    | nil => rfl
    | cons n ns ih =>
        rw [List.mapM_cons, h n List.mem_cons_self, ih fun m hm => h m (List.mem_cons_of_mem _ hm)]
        rfl
  have hnone : (blockList.map fun _ => (none : Option TxLocation)).findSome? id = none := by
    simp
  unfold locate
  rw [hmap]
  exact congrArg Except.ok hnone

end Receipts

end ContentPublishing.Blockchain
