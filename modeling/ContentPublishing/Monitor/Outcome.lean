import ContentPublishing.Lib.Attempts
import ContentPublishing.Monitor.Status

/-!
# What becomes of a transaction that was sent

Two things are promised for a receipt job: a transaction without success is not
dropped silently, and a transaction that never lands is published again.
-/
namespace ContentPublishing.Monitor
open Blockchain Effects Attempts

/-! ## Failures that are seen -/

/-- The events of the transaction contain a requested success event. -/
def Succeeded (chain : Chain) (loc : TxLocation) : Prop :=
  ∃ event ∈ chain.txEvents loc, ∃ e ∈ successEvents, e.pallet = event.pallet ∧
    e.event = event.method

instance (chain : Chain) (loc : TxLocation) : Decidable (Succeeded chain loc) :=
  inferInstanceAs (Decidable (∃ _ ∈ _, _))

/-- A job that ends well without publishing again has a successful transaction. -/
def NoSilentFailure (env : Env) (job : ReceiptJob) (s : MonitorState) : Prop :=
  ∀ r t, exec (process env job) s = (.ok r, t) → t.readded = s.readded →
    ∃ loc, locateTx env job = .ok (some loc) ∧ Succeeded env.chain loc

/-- The first failure event is a module error that can be decoded. -/
def DecodableFailure (chain : Chain) (loc : TxLocation) : Prop :=
  ((firstFailure (chain.txEvents loc)).bind chain.decodeError).isSome

/-- A transaction that was found has succeeded, or its events can be read and its
first failure decoded. -/
def FailureIsSeen (env : Env) (job : ReceiptJob) : Prop :=
  ∀ loc, locateTx env job = .ok (some loc) → Succeeded env.chain loc ∨
    (env.fails (.events loc.blockHash) = false ∧ DecodableFailure env.chain loc)

section Failures
variable {env : Env} {job : ReceiptJob} {s t : MonitorState}

theorem pause_handleMessagesFailure (error : RegistryError) :
    (handleMessagesFailure error).pause = false := by
  unfold handleMessagesFailure
  split <;> rfl

/-- A module error makes the job throw, or its batch is published again. -/
theorem readded_handleError {error : RegistryError} {u : Unit}
    (h : exec (handleError env job error) s = (.ok u, t)) :
    t.readded = s.readded ++ [job.data.referencePublishJob] := by
  unfold handleError at h
  simp only [pause_handleMessagesFailure, Bool.false_eq_true, if_false] at h
  cases hr : (handleMessagesFailure error).retry with
  | true =>
      simp only [hr, if_true] at h
      exact (exec_retryPublishJob _ h).1
  | false =>
      simp only [hr, Bool.false_eq_true, if_false] at h
      cases h

theorem readded_handleNotFound {u : Unit} (h : exec (handleNotFound env job) s = (.ok u, t)) :
    t.readded = s.readded ++ [job.data.referencePublishJob] := by
  unfold handleNotFound at h
  split at h
  · cases h
  · exact (exec_retryPublishJob _ h).1

theorem readded_addEpochCapacity (env : Env) (epoch c : ℕ) (s : MonitorState) :
    (exec (addEpochCapacity env epoch c) s).2.readded = s.readded :=
  keeps_addEpochCapacity (P := fun u => u.readded = s.readded) _ _ (fun _ _ h => h) s rfl

theorem readded_of_notFound {r : TxResult} (hloc : locateTx env job = .ok none)
    (h : exec (process env job) s = (.ok r, t)) :
    t.readded = s.readded ++ [job.data.referencePublishJob] := by
  rw [exec_process_none hloc] at h
  obtain ⟨u, t', hretry, hend⟩ := of_exec_bind h
  cases hend
  exact readded_handleNotFound hretry

theorem readded_of_error {r : TxResult} {loc : TxLocation} {error : RegistryError}
    (hloc : locateTx env job = .ok (some loc))
    (herror : (receipt env.toNode successEvents loc).error = some error)
    (h : exec (process env job) s = (.ok r, t)) :
    t.readded = s.readded ++ [job.data.referencePublishJob] := by
  rw [exec_process_some hloc, herror] at h
  obtain ⟨u, t', hretry, hend⟩ := of_exec_bind h
  cases hend
  rw [readded_handleError hretry, readded_addEpochCapacity]

/-- Without an error in its receipt a transaction is taken for successful. -/
theorem exec_process_noError {loc : TxLocation} (hloc : locateTx env job = .ok (some loc))
    (herror : (receipt env.toNode successEvents loc).error = none) :
    exec (process env job) s = (.ok (receipt env.toNode successEvents loc),
      (exec (addEpochCapacity env loc.capacityEpoch 0) s).2) := by
  rw [exec_process_some hloc, herror]
  rfl

/-- Exactly when a job cannot end silently after a failure. -/
theorem noSilentFailure_iff (env : Env) (job : ReceiptJob) (s : MonitorState) :
    NoSilentFailure env job s ↔ FailureIsSeen env job := by
  constructor
  · intro h loc hloc
    by_contra hunseen
    rw [not_or] at hunseen
    have herror : (receipt env.toNode successEvents loc).error = none := by
      rw [← Option.not_isSome_iff_eq_none, isSome_error_receipt]
      exact hunseen.2
    obtain ⟨loc', hloc', hsucc⟩ := h _ _ (exec_process_noError hloc herror)
      (readded_addEpochCapacity env loc.capacityEpoch 0 s)
    rw [hloc] at hloc'
    cases hloc'
    exact hunseen.1 hsucc
  · intro h r t hend hsame
    have hnew : t.readded ≠ s.readded ++ [job.data.referencePublishJob] := by
      rw [hsame]
      simp
    cases hloc : locateTx env job with
    | error c =>
        rw [exec_process_error hloc] at hend
        cases hend
    | ok found =>
        cases found with
        | none => exact (hnew (readded_of_notFound hloc hend)).elim
        | some loc =>
            refine ⟨loc, rfl, (h loc hloc).resolve_right fun hseen => ?_⟩
            obtain ⟨error, herror⟩ := Option.isSome_iff_exists.mp
              ((isSome_error_receipt env.toNode successEvents loc).mpr hseen)
            exact hnew (readded_of_error hloc herror hend)

/-- An extrinsic that failed with `BadOrigin` ends silently. -/
theorem not_noSilentFailure_badOrigin :
    ¬ NoSilentFailure (.sample (.sample "tx" [.extrinsicFailed .badOrigin]))
      ⟨.sample "tx", some 4, 0⟩ .start := by
  intro h
  obtain ⟨loc, hloc, event, hevent, e, he, hsame⟩ := h _ _ rfl rfl
  cases hloc
  cases List.mem_singleton.mp he
  cases List.mem_singleton.mp hevent
  exact absurd hsame.2 (by decide)

end Failures

/-! ## Transactions that never land -/

section Rescue

/-- All attempts at a receipt job; the chain may be observed anew in each of them. -/
def runReceiptJob (env : ℕ → Env) (data : ITxMonitorJob) (attempts : ℕ) : Attempt TxResult :=
  runAttempts Failure.isUnrecoverable (fun made => process (env made) ⟨data, some attempts, made⟩)
    attempts

/-- The job ends by putting its publish job back into the queue. -/
def Rescued (env : ℕ → Env) (data : ITxMonitorJob) (attempts : ℕ) (s : MonitorState) : Prop :=
  (exec (runReceiptJob env data attempts) s).2.readded = s.readded ++ [data.referencePublishJob]

instance (env : ℕ → Env) (data : ITxMonitorJob) (attempts : ℕ) (s : MonitorState) :
    Decidable (Rescued env data attempts s) :=
  inferInstanceAs (Decidable (_ = _))

structure Env.AllSucceed (env : Env) : Prop where
  rpc : ∀ c, env.fails c = false
  service : ∀ c, env.serviceFails c = false

/-- The transaction is in no block that is looked at. -/
def NeverFound (env : Env) (data : ITxMonitorJob) : Prop :=
  ∀ n ∈ blocksFrom env.bestNumber numberBlocksToCrawl
      (env.chain.block data.lastFinalizedBlockHash).number,
    data.txHash ∉ (env.chain.block (env.chain.blockHash n)).extrinsics

variable {env : ℕ → Env} {data : ITxMonitorJob} {attempts : ℕ}

theorem blockList_of_allSucceed {env : Env} {job : ReceiptJob} (h : env.AllSucceed) :
    blockList env job = .ok (blocksFrom env.bestNumber numberBlocksToCrawl
      (env.chain.block job.data.lastFinalizedBlockHash).number) := by
  unfold blockList
  rw [Node.call_of_succeeds h.rpc, Node.call_of_succeeds h.rpc]
  rfl

theorem locateTx_of_neverFound {env : Env} {job : ReceiptJob} (hcalls : env.AllSucceed)
    (hnever : NeverFound env job.data) : locateTx env job = .ok none := by
  unfold locateTx
  rw [blockList_of_allSucceed hcalls]
  exact locate_of_forall_none fun n hn => findTx_of_not_mem hcalls.rpc (hnever n hn)

theorem exec_process_neverFound {env : Env} {made : ℕ} (hmade : made < attempts)
    (hcalls : env.AllSucceed) (hnever : NeverFound env data) (s : MonitorState) :
    exec (process env ⟨data, some attempts, made⟩) s = (.error (.txNotFound made), s) := by
  have hthrow : exec (handleNotFound env ⟨data, some attempts, made⟩) s =
      (.error (.txNotFound made), s) := by
    have hlt : made < (some attempts).getD 3 := hmade
    rw [handleNotFound, if_pos hlt, exec_throw]
  rw [exec_process_none (locateTx_of_neverFound hcalls hnever), exec_bind_error _ hthrow]

/-- The job throws in every attempt, also in the last one, and changes nothing. -/
theorem exec_runReceiptJob_neverFound (hpos : 1 ≤ attempts)
    (hcalls : ∀ m < attempts, (env m).AllSucceed) (hnever : ∀ m < attempts, NeverFound (env m) data)
    (s : MonitorState) :
    exec (runReceiptJob env data attempts) s = (.error (.txNotFound (attempts - 1)), s) := by
  have hattempt : ∀ m, 0 ≤ m → m ≤ 0 + (attempts - 1) →
      exec (process (env m) ⟨data, some attempts, m⟩) s = (.error (.txNotFound m), s) := by
    intro m _ hm
    have hlt : m < attempts := by omega
    exact exec_process_neverFound hlt (hcalls m hlt) (hnever m hlt) s
  unfold runReceiptJob runAttempts
  rw [exec_tryFrom_fails hattempt fun _ => rfl, Nat.zero_add]

/-- A transaction that never lands is never published again. -/
theorem not_rescued_of_neverFound (hpos : 1 ≤ attempts)
    (hcalls : ∀ m < attempts, (env m).AllSucceed) (hnever : ∀ m < attempts, NeverFound (env m) data)
    (s : MonitorState) : ¬ Rescued env data attempts s := by
  unfold Rescued
  rw [exec_runReceiptJob_neverFound hpos hcalls hnever]
  simp

/-- A job with four attempts, one block and another transaction in it. -/
theorem not_rescued_lateBlock :
    ¬ Rescued (fun _ => .sample (.sample "other" [])) (.sample "tx") 4 .start :=
  not_rescued_of_neverFound (by omega) (fun _ _ => ⟨fun _ => rfl, fun _ => rfl⟩)
    (fun _ _ => by unfold NeverFound; decide) _

/-- The same job refutes that every such job is rescued. -/
theorem not_forall_rescued :
    ¬ ∀ (env : ℕ → Env) (data : ITxMonitorJob) (attempts : ℕ) (s : MonitorState), 1 ≤ attempts →
      (∀ m < attempts, (env m).AllSucceed) → (∀ m < attempts, NeverFound (env m) data) →
      Rescued env data attempts s := by
  intro h
  have hsame := h (fun _ => .sample (.sample "other" [])) (.sample "tx") 4 .start (by omega)
    (fun _ _ => ⟨fun _ => rfl, fun _ => rfl⟩) (fun _ _ => by unfold NeverFound; decide)
  revert hsame
  decide

end Rescue

end ContentPublishing.Monitor
