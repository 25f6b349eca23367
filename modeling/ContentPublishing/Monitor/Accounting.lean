import ContentPublishing.Monitor.Status
import Mathlib.Algebra.BigOperators.Group.List.Lemmas
import Mathlib.Algebra.Order.BigOperators.Group.List
import Mathlib.Data.List.Dedup

/-!
# Capacity accounting

The receipt jobs record, for every epoch, how much capacity the service has used.
The crawl fills in the field `capacityWithDrawn`, the job reads `capacityWithdrawn`,
and so nothing is ever added to the record.
-/
namespace ContentPublishing.Monitor
open Blockchain Effects

/-- What one attempt at a receipt job meets; the chain is the same for all of them. -/
structure Observation where
  bestNumber : ℕ
  epochLength : ℕ
  fails : RpcCall → Bool
  serviceFails : ServiceCall → Bool

def Observation.sample : Observation := ⟨1, 100, fun _ => false, fun _ => false⟩

/-- An attempt at a receipt job, with what it meets. -/
structure Processing where
  job : ReceiptJob
  seen : Observation

def Processing.env (chain : Chain) (p : Processing) : Env where
  chain := chain
  bestNumber := p.seen.bestNumber
  epochLength := p.seen.epochLength
  fails := p.seen.fails
  serviceFails := p.seen.serviceFails

/-- Capacity withdrawn by a transaction, over all events attributed to it. -/
def withdrawn (chain : Chain) (loc : TxLocation) : ℕ :=
  ((chain.txEvents loc).map Event.withdrawn).sum

section Accounting
variable (chain : Chain)

/-- The jobs are processed one after another. -/
def processAll (ps : List Processing) (s : MonitorState) : MonitorState :=
  ps.foldl (fun s p => (exec (process (p.env chain) p.job) s).2) s

/-- The transaction an attempt finds. -/
def Processing.located (p : Processing) : Option TxLocation :=
  match locateTx (p.env chain) p.job with
  | .ok loc => loc
  | .error _ => none

/-- The distinct transactions found, however often a job was tried. -/
def foundTxs (ps : List Processing) : List TxLocation :=
  (ps.filterMap (Processing.located chain)).dedup

/-- The record of every epoch is what its found transactions withdrew. -/
def CapacityExact (ps : List Processing) : Prop :=
  ∀ epoch, ((processAll chain ps .start).epochCapacity epoch).getD 0 =
    (((foundTxs chain ps).filter (·.capacityEpoch = epoch)).map (withdrawn chain)).sum

end Accounting

/-- No capacity was ever recorded. -/
def NothingRecorded (s : MonitorState) : Prop := ∀ epoch, (s.epochCapacity epoch).getD 0 = 0

section Specification
variable {env : Env} {job : ReceiptJob} {chain : Chain}

theorem keeps_addEpochCapacity_zero (env : Env) (epoch : ℕ) :
    Keeps NothingRecorded (addEpochCapacity env epoch 0) := by
  refine keeps_bind (keeps_serve _ fun _ h => h) fun _ => keeps_get_bind fun s hs =>
    keeps_bind (keeps_ask _) fun _ => keeps_serve _ fun t ht e => ?_
  simp only [Function.update_apply]
  split
  · rw [hs, Option.getD_some]
  · exact ht e

/-- Whatever a job finds out, it adds nothing to the record. -/
theorem keeps_process : Keeps NothingRecorded (process env job) := by
  intro s hs
  cases hloc : locateTx env job with
  | error c =>
      rw [exec_process_error hloc]
      exact hs
  | ok found =>
      cases found with
      | none =>
          rw [exec_process_none hloc]
          exact keeps_bind (keeps_handleNotFound fun _ _ _ _ h => h) (fun _ => keeps_pure _) s hs
      | some loc =>
          rw [exec_process_some hloc]
          have hrecord := keeps_addEpochCapacity_zero env loc.capacityEpoch s hs
          cases (receipt env.toNode successEvents loc).error with
          | none => exact hrecord
          | some error =>
              exact keeps_bind (keeps_handleError error fun _ _ _ _ h => h)
                (fun _ => keeps_pure _) _ hrecord

theorem nothingRecorded_processAll (chain : Chain) (ps : List Processing) {s : MonitorState}
    (h : NothingRecorded s) : NothingRecorded (processAll chain ps s) := by
  induction ps generalizing s with
  | nil => exact h
  | cons p ps ih => exact ih (keeps_process s h)

/-- Exactly when the record is right: nothing had to be recorded. -/
theorem capacityExact_iff (chain : Chain) (ps : List Processing) :
    CapacityExact chain ps ↔ ∀ loc ∈ foundTxs chain ps, withdrawn chain loc = 0 := by
  have hzero := nothingRecorded_processAll chain ps (s := .start) fun _ => rfl
  constructor
  · intro h loc hloc
    have hsum := h loc.capacityEpoch
    rw [hzero, eq_comm, List.sum_eq_zero_iff] at hsum
    refine hsum _ (List.mem_map_of_mem (List.mem_filter.mpr ⟨hloc, ?_⟩))
    exact decide_eq_true rfl
  · intro h epoch
    rw [hzero, eq_comm, List.sum_eq_zero_iff]
    intro c hc
    obtain ⟨loc, hloc, rfl⟩ := List.mem_map.mp hc
    exact h loc (List.mem_of_mem_filter hloc)

/-- One transaction that withdrew five units of capacity. -/
theorem not_capacityExact_one :
    ¬ CapacityExact (.sample "tx" [.capacityWithdrawn 5, .extrinsicSuccess])
      [⟨⟨.sample "tx", some 4, 0⟩, .sample⟩] := by
  intro h
  exact absurd (h 1) (by decide)

end Specification

end ContentPublishing.Monitor
