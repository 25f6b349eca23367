import ContentPublishing.Batching.Batches
import ContentPublishing.Lib.Transition

/-!
# The stored row count

`addToBatch` counts every call and stores a row only for a job that has none yet.
The count is therefore the number of rows as long as no job is added again to the
batch that is open.
-/
namespace ContentPublishing.Batching
open Redis Effects Transition

/-- A call of one of the two scripts, or the deletion of the locked keys. -/
inductive Command (A : Type) where
  | addToBatch (batchId : BatchId) (startTimestamp : ℕ) (row : Row A)
  | lockBatch (currentTimestamp timestampInterval : ℕ)
  | delLocked
  deriving DecidableEq, Repr

section Statement
variable {A K : Type} [DecidableEq A] [DecidableEq K] (keys : BatchKeys K)

/-- The answer of `addToBatch` to a job, and what it leaves in Redis. -/
def addRow (batchId : BatchId) (startTimestamp : ℕ) (row : Row A) (r : Store K (Value A)) :
    Except Redis.Error ℤ × Store K (Value A) :=
  exec (addToBatch keys.metadata keys.data
    (.metadata ⟨batchId, startTimestamp, some 1, none⟩) (.jobId row.1) (.announcement row.2)) r

def perform (r : Store K (Value A)) : Command A → Option (Store K (Value A))
  | .addToBatch batchId startTimestamp row => some (addRow keys batchId startTimestamp row r).2
  | .lockBatch currentTimestamp timestampInterval =>
      some (exec (lockBatch keys.metadata keys.data keys.lockedMetadata keys.lockedData
        currentTimestamp timestampInterval) r).2
  | .delLocked =>
      some (Function.update (Function.update r keys.lockedMetadata none) keys.lockedData none)

/-- The rows in the hash of the open batch. -/
def numberOfRows (r : Store K (Value A)) : ℕ := (fieldsAt r keys.data).length

/-- The metadata of the open batch, if there is one, counts its rows. -/
def RowsCounted (r : Store K (Value A)) : Prop :=
  ∀ m ∈ (stringAt r keys.metadata).bind Value.metadata?, m.rowCount = some (numberOfRows keys r)

/-- The job has a row in the open batch. -/
def HasRow (r : Store K (Value A)) (jobId : JobId) : Prop :=
  .jobId jobId ∈ (fieldsAt r keys.data).map Prod.fst

/-- The rows are counted after the call, `addToBatch` answers with their number if not
with an error, and changes nothing for a job that has a row. -/
def CountsRows (r : Store K (Value A)) (c : Command A) : Prop :=
  (∀ r', perform keys r c = some r' → RowsCounted keys r') ∧
    ∀ batchId startTimestamp row, c = .addToBatch batchId startTimestamp row →
      (∀ n : ℤ, (addRow keys batchId startTimestamp row r).1 = .ok n → 0 ≤ n →
        n = numberOfRows keys (addRow keys batchId startTimestamp row r).2) ∧
      (HasRow keys r row.1 → (addRow keys batchId startTimestamp row r).2 = r)

/-- The call adds no job that has a row in the open batch. -/
def AddsNewJob (r : Store K (Value A)) : Command A → Prop
  | .addToBatch _ _ row => ¬ HasRow keys r row.1
  | _ => True

instance (r : Store K (Value A)) : Decidable (RowsCounted keys r) :=
  inferInstanceAs (Decidable (∀ _ ∈ _, _))

instance (r : Store K (Value A)) (jobId : JobId) : Decidable (HasRow keys r jobId) :=
  inferInstanceAs (Decidable (_ ∈ _))

end Statement

section Refinement
variable {A K : Type} [DecidableEq K] (keys : BatchKeys K) (b : Batches A)

theorem stringAt_encode : (stringAt (b.encode keys) keys.metadata).bind Value.metadata? =
    b.current.map OpenBatch.metadata := by
  cases h : b.current <;> simp [stringAt, Batches.encode_metadata, h, Value.metadata?]

theorem fieldsAt_encode :
    fieldsAt (b.encode keys) keys.data = hashFields (b.current.elim [] OpenBatch.rows) := by
  cases h : b.current <;> simp [fieldsAt, Batches.encode_data, h, hashFields]

theorem hasRow_encode (jobId : JobId) : HasRow keys (b.encode keys) jobId ↔
    jobId ∈ (b.current.elim [] OpenBatch.rows).map Prod.fst := by
  rw [HasRow, fieldsAt_encode, jobId_mem_hashFields]

/-- The count of the open batch is its number of rows. -/
def Batches.Exact : Prop := ∀ o ∈ b.current, o.rowCount = o.rows.length

theorem rowsCounted_encode : RowsCounted keys (b.encode keys) ↔ b.Exact := by
  unfold RowsCounted Batches.Exact numberOfRows
  rw [stringAt_encode, fieldsAt_encode]
  cases h : b.current with
  | none => simp
  | some o => simp [OpenBatch.metadata, hashFields]

variable [DecidableEq A]

/-- What a call makes of the batches. -/
def Batches.perform : Command A → Batches A
  | .addToBatch batchId startTimestamp row => (b.add batchId startTimestamp row).2
  | .lockBatch currentTimestamp timestampInterval =>
      (b.lock currentTimestamp timestampInterval).2
  | .delLocked => b.clear

theorem perform_encode (c : Command A) :
    Batching.perform keys (b.encode keys) c = some ((b.perform c).encode keys) := by
  cases c with
  | addToBatch batchId startTimestamp row =>
      exact congrArg some (congrArg Prod.snd (b.exec_addToBatch keys batchId startTimestamp row))
  | lockBatch currentTimestamp timestampInterval =>
      exact congrArg some (congrArg Prod.snd
        (b.exec_lockBatch keys currentTimestamp timestampInterval))
  | delLocked => exact congrArg some (b.encode_clear keys)

theorem addRow_encode (batchId : BatchId) (startTimestamp : ℕ) (row : Row A) :
    Batching.addRow keys batchId startTimestamp row (b.encode keys) =
      (.ok (b.add batchId startTimestamp row).1,
        (b.add batchId startTimestamp row).2.encode keys) :=
  b.exec_addToBatch keys batchId startTimestamp row

end Refinement

section Runs
variable {A : Type} {b : Batches A}

theorem OpenBatch.length_addRow {o : OpenBatch A} {row : Row A}
    (h : row.1 ∉ o.rows.map Prod.fst) : (o.addRow row).rows.length = o.rows.length + 1 := by
  simp [OpenBatch.addRow, OpenBatch.insert, h]

namespace Batches

theorem exact_empty : (empty : Batches A).Exact := by
  intro o ho
  cases ho

/-- A new job adds one to the count and to the rows. -/
theorem Exact.add (h : b.Exact) (batchId : BatchId) (startTimestamp : ℕ) {row : Row A}
    (hnew : row.1 ∉ (b.current.elim [] OpenBatch.rows).map Prod.fst) :
    (b.add batchId startTimestamp row).2.Exact ∧
      (b.add batchId startTimestamp row).1 =
        ((b.add batchId startTimestamp row).2.current.elim [] OpenBatch.rows).length := by
  obtain ⟨c, l⟩ := b
  cases c with
  | none =>
      refine ⟨fun o ho => ?_, rfl⟩
      cases ho
      rfl
  | some o =>
      have hcount : (o.addRow row).rowCount = (o.addRow row).rows.length := by
        rw [OpenBatch.length_addRow hnew]
        exact congrArg (· + 1) (h o rfl)
      refine ⟨fun p hp => ?_, congrArg Nat.cast hcount⟩
      cases hp
      exact hcount

/-- Closing takes the open batch as it is, or away. -/
theorem Exact.lock (h : b.Exact) (currentTimestamp timestampInterval : ℕ) :
    (b.lock currentTimestamp timestampInterval).2.Exact := by
  obtain ⟨c, l⟩ := b
  cases c with
  | none => exact h
  | some o =>
      cases l with
      | none =>
          intro p hp
          cases hp
      | some l =>
          unfold Batches.lock
          dsimp only
          split
          · exact h
          · exact h

end Batches

variable {K : Type} [DecidableEq K] {keys : BatchKeys K}

/-- Adding a job again changes at least the count. -/
theorem add_ne_of_hasRow {batchId : BatchId} {startTimestamp : ℕ} {row : Row A}
    (h : HasRow keys (b.encode keys) row.1) :
    (b.add batchId startTimestamp row).2.encode keys ≠ b.encode keys := by
  intro heq
  rw [hasRow_encode] at h
  have hmetadata := congrArg (fun r => (stringAt r keys.metadata).bind Value.metadata?) heq
  simp only [stringAt_encode] at hmetadata
  obtain ⟨c, l⟩ := b
  cases c with
  | none => simp at h
  | some o =>
      simp [Batches.add, OpenBatch.metadata, OpenBatch.addRow] at hmetadata

theorem exact_perform (h : b.Exact) {c : Command A}
    (hnew : AddsNewJob keys (b.encode keys) c) : (b.perform c).Exact := by
  cases c with
  | addToBatch batchId startTimestamp row =>
      rw [AddsNewJob, hasRow_encode] at hnew
      exact (h.add batchId startTimestamp hnew).1
  | lockBatch currentTimestamp timestampInterval => exact h.lock _ _
  | delLocked => exact h

variable [DecidableEq A]

/-- From an exact count, a call counts rows exactly if it adds no job again. -/
theorem countsRows_iff (h : b.Exact) (c : Command A) :
    CountsRows keys (b.encode keys) c ↔ AddsNewJob keys (b.encode keys) c := by
  constructor
  · intro hcounts
    cases c with
    | addToBatch batchId startTimestamp row =>
        intro hrow
        have hsame := (hcounts.2 batchId startTimestamp row rfl).2 hrow
        rw [addRow_encode] at hsame
        exact add_ne_of_hasRow hrow hsame
    | lockBatch currentTimestamp timestampInterval => trivial
    | delLocked => trivial
  · intro hnew
    refine ⟨fun r' hr' => ?_, ?_⟩
    · rw [perform_encode, Option.some.injEq] at hr'
      subst r'
      exact (rowsCounted_encode keys _).mpr (exact_perform h hnew)
    · rintro batchId startTimestamp row rfl
      refine ⟨fun n hn _ => ?_, fun hrow => absurd hrow hnew⟩
      rw [AddsNewJob, hasRow_encode] at hnew
      have hanswer := (h.add batchId startTimestamp hnew).2
      rw [addRow_encode] at hn ⊢
      rw [numberOfRows, fieldsAt_encode, hashFields, List.length_map, ← hanswer]
      exact (Except.ok.inj hn).symm

theorem eachStep_countsRows_iff (h : b.Exact) (cs : List (Command A)) :
    EachStep (perform keys) (CountsRows keys) (b.encode keys) cs ↔
      EachStep (perform keys) (AddsNewJob keys) (b.encode keys) cs := by
  induction cs generalizing b with
  | nil => exact iff_of_true (eachStep_nil _ _) (eachStep_nil _ _)
  | cons c cs ih =>
      rw [eachStep_cons, eachStep_cons, countsRows_iff h c, perform_encode]
      refine and_congr_right fun hnew => ?_
      simp only [Option.some.injEq, forall_eq']
      exact ih (exact_perform h hnew)

/-- Along a run from the empty keys every count is the number of rows exactly if no
job is added to the batch that has its row. -/
theorem eachStep_countsRows (keys : BatchKeys K) (cs : List (Command A)) :
    EachStep (perform keys) (CountsRows keys) (fun _ => none) cs ↔
      EachStep (perform keys) (AddsNewJob keys) (fun _ => none) cs := by
  rw [← Batches.encode_empty (A := A) keys]
  exact eachStep_countsRows_iff Batches.exact_empty cs

end Runs

/-- A job that is delivered twice counts twice. -/
def redelivered : List (Command ℕ) :=
  [.addToBatch "b1" 0 ("j1", 7), .addToBatch "b2" 1 ("j1", 7)]

theorem not_rowsCounted_redelivered :
    ∃ r, run (perform (batchKeys "broadcastQueue")) (fun _ => none) redelivered = some r ∧
      ¬ RowsCounted (batchKeys "broadcastQueue") r ∧
      numberOfRows (batchKeys "broadcastQueue") r = 1 :=
  exists_of_run_any (by decide +kernel)

end ContentPublishing.Batching
