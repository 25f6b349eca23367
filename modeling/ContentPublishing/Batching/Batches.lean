import ContentPublishing.Batching.Scripts
import Mathlib.Data.List.Nodup
import Mathlib.Tactic.SplitIfs

/-!
# The open and the locked batch of a queue

What the four Redis keys of a queue stand for: at most one batch that collects
announcements and at most one that is being closed. `encode` writes such a pair
back into Redis, and the scripts are shown to compute on encoded pairs exactly
the three operations `add`, `lock` and `clear` on the pair itself.
-/
namespace ContentPublishing.Batching
open Redis Effects

/-- A row is one announcement under the identifier of its job. -/
abbrev Row (A : Type) := JobId × A

/-- A batch with at least one row, no job twice, and every row counted. -/
structure OpenBatch (A : Type) where
  batchId : BatchId
  startTimestamp : ℕ
  rowCount : ℕ
  rows : List (Row A)
  rows_ne : rows ≠ []
  nodup : (rows.map Prod.fst).Nodup
  counted : rows.length ≤ rowCount

structure LockedBatch (A : Type) extends OpenBatch A where
  lockTimestamp : ℕ

@[ext]
structure Batches (A : Type) where
  current : Option (OpenBatch A)
  locked : Option (LockedBatch A)

namespace OpenBatch
variable {A : Type}

theorem rowCount_pos (o : OpenBatch A) : 1 ≤ o.rowCount :=
  (List.length_pos_iff.mpr o.rows_ne).trans_le o.counted

def metadata (o : OpenBatch A) : BatchMetadata :=
  ⟨o.batchId, o.startTimestamp, some o.rowCount, none⟩

/-- The batch that a first row opens. -/
def single (batchId : BatchId) (startTimestamp : ℕ) (row : Row A) : OpenBatch A where
  batchId := batchId
  startTimestamp := startTimestamp
  rowCount := 1
  rows := [row]
  rows_ne := List.cons_ne_nil _ _
  nodup := List.nodup_singleton _
  counted := le_rfl

/-- The rows after `HSETNX`: a job already present keeps its row. -/
def insert (rows : List (Row A)) (row : Row A) : List (Row A) :=
  if row.1 ∈ rows.map Prod.fst then rows else rows ++ [row]

theorem subset_insert (rows : List (Row A)) (row : Row A) : rows ⊆ insert rows row := by
  unfold insert
  split
  · exact fun _ h => h
  · exact List.subset_append_left _ _

/-- The counter grows by one whether or not the job was present. -/
def addRow (o : OpenBatch A) (row : Row A) : OpenBatch A where
  batchId := o.batchId
  startTimestamp := o.startTimestamp
  rowCount := o.rowCount + 1
  rows := insert o.rows row
  rows_ne := fun h => o.rows_ne (List.subset_nil.mp (h ▸ subset_insert o.rows row))
  nodup := by
    unfold insert
    split
    · exact o.nodup
    · next h => simpa using List.Nodup.concat h o.nodup
  counted := by
    have := o.counted
    unfold insert
    split
    · omega
    · simpa using this

/-- The job is in the batch afterwards, with its own data when it is new. -/
theorem mem_addRow (o : OpenBatch A) (row : Row A) :
    row.1 ∈ (o.addRow row).rows.map Prod.fst ∧
      (row.1 ∉ o.rows.map Prod.fst → row ∈ (o.addRow row).rows) := by
  unfold addRow insert
  split
  · next h => exact ⟨h, fun h' => absurd h h'⟩
  · exact ⟨List.mem_map_of_mem (by simp), fun _ => by simp⟩

theorem of_mem_addRow {o : OpenBatch A} {row r : Row A} (h : r ∈ (o.addRow row).rows) :
    r ∈ o.rows ∨ r = row := by
  unfold addRow insert at h
  split at h
  · exact Or.inl h
  · exact (List.mem_append.mp h).imp id List.mem_singleton.mp

def lock (o : OpenBatch A) (lockTimestamp : ℕ) : LockedBatch A := { o with lockTimestamp }

end OpenBatch

namespace LockedBatch
variable {A : Type}

def lockedMetadata (l : LockedBatch A) : BatchMetadata :=
  ⟨l.batchId, l.startTimestamp, some l.rowCount, some l.lockTimestamp⟩

/-- The lock is older than the interval at the given time. -/
def Expired (l : LockedBatch A) (now interval : ℕ) : Prop := l.lockTimestamp + interval < now

instance (l : LockedBatch A) (now interval : ℕ) : Decidable (l.Expired now interval) :=
  inferInstanceAs (Decidable (_ < _))

end LockedBatch

/-- The hash of a batch, as stored under its data key. -/
def hashFields {A : Type} (rows : List (Row A)) : List (Value A × Value A) :=
  rows.map fun row => (.jobId row.1, .announcement row.2)

theorem jobId_mem_hashFields {A : Type} (rows : List (Row A)) (j : JobId) :
    Value.jobId j ∈ (hashFields rows).map Prod.fst ↔ j ∈ rows.map Prod.fst := by
  simp [hashFields]

namespace Batches
variable {A : Type}

def empty : Batches A := ⟨none, none⟩

/-- A row joins the open batch, or opens one. -/
def add (b : Batches A) (batchId : BatchId) (startTimestamp : ℕ) (row : Row A) :
    ℤ × Batches A :=
  match b.current with
  | none => (1, { b with current := some (.single batchId startTimestamp row) })
  | some o => ((o.addRow row).rowCount, { b with current := some (o.addRow row) })

/-- The answer to a request for closing the open batch. A locked batch is handed
out again once its lock has expired and blocks the request before that. -/
def lock (b : Batches A) (now interval : ℕ) : LockReply (Value A) × Batches A :=
  match b.current, b.locked with
  | none, _ => (.noBatch, b)
  | some _, some l =>
      if l.Expired now interval then
        (.leftover (flatten (hashFields l.rows)) (.metadata l.lockedMetadata), b)
      else (.stillLocked, b)
  | some o, none =>
      (.locked (flatten (hashFields o.rows)) (.metadata (o.lock now).lockedMetadata),
        ⟨none, some (o.lock now)⟩)

def clear (b : Batches A) : Batches A := { b with locked := none }

section Encoding
variable {K : Type} [DecidableEq K]

def encode (keys : BatchKeys K) (b : Batches A) : Store K (Value A) := fun k =>
  if k = keys.metadata then b.current.map fun o => .string (.metadata o.metadata)
  else if k = keys.data then b.current.map fun o => .hash (hashFields o.rows)
  else if k = keys.lockedMetadata then
    b.locked.map fun l => .string (.metadata l.lockedMetadata)
  else if k = keys.lockedData then b.locked.map fun l => .hash (hashFields l.rows)
  else none

variable (keys : BatchKeys K) (b : Batches A)

theorem encode_empty : encode keys (empty : Batches A) = fun _ => none := by
  funext k
  simp [encode, empty]

theorem encode_metadata :
    b.encode keys keys.metadata = b.current.map fun o => .string (.metadata o.metadata) :=
  if_pos rfl

theorem encode_data :
    b.encode keys keys.data = b.current.map fun o => .hash (hashFields o.rows) := by
  simp [encode, keys.separate.1.1]

theorem encode_lockedMetadata :
    b.encode keys keys.lockedMetadata =
      b.locked.map fun l => .string (.metadata l.lockedMetadata) := by
  simp [encode, keys.separate.1.2.1, keys.separate.2.1.1]

theorem encode_lockedData :
    b.encode keys keys.lockedData = b.locked.map fun l => .hash (hashFields l.rows) := by
  simp [encode, keys.separate.1.2.2, keys.separate.2.1.2, keys.separate.2.2]

/-- Writing both open keys replaces the open batch. -/
theorem encode_write (c : Option (OpenBatch A)) (o : OpenBatch A) (l : Option (LockedBatch A)) :
    Function.update (Function.update (encode keys ⟨c, l⟩) keys.metadata
        (some (.string (.metadata o.metadata)))) keys.data (some (.hash (hashFields o.rows))) =
      encode keys ⟨some o, l⟩ := by
  have := keys.separate
  funext k
  simp only [Function.update_apply, encode]
  split_ifs <;> simp_all

/-- When the rows stay the same, writing the metadata is enough. -/
theorem encode_write_metadata (o o' : OpenBatch A) (l : Option (LockedBatch A))
    (h : o'.rows = o.rows) :
    Function.update (encode keys ⟨some o, l⟩) keys.metadata
        (some (.string (.metadata o'.metadata))) = encode keys ⟨some o', l⟩ := by
  funext k
  simp only [Function.update_apply, encode]
  split_ifs <;> simp_all

/-- The two renames and the stamped metadata turn the open batch into a locked one. -/
theorem encode_rename (o : OpenBatch A) (now : ℕ) :
    Function.update (Function.update (Function.update (Function.update (Function.update
      (encode keys ⟨some o, none⟩) keys.metadata none) keys.lockedMetadata
        (some (.string (.metadata o.metadata)))) keys.data none) keys.lockedData
        (some (.hash (hashFields o.rows)))) keys.lockedMetadata
        (some (.string (.metadata (o.lock now).lockedMetadata))) =
      encode keys ⟨none, some (o.lock now)⟩ := by
  have := keys.separate
  funext k
  simp only [Function.update_apply, encode]
  split_ifs <;> simp_all [OpenBatch.lock]

theorem encode_clear :
    Function.update (Function.update (b.encode keys) keys.lockedMetadata none)
        keys.lockedData none = b.clear.encode keys := by
  have := keys.separate
  funext k
  simp only [Function.update_apply, encode, clear]
  split_ifs <;> simp_all

/-- `lua/lockBatch.lua` computes `lock`. -/
theorem exec_lockBatch (now interval : ℕ) :
    exec (lockBatch keys.metadata keys.data keys.lockedMetadata keys.lockedData now interval)
        (b.encode keys) =
      (.ok (b.lock now interval).1, (b.lock now interval).2.encode keys) := by
  obtain ⟨c, l⟩ := b
  unfold lockBatch
  cases c with
  | none =>
      rw [exec_bind _ (exec_get_none (encode_metadata keys _))]
      rfl
  | some o =>
      rw [exec_bind _ (exec_get_string _ (encode_metadata keys _))]
      dsimp only
      cases l with
      | some l =>
          rw [exec_bind _ (exec_get_string _ (encode_lockedMetadata keys _))]
          dsimp only [decodeMetadata, Value.metadata?]
          rw [exec_bind _ (exec_pure ..)]
          dsimp only [LockedBatch.lockedMetadata]
          have hpassed : (now : ℤ) - l.lockTimestamp > interval ↔ l.Expired now interval := by
            unfold LockedBatch.Expired
            omega
          by_cases he : l.Expired now interval
          · rw [if_pos (hpassed.mpr he), exec_bind _ (exec_hgetall _ (encode_lockedData keys _))]
            simp only [lock, if_pos he]
            rfl
          · rw [if_neg (fun h => he (hpassed.mp h))]
            simp only [lock, if_neg he]
            rfl
      | none =>
          rw [exec_bind _ (exec_get_none (encode_lockedMetadata keys _))]
          dsimp only
          obtain ⟨⟨hdm, hlm, hem⟩, ⟨hld, hed⟩, hel⟩ := keys.separate
          refine (exec_bind _ (exec_rename _ (encode_metadata keys _))).trans ?_
          refine (exec_bind _ (exec_rename (.hash (hashFields o.rows)) ?_)).trans ?_
          · rw [Function.update_of_ne (Ne.symm hld), Function.update_of_ne hdm, encode_data]
            rfl
          refine (exec_bind _ (exec_get_string (.metadata o.metadata) ?_)).trans ?_
          · rw [Function.update_of_ne (Ne.symm hel), Function.update_of_ne hld,
              Function.update_self]
          refine (exec_bind _ (exec_pure o.metadata _)).trans ?_
          refine (exec_bind _ (exec_set ..)).trans ?_
          refine (exec_bind _ (exec_hgetall (hashFields o.rows) ?_)).trans ?_
          · rw [Function.update_of_ne hel, Function.update_self]
          exact congrArg (Prod.mk _) (encode_rename keys o now)

/-- `lua/addToBatch.lua` computes `add`. -/
theorem exec_addToBatch [DecidableEq A] (batchId : BatchId) (startTimestamp : ℕ) (row : Row A) :
    exec (addToBatch keys.metadata keys.data
        (.metadata ⟨batchId, startTimestamp, some 1, none⟩) (.jobId row.1)
        (.announcement row.2)) (b.encode keys) =
      (.ok (b.add batchId startTimestamp row).1,
        (b.add batchId startTimestamp row).2.encode keys) := by
  obtain ⟨c, l⟩ := b
  unfold addToBatch
  cases c with
  | none =>
      rw [exec_bind _ (exec_get_none (encode_metadata keys _))]
      dsimp only
      rw [exec_bind _ (exec_set ..), exec_bind _ (exec_hsetnx_none _ _ _), exec_pure]
      · exact congrArg (Prod.mk _) (encode_write keys none (.single batchId startTimestamp row) l)
      · rw [Function.update_of_ne keys.separate.1.1, encode_data]
        rfl
  | some o =>
      rw [exec_bind _ (exec_get_string _ (encode_metadata keys _))]
      dsimp only [decodeMetadata, Value.metadata?]
      rw [exec_bind _ (exec_pure ..)]
      dsimp only [OpenBatch.metadata]
      have hdata : Function.update (encode keys ⟨some o, l⟩) keys.metadata
          (some (.string (.metadata (o.addRow row).metadata))) keys.data =
          some (.hash (hashFields o.rows)) := by
        rw [Function.update_of_ne keys.separate.1.1, encode_data]
        rfl
      have hset := exec_hsetnx_hash _ (.jobId row.1) (.announcement row.2) hdata
      refine (exec_bind _ (exec_set ..)).trans ?_
      by_cases hj : row.1 ∈ o.rows.map Prod.fst
      · rw [if_pos ((jobId_mem_hashFields o.rows row.1).mpr hj)] at hset
        have hrows : (o.addRow row).rows = o.rows := if_pos hj
        refine (exec_bind _ hset).trans ?_
        exact congrArg (Prod.mk _) (encode_write_metadata keys o (o.addRow row) l hrows)
      · rw [if_neg (fun h => hj ((jobId_mem_hashFields o.rows row.1).mp h))] at hset
        have hrows : hashFields o.rows ++ [(.jobId row.1, .announcement row.2)] =
            hashFields (o.addRow row).rows := by
          simp [OpenBatch.addRow, OpenBatch.insert, if_neg hj, hashFields]
        refine (exec_bind _ hset).trans ?_
        rw [exec_pure, hrows]
        exact congrArg (Prod.mk _) (encode_write keys (some o) (o.addRow row) l)

end Encoding

end Batches

end ContentPublishing.Batching
