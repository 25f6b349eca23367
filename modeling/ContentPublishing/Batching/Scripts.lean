import ContentPublishing.Common.Constants
import ContentPublishing.Lib.Redis
import Mathlib.Tactic.Common

/-!
# The Lua scripts of the batching processor

`addToBatch` and `lockBatch` are run by Redis as atomic scripts over the keys of
one announcement queue. A Redis string is represented by what it encodes: a job
identifier, the JSON text of batch metadata, or the JSON text of an announcement.
Announcements pass through batching unread, so their type `A` is a parameter.
-/
namespace ContentPublishing.Batching
open Redis Effects

abbrev JobId := String
abbrev BatchId := String

/-- The stored JSON object. `rowCount` and `lockTimestamp` are optional because
the scripts look them up in a decoded table. -/
structure BatchMetadata where
  batchId : BatchId
  startTimestamp : ℕ
  rowCount : Option ℕ
  lockTimestamp : Option ℕ
  deriving DecidableEq, Repr

inductive Value (A : Type) where
  | jobId (id : JobId)
  | metadata (m : BatchMetadata)
  | announcement (a : A)
  deriving DecidableEq, Repr

namespace Value
variable {A : Type}

/-- `JSON.parse`, and `cjson.decode`, where batch metadata is expected. -/
def metadata? : Value A → Option BatchMetadata
  | .metadata m => some m
  | _ => none

/-- `JSON.parse` where an announcement is expected. -/
def announcement? : Value A → Option A
  | .announcement a => some a
  | _ => none

end Value

/-- The replies `{0}`, `{-2}`, `{-1, rows, metadata}` and `{1, rows, metadata}`. -/
inductive LockReply (S : Type) where
  | noBatch
  | stillLocked
  | leftover (batch : List S) (metadata : S)
  | locked (batch : List S) (metadata : S)
  deriving DecidableEq, Repr

def LockReply.status {S : Type} : LockReply S → ℤ
  | .noBatch => 0
  | .stillLocked => -2
  | .leftover _ _ => -1
  | .locked _ _ => 1

section Lua
variable {K A : Type}

/-- `cjson.decode` of a metadata string; any other text ends the script. -/
def decodeMetadata (raw : Value A) : Script K (Value A) BatchMetadata :=
  match raw.metadata? with
  | some m => pure m
  | none => throw (.script "cjson.decode")

variable [DecidableEq K] [DecidableEq A]

/-- `lua/addToBatch.lua` -/
def addToBatch (batchMetadataKey batchDataKey : K) (newMetadata newJobId newData : Value A) :
    Script K (Value A) ℤ := do
  match ← get batchMetadataKey with
  | some rawMetadata =>
      let metadata ← decodeMetadata rawMetadata
      match metadata.rowCount with
      | none => return -1
      | some rowCount =>
          let currentCount := rowCount + 1
          set batchMetadataKey (.metadata { metadata with rowCount := some currentCount })
          let _ ← hsetnx batchDataKey newJobId newData
          return currentCount
  | none =>
      set batchMetadataKey newMetadata
      let _ ← hsetnx batchDataKey newJobId newData
      return 1

/-- `lua/lockBatch.lua` -/
def lockBatch (batchMetadataKey batchDataKey lockedMetadataKey lockedDataKey : K)
    (currentTimestamp timestampInterval : ℕ) : Script K (Value A) (LockReply (Value A)) := do
  match ← get batchMetadataKey with
  | none => return .noBatch
  | some _ =>
      match ← get lockedMetadataKey with
      | some rawPreviousMetadata =>
          let previousMetadata ← decodeMetadata rawPreviousMetadata
          match previousMetadata.lockTimestamp with
          | none => throw (.script "attempt to perform arithmetic on a nil value")
          | some lockTimestamp =>
              let timePassed : ℤ := currentTimestamp - lockTimestamp
              if timePassed > timestampInterval then
                return .leftover (← hgetall lockedDataKey) rawPreviousMetadata
              else
                return .stillLocked
      | none =>
          rename batchMetadataKey lockedMetadataKey
          rename batchDataKey lockedDataKey
          match ← get lockedMetadataKey with
          | none => throw (.script "cjson.decode")
          | some rawPreviousMetadata2 =>
              let previousMetadata2 ← decodeMetadata rawPreviousMetadata2
              let encodedMetadata : Value A :=
                .metadata { previousMetadata2 with lockTimestamp := some currentTimestamp }
              set lockedMetadataKey encodedMetadata
              return .locked (← hgetall lockedDataKey) encodedMetadata

end Lua

/-- The four keys of one queue. They never coincide. -/
structure BatchKeys (K : Type) where
  metadata : K
  data : K
  lockedMetadata : K
  lockedData : K
  distinct : [metadata, data, lockedMetadata, lockedData].Nodup

theorem BatchKeys.separate {K : Type} (keys : BatchKeys K) :
    (keys.data ≠ keys.metadata ∧ keys.lockedMetadata ≠ keys.metadata ∧
      keys.lockedData ≠ keys.metadata) ∧
    (keys.lockedMetadata ≠ keys.data ∧ keys.lockedData ≠ keys.data) ∧
    keys.lockedData ≠ keys.lockedMetadata := by
  have := keys.distinct
  simp only [List.nodup_cons, List.mem_cons, not_or] at this
  exact ⟨⟨Ne.symm this.1.1, Ne.symm this.1.2.1, Ne.symm this.1.2.2.1⟩,
    ⟨Ne.symm this.2.1.1, Ne.symm this.2.1.2.1⟩, Ne.symm this.2.2.1.1⟩

/-- The key names built by the service for a queue. -/
def batchKeys (queueName : String) : BatchKeys String where
  metadata := getBatchMetadataKey queueName
  data := getBatchDataKey queueName
  lockedMetadata := getLockKey (getBatchMetadataKey queueName)
  lockedData := getLockKey (getBatchDataKey queueName)
  distinct := by
    simp [getBatchMetadataKey, getBatchDataKey, getLockKey, String.ext_iff]

end ContentPublishing.Batching
