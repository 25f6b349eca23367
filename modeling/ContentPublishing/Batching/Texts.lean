import ContentPublishing.Announcements.Text
import ContentPublishing.Batching.Step
import ContentPublishing.Lib.Representation

/-!
# The texts that Redis holds

Redis stores texts: metadata that the service writes with `JSON.stringify` and the
scripts with `cjson.encode`, and announcements that the service writes and reads back.
Here the scripts run on these texts. Reading every text gives the values on which
`Scripts` runs them, and what the scripts do on texts is what they do on the values.
-/
namespace ContentPublishing.Batching
open Announcements (Announcement number? text?)
open Effects Redis

/-- `cjson` writes a number with fourteen digits. -/
def exactLimit : ℕ := 10 ^ 14

namespace BatchMetadata

/-- No number has more digits than are written. -/
structure Exact (m : BatchMetadata) : Prop where
  startTimestamp : m.startTimestamp < exactLimit
  rowCount : ∀ n ∈ m.rowCount, n < exactLimit
  lockTimestamp : ∀ t ∈ m.lockTimestamp, t < exactLimit

/-- The fields that the service and the scripts look up. -/
def ofJson? : Json → Option BatchMetadata
  | .obj members => do
      return ⟨← text? members "batchId", ← number? members "startTimestamp",
        number? members "rowCount", number? members "lockTimestamp"⟩
  | _ => none

end BatchMetadata

/-- The text that a number literal converts to, and the text that `cjson.encode` writes
for a table of metadata. -/
structure Encoding where
  number : String → String
  cjsonEncode : BatchMetadata → String
  number_repr : ∀ n < exactLimit, number (Nat.repr n) = Nat.repr n
  ofJson?_cjsonEncode : ∀ m : BatchMetadata, m.Exact →
    (Json.parse number (cjsonEncode m)).bind BatchMetadata.ofJson? = some m

/-- The metadata that `process` sends. -/
def newMetadata (batchId : BatchId) (startTimestamp : ℕ) : String :=
  Json.stringify <| .obj [("batchId", .str batchId),
    ("startTimestamp", .natural startTimestamp), ("rowCount", .natural 1)]

/-- The data that `process` sends. -/
def newData (announcement : Announcement) : String := announcement.json.stringify

namespace Encoding
variable (encoding : Encoding)

/-- `JSON.parse`, and `cjson.decode`, of a text where metadata is expected. -/
def metadata? (text : String) : Option BatchMetadata :=
  (Json.parse encoding.number text).bind BatchMetadata.ofJson?

/-- `JSON.parse` of a text where an announcement is expected. -/
def announcement? (text : String) : Option Announcement :=
  (Json.parse encoding.number text).bind Announcement.ofJson?

theorem metadata?_newMetadata (batchId : BatchId) {startTimestamp : ℕ}
    (h : startTimestamp < exactLimit) :
    encoding.metadata? (newMetadata batchId startTimestamp) =
      some ⟨batchId, startTimestamp, some 1, none⟩ := by
  have hstart := Json.canonical_natural (encoding.number_repr _ h)
  have hone := Json.canonical_natural (encoding.number_repr 1 (by decide))
  have hordered : Json.ordered ["batchId", "startTimestamp", "rowCount"] = true := by
    decide +kernel
  rw [metadata?, newMetadata, Json.parse_stringify, Option.bind_some]
  · simp [BatchMetadata.ofJson?, text?, number?, List.lookup_cons]
  · simp [Json.canonical, Json.canonicalFields, Json.canonicalField, hordered, hstart, hone]

theorem announcement?_newData {announcement : Announcement}
    (h : announcement.Below exactLimit) :
    encoding.announcement? (newData announcement) = some announcement := by
  rw [announcement?, newData,
    Json.parse_stringify (Announcement.canonical_json h (by decide) encoding.number_repr),
    Option.bind_some, Announcement.ofJson?_json]

/-! ## What a text stands for -/

/-- A string of Redis. Any value but metadata may stand for a text that is no metadata. -/
def value (text : String) : Value Announcement :=
  (encoding.metadata? text).elim (.jobId text) .metadata

/-- A value in a hash. -/
def rowValue (text : String) : Value Announcement :=
  (encoding.announcement? text).elim (.jobId text) .announcement

def read {K : Type} : Store K String → Store K (Value Announcement) :=
  translate encoding.value .jobId encoding.rowValue

theorem metadata?_value (text : String) :
    (encoding.value text).metadata? = encoding.metadata? text := by
  unfold value
  cases encoding.metadata? text <;> rfl

theorem value_of_metadata? {text : String} {m : BatchMetadata}
    (h : encoding.metadata? text = some m) : encoding.value text = .metadata m := by
  rw [value, h, Option.elim_some]

theorem rowValue_newData {announcement : Announcement} (h : announcement.Below exactLimit) :
    encoding.rowValue (newData announcement) = .announcement announcement := by
  rw [rowValue, announcement?_newData encoding h, Option.elim_some]

/-! ## The scripts -/

section Lua
variable {K : Type}

/-- `cjson.decode` of a metadata text. -/
def decode (raw : String) : Script K String BatchMetadata :=
  match encoding.metadata? raw with
  | some m => pure m
  | none => throw (.script "cjson.decode")

variable [DecidableEq K]

/-- `lua/addToBatch.lua` -/
def addToBatch (batchMetadataKey batchDataKey : K) (newMetadata newJobId newData : String) :
    Script K String ℤ := do
  match ← get batchMetadataKey with
  | some rawMetadata =>
      let metadata ← encoding.decode rawMetadata
      match metadata.rowCount with
      | none => return -1
      | some rowCount =>
          let currentCount := rowCount + 1
          set batchMetadataKey
            (encoding.cjsonEncode { metadata with rowCount := some currentCount })
          let _ ← hsetnx batchDataKey newJobId newData
          return currentCount
  | none =>
      set batchMetadataKey newMetadata
      let _ ← hsetnx batchDataKey newJobId newData
      return 1

/-- `lua/lockBatch.lua` -/
def lockBatch (batchMetadataKey batchDataKey lockedMetadataKey lockedDataKey : K)
    (currentTimestamp timestampInterval : ℕ) : Script K String (LockReply String) := do
  match ← get batchMetadataKey with
  | none => return .noBatch
  | some _ =>
      match ← get lockedMetadataKey with
      | some rawPreviousMetadata =>
          let previousMetadata ← encoding.decode rawPreviousMetadata
          match previousMetadata.lockTimestamp with
          | none => throw (.script "attempt to perform arithmetic on a nil value")
          | some lockTimestamp =>
              let timePassed : ℤ := currentTimestamp - lockTimestamp
              if timePassed > timestampInterval then
                return .leftover (← hgetall lockedDataKey) rawPreviousMetadata
              else
                return .stillLocked
      | none =>
          rename batchMetadataKey lockedMetadataKey
          rename batchDataKey lockedDataKey
          match ← get lockedMetadataKey with
          | none => throw (.script "cjson.decode")
          | some rawPreviousMetadata2 =>
              let previousMetadata2 ← encoding.decode rawPreviousMetadata2
              let encodedMetadata := encoding.cjsonEncode
                { previousMetadata2 with lockTimestamp := some currentTimestamp }
              set lockedMetadataKey encodedMetadata
              return .locked (← hgetall lockedDataKey) encodedMetadata

/-- What `closeBatch` reads out of a reply. -/
def reply : LockReply String → LockReply (Value Announcement)
  | .noBatch => .noBatch
  | .stillLocked => .stillLocked
  | .leftover batch metadata =>
      .leftover (translateReply .jobId encoding.rowValue batch) (encoding.value metadata)
  | .locked batch metadata =>
      .locked (translateReply .jobId encoding.rowValue batch) (encoding.value metadata)

end Lua

/-! ## Reading and running commute -/

section Tracking
variable {encoding} {K : Type} {store : Store K String}

theorem tracks_decode (raw : String) :
    Tracks encoding.read id store (encoding.decode raw) (decodeMetadata (encoding.value raw)) := by
  unfold decode decodeMetadata
  rw [metadata?_value]
  cases encoding.metadata? raw with
  | none => exact tracks_throw _
  | some m => exact tracks_pure rfl

theorem of_exec_decode {raw : String} {m : BatchMetadata} {t : Store K String}
    (h : exec (encoding.decode raw) store = (.ok m, t)) :
    encoding.metadata? raw = some m ∧ t = store := by
  unfold decode at h
  split at h
  · next m' hm => cases h; exact ⟨hm, rfl⟩
  · cases h

theorem value_cjsonEncode {m : BatchMetadata} (h : m.Exact) :
    encoding.value (encoding.cjsonEncode m) = .metadata m :=
  encoding.value_of_metadata? (encoding.ofJson?_cjsonEncode m h)

variable [DecidableEq K]

theorem tracks_addToBatch (batchMetadataKey batchDataKey : K) (jobId : String)
    {newMetadata newData : String} {m : BatchMetadata} {announcement : Announcement}
    (hnew : encoding.value newMetadata = .metadata m)
    (hdata : encoding.rowValue newData = .announcement announcement)
    (hcount : ∀ old ∈ (stringAt store batchMetadataKey).bind encoding.metadata?,
      ∀ n ∈ old.rowCount, BatchMetadata.Exact { old with rowCount := some (n + 1) }) :
    Tracks encoding.read id store
      (encoding.addToBatch batchMetadataKey batchDataKey newMetadata jobId newData)
      (Batching.addToBatch batchMetadataKey batchDataKey (.metadata m) (.jobId jobId)
        (.announcement announcement)) := by
  have hinjective : Function.Injective (Value.jobId : String → Value Announcement) :=
    fun _ _ h => Value.jobId.inj h
  unfold addToBatch Batching.addToBatch
  refine (tracks_get batchMetadataKey).bind fun raw t hget => ?_
  obtain ⟨rfl, rfl⟩ := of_exec_get hget
  cases hraw : stringAt t batchMetadataKey with
  | none =>
      refine (tracks_set _ hnew).bind fun _ _ _ => ?_
      exact (tracks_hsetnx hinjective _ rfl hdata).bind fun _ _ _ => tracks_pure rfl
  | some raw =>
      refine (tracks_decode raw).bind fun old t hdecode => ?_
      obtain ⟨hold, rfl⟩ := of_exec_decode hdecode
      dsimp only [id]
      cases hn : old.rowCount with
      | none => exact tracks_pure rfl
      | some n =>
          have hexact := hcount old (hraw ▸ hold) n hn
          refine (tracks_set _ (value_cjsonEncode hexact)).bind fun _ _ _ => ?_
          exact (tracks_hsetnx hinjective _ rfl hdata).bind fun _ _ _ => tracks_pure rfl

theorem tracks_lockBatch (keys : BatchKeys K) {now interval : ℕ}
    (hlock : ∀ m ∈ (stringAt store keys.metadata).bind encoding.metadata?,
      BatchMetadata.Exact { m with lockTimestamp := some now }) :
    Tracks encoding.read encoding.reply store
      (encoding.lockBatch keys.metadata keys.data keys.lockedMetadata keys.lockedData now interval)
      (Batching.lockBatch keys.metadata keys.data keys.lockedMetadata keys.lockedData now
        interval) := by
  obtain ⟨⟨hdm, hlm, hem⟩, ⟨hld, hed⟩, hel⟩ := keys.separate
  unfold lockBatch Batching.lockBatch
  refine (tracks_get keys.metadata).bind fun raw t hget => ?_
  obtain ⟨rfl, rfl⟩ := of_exec_get hget
  cases hraw : stringAt t keys.metadata with
  | none => exact tracks_pure rfl
  | some raw =>
      refine (tracks_get keys.lockedMetadata).bind fun previous u hget => ?_
      obtain ⟨rfl, rfl⟩ := of_exec_get hget
      cases hprevious : stringAt u keys.lockedMetadata with
      | some previous =>
          refine (tracks_decode previous).bind fun m _ _ => ?_
          dsimp only [id]
          cases hstamp : m.lockTimestamp with
          | none => exact tracks_throw _
          | some lockTimestamp =>
              dsimp only
              split
              · exact (tracks_hgetall _).bind fun _ _ _ => tracks_pure rfl
              · exact tracks_pure rfl
      | none =>
          refine (tracks_rename _ _).bind fun _ v hrename => ?_
          obtain ⟨entry, hentry, rfl⟩ := of_exec_rename hrename
          refine (tracks_rename _ _).bind fun _ w hrename => ?_
          obtain ⟨entry', -, rfl⟩ := of_exec_rename hrename
          refine (tracks_get keys.lockedMetadata).bind fun locked w hget => ?_
          -- The text under the locked key is the one that was read under the open key.
          have hlocked : locked = some raw := by
            rw [(of_exec_get hget).1, ← hraw, stringAt, stringAt, hentry,
              Function.update_of_ne (Ne.symm hel), Function.update_of_ne hld,
              Function.update_self]
          subst locked
          refine (tracks_decode raw).bind fun m _ hdecode => ?_
          have hexact := hlock m (hraw ▸ (of_exec_decode hdecode).1)
          refine (tracks_set _ (value_cjsonEncode hexact)).bind fun _ _ _ => ?_
          refine (tracks_hgetall _).bind fun batch _ _ => tracks_pure ?_
          rw [reply, value_cjsonEncode hexact]
          rfl

end Tracking

end Encoding

end ContentPublishing.Batching
