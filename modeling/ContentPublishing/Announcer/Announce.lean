import ContentPublishing.Announcements.Processor
import ContentPublishing.Assets.Lifetime
import ContentPublishing.Batching.System
import ContentPublishing.Dependencies.Availability
import ContentPublishing.Lib.JsonText

/-!
# Announcing a batch

A batch job is written to a parquet file under the schema that the chain holds for its
announcements, the file is pinned and handed to the publisher. The schema is read from
the chain once and then kept in Redis. Calls are cut at their awaits and interleave.
-/
namespace ContentPublishing.Announcer
open Announcements (Announcement)
open Assets (storageExpireUpperLimitSeconds)
open Batching (BatchAnnouncerJobData CallId)
open Dependencies (Ipfs IpfsApi ipfsPin)
open Dependencies.Uploads (octetApi)
open Effects Expiring Transition

def schemaCacheKey (schemaId : ℕ) : String := "schema:" ++ toString schemaId

theorem schemaCacheKey_injective : Function.Injective schemaCacheKey := by
  intro m n h
  have htext : toString m = toString n := by
    rw [← String.toList_inj] at h ⊢
    simpa [schemaCacheKey] using h
  have hvalue := congrArg (fun text : String => Nat.ofDigitChars 10 text.toList 0) htext
  simpa [Nat.toString_eq_ofList_toDigits] using hvalue

inductive Thrown where
  | error (message : String)
  | syntaxError
  | typeError
  | library
  deriving DecidableEq, Repr

/-- The parquet and Polkadot libraries, the conversion of number literals, and the size
that the IPFS node answers for a file. -/
structure Libraries where
  number : String → String
  hexToString : String → Except Thrown String
  Schema : Type
  fromFrequencySchema : Json → Except Thrown Schema
  Writer : Type
  openStream : Schema → Except Thrown Writer
  appendRow : Writer → Announcement → Except Thrown Writer
  close : Writer → Except Thrown Buffer
  pinnedSize : Buffer → ℕ

/-! ## From the cached text to the file -/

/-- The bytes of a schema payload as hexadecimal text, if the chain has the schema. -/
abbrev SchemaPayload := Option String

def SchemaPayload.json : SchemaPayload → Json
  | none => .null
  | some hexString => .str hexString

section File
variable (libraries : Libraries)

def parseJson (text : String) : Except Thrown Json :=
  match Json.parse libraries.number text with
  | none => throw .syntaxError
  | some value => return value

/-- `Buffer.from(value).toString('utf8')` of a text; of what is no text it is an error. -/
def bufferText : Json → Except Thrown String
  | .str s => return s
  | _ => throw .typeError

/-- The schema of a payload. -/
def schemaOf (schemaId : ℕ) (hexString : String) : Except Thrown Json := do
  let schema ← parseJson libraries (← libraries.hexToString hexString)
  if Json.truthy schema then return schema
  else throw (.error ("Unable to parse schema for schemaId " ++ toString schemaId))

/-- One row after the other, in the order of the batch. -/
def writeParquet (schema : Json) (announcements : List Announcement) : Except Thrown Buffer := do
  let parquetSchema ← libraries.fromFrequencySchema schema
  let writer ← libraries.openStream parquetSchema
  libraries.close (← announcements.foldlM libraries.appendRow writer)

/-- The part of `announce` between the schema text and the pin. -/
def announceFile (job : BatchAnnouncerJobData Announcement) (cachedSchema : String) :
    Except Thrown Buffer := do
  let hexString ← bufferText (← parseJson libraries cachedSchema)
  writeParquet libraries (← schemaOf libraries job.schemaId hexString) job.announcements

/-- The file of a batch under a payload of its schema. -/
def fileOf (job : BatchAnnouncerJobData Announcement) (hexString : String) :
    Except Thrown Buffer := do
  writeParquet libraries (← schemaOf libraries job.schemaId hexString) job.announcements

/-- The text that is cached for the answer of the chain. -/
def cacheText (payload : SchemaPayload) : String := payload.json.stringify

variable {libraries} {job : BatchAnnouncerJobData Announcement}

theorem parseJson_cacheText (payload : SchemaPayload) :
    parseJson libraries (cacheText payload) = .ok payload.json := by
  unfold parseJson cacheText
  rw [Json.parse_stringify]
  · rfl
  · cases payload <;> rfl

theorem announceFile_cacheText (hexString : String) :
    announceFile libraries job (cacheText (some hexString)) = fileOf libraries job hexString := by
  rw [announceFile, parseJson_cacheText]
  rfl

/-- Without a schema there is no file. -/
theorem announceFile_cacheText_none :
    announceFile libraries job (cacheText none) = .error .typeError := by
  rw [announceFile, parseJson_cacheText]
  rfl

theorem cacheText_ne_empty (payload : SchemaPayload) : cacheText payload ≠ "" := by
  intro h
  have hcanonical : Json.canonical id payload.json = true := by cases payload <;> rfl
  obtain ⟨c, cs, hcs, -⟩ := Json.exists_cons_stringify payload.json hcanonical
  rw [show payload.json.stringify = "" from h] at hcs
  cases hcs

end File

/-! ## Calls in flight -/

/-- The await a call of `process` is suspended at. -/
inductive Stage where
  | get
  | query
  | setex (cachedSchema : String)
  | pin (file : Buffer)
  | add (publisherJob : IPublisherJob)
  deriving DecidableEq, Repr

structure Call where
  job : BatchAnnouncerJobData Announcement
  stage : Stage
  deriving DecidableEq, Repr

/-- The schemas on the chain, the part of Redis that caches them, what is pinned, the
publish queue, and the calls of all workers. -/
structure State where
  chain : ℕ → SchemaPayload
  cache : Keyspace String String
  ipfs : Ipfs
  publishQueue : JobQueue String IPublisherJob
  calls : CallId → Option Call
  clock : ℕ

def start (chain : ℕ → SchemaPayload) (ipfs : Ipfs) : State :=
  ⟨chain, fun _ => none, ipfs, .empty, fun _ => none, 0⟩

namespace State

def setCall (s : State) (i : CallId) (c : Call) : State :=
  { s with calls := Function.update s.calls i (some c) }

def endCall (s : State) (i : CallId) : State :=
  { s with calls := Function.update s.calls i none }

/-- `announce` from the text of the schema to the pin. -/
def write (libraries : Libraries) (s : State) (i : CallId)
    (job : BatchAnnouncerJobData Announcement) (cachedSchema : String) : State :=
  match announceFile libraries job cachedSchema with
  | .ok file => s.setCall i ⟨job, .pin file⟩
  | .error _ => s.endCall i

end State

inductive Action where
  | tick (ms : ℕ)
  | createSchema (schemaId : ℕ) (hexString : String)
  | pinned (file : Buffer)
  | process (i : CallId) (job : BatchAnnouncerJobData Announcement)
  | get (i : CallId)
  | query (i : CallId)
  | setex (i : CallId)
  | pin (i : CallId) (answers : Bool)
  | add (i : CallId)
  | throw (i : CallId)
  | forget (jobId : String)
  deriving DecidableEq, Repr

section Step
variable (api : IpfsApi) (libraries : Libraries)

/-- One atomic step. A schema is put on the chain once and stays as it is; files are
pinned by other services too; a call may fail at any await, also after its request had
its effect; a finished job may be forgotten by the publish queue. -/
def step (s : State) : Action → Option State
  | .tick ms => some { s with clock := s.clock + ms }
  | .createSchema schemaId hexString =>
      if (s.chain schemaId).isSome then none else
        some { s with chain := Function.update s.chain schemaId (some hexString) }
  | .pinned file => some { s with ipfs := Function.update s.ipfs (api.hash file) (some file) }
  | .process i job => if (s.calls i).isSome then none else some (s.setCall i ⟨job, .get⟩)
  | .get i =>
      match s.calls i with
      | some ⟨job, .get⟩ =>
          match Expiring.get s.cache s.clock (schemaCacheKey job.schemaId) with
          | some cachedSchema =>
              if cachedSchema = "" then some (s.setCall i ⟨job, .query⟩)
              else some (s.write libraries i job cachedSchema)
          | none => some (s.setCall i ⟨job, .query⟩)
      | _ => none
  | .query i =>
      match s.calls i with
      | some ⟨job, .query⟩ =>
          some (s.setCall i ⟨job, .setex (cacheText (s.chain job.schemaId))⟩)
      | _ => none
  | .setex i =>
      match s.calls i with
      | some ⟨job, .setex cachedSchema⟩ =>
          let cache := setex s.cache s.clock (schemaCacheKey job.schemaId)
            storageExpireUpperLimitSeconds cachedSchema
          some ({ s with cache := cache }.write libraries i job cachedSchema)
      | _ => none
  | .pin i answers =>
      match s.calls i with
      | some ⟨job, .pin file⟩ =>
          match exec (ipfsPin api answers "application/octet-stream" file) s.ipfs with
          | (.ok cid, ipfs) =>
              some ({ s with ipfs := ipfs }.setCall i ⟨job, .add
                ⟨job.batchId, job.schemaId, ⟨cid, libraries.pinnedSize file⟩⟩⟩)
          | (.error _, ipfs) => some ({ s with ipfs := ipfs }.endCall i)
      | _ => none
  | .add i =>
      match s.calls i with
      | some ⟨_, .add publisherJob⟩ =>
          some ({ s with
            publishQueue := s.publishQueue.add publisherJob.id publisherJob }.endCall i)
      | _ => none
  | .throw i => if (s.calls i).isSome then some (s.endCall i) else none
  | .forget jobId => some { s with publishQueue := s.publishQueue.remove jobId }

end Step

/-! ## A schema of one field -/

def hexPairs : List Char → List Char
  | a :: b :: cs =>
      Char.ofNat (((Json.hexValue a).getD 0) * 16 + (Json.hexValue b).getD 0) :: hexPairs cs
  | _ => []

/-- A writer that lists the users of its rows. -/
def Libraries.sample : Libraries where
  number := id
  hexToString s := .ok (String.ofList (hexPairs (s.toList.drop 2)))
  Schema := Unit
  fromFrequencySchema _ := .ok ()
  Writer := List String
  openStream _ := .ok []
  appendRow rows announcement := .ok (rows ++ [announcement.fromId])
  close rows := .ok (rows.flatMap fun row => row.toUTF8.toList)
  pinnedSize file := file.length

/-- The payload of `{"a":1}`. -/
def samplePayload : String := "0x7b2261223a317d"

/-- Two reactions of two users on a development chain. -/
def sampleBatch : BatchAnnouncerJobData Announcement :=
  ⟨"batch", 4, [Announcements.createReaction "1" "x" "dsnp://2/0x1" 1,
    Announcements.createReaction "7" "x" "dsnp://2/0x1" 0]⟩

/-- The batch is announced where neither Redis nor the chain has the schema. -/
def announceEarly : List Action := [.process 0 sampleBatch, .get 0, .query 0, .setex 0]

/-- The schema is put on the chain, and the batch announced again almost 45 days later. -/
def announceLate : List Action :=
  [.createSchema 4 samplePayload, .tick 3887999999, .process 1 sampleBatch, .get 1]

/-- The schema is read from the chain, and the batch goes to the publisher. -/
def announceBatch : List Action :=
  [.createSchema 4 samplePayload, .process 0 sampleBatch, .get 0, .query 0, .setex 0,
    .pin 0 true, .add 0]

example : (run (step octetApi .sample) (start (fun _ => none) fun _ => none) announceBatch).any
    (fun t => t.publishQueue.ids = ["batch"]) := by
  decide +kernel

end ContentPublishing.Announcer
