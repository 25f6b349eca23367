import ContentPublishing.Common.Constants
import ContentPublishing.Lib.Json

/-!
# Jobs that the services hand to each other
-/
namespace ContentPublishing

abbrev Hash := String

/-- The bytes of a file. -/
abbrev Buffer := List UInt8

structure UploadedFile where
  buffer : Buffer
  mimetype : String
  deriving DecidableEq, Repr

/-- An uploaded file that is to be pinned. -/
structure IAssetJob where
  ipfsCid : String
  contentLocation : String
  mimeType : String
  deriving DecidableEq, Repr

/-- A request with the MIME types of the assets that it refers to. -/
structure IRequestJob where
  id : String
  announcementType : AnnouncementTypeDto
  dsnpUserId : String
  assetToMimeType : Option (List (String × String))
  content : Option Json
  dependencyAttempt : ℕ

structure IPFSJobData where
  cid : String
  payloadLength : ℕ
  deriving DecidableEq, Repr

/-- A batch that was stored and is ready to be published on the chain. -/
structure IPublisherJob where
  id : String
  schemaId : ℕ
  data : IPFSJobData
  deriving DecidableEq, Repr

/-- A transaction that was sent and the job to publish again if it never lands. -/
structure ITxMonitorJob where
  id : String
  txHash : Hash
  lastFinalizedBlockHash : Hash
  referencePublishJob : IPublisherJob
  deriving DecidableEq, Repr

def IPublisherJob.sample : IPublisherJob := ⟨"batch", 16001, ⟨"cid", 100⟩⟩

def ITxMonitorJob.sample (txHash : Hash) : ITxMonitorJob := ⟨txHash, txHash, "block", .sample⟩

end ContentPublishing
