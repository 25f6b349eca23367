import ContentPublishing.Announcements.Content
import ContentPublishing.Dependencies.Processing
import ContentPublishing.Lib.Gather

/-!
# From a request job to an announcement

The processor fetches all references of a request at once and pushes what it makes of
them when they arrive. The order in which the fetches complete is an argument of the
functions that wait for them.
-/
namespace ContentPublishing.Announcements
open Dependencies (Ipfs IpfsApi Thrown getPinned ipfsPin)
open Effects

/-! ## Announcements -/

inductive AnnouncementType where
  | tombstone | broadcast | reply | reaction | profile | update | publicFollows
  deriving DecidableEq, Repr

inductive AnnouncementFields where
  | tombstone (targetAnnouncementType : AnnouncementType) (targetContentHash : String)
  | broadcast (contentHash url : String)
  | reply (contentHash inReplyTo url : String)
  | reaction (emoji inReplyTo : String) (apply : ℕ)
  | profile (contentHash url : String)
  | update (contentHash : String) (targetAnnouncementType : AnnouncementType)
      (targetContentHash url : String)
  deriving DecidableEq, Repr

structure Announcement where
  fromId : String
  fields : AnnouncementFields
  deriving DecidableEq, Repr

def createTombstone (fromId : String) (targetType : AnnouncementType)
    (targetContentHash : String) : Announcement := ⟨fromId, .tombstone targetType targetContentHash⟩

def createBroadcast (fromId url hash : String) : Announcement := ⟨fromId, .broadcast hash url⟩

def createReply (fromId url hash inReplyTo : String) : Announcement :=
  ⟨fromId, .reply hash inReplyTo url⟩

def createReaction (fromId emoji inReplyTo : String) (apply : ℕ) : Announcement :=
  ⟨fromId, .reaction emoji inReplyTo apply⟩

def createProfile (fromId url hash : String) : Announcement := ⟨fromId, .profile hash url⟩

def createUpdate (fromId url hash : String) (targetType : AnnouncementType)
    (targetHash : String) : Announcement := ⟨fromId, .update hash targetType targetHash url⟩

def getAnnouncementTypeFromModifiableAnnouncementType :
    ModifiableAnnouncementTypeDto → AnnouncementType
  | .broadcast => .broadcast
  | .reply => .reply

/-! ## The URL of a CID -/

/-- The text before and after the first occurrence of a pattern. -/
def splitFirst (pattern : List Char) : List Char → Option (List Char × List Char)
  | [] => if pattern.isEmpty then some ([], []) else none
  | c :: cs =>
      if pattern.isPrefixOf (c :: cs) then some ([], (c :: cs).drop pattern.length)
      else (splitFirst pattern cs).map (Prod.map (c :: ·) id)

/-- A replacement text with its `$` patterns expanded. -/
def expand (before found after : List Char) : List Char → List Char
  | '$' :: c :: cs =>
      match c.toNat with
      | 0x24 => '$' :: expand before found after cs
      | 0x26 => found ++ expand before found after cs
      | 0x60 => before ++ expand before found after cs
      | 0x27 => after ++ expand before found after cs
      | _ => '$' :: expand before found after (c :: cs)
  | c :: cs => c :: expand before found after cs
  | [] => []

/-- What the processor uses besides IPFS: the gateway, the hash of a content, and the
date of a text, which depends on the time zone of the host. -/
structure Services where
  ipfsGatewayUrl : String
  calculateDsnpHash : Buffer → String
  parseDate : String → Option Date

def Services.getIpfsCidPlaceholder (services : Services) (cid : String) : String :=
  match splitFirst "[CID]".toList services.ipfsGatewayUrl.toList with
  | none => "https://ipfs.io/ipfs/" ++ cid
  | some (before, after) =>
      String.ofList (before ++ expand before "[CID]".toList after cid.toList ++ after)

section Processor
variable (api : IpfsApi) (services : Services)

/-! ## References -/

section References
variable (ipfs : Ipfs) (assetToMimeType : Option (List (String × String)))

/-- The MIME type, and the hash of the content that is pinned. -/
def fetchReference (reference : AssetReferenceDto) : Except Thrown (Option String × String) :=
  match assetToMimeType with
  | none =>
      throw (.error ("asset " ++ reference.referenceId ++ " should have a mimeTypes"))
  | some mimeTypes => do
      let contentBuffer ← getPinned api ipfs reference.referenceId
      return (mimeTypes.lookup reference.referenceId, services.calculateDsnpHash contentBuffer)

/-- The link that `prepareImageAttachment`, `prepareVideoAttachment` and
`prepareProfileIconAttachments` push. -/
def prepareImageLink (reference : AssetReferenceDto) :
    Except Thrown ActivityContentImageLink := do
  let (mediaType, hashedContent) ← fetchReference api services ipfs assetToMimeType reference
  return ⟨mediaType, [hashedContent], reference.height, reference.width,
    services.getIpfsCidPlaceholder reference.referenceId⟩

/-- The link that `prepareAudioAttachment` pushes. -/
def prepareAudioLink (reference : AssetReferenceDto) :
    Except Thrown ActivityContentAudioLink := do
  let (mediaType, hashedContent) ← fetchReference api services ipfs assetToMimeType reference
  return ⟨mediaType, [hashedContent], services.getIpfsCidPlaceholder reference.referenceId⟩

/-- One reference after the other, in the order in which they arrive. The first that
fails rejects the whole; without MIME types that is the first of the request. -/
def awaitReferences (requested arrived : List AssetReferenceDto) : Except Thrown Unit :=
  (if assetToMimeType.isNone then requested else arrived).forM fun reference =>
    discard (fetchReference api services ipfs assetToMimeType reference)

/-! ## Attachments -/

/-- The references of an asset, in the order in which they arrived. -/
abbrev Arrived := List AssetReferenceDto

def prepareLinkAttachment (asset : AssetDto) : ActivityContentAttachment :=
  .link (asset.href.getD "") asset.name

def prepareImageAttachment (asset : AssetDto) (arrived : Arrived) :
    Except Thrown ActivityContentAttachment :=
  return .image asset.name
    (← arrived.mapM (prepareImageLink api services ipfs assetToMimeType))

/-- `duration = duration ? reference.duration : ''` for each reference -/
def videoDuration (arrived : Arrived) : Option Json :=
  arrived.foldl
    (fun duration reference =>
      if Json.truthy duration then reference.duration else some (.str ""))
    (some (.str ""))

def prepareVideoAttachment (asset : AssetDto) (arrived : Arrived) :
    Except Thrown ActivityContentAttachment :=
  return .video asset.name
    (← arrived.mapM (prepareImageLink api services ipfs assetToMimeType))
    (Json.coalesce (videoDuration arrived) none)

/-- `duration = duration ?? reference.duration ?? ''` for each reference -/
def audioDuration (arrived : Arrived) : Option Json :=
  arrived.foldl
    (fun duration reference =>
      Json.coalesce (Json.coalesce duration reference.duration) (some (.str "")))
    (some (.str ""))

def prepareAudioAttachment (asset : AssetDto) (arrived : Arrived) :
    Except Thrown ActivityContentAttachment :=
  return .audio asset.name
    (← arrived.mapM (prepareAudioLink api services ipfs assetToMimeType))
    (audioDuration arrived)

def prepareAttachment (asset : AssetDto) (arrived : Arrived) :
    Except Thrown ActivityContentAttachment :=
  match asset.type with
  | .link => return prepareLinkAttachment asset
  | .image => prepareImageAttachment api services ipfs assetToMimeType asset arrived
  | .video => prepareVideoAttachment api services ipfs assetToMimeType asset arrived
  | .audio => prepareAudioAttachment api services ipfs assetToMimeType asset arrived

end References

/-- The references that are fetched for an asset, none for a link. -/
def AssetDto.fetched (asset : AssetDto) : List AssetReferenceDto :=
  match asset.type with
  | .link => []
  | .image | .video | .audio => asset.references.getD []

/-- When the callback of an asset pushes: a link at once, an asset without references
after one turn of the promises, one with none in its list after two, any other when
its last reference has arrived. -/
def AssetDto.stage (asset : AssetDto) : ℕ :=
  match asset.type, asset.references with
  | .link, _ => 0
  | _, none => 1
  | _, some [] => 2
  | _, some (_ :: _) => 3

theorem AssetDto.stage_le (asset : AssetDto) : asset.stage ≤ 3 := by
  obtain ⟨type, references, name, href⟩ := asset
  cases type <;> rcases references with _ | _ | _ <;> simp [AssetDto.stage]

theorem AssetDto.fetched_eq_nil_iff (asset : AssetDto) : asset.fetched = [] ↔ asset.stage < 3 := by
  obtain ⟨type, references, name, href⟩ := asset
  cases type <;> rcases references with _ | _ | _ <;> simp [AssetDto.fetched, AssetDto.stage]

abbrev Fetch := Completion AssetDto AssetReferenceDto

/-- The callbacks of all assets. -/
def pushAttachments (assetData : List AssetDto) (fetches : List Fetch) :
    Gather AssetDto AssetReferenceDto :=
  .run AssetDto.fetched (Gather.settled AssetDto.stage 3 assetData) fetches

def prepareAttachments (ipfs : Ipfs) (assetData : Option (List AssetDto))
    (assetToMimeType : Option (List (String × String))) (fetches : List Fetch) :
    Except Thrown (List ActivityContentAttachment) := do
  let assetData := assetData.getD []
  awaitReferences api services ipfs assetToMimeType (assetData.flatMap AssetDto.fetched)
    (fetches.map fun fetch => fetch.item.1)
  let pushed := pushAttachments assetData fetches
  pushed.tasks.mapM fun asset =>
    prepareAttachment api services ipfs assetToMimeType asset.1
      ((pushed.items asset.2).map Prod.fst)

def prepareProfileIconAttachments (ipfs : Ipfs) (icons : List AssetReferenceDto)
    (assetToMimeType : Option (List (String × String)))
    (fetches : List (AssetReferenceDto × ℕ)) : Except Thrown (List ActivityContentImageLink) := do
  awaitReferences api services ipfs assetToMimeType icons (fetches.map Prod.fst)
  fetches.mapM fun icon => prepareImageLink api services ipfs assetToMimeType icon.1

/-! ## Activities -/

def prepareTags (tagData : Option (List TagDto)) : List ActivityContentTag :=
  (tagData.getD []).map fun tag =>
    match tag.type with
    | .hashtag => .hashtag tag.name
    | .mention => .mention tag.name tag.mentionedId

/-- The CID and the hash of a content that was pinned. -/
def pinBufferToIPFS (answers : Bool) (buf : Buffer) : EStateM Thrown Ipfs (String × String) :=
  return (← ipfsPin api answers "application/octet-stream" buf, services.calculateDsnpHash buf)

/-- `Buffer.from(JSON.stringify(value))` -/
def bufferOf (value : Json) : Buffer := value.stringify.toUTF8.toList

variable (answers : Bool)

def prepareNote (noteContent : NoteActivityDto)
    (assetToMimeType : Option (List (String × String))) (fetches : List Fetch) :
    EStateM Thrown Ipfs (String × String × String) := do
  let tags := prepareTags noteContent.tag
  let attachments ← ask
    (prepareAttachments api services (← get) noteContent.assets assetToMimeType fetches)
  match createNote (noteContent.content.getD "")
      (services.parseDate (noteContent.published.getD "")) noteContent.name
      (prepareLocation noteContent.location) tags attachments with
  | none => throw (.error "Invalid time value")
  | some note =>
      let (cid, hash) ← pinBufferToIPFS api services answers (bufferOf note)
      return (cid, services.getIpfsCidPlaceholder cid, hash)

def processBroadcast (content : NoteActivityDto) (dsnpUserId : String)
    (assetToMimeType : Option (List (String × String))) (fetches : List Fetch) :
    EStateM Thrown Ipfs Announcement := do
  let (_, ipfsUrl, hash) ← prepareNote api services answers content assetToMimeType fetches
  return createBroadcast dsnpUserId ipfsUrl hash

def processReply (inReplyTo : String) (content : NoteActivityDto) (dsnpUserId : String)
    (assetToMimeType : Option (List (String × String))) (fetches : List Fetch) :
    EStateM Thrown Ipfs Announcement := do
  let (_, ipfsUrl, hash) ← prepareNote api services answers content assetToMimeType fetches
  return createReply dsnpUserId ipfsUrl hash inReplyTo

def processReaction (emoji : String) (apply : ℕ) (inReplyTo dsnpUserId : String) : Announcement :=
  createReaction dsnpUserId emoji inReplyTo apply

def processUpdate (content : NoteActivityDto) (targetAnnouncementType : AnnouncementType)
    (targetContentHash dsnpUserId : String) (assetToMimeType : Option (List (String × String)))
    (fetches : List Fetch) : EStateM Thrown Ipfs Announcement := do
  let (_, ipfsUrl, hash) ← prepareNote api services answers content assetToMimeType fetches
  return createUpdate dsnpUserId ipfsUrl hash targetAnnouncementType targetContentHash

def processProfile (content : ProfileActivityDto) (dsnpUserId : String)
    (assetToMimeType : Option (List (String × String)))
    (fetches : List (AssetReferenceDto × ℕ)) : EStateM Thrown Ipfs Announcement := do
  let attachments ← ask (prepareProfileIconAttachments api services (← get)
    (content.icon.getD []) assetToMimeType fetches)
  let profileActivity : Json := .object
    [("@context", some (.str "https://www.w3.org/ns/activitystreams")),
      ("type", some (.str "Profile")), ("name", content.name), ("published", content.published),
      ("location", some (prepareLocation content.location)), ("summary", content.summary),
      ("icon", some (.arr (attachments.map (·.json)))),
      ("tag", some (.arr ((prepareTags content.tag).map (·.json))))]
  let (cid, hash) ← pinBufferToIPFS api services answers (bufferOf profileActivity)
  return createProfile dsnpUserId (services.getIpfsCidPlaceholder cid) hash

/-- An order in which the fetches of a request complete. -/
structure FetchOrder (content : RequestTypeDto) where
  assets : List Fetch
  icons : List (AssetReferenceDto × ℕ)
  assets_perm : assets.Perm (Gather.completions AssetDto.fetched content.assets)
  icons_perm : icons.Perm content.icons.zipIdx

/-- A job that was added to a queue. -/
structure Queued where
  queueName : QueueName
  jobId : String
  announcement : Announcement
  deriving DecidableEq, Repr

def collectAnnouncementAndQueue (data : RequestJob) (order : FetchOrder data.content) :
    EStateM Thrown Ipfs Queued :=
  match data.content with
  | .broadcast content =>
      return ⟨.broadcastQueue, data.id, ← processBroadcast api services answers content
        data.dsnpUserId data.assetToMimeType order.assets⟩
  | .reply inReplyTo content =>
      return ⟨.replyQueue, data.id, ← processReply api services answers inReplyTo content
        data.dsnpUserId data.assetToMimeType order.assets⟩
  | .reaction emoji apply inReplyTo =>
      return ⟨.reactionQueue, data.id, processReaction emoji apply inReplyTo data.dsnpUserId⟩
  | .update targetContentHash targetType content =>
      return ⟨.updateQueue, data.id, ← processUpdate api services answers content
        (getAnnouncementTypeFromModifiableAnnouncementType targetType)
        (targetContentHash.getD "") data.dsnpUserId data.assetToMimeType order.assets⟩
  | .profile profile =>
      return ⟨.profileQueue, data.id, ← processProfile api services answers profile
        data.dsnpUserId data.assetToMimeType order.icons⟩
  | .tombstone targetContentHash targetType =>
      return ⟨.tombstoneQueue, data.id, createTombstone data.dsnpUserId
        (getAnnouncementTypeFromModifiableAnnouncementType targetType)
        (targetContentHash.getD "")⟩

end Processor

end ContentPublishing.Announcements
