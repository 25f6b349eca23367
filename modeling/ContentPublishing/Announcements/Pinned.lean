import ContentPublishing.Announcements.Activity
import ContentPublishing.Announcements.UserId
import ContentPublishing.Dependencies.Availability

/-!
# What a request processor queues

The announcement of a request goes to the queue of its type, under the identifier of
the request. The activity that it refers to is pinned by then, and what is pinned once
stays so.
-/
namespace ContentPublishing.Announcements
open Dependencies (Ipfs IpfsApi Thrown ipfsPin)
open Dependencies.Uploads (ipfsPin_cases octetApi)
open Effects

/-- The `announcementType` of an announcement with these fields. -/
def AnnouncementFields.announcementType : AnnouncementFields → AnnouncementTypeDto
  | .tombstone .. => .tombstone
  | .broadcast .. => .broadcast
  | .reply .. => .reply
  | .reaction .. => .reaction
  | .profile .. => .profile
  | .update .. => .update

/-- The hash and the URL of the activity that an announcement refers to. -/
def AnnouncementFields.activity? : AnnouncementFields → Option (String × String)
  | .broadcast contentHash url | .reply contentHash _ url | .profile contentHash url
  | .update contentHash _ _ url => some (contentHash, url)
  | .tombstone .. | .reaction .. => none

section Pinned
variable (api : IpfsApi) (services : Services)

/-- What is pinned of an activity, with its hash and its URL. -/
structure PinnedAs (ipfs : Ipfs) (activity : Json) (contentHash url : String) : Prop where
  pinned : ipfs (api.hash (bufferOf activity)) = some (bufferOf activity)
  contentHash : contentHash = services.calculateDsnpHash (bufferOf activity)
  url : url = services.getIpfsCidPlaceholder (api.toV1 (api.hash (bufferOf activity)))

/-- What the announcement of a request refers to is pinned, and it is what the request
asks for. -/
def RefersToPinned (data : RequestJob) (ipfs : Ipfs) (announcement : Announcement) : Prop :=
  ∀ reference, announcement.fields.activity? = some reference →
    ∃ activity, ActivityOf api services data activity ∧
      PinnedAs api services ipfs activity reference.1 reference.2

variable {api services} {answers : Bool} {ipfs ipfs' : Ipfs}

theorem keeps_ipfsPin (mimeType : String) (file other : Buffer) :
    Keeps (fun ipfs : Ipfs => ipfs (api.hash other) = some other)
      (ipfsPin api answers mimeType file) := by
  intro ipfs h
  rcases ipfsPin_cases api answers mimeType file ipfs with ⟨e, hpin⟩ | hpin
  · rw [hpin]
    exact h
  · rw [hpin]
    dsimp only
    by_cases hfile : api.hash other = api.hash file
    · rw [api.hash_injective hfile, Function.update_self]
    · rw [Function.update_of_ne hfile, h]

theorem exec_pinBufferToIPFS {activity : Json} {cid hash : String}
    (h : exec (pinBufferToIPFS api services answers (bufferOf activity)) ipfs =
      (.ok (cid, hash), ipfs')) :
    PinnedAs api services ipfs' activity hash (services.getIpfsCidPlaceholder cid) := by
  obtain ⟨a, u, hpin, hreturn⟩ := of_exec_bind h
  rcases ipfsPin_cases api answers "application/octet-stream" (bufferOf activity) ipfs with
    ⟨e, he⟩ | hok
  · rw [he] at hpin
    cases hpin
  · rw [hok] at hpin
    cases hpin
    cases hreturn
    exact ⟨Function.update_self .., rfl, rfl⟩

theorem keeps_pinBufferToIPFS (buf other : Buffer) :
    Keeps (fun ipfs : Ipfs => ipfs (api.hash other) = some other)
      (pinBufferToIPFS api services answers buf) :=
  keeps_bind (keeps_ipfsPin _ buf other) fun _ => keeps_pure _

section Note
variable {noteContent : NoteActivityDto} {assetToMimeType : Option (List (String × String))}
  {fetches : List Fetch}

theorem keeps_prepareNote (other : Buffer) :
    Keeps (fun ipfs : Ipfs => ipfs (api.hash other) = some other)
      (prepareNote api services answers noteContent assetToMimeType fetches) := by
  refine keeps_bind keeps_get fun ipfs => keeps_bind (keeps_ask _) fun attachments => ?_
  split
  · exact keeps_throw _
  · exact keeps_bind (keeps_pinBufferToIPFS _ other) fun _ => keeps_pure _

theorem exec_prepareNote {cid url hash : String}
    (hfetches : fetches.Perm (Gather.completions AssetDto.fetched (noteContent.assets.getD [])))
    (h : exec (prepareNote api services answers noteContent assetToMimeType fetches) ipfs =
      (.ok (cid, url, hash), ipfs')) :
    ∃ attachments note, AttachmentsOf api services assetToMimeType noteContent.assets attachments ∧
      noteOf services noteContent attachments = some note ∧
        PinnedAs api services ipfs' note hash url := by
  obtain ⟨before, u, hbefore, h⟩ := of_exec_bind h
  obtain ⟨attachments, v, hattachments, h⟩ := of_exec_bind h
  rw [exec_ask, Prod.mk.injEq] at hattachments
  split at h
  · cases h
  · next note hnote =>
      obtain ⟨⟨cid, hash⟩, w, hpin, hreturn⟩ := of_exec_bind h
      cases hreturn
      exact ⟨attachments, note, ⟨before, fetches, hfetches, hattachments.1⟩, hnote,
        exec_pinBufferToIPFS hpin⟩

/-- What is queued with an announcement that is made of a note. -/
theorem exec_queueNote (create : String → String → Announcement) {queueName : QueueName}
    {jobId : String} {queued : Queued}
    (hfetches : fetches.Perm (Gather.completions AssetDto.fetched (noteContent.assets.getD [])))
    (h : exec (do
      let announcement ← (do
        let (_, ipfsUrl, hash) ← prepareNote api services answers noteContent assetToMimeType
          fetches
        return create ipfsUrl hash)
      return ⟨queueName, jobId, announcement⟩) ipfs = (.ok queued, ipfs')) :
    ∃ url hash, queued = ⟨queueName, jobId, create url hash⟩ ∧
      ∃ activity, (∃ attachments, AttachmentsOf api services assetToMimeType noteContent.assets
        attachments ∧ noteOf services noteContent attachments = some activity) ∧
          PinnedAs api services ipfs' activity hash url := by
  obtain ⟨announcement, _, hprocess, hqueued⟩ := of_exec_bind h
  cases hqueued
  obtain ⟨⟨cid, url, hash⟩, _, hnote, hreturn⟩ := of_exec_bind hprocess
  cases hreturn
  obtain ⟨attachments, note, hattachments, hnote, hpinned⟩ := exec_prepareNote hfetches hnote
  exact ⟨url, hash, rfl, note, ⟨attachments, hattachments, hnote⟩, hpinned⟩

end Note

theorem keeps_processProfile {content : ProfileActivityDto} {dsnpUserId : String}
    {assetToMimeType : Option (List (String × String))}
    {fetches : List (AssetReferenceDto × ℕ)} (other : Buffer) :
    Keeps (fun ipfs : Ipfs => ipfs (api.hash other) = some other)
      (processProfile api services answers content dsnpUserId assetToMimeType fetches) :=
  keeps_bind keeps_get fun _ => keeps_bind (keeps_ask _) fun _ =>
    keeps_bind (keeps_pinBufferToIPFS _ other) fun _ => keeps_pure _

variable {data : RequestJob} {order : FetchOrder data.content}

/-- Whether it succeeds or fails, nothing is unpinned. -/
theorem keeps_collectAnnouncementAndQueue (other : Buffer) :
    Keeps (fun ipfs : Ipfs => ipfs (api.hash other) = some other)
      (collectAnnouncementAndQueue api services answers data order) := by
  obtain ⟨id, dsnpUserId, assetToMimeType, content⟩ := data
  cases content with
  | broadcast content =>
      exact keeps_bind (keeps_bind (keeps_prepareNote other) fun _ => keeps_pure _)
        fun _ => keeps_pure _
  | reply inReplyTo content =>
      exact keeps_bind (keeps_bind (keeps_prepareNote other) fun _ => keeps_pure _)
        fun _ => keeps_pure _
  | reaction emoji apply inReplyTo => exact keeps_pure _
  | update targetContentHash targetType content =>
      exact keeps_bind (keeps_bind (keeps_prepareNote other) fun _ => keeps_pure _)
        fun _ => keeps_pure _
  | tombstone targetContentHash targetType => exact keeps_pure _
  | profile dto => exact keeps_bind (keeps_processProfile other) fun _ => keeps_pure _

theorem pinned_of_exec {r : Except Thrown Queued} {other : Buffer}
    (h : exec (collectAnnouncementAndQueue api services answers data order) ipfs = (r, ipfs'))
    (hother : ipfs (api.hash other) = some other) : ipfs' (api.hash other) = some other := by
  have hkept : (exec (collectAnnouncementAndQueue api services answers data order) ipfs).2
      (api.hash other) = some other := keeps_collectAnnouncementAndQueue other ipfs hother
  rwa [h] at hkept

/-- What is queued of a request, and where. -/
structure QueuedFor (api : IpfsApi) (services : Services) (data : RequestJob) (ipfs : Ipfs)
    (queued : Queued) : Prop where
  jobId : queued.jobId = data.id
  queueName : queueNameToAnnouncementMap queued.queueName = data.content.announcementType
  announcementType :
    queued.announcement.fields.announcementType = data.content.announcementType
  fromId : queued.announcement.fromId = data.dsnpUserId
  pinned : RefersToPinned api services data ipfs queued.announcement

theorem queuedFor_of_exec {queued : Queued}
    (h : exec (collectAnnouncementAndQueue api services answers data order) ipfs =
      (.ok queued, ipfs')) : QueuedFor api services data ipfs' queued := by
  have hfromId := fromId_collectAnnouncementAndQueue h
  obtain ⟨id, dsnpUserId, assetToMimeType, content⟩ := data
  cases content with
  | broadcast content =>
      obtain ⟨url, hash, rfl, hpinned⟩ :=
        exec_queueNote (createBroadcast dsnpUserId) order.assets_perm h
      exact ⟨rfl, rfl, rfl, hfromId, by rintro _ ⟨⟩; exact hpinned⟩
  | reply inReplyTo content =>
      obtain ⟨url, hash, rfl, hpinned⟩ := exec_queueNote
        (fun url hash => createReply dsnpUserId url hash inReplyTo) order.assets_perm h
      exact ⟨rfl, rfl, rfl, hfromId, by rintro _ ⟨⟩; exact hpinned⟩
  | reaction emoji apply inReplyTo =>
      cases h
      exact ⟨rfl, rfl, rfl, hfromId, fun _ h => by cases h⟩
  | update targetContentHash targetType content =>
      obtain ⟨url, hash, rfl, hpinned⟩ := exec_queueNote
        (fun url hash => createUpdate dsnpUserId url hash _ _) order.assets_perm h
      exact ⟨rfl, rfl, rfl, hfromId, by rintro _ ⟨⟩; exact hpinned⟩
  | tombstone targetContentHash targetType =>
      cases h
      exact ⟨rfl, rfl, rfl, hfromId, fun _ h => by cases h⟩
  | profile dto =>
      obtain ⟨announcement, _, hprocess, hqueued⟩ := of_exec_bind h
      cases hqueued
      obtain ⟨before, u, _, hprocess⟩ := of_exec_bind hprocess
      obtain ⟨attachments, v, hicons, hprocess⟩ := of_exec_bind hprocess
      rw [exec_ask, Prod.mk.injEq] at hicons
      obtain ⟨⟨cid, hash⟩, w, hpin, hreturn⟩ := of_exec_bind hprocess
      cases hreturn
      refine ⟨rfl, rfl, rfl, hfromId, ?_⟩
      rintro _ ⟨⟩
      exact ⟨profileOf dto attachments, ⟨attachments, ⟨before, order.icons, order.icons_perm,
        hicons.1⟩, rfl⟩, exec_pinBufferToIPFS hpin⟩

/-! ## The content hash of an announcement -/

/-- The hash tells the activities of these requests apart. -/
def HashesApart (api : IpfsApi) (services : Services) (data other : RequestJob) : Prop :=
  ∀ activity activity', ActivityOf api services data activity →
    ActivityOf api services other activity' →
      services.calculateDsnpHash (bufferOf activity) =
        services.calculateDsnpHash (bufferOf activity') → bufferOf activity = bufferOf activity'

/-- Announcements with one content hash refer to one activity, and whoever made the
requests for them said the same. -/
theorem published_of_contentHash {data other : RequestJob} {order : FetchOrder data.content}
    {order' : FetchOrder other.content} {answers' : Bool} {t t' : Ipfs} {queued queued' : Queued}
    (h : exec (collectAnnouncementAndQueue api services answers data order) ipfs = (.ok queued, t))
    (hother : exec (collectAnnouncementAndQueue api services answers' other order') ipfs' =
      (.ok queued', t'))
    (hvalues : Canonical data.content.values) (hvalues' : Canonical other.content.values)
    (hapart : HashesApart api services data other) {contentHash url url' : String}
    (href : queued.announcement.fields.activity? = some (contentHash, url))
    (href' : queued'.announcement.fields.activity? = some (contentHash, url')) :
    url = url' ∧ data.content.published? services = other.content.published? services ∧
      ∃ activity, ActivityOf api services data activity ∧ ActivityOf api services other activity ∧
        PinnedAs api services t activity contentHash url ∧
          PinnedAs api services t' activity contentHash url' := by
  obtain ⟨activity, hactivity, hpinned⟩ := (queuedFor_of_exec h).pinned _ href
  obtain ⟨activity', hactivity', hpinned'⟩ := (queuedFor_of_exec hother).pinned _ href'
  have hhash := hpinned.contentHash.symm.trans hpinned'.contentHash
  obtain rfl := bufferOf_injective (hactivity.canonical hvalues) (hactivity'.canonical hvalues')
    (hapart activity activity' hactivity hactivity' hhash)
  exact ⟨hpinned.url.trans hpinned'.url.symm, hactivity.published?_eq hactivity', activity,
    hactivity, hactivity', hpinned, hpinned'⟩

end Pinned

def greeting : NoteActivityDto := ⟨none, none, none, some "hello", none, none⟩

def byFirst : RequestJob := ⟨"a", "1", none, .broadcast greeting⟩

def bySecond : RequestJob := ⟨"b", "2", none, .reply "dsnp://1/0x12" greeting⟩

/-- Two users say the same, one of them in a reply. -/
theorem published_greeting : ∃ queued t queued' t' contentHash url url',
    exec (collectAnnouncementAndQueue octetApi plainServices true byFirst
      ⟨_, _, .refl _, .refl _⟩) (fun _ => none) = (.ok queued, t) ∧
    exec (collectAnnouncementAndQueue octetApi plainServices true bySecond
      ⟨_, _, .refl _, .refl _⟩) t = (.ok queued', t') ∧
    queued.announcement.fields.activity? = some (contentHash, url) ∧
    queued'.announcement.fields.activity? = some (contentHash, url') ∧ url = url' ∧
      byFirst.content.published? plainServices = bySecond.content.published? plainServices := by
  obtain ⟨queued, t, queued', t', contentHash, url, url', h, h', href, href'⟩ :
      ∃ queued t queued' t' contentHash url url',
        exec (collectAnnouncementAndQueue octetApi plainServices true byFirst
          ⟨_, _, .refl _, .refl _⟩) (fun _ => none) = (.ok queued, t) ∧
        exec (collectAnnouncementAndQueue octetApi plainServices true bySecond
          ⟨_, _, .refl _, .refl _⟩) t = (.ok queued', t') ∧
        queued.announcement.fields.activity? = some (contentHash, url) ∧
        queued'.announcement.fields.activity? = some (contentHash, url') :=
    ⟨_, _, _, _, _, _, _, rfl, rfl, rfl, rfl⟩
  obtain ⟨hurl, hpublished, -⟩ := published_of_contentHash h h' (by decide) (by decide)
    (fun _ _ _ _ hhash => plainCid_injective hhash) href href'
  exact ⟨queued, t, queued', t', contentHash, url, url', h, h', href, href', hurl, hpublished⟩

end ContentPublishing.Announcements
