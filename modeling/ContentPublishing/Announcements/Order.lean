import ContentPublishing.Announcements.Processor

/-!
# The order of what is published

Attachments, their links and the icons of a profile are published in the order in which
the callbacks push them. That is the order of the request only if the fetches complete
in it, and if no asset comes before one whose callback has less to wait for.
-/
namespace ContentPublishing.Announcements
open Dependencies (Ipfs IpfsApi Thrown)
open Effects

/-- Whatever is pushed is in the order of the request. -/
structure PublishedInOrder {content : RequestTypeDto} (order : FetchOrder content) : Prop where
  attachments : (pushAttachments content.assets order.assets).tasks = content.assets.zipIdx
  urls : ∀ asset ∈ content.assets.zipIdx,
    (pushAttachments content.assets order.assets).items asset.2 = asset.1.fetched.zipIdx
  icons : order.icons = content.icons.zipIdx

/-- Two runs of a job publish in the order of the request, and the same. -/
structure SamePublication (data : RequestJob) (order order' : FetchOrder data.content) : Prop where
  inOrder : PublishedInOrder order ∧ PublishedInOrder order'
  same : ∀ (api : IpfsApi) (services : Services) (answers : Bool) (ipfs t t' : Ipfs)
    (queued queued' : Queued),
    exec (collectAnnouncementAndQueue api services answers data order) ipfs = (.ok queued, t) →
    exec (collectAnnouncementAndQueue api services answers data order') ipfs = (.ok queued', t') →
    queued = queued' ∧ t = t'

/-- No asset comes before one that is pushed at an earlier stage, the references of each
asset arrive in order, the last ones of the assets too, and so do the icons. -/
structure CompletesInOrder {content : RequestTypeDto} (order : FetchOrder content) : Prop where
  stages : content.assets.Pairwise fun asset other => asset.stage ≤ other.stage
  references : Gather.ItemsInOrder order.assets
  assets : Gather.TasksInOrder AssetDto.fetched order.assets
  icons : order.icons.Pairwise fun icon other => icon.2 < other.2

section Order
variable {content : RequestTypeDto} {order : FetchOrder content}

theorem publishedInOrder_iff : PublishedInOrder order ↔ CompletesInOrder order := by
  have hitems : (∀ asset ∈ content.assets.zipIdx,
      (pushAttachments content.assets order.assets).items asset.2 = asset.1.fetched.zipIdx) ↔
        Gather.ItemsInOrder order.assets := by
    rw [← Gather.itemsInOrder_iff order.assets_perm, pushAttachments, Gather.items_run]
  have htasks := fun h => Gather.tasksInOrder_iff order.assets_perm h
    AssetDto.stage_le AssetDto.fetched_eq_nil_iff
  have hicons := Gather.eq_zipIdx_iff order.icons_perm
  constructor
  · intro h
    have href := hitems.mp h.urls
    obtain ⟨hstages, hassets⟩ := (htasks href).mp h.attachments
    exact ⟨hstages, href, hassets, hicons.mp h.icons⟩
  · intro h
    exact ⟨(htasks h.references).mpr ⟨h.stages, h.assets⟩, hitems.mpr h.references,
      hicons.mpr h.icons⟩

end Order

section Same
variable {api : IpfsApi} {services : Services} {answers : Bool}
  {assetToMimeType : Option (List (String × String))}

/-- What is pushed in one order is what is published. -/
theorem prepareAttachments_eq {ipfs : Ipfs} {assetData : Option (List AssetDto)}
    {fetches fetches' : List Fetch} {attachments attachments' : List ActivityContentAttachment}
    (htasks : (pushAttachments (assetData.getD []) fetches).tasks =
      (pushAttachments (assetData.getD []) fetches').tasks)
    (hitems : ∀ asset ∈ (pushAttachments (assetData.getD []) fetches).tasks,
      (pushAttachments (assetData.getD []) fetches).items asset.2 =
        (pushAttachments (assetData.getD []) fetches').items asset.2)
    (h : prepareAttachments api services ipfs assetData assetToMimeType fetches = .ok attachments)
    (h' : prepareAttachments api services ipfs assetData assetToMimeType fetches' =
      .ok attachments') : attachments = attachments' := by
  have hmap : (pushAttachments (assetData.getD []) fetches).tasks.mapM (fun asset =>
      prepareAttachment api services ipfs assetToMimeType asset.1
        (((pushAttachments (assetData.getD []) fetches).items asset.2).map Prod.fst)) =
      (pushAttachments (assetData.getD []) fetches').tasks.mapM fun asset =>
        prepareAttachment api services ipfs assetToMimeType asset.1
          (((pushAttachments (assetData.getD []) fetches').items asset.2).map Prod.fst) := by
    rw [← htasks]
    refine mapM_congr fun asset hasset => ?_
    rw [hitems asset hasset]
  unfold prepareAttachments at h h'
  dsimp only at h h'
  rw [hmap] at h
  obtain ⟨_, -, h⟩ := of_bind_ok h
  obtain ⟨_, -, h'⟩ := of_bind_ok h'
  exact Except.ok.inj (h.symm.trans h')

theorem agree_prepareNote {note : NoteActivityDto} {fetches fetches' : List Fetch}
    (htasks : (pushAttachments (note.assets.getD []) fetches).tasks =
      (pushAttachments (note.assets.getD []) fetches').tasks)
    (hitems : ∀ asset ∈ (pushAttachments (note.assets.getD []) fetches).tasks,
      (pushAttachments (note.assets.getD []) fetches).items asset.2 =
        (pushAttachments (note.assets.getD []) fetches').items asset.2) :
    Agree (prepareNote api services answers note assetToMimeType fetches)
      (prepareNote api services answers note assetToMimeType fetches') :=
  (Agree.refl _).bind fun _ =>
    (Agree.ask fun _ _ => prepareAttachments_eq htasks hitems).andThen _

/-- Runs that publish in the order of the request publish the same. -/
theorem agree_of_publishedInOrder {data : RequestJob} {order order' : FetchOrder data.content}
    (h : PublishedInOrder order) (h' : PublishedInOrder order') :
    Agree (collectAnnouncementAndQueue api services answers data order)
      (collectAnnouncementAndQueue api services answers data order') := by
  have htasks := h.attachments.trans h'.attachments.symm
  have hitems : ∀ asset ∈ (pushAttachments data.content.assets order.assets).tasks,
      (pushAttachments data.content.assets order.assets).items asset.2 =
        (pushAttachments data.content.assets order'.assets).items asset.2 := by
    intro asset hasset
    rw [h.attachments] at hasset
    rw [h.urls asset hasset, h'.urls asset hasset]
  have hicons := h.icons.trans h'.icons.symm
  obtain ⟨id, dsnpUserId, assetToMimeType, content⟩ := data
  cases content with
  | broadcast note =>
      exact ((agree_prepareNote htasks hitems).andThen _).andThen _
  | reply inReplyTo note =>
      exact ((agree_prepareNote htasks hitems).andThen _).andThen _
  | update targetContentHash targetType note =>
      exact ((agree_prepareNote htasks hitems).andThen _).andThen _
  | profile dto =>
      have hprofile : collectAnnouncementAndQueue api services answers
          ⟨id, dsnpUserId, assetToMimeType, .profile dto⟩ order =
          collectAnnouncementAndQueue api services answers
            ⟨id, dsnpUserId, assetToMimeType, .profile dto⟩ order' := by
        simp only [collectAnnouncementAndQueue, hicons]
      rw [hprofile]
      exact Agree.refl _
  | reaction emoji apply inReplyTo => exact Agree.refl _
  | tombstone targetContentHash targetType => exact Agree.refl _

end Same

/-- Two runs publish in the order of the request, and the same, exactly if the fetches of
both complete in this order. -/
theorem samePublication_iff (data : RequestJob) (order order' : FetchOrder data.content) :
    SamePublication data order order' ↔ CompletesInOrder order ∧ CompletesInOrder order' := by
  constructor
  · exact fun h => ⟨publishedInOrder_iff.mp h.inOrder.1, publishedInOrder_iff.mp h.inOrder.2⟩
  · rintro ⟨h, h'⟩
    have hpublished := publishedInOrder_iff.mpr h
    have hpublished' := publishedInOrder_iff.mpr h'
    exact ⟨⟨hpublished, hpublished'⟩, fun _ _ _ ipfs t t' queued queued' hrun hrun' =>
      agree_of_publishedInOrder hpublished hpublished' ipfs queued queued' t t' hrun hrun'⟩

/-- An image with one reference. -/
def sampleImage (referenceId : String) : AssetDto :=
  ⟨.image, some [⟨referenceId, none, none, none⟩], none, none⟩

def sampleLink : AssetDto := ⟨.link, none, none, some "https://example.org"⟩

def sampleNote (assets : List AssetDto) : RequestTypeDto :=
  .broadcast ⟨none, none, none, some "hello", some "2021-01-01T00:00:00.000Z", some assets⟩

/-- The only reference of an image. -/
def sampleFetch (referenceId : String) (position : ℕ) : Fetch :=
  ⟨(sampleImage referenceId, position), (⟨referenceId, none, none, none⟩, 0)⟩

def inOrder : FetchOrder (sampleNote [sampleImage "first", sampleImage "second"]) where
  assets := [sampleFetch "first" 0, sampleFetch "second" 1]
  icons := []
  assets_perm := .refl _
  icons_perm := .refl _

/-- The second image arrives first. -/
def reversed : FetchOrder (sampleNote [sampleImage "first", sampleImage "second"]) where
  assets := [sampleFetch "second" 1, sampleFetch "first" 0]
  icons := []
  assets_perm := .swap ..
  icons_perm := .refl _

/-- An image before a link has only one order to arrive in. -/
def onlyOrder : FetchOrder (sampleNote [sampleImage "first", sampleLink]) where
  assets := [sampleFetch "first" 0]
  icons := []
  assets_perm := .refl _
  icons_perm := .refl _

/-- Two images are published in the order of their arrival, and an image after the link
that follows it. -/
theorem not_samePublication :
    ¬ SamePublication ⟨"1", "1", some [], _⟩ inOrder reversed ∧
      ¬ SamePublication ⟨"1", "1", some [], _⟩ onlyOrder onlyOrder := by
  constructor
  · intro h
    have hpositions := congrArg (List.map Prod.snd) h.inOrder.2.attachments
    exact absurd hpositions (by decide)
  · intro h
    have hpositions := congrArg (List.map Prod.snd) h.inOrder.1.attachments
    exact absurd hpositions (by decide)

end ContentPublishing.Announcements
