import ContentPublishing.Announcements.Processor
import ContentPublishing.Validation.Duration
import Mathlib.Data.List.Forall2

/-!
# What an attachment keeps of its asset

Where all references are pinned, the attachments are those of the assets in some order,
and their links those of the references. A duration is never kept: both expressions for
it start from the empty text and stay there.
-/
namespace ContentPublishing.Announcements
open Dependencies (Ipfs IpfsApi Thrown getPinned getPinned_eq)
open Effects

/-! ## Validated assets -/

/-- A duration that passes is a text that the pattern matches. -/
def ValidDuration (duration : Option Json) : Prop :=
  duration = none ∨ duration = some .null ∨
    ∃ s, duration = some (.str s) ∧ Validation.matchesDuration s = true

/-- What the validation of an asset leaves, as far as its attachment depends on it. -/
structure AssetDto.Validated (asset : AssetDto) : Prop where
  href : asset.type = .link → ∃ href, asset.href = some href ∧ href ≠ ""
  references : asset.type ≠ .link → asset.fetched ≠ []
  durations : ∀ reference ∈ asset.fetched, ValidDuration reference.duration

def AssetReferenceDto.HasDuration (reference : AssetReferenceDto) : Prop :=
  ∃ s, reference.duration = some (.str s)

/-! ## Translation -/

section Translation
variable (api : IpfsApi) (services : Services) (ipfs : Ipfs)
  (assetToMimeType : Option (List (String × String)))

/-- The reference is pinned and has a MIME type. -/
def Available (reference : AssetReferenceDto) : Prop :=
  (∃ v0Cid content, api.toV0 reference.referenceId = some v0Cid ∧ ipfs v0Cid = some content) ∧
    ∃ mimeType, (assetToMimeType.bind (·.lookup reference.referenceId)) = some mimeType

def mimeTypeOf (reference : AssetReferenceDto) : Option String :=
  assetToMimeType.bind (·.lookup reference.referenceId)

/-- The hash of the pinned bytes. -/
def hashOf (reference : AssetReferenceDto) : String :=
  services.calculateDsnpHash (((api.toV0 reference.referenceId).bind ipfs).getD [])

def imageLink (reference : AssetReferenceDto) : ActivityContentImageLink :=
  ⟨mimeTypeOf assetToMimeType reference, [hashOf api services ipfs reference],
    reference.height, reference.width, services.getIpfsCidPlaceholder reference.referenceId⟩

def audioLink (reference : AssetReferenceDto) : ActivityContentAudioLink :=
  ⟨mimeTypeOf assetToMimeType reference, [hashOf api services ipfs reference],
    services.getIpfsCidPlaceholder reference.referenceId⟩

/-- If a reference has a duration, the duration is that of one. -/
def KeepsDuration (references : List AssetReferenceDto) (duration : Option Json) : Prop :=
  (∃ reference ∈ references, reference.HasDuration) →
    ∃ reference ∈ references, reference.HasDuration ∧ duration = reference.duration

/-- The attachment has all that the asset says, its links in any order. -/
def Translates (asset : AssetDto) (attachment : ActivityContentAttachment) : Prop :=
  match asset.type with
  | .link => ∃ href, asset.href = some href ∧ attachment = .link href asset.name
  | .image => ∃ url, attachment = .image asset.name url ∧
      url.Perm (asset.fetched.map (imageLink api services ipfs assetToMimeType))
  | .video => ∃ url duration, attachment = .video asset.name url duration ∧
      url.Perm (asset.fetched.map (imageLink api services ipfs assetToMimeType)) ∧
      KeepsDuration asset.fetched duration
  | .audio => ∃ url duration, attachment = .audio asset.name url duration ∧
      url.Perm (asset.fetched.map (audioLink api services ipfs assetToMimeType)) ∧
      KeepsDuration asset.fetched duration

end Translation

/-- A validated request, an IPFS in which all of its references are pinned, and an order
in which they arrive. -/
structure PinnedRequest (api : IpfsApi) where
  assetData : Option (List AssetDto)
  assetToMimeType : Option (List (String × String))
  ipfs : Ipfs
  fetches : List Fetch
  validated : ∀ asset ∈ assetData.getD [], asset.Validated
  available : ∀ asset ∈ assetData.getD [], ∀ reference ∈ asset.fetched,
    Available api ipfs assetToMimeType reference
  arrive : fetches.Perm (Gather.completions AssetDto.fetched (assetData.getD []))

/-- The attachments are translations of the assets, one of each. -/
def Faithful (api : IpfsApi) (services : Services) (request : PinnedRequest api) : Prop :=
  ∃ attachments, prepareAttachments api services request.ipfs request.assetData
      request.assetToMimeType request.fetches = .ok attachments ∧
    ∃ translations, translations.Perm attachments ∧
      List.Forall₂ (Translates api services request.ipfs request.assetToMimeType)
        (request.assetData.getD []) translations

/-- No audio or video asset refers to something with a duration. -/
def NoDuration (assets : List AssetDto) : Prop :=
  ∀ asset ∈ assets, asset.type = .audio ∨ asset.type = .video →
    ∀ reference ∈ asset.fetched, ¬ reference.HasDuration

/-! ## One specification for each function -/

section Specification
variable {api : IpfsApi} (services : Services) {ipfs : Ipfs}
  {assetToMimeType : Option (List (String × String))} {reference : AssetReferenceDto}
  {arrived : List AssetReferenceDto}

theorem fetchReference_eq (h : Available api ipfs assetToMimeType reference) :
    fetchReference api services ipfs assetToMimeType reference =
      .ok (mimeTypeOf assetToMimeType reference, hashOf api services ipfs reference) := by
  obtain ⟨⟨v0Cid, content, hcid, hpinned⟩, mimeType, hmime⟩ := h
  cases assetToMimeType with
  | none => cases hmime
  | some mimeTypes =>
      rw [fetchReference, getPinned_eq hcid, hashOf, hcid]
      rfl

theorem prepareImageLink_eq (h : Available api ipfs assetToMimeType reference) :
    prepareImageLink api services ipfs assetToMimeType reference =
      .ok (imageLink api services ipfs assetToMimeType reference) := by
  rw [prepareImageLink, fetchReference_eq services h]
  rfl

theorem prepareAudioLink_eq (h : Available api ipfs assetToMimeType reference) :
    prepareAudioLink api services ipfs assetToMimeType reference =
      .ok (audioLink api services ipfs assetToMimeType reference) := by
  rw [prepareAudioLink, fetchReference_eq services h]
  rfl

/-- The duration of a video stays the empty text. -/
theorem videoDuration_eq (arrived : List AssetReferenceDto) :
    videoDuration arrived = some (.str "") := by
  induction arrived with
  | nil => rfl
  | cons reference arrived ih => exact ih

/-- The duration of an audio stays the empty text. -/
theorem audioDuration_eq (arrived : List AssetReferenceDto) :
    audioDuration arrived = some (.str "") := by
  induction arrived with
  | nil => rfl
  | cons reference arrived ih => exact ih

/-- What is made of an asset whose references have arrived. -/
def attachmentOf (api : IpfsApi) (services : Services) (ipfs : Ipfs)
    (assetToMimeType : Option (List (String × String))) (asset : AssetDto)
    (arrived : List AssetReferenceDto) : ActivityContentAttachment :=
  match asset.type with
  | .link => prepareLinkAttachment asset
  | .image => .image asset.name (arrived.map (imageLink api services ipfs assetToMimeType))
  | .video => .video asset.name (arrived.map (imageLink api services ipfs assetToMimeType))
      (some (.str ""))
  | .audio => .audio asset.name (arrived.map (audioLink api services ipfs assetToMimeType))
      (some (.str ""))

theorem prepareAttachment_eq (asset : AssetDto)
    (h : ∀ reference ∈ arrived, Available api ipfs assetToMimeType reference) :
    prepareAttachment api services ipfs assetToMimeType asset arrived =
      .ok (attachmentOf api services ipfs assetToMimeType asset arrived) := by
  have himages := mapM_eq_ok fun reference hr =>
    prepareImageLink_eq services (h reference hr)
  have haudios := mapM_eq_ok fun reference hr =>
    prepareAudioLink_eq services (h reference hr)
  unfold prepareAttachment attachmentOf
  cases asset.type with
  | link => rfl
  | image =>
      dsimp only
      rw [prepareImageAttachment, himages]
      rfl
  | video =>
      dsimp only
      rw [prepareVideoAttachment, himages, videoDuration_eq]
      rfl
  | audio =>
      dsimp only
      rw [prepareAudioAttachment, haudios, audioDuration_eq]
      rfl

/-- Waiting for references that are all available does not fail. -/
theorem awaitReferences_eq {requested : List AssetReferenceDto}
    (hrequested : ∀ reference ∈ requested, Available api ipfs assetToMimeType reference)
    (harrived : ∀ reference ∈ arrived, Available api ipfs assetToMimeType reference) :
    awaitReferences api services ipfs assetToMimeType requested arrived = .ok () := by
  have hforM : ∀ references : List AssetReferenceDto,
      (∀ reference ∈ references, Available api ipfs assetToMimeType reference) →
      references.forM (fun reference =>
        discard (fetchReference api services ipfs assetToMimeType reference)) = .ok () := by
    intro references h
    induction references with
    | nil => rfl
    | cons reference references ih =>
        obtain ⟨hreference, hrest⟩ := List.forall_mem_cons.mp h
        rw [List.forM_eq_forM, List.forM_cons, fetchReference_eq services hreference]
        exact ih hrest
  unfold awaitReferences
  split
  · exact hforM _ hrequested
  · exact hforM _ harrived

end Specification

/-! ## All attachments -/

section Attachments
variable {api : IpfsApi} (services : Services) (request : PinnedRequest api)

namespace PinnedRequest

def assets : List AssetDto := request.assetData.getD []

def pushed : Gather AssetDto AssetReferenceDto := pushAttachments request.assets request.fetches

/-- The attachment of an asset, with its links in the order of their arrival. -/
def attachment (asset : AssetDto × ℕ) : ActivityContentAttachment :=
  attachmentOf api services request.ipfs request.assetToMimeType asset.1
    ((request.pushed.items asset.2).map Prod.fst)

theorem tasks_perm : request.pushed.tasks.Perm request.assets.zipIdx :=
  Gather.tasks_run_perm request.arrive AssetDto.fetched_eq_nil_iff

/-- The references of an asset arrive in some order. -/
theorem items_perm {asset : AssetDto × ℕ} (h : asset ∈ request.assets.zipIdx) :
    ((request.pushed.items asset.2).map Prod.fst).Perm asset.1.fetched := by
  have hitems := (Gather.itemsOf_perm request.arrive h).map Prod.fst
  rw [List.zipIdx_map_fst] at hitems
  rwa [pushed, pushAttachments, Gather.items_run]

theorem prepareAttachments_eq : prepareAttachments api services request.ipfs request.assetData
    request.assetToMimeType request.fetches =
      .ok (request.pushed.tasks.map (request.attachment services)) := by
  have hfetched : ∀ reference ∈ request.assets.flatMap AssetDto.fetched,
      Available api request.ipfs request.assetToMimeType reference := by
    intro reference hreference
    obtain ⟨asset, hasset, hreference⟩ := List.mem_flatMap.mp hreference
    exact request.available asset hasset reference hreference
  have harrived : ∀ reference ∈ request.fetches.map fun fetch => fetch.item.1,
      Available api request.ipfs request.assetToMimeType reference := by
    intro reference hreference
    obtain ⟨fetch, hfetch, rfl⟩ := List.mem_map.mp hreference
    have hfetch := request.arrive.mem_iff.mp hfetch
    have hasset := List.fst_mem_of_mem_zipIdx (Gather.task_mem_of_mem hfetch)
    exact request.available _ hasset _ (Gather.item_mem_of_mem hfetch)
  have hprepare : ∀ asset ∈ request.pushed.tasks, prepareAttachment api services request.ipfs
      request.assetToMimeType asset.1 ((request.pushed.items asset.2).map Prod.fst) =
        .ok (request.attachment services asset) := by
    intro asset hasset
    have hasset := request.tasks_perm.mem_iff.mp hasset
    refine prepareAttachment_eq services asset.1 fun reference hreference => ?_
    have hreference := (request.items_perm hasset).mem_iff.mp hreference
    exact request.available asset.1 (List.fst_mem_of_mem_zipIdx hasset) reference hreference
  have hawait : awaitReferences api services request.ipfs request.assetToMimeType
      ((request.assetData.getD []).flatMap AssetDto.fetched)
      (request.fetches.map fun fetch => fetch.item.1) = .ok () :=
    awaitReferences_eq services hfetched harrived
  unfold prepareAttachments
  dsimp only
  rw [hawait]
  exact mapM_eq_ok hprepare

/-- An attachment translates its asset if there is no duration to keep. -/
theorem translates_attachment {asset : AssetDto × ℕ} (h : asset ∈ request.assets.zipIdx)
    (hduration : asset.1.type = .audio ∨ asset.1.type = .video →
      ∀ reference ∈ asset.1.fetched, ¬ reference.HasDuration) :
    Translates api services request.ipfs request.assetToMimeType asset.1
      (request.attachment services asset) := by
  have hvalid := request.validated asset.1 (List.fst_mem_of_mem_zipIdx h)
  have hperm := request.items_perm h
  have hkeeps : asset.1.type = .audio ∨ asset.1.type = .video →
      KeepsDuration asset.1.fetched (some (.str "")) := by
    rintro htype ⟨reference, hreference, hhas⟩
    exact absurd hhas (hduration htype reference hreference)
  unfold Translates attachment attachmentOf
  cases htype : asset.1.type with
  | link =>
      obtain ⟨href, hhref, -⟩ := hvalid.href htype
      exact ⟨href, hhref, by rw [prepareLinkAttachment, hhref]; rfl⟩
  | image => exact ⟨_, rfl, hperm.map _⟩
  | video => exact ⟨_, _, rfl, hperm.map _, hkeeps (.inr htype)⟩
  | audio => exact ⟨_, _, rfl, hperm.map _, hkeeps (.inl htype)⟩

/-- In the order of the request, the attachments are those of the assets. -/
theorem forall₂_translates (h : NoDuration request.assets) :
    List.Forall₂ (Translates api services request.ipfs request.assetToMimeType) request.assets
      (request.assets.zipIdx.map (request.attachment services)) := by
  have hassets : request.assets = request.assets.zipIdx.map Prod.fst :=
    (List.zipIdx_map_fst 0 request.assets).symm
  conv => arg 2; rw [hassets]
  rw [List.forall₂_map_left_iff, List.forall₂_map_right_iff, List.forall₂_same]
  intro asset hasset
  exact request.translates_attachment services hasset
    (h asset.1 (List.fst_mem_of_mem_zipIdx hasset))

/-- Whatever is published for an audio or a video, its duration is the empty text. -/
theorem duration_attachment {asset : AssetDto × ℕ} {name : Option Json} {duration : Option Json} :
    (∀ url, request.attachment services asset = .video name url duration →
      duration = some (.str "")) ∧
    ∀ url, request.attachment services asset = .audio name url duration →
      duration = some (.str "") := by
  unfold attachment attachmentOf
  cases asset.1.type <;> simp [prepareLinkAttachment, eq_comm]

end PinnedRequest

/-- A kept duration that is empty is that of no reference. -/
theorem not_hasDuration_of_keepsDuration {references : List AssetReferenceDto}
    (hvalid : ∀ reference ∈ references, ValidDuration reference.duration)
    (h : KeepsDuration references (some (.str ""))) :
    ∀ reference ∈ references, ¬ reference.HasDuration := by
  intro reference hreference hhas
  obtain ⟨other, hother, -, heq⟩ := h ⟨reference, hreference, hhas⟩
  have hempty := hvalid other hother
  rw [← heq] at hempty
  obtain hnone | hnull | ⟨s, hs, hmatches⟩ := hempty
  · cases hnone
  · cases hnull
  · cases hs
    exact absurd hmatches (by decide +kernel)

theorem noDuration_of_faithful {request : PinnedRequest api} (h : Faithful api services request) :
    NoDuration request.assets := by
  obtain ⟨attachments, hattachments, translations, hperm, htranslates⟩ := h
  intro asset hasset htype
  have hmap := Except.ok.inj
    (hattachments.symm.trans (request.prepareAttachments_eq services))
  obtain ⟨attachment, hmem, htranslate⟩ : ∃ attachment ∈ translations,
      Translates api services request.ipfs request.assetToMimeType asset attachment := by
    obtain ⟨hlength, hall⟩ := List.forall₂_iff_get.mp htranslates
    obtain ⟨i, rfl⟩ := List.mem_iff_get.mp hasset
    exact ⟨_, List.get_mem translations ⟨i, hlength ▸ i.isLt⟩, hall i i.isLt _⟩
  obtain ⟨task, -, rfl⟩ := List.mem_map.mp (hmap ▸ hperm.mem_iff.mp hmem)
  have hvalid := (request.validated asset hasset).durations
  unfold Translates at htranslate
  rcases htype with htype | htype
  · rw [htype] at htranslate
    obtain ⟨url, duration, heq, -, hkeeps⟩ := htranslate
    obtain rfl := (request.duration_attachment services).2 url heq
    exact not_hasDuration_of_keepsDuration hvalid hkeeps
  · rw [htype] at htranslate
    obtain ⟨url, duration, heq, -, hkeeps⟩ := htranslate
    obtain rfl := (request.duration_attachment services).1 url heq
    exact not_hasDuration_of_keepsDuration hvalid hkeeps

/-- The attachments are faithful translations exactly if there is no duration to keep. -/
theorem faithful_iff_noDuration (request : PinnedRequest api) :
    Faithful api services request ↔ NoDuration request.assets := by
  constructor
  · exact noDuration_of_faithful services
  · intro h
    exact ⟨_, request.prepareAttachments_eq services, _,
      (request.tasks_perm.map _).symm, request.forall₂_translates services h⟩

end Attachments

section Sample

def plainCid (content : Buffer) : String := String.ofList (content.map Char.ofUInt8)

theorem plainCid_injective : Function.Injective plainCid := by
  intro x y h
  refine List.map_injective_iff.mpr (fun c d hcd => ?_) (String.ofList_injective h)
  exact UInt8.toUInt32_inj.mp (congrArg Char.val hcd)

/-- CIDs that are the contents themselves. -/
def plainApi : IpfsApi where
  hash := plainCid
  toV1 cid := cid
  toV0 cid := some cid
  pinLs cid := cid ++ " recursive"
  getExtension _ := none
  hash_injective := plainCid_injective
  toV0_toV1 _ := rfl
  pinLs_names cid := by
    rw [String.toList_append]
    exact (List.prefix_append ..).isInfix

def plainServices : Services := ⟨"https://ipfs.io/ipfs/[CID]", plainCid, fun _ => some 0⟩

def sixSeconds : AssetReferenceDto := ⟨"clip", none, none, some (.str "PT6S")⟩

def sampleVideo : AssetDto := ⟨.video, some [sixSeconds], none, none⟩

/-- A video of six seconds. -/
def sampleRequest : PinnedRequest plainApi where
  assetData := some [sampleVideo]
  assetToMimeType := some [("clip", "video/mp4")]
  ipfs _ := some [1]
  fetches := [⟨(sampleVideo, 0), (sixSeconds, 0)⟩]
  validated asset hasset := by
    obtain rfl := List.mem_singleton.mp hasset
    refine ⟨fun h => (by cases h), fun _ h => (by cases h), fun reference hreference => ?_⟩
    obtain rfl := List.mem_singleton.mp hreference
    exact .inr (.inr ⟨"PT6S", rfl, by decide +kernel⟩)
  available asset hasset reference hreference := by
    obtain rfl := List.mem_singleton.mp hasset
    obtain rfl := List.mem_singleton.mp hreference
    exact ⟨⟨"clip", [1], rfl, rfl⟩, "video/mp4", by decide⟩
  arrive := .refl _

/-- The duration of the video is lost. -/
theorem not_faithful_sampleRequest : ¬ Faithful plainApi plainServices sampleRequest := by
  intro h
  exact noDuration_of_faithful plainServices h sampleVideo (List.mem_singleton_self _) (.inr rfl)
    sixSeconds (List.mem_singleton_self _) ⟨"PT6S", rfl⟩

end Sample

end ContentPublishing.Announcements
