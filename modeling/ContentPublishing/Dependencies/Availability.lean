import ContentPublishing.Dependencies.Processing
import ContentPublishing.Lib.Transition

/-!
# Whether uploads are available to the requests that refer to them

An upload is stored in Redis and pinned by an asset job. A request asks IPFS for the
content of every asset, where an empty buffer stands for an asset that is not pinned.
-/
namespace ContentPublishing.Dependencies
open Effects Transition

def assetDataKeyPrefix : String := "asset:data"

def getAssetDataKey (assetId : String) : String := assetDataKeyPrefix ++ ":" ++ assetId

/-- An asset job that completed, with the content that it pinned. -/
structure Upload where
  ipfsCid : String
  content : Buffer
  deriving DecidableEq, Repr

structure Uploads where
  redis : String → Option Buffer
  assetJobs : List IAssetJob
  ipfs : Ipfs
  completed : List Upload

namespace Uploads

def start : Uploads := ⟨fun _ => none, [], fun _ => none, []⟩

inductive Action where
  | addAssets (files : List UploadedFile)
  | expire (key : String)
  | runAsset (job : IAssetJob) (answers : Bool)
  deriving DecidableEq, Repr

section System
variable (api : IpfsApi) (calculateIpfsCID : Buffer → String)

/-- What `addAssets` does with one file. -/
def addAsset (s : Uploads) (f : UploadedFile) : Uploads :=
  let reference := calculateIpfsCID f.buffer
  { s with
    redis := Function.update s.redis (getAssetDataKey reference) (some f.buffer)
    assetJobs := s.assetJobs ++ [⟨reference, getAssetDataKey reference, f.mimetype⟩] }

/-- One upload, or one run of an asset job. A job may be run again. -/
def step (s : Uploads) : Action → Option Uploads
  | .addAssets files => some (files.foldl (addAsset calculateIpfsCID) s)
  | .expire key => some { s with redis := Function.update s.redis key none }
  | .runAsset job answers =>
      if job ∈ s.assetJobs then
        match exec (processAsset api s.redis answers job) s.ipfs with
        | (.ok (), ipfs) => some { s with
            ipfs := ipfs
            completed :=
              s.completed ++ [⟨job.ipfsCid, (s.redis job.contentLocation).getD []⟩] }
        | (.error _, ipfs) => some { s with ipfs := ipfs }
      else none

end System

/-- Every asset of the job has been uploaded, and its asset job has completed. -/
def Uploaded (s : Uploads) (job : IRequestJob) : Prop :=
  ∀ cid ∈ assets job, ∃ upload ∈ s.completed, upload.ipfsCid = cid

/-- A job is handed over if its assets are uploaded, and only if they are pinned. -/
def Agree (s : Uploads) (api : IpfsApi) (seconds : ℚ) (job : IRequestJob) : Prop :=
  (s.Uploaded job → process api s.ipfs seconds job = .ok .collectAnnouncementAndQueue) ∧
    (process api s.ipfs seconds job = .ok .collectAnnouncementAndQueue →
      ∀ cid ∈ assets job, isPinned api s.ipfs cid = .ok true)

/-- No content that the job refers to is empty. -/
def NoneEmpty (s : Uploads) (job : IRequestJob) : Prop :=
  ∀ upload ∈ s.completed, upload.ipfsCid ∈ assets job → upload.content ≠ []

instance (s : Uploads) (job : IRequestJob) : Decidable (s.Uploaded job) :=
  inferInstanceAs (Decidable (∀ _ ∈ _, _))

instance (s : Uploads) (job : IRequestJob) : Decidable (s.NoneEmpty job) :=
  inferInstanceAs (Decidable (∀ _ ∈ _, _))

/-! ## Asset jobs -/

section Invariant
variable {api : IpfsApi} {calculateIpfsCID : Buffer → String} {s t : Uploads}

/-- Either nothing is pinned, or the content is and its CID answered. -/
theorem ipfsPin_cases (api : IpfsApi) (answers : Bool) (mimeType : String) (file : Buffer)
    (ipfs : Ipfs) :
    (∃ e, exec (ipfsPin api answers mimeType file) ipfs = (.error e, ipfs)) ∨
      exec (ipfsPin api answers mimeType file) ipfs = (.ok (api.toV1 (api.hash file)),
        Function.update ipfs (api.hash file) (some file)) := by
  unfold ipfsPin
  cases api.getExtension mimeType with
  | none => exact .inl ⟨_, rfl⟩
  | some extension =>
      cases answers with
      | false => exact .inl ⟨.unableToPin, rfl⟩
      | true => exact .inr rfl

/-- An asset job that pins nothing fails. One that pins the content completes if the
CIDs match. -/
theorem processAsset_cases (api : IpfsApi) (redis : String → Option Buffer) (answers : Bool)
    (job : IAssetJob) (ipfs : Ipfs) :
    (∃ e, exec (processAsset api redis answers job) ipfs = (.error e, ipfs)) ∨
      ∃ content outcome, redis job.contentLocation = some content ∧
        exec (processAsset api redis answers job) ipfs =
          (outcome, Function.update ipfs (api.hash content) (some content)) ∧
        (outcome = .ok () → job.ipfsCid = api.toV1 (api.hash content)) := by
  unfold processAsset
  cases redis job.contentLocation with
  | none => exact .inl ⟨_, rfl⟩
  | some content =>
      dsimp only
      rcases ipfsPin_cases api answers job.mimeType content ipfs with ⟨e, hpin⟩ | hpin
      · exact .inl ⟨e, exec_bind_error _ hpin⟩
      · refine .inr ⟨content, ?_⟩
        rw [exec_bind _ hpin]
        by_cases hcid : job.ipfsCid = api.toV1 (api.hash content)
        · exact ⟨.ok (), rfl, by rw [if_neg (not_not.mpr hcid)]; rfl, fun _ => hcid⟩
        · refine ⟨_, rfl, by rw [if_pos hcid]; rfl, fun h => ?_⟩
          cases h

/-- What an asset job pinned for an upload is there to stay. -/
def Pinned (api : IpfsApi) (s : Uploads) : Prop :=
  ∀ upload ∈ s.completed, upload.ipfsCid = api.toV1 (api.hash upload.content) ∧
    s.ipfs (api.hash upload.content) = some upload.content

theorem pinned_start : Pinned api start := by
  intro upload hupload
  cases hupload

theorem Pinned.addAssets (h : Pinned api s) (files : List UploadedFile) :
    Pinned api (files.foldl (addAsset calculateIpfsCID) s) := by
  induction files generalizing s with
  | nil => exact h
  | cons f files ih => exact ih h

/-- Different contents have different CIDs, so a pin replaces no other content. -/
theorem Pinned.update (h : Pinned api s) (content : Buffer) : Pinned api { s with
    ipfs := Function.update s.ipfs (api.hash content) (some content) } := by
  intro upload hupload
  obtain ⟨hcid, hpinned⟩ := h upload hupload
  refine ⟨hcid, ?_⟩
  by_cases hhash : api.hash upload.content = api.hash content
  · rw [api.hash_injective hhash]
    exact Function.update_self ..
  · exact (Function.update_of_ne hhash ..).trans hpinned

theorem pinned_step {a : Action} (h : Pinned api s)
    (hstep : step api calculateIpfsCID s a = some t) : Pinned api t := by
  cases a with
  | addAssets files =>
      cases hstep
      exact h.addAssets files
  | expire key =>
      cases hstep
      exact h
  | runAsset job answers =>
      simp only [step] at hstep
      split at hstep
      · rcases processAsset_cases api s.redis answers job s.ipfs with
          ⟨e, hexec⟩ | ⟨content, outcome, hcontent, hexec, hcid⟩
        · rw [hexec] at hstep
          cases hstep
          exact h
        · rw [hexec] at hstep
          cases outcome with
          | error e =>
              cases hstep
              exact h.update content
          | ok _ =>
              cases hstep
              intro upload hupload
              rcases List.mem_append.mp hupload with hold | hnew
              · exact h.update content upload hold
              · obtain rfl := List.mem_singleton.mp hnew
                rw [hcontent]
                exact ⟨hcid rfl, Function.update_self ..⟩
      · cases hstep

theorem pinned_of_run {as : List Action}
    (hrun : run (step api calculateIpfsCID) start as = some s) : Pinned api s :=
  invariant_of_step pinned_start (fun _ _ _ => pinned_step) hrun

end Invariant

/-! ## Request jobs -/

section Agreement
variable {api : IpfsApi} {s : Uploads} {job : IRequestJob} {seconds : ℚ}

theorem Pinned.toV0 (h : Pinned api s) {upload : Upload} (hmem : upload ∈ s.completed) :
    api.toV0 upload.ipfsCid = some (api.hash upload.content) := by
  rw [(h upload hmem).1, api.toV0_toV1]

/-- Of the assets of an upload the empty ones count as missing. -/
theorem missing_iff (h : Pinned api s) (huploaded : s.Uploaded job) :
    Missing api s.ipfs job ↔ ¬ s.NoneEmpty job := by
  have hread : ∀ upload ∈ s.completed,
      ((api.toV0 upload.ipfsCid).bind s.ipfs).getD [] = upload.content := by
    intro upload hmem
    rw [h.toV0 hmem, Option.bind_some, (h upload hmem).2, Option.getD_some]
  constructor
  · rintro ⟨cid, hcid, hempty⟩ hnone
    obtain ⟨upload, hmem, rfl⟩ := huploaded cid hcid
    exact hnone upload hmem hcid ((hread upload hmem).symm.trans hempty)
  · intro hsome
    simp only [NoneEmpty, not_forall, ne_eq, not_not] at hsome
    obtain ⟨upload, hmem, hcid, hempty⟩ := hsome
    exact ⟨upload.ipfsCid, hcid, (hread upload hmem).trans hempty⟩

/-- An uploaded job is handed over unless something it refers to is empty. -/
theorem process_of_uploaded (h : Pinned api s) (huploaded : s.Uploaded job) :
    process api s.ipfs seconds job = .ok .collectAnnouncementAndQueue ↔ s.NoneEmpty job := by
  have hsound : ∀ cid ∈ assets job, (api.toV0 cid).isSome := by
    intro cid hcid
    obtain ⟨upload, hmem, rfl⟩ := huploaded cid hcid
    rw [h.toV0 hmem]
    rfl
  rw [process_eq hsound]
  by_cases hmissing : Missing api s.ipfs job
  · rw [if_pos hmissing]
    refine iff_of_false ?_ ((missing_iff h huploaded).mp hmissing)
    cases delayJobAndIncrementAttempts seconds job.dependencyAttempt <;>
      exact fun heq => (by cases heq)
  · rw [if_neg hmissing]
    exact iff_of_true rfl (not_not.mp fun hnone => hmissing ((missing_iff h huploaded).mpr hnone))

/-- A job that is handed over refers to nothing that is not pinned. -/
theorem isPinned_of_process {ipfs : Ipfs}
    (h : process api ipfs seconds job = .ok .collectAnnouncementAndQueue) :
    ∀ cid ∈ assets job, isPinned api ipfs cid = .ok true := by
  intro cid hcid
  obtain ⟨pinnedResult, hread, h⟩ := of_bind_ok h
  obtain ⟨buffer, hbuffer, hget⟩ := exists_of_mapM_ok hread cid hcid
  have hnonempty : buffer ≠ [] := by
    rintro rfl
    have hany : pinnedResult.any (fun buffer => decide (buffer.length = 0)) = true :=
      List.any_eq_true.mpr ⟨[], hbuffer, rfl⟩
    rw [if_pos hany] at h
    obtain ⟨_, _, h⟩ := of_bind_ok h
    cases h
  obtain ⟨answer, hpinned, hget⟩ := of_bind_ok hget
  cases answer with
  | true => exact hpinned
  | false => exact absurd (Except.ok.inj hget).symm hnonempty

/-- Uploads and requests agree unless all that a job refers to is uploaded and some of
it is empty. -/
theorem agree_iff (api : IpfsApi) (calculateIpfsCID : Buffer → String) (seconds : ℚ)
    (as : List Action) (s : Uploads) (job : IRequestJob)
    (hrun : run (step api calculateIpfsCID) start as = some s) :
    s.Agree api seconds job ↔ (s.Uploaded job → s.NoneEmpty job) := by
  have hpinned := pinned_of_run hrun
  constructor
  · intro h huploaded
    exact (process_of_uploaded hpinned huploaded).mp (h.1 huploaded)
  · intro h
    refine ⟨fun huploaded => ?_, isPinned_of_process⟩
    exact (process_of_uploaded hpinned huploaded).mpr (h huploaded)

end Agreement

/-! ## A file with content and one without -/

def emptyFile : Buffer := []

/-- Two bytes. -/
def smallFile : Buffer := [104, 105]

/-- The CIDs of the two files; any other text stands for a CID of its own. -/
def sampleHash (content : Buffer) : String :=
  if content = emptyFile then "QmbFMke1KXqnYyBBWxB74N4c5SBnJMVAiMNRcGu6x1AwQH"
  else if content = smallFile then "QmdckCoPuhEtiNzREtqpYn8dBgY8ifcG82Q4eyEdGCLEiu"
  else String.ofList ('f' :: content.map Char.ofUInt8)

def sampleToV1 (hash : String) : String :=
  if hash = sampleHash emptyFile then
    "bafybeif7ztnhq65lumvvtr4ekcwd2ifwgm3awq4zfr3srh462rwyinlb4y"
  else if hash = sampleHash smallFile then
    "bafybeihc73huxdpsqleijcxj64fnn2lqng2dl5nvsb6d777bjjv7lpxq3i"
  else String.ofList ('v' :: hash.toList)

def sampleToV0 (cid : String) : Option String :=
  if cid = sampleToV1 (sampleHash emptyFile) then some (sampleHash emptyFile)
  else if cid = sampleToV1 (sampleHash smallFile) then some (sampleHash smallFile)
  else
    match cid.toList with
    | 'v' :: hash => some (String.ofList hash)
    | _ => none

theorem sampleHash_of_ne {content : Buffer} (he : content ≠ emptyFile) (ht : content ≠ smallFile) :
    sampleHash content = String.ofList ('f' :: content.map Char.ofUInt8) := by
  rw [sampleHash, if_neg he, if_neg ht]

theorem sampleHash_ne {content : Buffer} (he : content ≠ emptyFile) (ht : content ≠ smallFile) :
    sampleHash content ≠ sampleHash emptyFile ∧ sampleHash content ≠ sampleHash smallFile := by
  rw [sampleHash_of_ne he ht]
  constructor <;> intro h <;>
    simpa [sampleHash, smallFile, emptyFile] using congrArg String.toList h

theorem sampleHash_injective : Function.Injective sampleHash := by
  have htwo : sampleHash emptyFile ≠ sampleHash smallFile := by decide
  intro x y h
  by_cases hxe : x = emptyFile
  · subst x
    by_contra hne
    by_cases hyt : y = smallFile
    · exact htwo (hyt ▸ h)
    · exact (sampleHash_ne (Ne.symm hne) hyt).1 h.symm
  by_cases hxt : x = smallFile
  · subst x
    by_contra hne
    by_cases hye : y = emptyFile
    · exact htwo (hye ▸ h).symm
    · exact (sampleHash_ne hye (Ne.symm hne)).2 h.symm
  have hye : y ≠ emptyFile := fun hy => (sampleHash_ne hxe hxt).1 (hy ▸ h)
  have hyt : y ≠ smallFile := fun hy => (sampleHash_ne hxe hxt).2 (hy ▸ h)
  rw [sampleHash_of_ne hxe hxt, sampleHash_of_ne hye hyt] at h
  have hchars : x.map Char.ofUInt8 = y.map Char.ofUInt8 :=
    (List.cons.inj (String.ofList_injective h)).2
  refine List.map_injective_iff.mpr (fun c d hcd => ?_) hchars
  exact UInt8.toUInt32_inj.mp (congrArg Char.val hcd)

theorem sampleToV0_sampleToV1 (content : Buffer) :
    sampleToV0 (sampleToV1 (sampleHash content)) = some (sampleHash content) := by
  by_cases he : content = emptyFile
  · rw [he]
    exact if_pos rfl
  by_cases ht : content = smallFile
  · rw [ht]
    decide
  have hne := sampleHash_ne he ht
  rw [sampleToV1, if_neg hne.1, if_neg hne.2, sampleToV0, if_neg, if_neg]
  · simp
  · intro h
    simpa [sampleToV1, sampleHash, smallFile, emptyFile] using congrArg String.toList h
  · intro h
    simpa [sampleToV1, sampleHash, smallFile, emptyFile] using congrArg String.toList h

def sampleApi : IpfsApi where
  hash := sampleHash
  toV1 := sampleToV1
  toV0 := sampleToV0
  pinLs cid := cid
  getExtension mimeType := if mimeType = "image/png" then some "png" else none
  hash_injective := sampleHash_injective
  toV0_toV1 := sampleToV0_sampleToV1
  pinLs_names _ := List.infix_refl _

/-- The type of activities and batches is known instead. -/
def octetApi : IpfsApi :=
  { sampleApi with
    getExtension := fun mimeType =>
      if mimeType = "application/octet-stream" then some "bin" else none }

/-- A file is uploaded, and its asset job completes. -/
def upload (content : Buffer) : List Action :=
  let cid := sampleToV1 (sampleHash content)
  [.addAssets [⟨content, "image/png"⟩],
    .runAsset ⟨cid, getAssetDataKey cid, "image/png"⟩ true]

/-- A request that refers to the file. -/
def requestFor (content : Buffer) : IRequestJob :=
  ⟨"request", .broadcast, "1", some [(sampleToV1 (sampleHash content), "image/png")], none, 0⟩

theorem agree_smallFile :
    ∃ s, run (step sampleApi fun b => sampleToV1 (sampleHash b)) start (upload smallFile) = some s ∧
      s.Agree sampleApi 5 (requestFor smallFile) := by
  obtain ⟨s, hs, hnone⟩ : ∃ s, run (step sampleApi fun b => sampleToV1 (sampleHash b)) start
      (upload smallFile) = some s ∧ s.NoneEmpty (requestFor smallFile) :=
    exists_of_run_any (by decide +kernel)
  exact ⟨s, hs, (agree_iff sampleApi _ 5 _ s _ hs).mpr fun _ => hnone⟩

/-- The empty file is uploaded, and the request that refers to it is delayed. -/
theorem not_agree_emptyFile :
    ∃ s, run (step sampleApi fun b => sampleToV1 (sampleHash b)) start (upload emptyFile) = some s ∧
      s.Uploaded (requestFor emptyFile) ∧ ¬ s.Agree sampleApi 5 (requestFor emptyFile) := by
  obtain ⟨s, hs, huploaded, hdelayed⟩ : ∃ s,
      run (step sampleApi fun b => sampleToV1 (sampleHash b)) start (upload emptyFile) = some s ∧
        s.Uploaded (requestFor emptyFile) ∧
        process sampleApi s.ipfs 5 (requestFor emptyFile) = .ok (.moveToDelayed 10000) :=
    exists_of_run_any (by decide +kernel)
  refine ⟨s, hs, huploaded, fun h => ?_⟩
  cases hdelayed.symm.trans (h.1 huploaded)

end Uploads

end ContentPublishing.Dependencies
