import ContentPublishing.Announcements.Translation
import ContentPublishing.Api.Validation
import ContentPublishing.Assets.Lifetime

/-!
# What is known of an asset was uploaded

Under the keys of a CID there are the bytes and the MIME type of an uploaded file with
this CID, its asset job pins these bytes, and nothing else gets pinned. So an asset job
does not fail for a CID that differs, and the link to an asset that the API has accepted
describes a file that was uploaded.
-/
namespace ContentPublishing.Assets
open Announcements (AssetReferenceDto Services fetchReference)
open Dependencies Dependencies.Uploads
open Effects Expiring Transition

/-- The MIME type in the metadata that Redis has for a reference. -/
def storedMimeType (s : State) (referenceId : String) : Option String :=
  match get s.redis s.clock (getAssetMetadataKey referenceId) with
  | some (.metadata data) => some data.mimeType
  | _ => none

def Uploaded (s : State) (file : UploadedFile) : Prop := ∃ u ∈ s.uploads, file ∈ u.files

section Statements
variable (api : IpfsApi) (calculateIpfsCID : Buffer → String)

/-- One of the two values that are stored for a file. -/
def StoredFor (file : UploadedFile) (key : String) : Value → Prop
  | .content data => key = getAssetDataKey (calculateIpfsCID file.buffer) ∧ data = file.buffer
  | .metadata data => key = getAssetMetadataKey (calculateIpfsCID file.buffer) ∧
      data.ipfsCid = calculateIpfsCID file.buffer ∧ data.mimeType = file.mimetype

/-- What the state holds was made of files that satisfy `P`. -/
structure Attested (P : UploadedFile → Prop) (s : State) : Prop where
  redis : ∀ key e, s.redis key = some e →
    ∃ file, P file ∧ StoredFor calculateIpfsCID file key e.value
  jobs : ∀ cid job, (cid, job) ∈ s.assetQueue.jobs → cid = job.ipfsCid ∧
    ∃ file, P file ∧ calculateIpfsCID file.buffer = cid ∧ file.mimetype = job.mimeType
  ipfs : ∀ cid data, s.ipfs cid = some data → cid = api.hash data ∧
    ∃ file, P file ∧ data = file.buffer

end Statements

section Step
variable {api : IpfsApi} {calculateIpfsCID : Buffer → String} {interval : ℕ} {s t : State}
  {P : UploadedFile → Prop}

theorem uploaded_set {i : ℕ} {u : UploadCall} (hi : s.uploads[i]? = some u) (stage : UploadStage)
    {file : UploadedFile} (h : Uploaded s file) :
    ∃ v ∈ s.uploads.set i { u with stage := stage }, file ∈ v.files :=
  Entries.exists_mem_set hi (fun hmem => hmem) h

theorem uploaded_of_step {a : Action} (hstep : step api calculateIpfsCID interval s a = some t)
    {file : UploadedFile} (h : Uploaded s file) : Uploaded t file := by
  cases a with
  | tick milliseconds =>
      cases hstep
      exact h
  | addAssets files =>
      cases hstep
      exact h.imp fun u hu => ⟨List.mem_append_left _ hu.1, hu.2⟩
  | upload i =>
      obtain ⟨u, hi, hstep⟩ := Option.bind_eq_some_iff.mp hstep
      unfold advanceUpload at hstep
      split at hstep
      · cases hstep
        exact uploaded_set hi _ h
      · cases hstep
        exact uploaded_set hi _ h
      · cases hstep
        exact uploaded_set hi _ h
      · cases hstep
  | process cid =>
      obtain ⟨job, ipfs, rfl⟩ := processJob_cases hstep
      exact h
  | finish i =>
      obtain ⟨r, hi, hstep⟩ := Option.bind_eq_some_iff.mp hstep
      unfold Uploaded
      rw [uploads_advanceRun hstep]
      exact h

theorem of_getBuffer {location : String} {data : Buffer} (h : getBuffer s location = some data) :
    ∃ e, s.redis location = some e ∧ e.value = .content data := by
  unfold getBuffer at h
  split at h
  · next stored hget =>
      cases h
      exact of_get hget
  · cases h

namespace Attested

theorem mono {Q : UploadedFile → Prop} (h : Attested api calculateIpfsCID P s)
    (hPQ : ∀ file, P file → Q file) : Attested api calculateIpfsCID Q s where
  redis key e he := (h.redis key e he).imp fun file hfile => ⟨hPQ file hfile.1, hfile.2⟩
  jobs cid job hjob := (h.jobs cid job hjob).imp id fun hfile =>
    hfile.imp fun file hfile => ⟨hPQ file hfile.1, hfile.2⟩
  ipfs cid data hdata := (h.ipfs cid data hdata).imp id fun hfile =>
    hfile.imp fun file hfile => ⟨hPQ file hfile.1, hfile.2⟩

theorem expireLT (h : Attested api calculateIpfsCID P s) (location : String) (seconds : ℕ)
    (runs : List JobRun) : Attested api calculateIpfsCID P { s with
      redis := Expiring.expireLT s.redis s.clock location seconds, runs := runs } where
  redis key e he := by
    obtain ⟨old, hold, hvalue⟩ := of_expireLT he
    exact hvalue ▸ h.redis key old hold
  jobs := h.jobs
  ipfs := h.ipfs

theorem setexAll (h : Attested api calculateIpfsCID P s) {writes : List (String × Value)}
    (hwrites : ∀ write ∈ writes, ∃ file, P file ∧
      StoredFor calculateIpfsCID file write.1 write.2) (seconds : ℕ) (uploads : List UploadCall) :
    Attested api calculateIpfsCID P { s with
      redis := Expiring.setexAll s.redis s.clock seconds writes, uploads := uploads } where
  redis key e he := by
    rcases of_setexAll he with hmem | hold
    · exact hwrites _ hmem
    · exact h.redis key e hold
  jobs := h.jobs
  ipfs := h.ipfs

theorem advanceUpload (h : Attested api calculateIpfsCID P s) {i : ℕ} {u : UploadCall}
    (hP : ∀ file ∈ u.files, P file)
    (hstep : advanceUpload calculateIpfsCID s i u = some t) :
    Attested api calculateIpfsCID P t := by
  unfold Assets.advanceUpload at hstep
  split at hstep
  · cases hstep
    refine h.setexAll (fun write hwrite => ?_) _ _
    obtain ⟨file, hfile, rfl⟩ := List.mem_map.mp hwrite
    exact ⟨file, hP file hfile, rfl, rfl⟩
  · cases hstep
    refine ⟨h.redis, fun cid job hjob => ?_, h.ipfs⟩
    rcases JobQueue.mem_jobs_addBulk hjob with hjob | hjob
    · exact h.jobs cid job hjob
    · obtain ⟨file, hfile, heq⟩ := List.mem_map.mp hjob
      cases heq
      exact ⟨rfl, file, hP file hfile, rfl, rfl⟩
  · cases hstep
    refine h.setexAll (fun write hwrite => ?_) _ _
    obtain ⟨file, hfile, rfl⟩ := List.mem_map.mp hwrite
    exact ⟨file, hP file hfile, rfl, rfl, rfl⟩
  · cases hstep

/-- What a job pins was stored. -/
theorem processJob (h : Attested api calculateIpfsCID P s) {cid : String}
    (hstep : processJob api s cid = some t) : Attested api calculateIpfsCID P t := by
  unfold Assets.processJob at hstep
  split at hstep
  · cases hstep
  · split at hstep
    · cases hstep
    · next job _ =>
        rcases processAsset_cases api (getBuffer s) true job.toIAssetJob s.ipfs with
          ⟨e, he⟩ | ⟨content, outcome, hcontent, hexec, _⟩
        · rw [he] at hstep
          cases hstep
        · rw [hexec] at hstep
          split at hstep
          · next hok =>
              cases hstep
              cases hok
              refine ⟨h.redis, h.jobs, Entries.forall_update h.ipfs fun data hdata => ?_⟩
              obtain rfl := Option.some.inj hdata
              obtain ⟨e, he, hvalue⟩ := of_getBuffer hcontent
              obtain ⟨file, hfile, hstored⟩ := h.redis _ e he
              rw [hvalue] at hstored
              exact ⟨rfl, file, hfile, hstored.2⟩
          · cases hstep

theorem advanceRun (h : Attested api calculateIpfsCID P s) {i : ℕ} {r : JobRun}
    (hstep : advanceRun interval s i r = some t) : Attested api calculateIpfsCID P t := by
  unfold Assets.advanceRun at hstep
  split at hstep
  · cases hstep
    exact ⟨h.redis, fun cid job hjob => h.jobs cid job (List.mem_of_mem_filter hjob), h.ipfs⟩
  · cases hstep
    exact ⟨h.redis, h.jobs, h.ipfs⟩
  · cases hstep
    exact h.expireLT ..
  · cases hstep
    exact h.expireLT ..
  · cases hstep

theorem step (h : Attested api calculateIpfsCID (Uploaded s) s) {a : Action}
    (hstep : step api calculateIpfsCID interval s a = some t) :
    Attested api calculateIpfsCID (Uploaded t) t := by
  have hw := h.mono fun file hfile => uploaded_of_step hstep hfile
  cases a with
  | tick milliseconds =>
      cases hstep
      exact ⟨hw.redis, hw.jobs, hw.ipfs⟩
  | addAssets files =>
      cases hstep
      exact ⟨hw.redis, hw.jobs, hw.ipfs⟩
  | upload i =>
      obtain ⟨u, hi, hadvance⟩ := Option.bind_eq_some_iff.mp hstep
      refine hw.advanceUpload (fun file hfile => uploaded_of_step hstep ?_) hadvance
      exact ⟨u, List.mem_of_getElem? hi, hfile⟩
  | process cid => exact hw.processJob hstep
  | finish i =>
      obtain ⟨r, hi, hadvance⟩ := Option.bind_eq_some_iff.mp hstep
      exact hw.advanceRun hadvance

theorem of_run {as : List Action}
    (hrun : run (Assets.step api calculateIpfsCID interval) start as = some s) :
    Attested api calculateIpfsCID (Uploaded s) s := by
  refine invariant_of_step (I := fun s => Attested api calculateIpfsCID (Uploaded s) s) ?_
    (fun s a t hs hstep => hs.step hstep) hrun
  exact ⟨fun _ _ h => (by cases h), fun _ _ h => (by cases h), fun _ _ h => (by cases h)⟩

end Attested

end Step

/-! ## Asset jobs and links -/

section Runs
variable {api : IpfsApi} {calculateIpfsCID : Buffer → String} {interval : ℕ} {s t : State}
  {as bs : List Action}

/-- An asset job whose content is still stored pins an uploaded file under the CID of the
job, and fails only without pinning anything: if the content has expired, if the MIME type
is not known, or if IPFS does not answer. -/
theorem pins_upload_of_run (hcid : ∀ buffer, calculateIpfsCID buffer = api.toV1 (api.hash buffer))
    (hrun : run (step api calculateIpfsCID interval) start as = some s) {cid : String}
    {job : AssetJob} (hjob : (cid, job) ∈ s.assetQueue.jobs) (answers : Bool) :
    (∃ file, Uploaded s file ∧ calculateIpfsCID file.buffer = cid ∧
      exec (processAsset api (getBuffer s) answers job.toIAssetJob) s.ipfs =
        (.ok (), Function.update s.ipfs (api.hash file.buffer) (some file.buffer))) ∨
    ((∃ e, exec (processAsset api (getBuffer s) answers job.toIAssetJob) s.ipfs =
        (.error e, s.ipfs)) ∧
      (getBuffer s job.contentLocation = none ∨ api.getExtension job.mimeType = none ∨
        answers = false)) := by
  have hattested : Attested api calculateIpfsCID (Uploaded s) s := .of_run hrun
  obtain ⟨rfl, -⟩ := hattested.jobs cid job hjob
  unfold processAsset
  cases hbuffer : getBuffer s job.contentLocation with
  | none => exact .inr ⟨⟨_, rfl⟩, .inl rfl⟩
  | some content =>
      dsimp only
      obtain ⟨e, he, hvalue⟩ := of_getBuffer hbuffer
      obtain ⟨file, hfile, hstored⟩ := hattested.redis _ e he
      rw [hvalue] at hstored
      obtain ⟨hlocation, rfl⟩ := hstored
      have hsame : job.ipfsCid = calculateIpfsCID file.buffer :=
        getAssetDataKey_injective (job.contentLocation_eq.symm.trans hlocation)
      rcases ipfsPin_cases api answers job.mimeType file.buffer s.ipfs with ⟨e, hpin⟩ | hpin
      · refine .inr ⟨⟨e, exec_bind_error _ hpin⟩, .inr ?_⟩
        by_contra hnone
        rw [not_or] at hnone
        obtain ⟨extension, hextension⟩ := Option.ne_none_iff_exists'.mp hnone.1
        have hanswers : answers = true := by simpa using hnone.2
        unfold ipfsPin at hpin
        rw [hextension, hanswers] at hpin
        cases hpin
      · refine .inl ⟨file, hfile, hsame.symm, ?_⟩
        rw [exec_bind _ hpin, if_neg (not_not.mpr (hsame.trans (hcid file.buffer)))]
        rfl

/-- The table that the API makes for a body has MIME types of uploaded files. -/
theorem uploaded_of_validate (hrun : run (step api calculateIpfsCID interval) start as = some s)
    {body : Json} {map : Api.MimeTypes}
    (hvalid : Api.validateAssetsAndFetchMetadata (storedMimeType s) body = .ok map)
    {cid mimeType : String} (hmap : map cid = some mimeType) :
    ∃ file, Uploaded s file ∧ calculateIpfsCID file.buffer = cid ∧ file.mimetype = mimeType := by
  have hattested : Attested api calculateIpfsCID (Uploaded s) s := .of_run hrun
  suffices hstored : storedMimeType s cid = some mimeType by
    unfold storedMimeType at hstored
    split at hstored
    · next data hget =>
        cases hstored
        obtain ⟨e, he, hvalue⟩ := of_get hget
        obtain ⟨file, hfile, hstored⟩ := hattested.redis _ e he
        rw [hvalue] at hstored
        obtain ⟨hkey, -, hmime⟩ := hstored
        exact ⟨file, hfile, (getAssetMetadataKey_injective hkey).symm, hmime.symm⟩
    · cases hstored
  by_cases hread : Api.readable body = true
  · rcases Api.validate_cases (storedMimeType s) hread with
      ⟨_, _, heq⟩ | ⟨_, _, heq⟩ | ⟨_, _, errors, heq⟩
    · cases heq.symm.trans hvalid
    · cases heq.symm.trans hvalid
      dsimp only at hmap
      split_ifs at hmap
      exact hmap
    · cases heq.symm.trans hvalid
  · have heq : Api.validateAssetsAndFetchMetadata (storedMimeType s) body = _ :=
      Api.validate_of_not_readable (Bool.eq_false_iff.mpr hread)
    cases heq.symm.trans hvalid

/-- A link to an accepted asset that is pinned describes a file that was uploaded before the
request: its MIME type, and the hash of its bytes. -/
theorem fetchReference_of_run {services : Services}
    (hcid : ∀ buffer, calculateIpfsCID buffer = api.toV1 (api.hash buffer))
    (hs : run (step api calculateIpfsCID interval) start as = some s)
    (ht : run (step api calculateIpfsCID interval) s bs = some t) {body : Json}
    {map : Api.MimeTypes} {mimeTypes : List (String × String)} (reference : AssetReferenceDto)
    (hvalid : Api.validateAssetsAndFetchMetadata (storedMimeType s) body = .ok map)
    (hmimeTypes : ∀ cid, mimeTypes.lookup cid = map cid)
    (hnamed : map reference.referenceId ≠ none)
    (hpinned : isPinned api t.ipfs reference.referenceId = .ok true) :
    ∃ file, Uploaded s file ∧ calculateIpfsCID file.buffer = reference.referenceId ∧
      fetchReference api services t.ipfs (some mimeTypes) reference =
        .ok (some file.mimetype, services.calculateDsnpHash file.buffer) := by
  obtain ⟨mimeType, hmap⟩ := Option.ne_none_iff_exists'.mp hnamed
  obtain ⟨file, hfile, hreference, rfl⟩ := uploaded_of_validate hs hvalid hmap
  refine ⟨file, hfile, hreference, ?_⟩
  have hv0 : api.toV0 reference.referenceId = some (api.hash file.buffer) := by
    rw [← hreference, hcid, api.toV0_toV1]
  rw [isPinned_eq hv0, Except.ok.injEq] at hpinned
  obtain ⟨data, hdata⟩ := Option.isSome_iff_exists.mp hpinned
  have hall : run (step api calculateIpfsCID interval) start (as ++ bs) = some t := by
    rw [run_append, hs, Option.bind_some, ht]
  have hattested : Attested api calculateIpfsCID (Uploaded t) t := .of_run hall
  obtain rfl := api.hash_injective (hattested.ipfs _ data hdata).1
  rw [fetchReference, getPinned_eq hv0, hdata, hmimeTypes, hmap]
  rfl

end Runs

/-! ## One upload -/

section Sample

def sampleCalculate (buffer : Buffer) : String := sampleToV1 (sampleHash buffer)

/-- The content and the job are stored. -/
def uploadOnce : List Action :=
  [.addAssets [⟨smallFile, "image/png"⟩], .upload 0, .upload 0]

theorem pins_upload_smallFile : ∃ s cid job, run (step sampleApi sampleCalculate 300) start
    uploadOnce = some s ∧ (cid, job) ∈ s.assetQueue.jobs ∧
      ∃ file, Uploaded s file ∧ sampleCalculate file.buffer = cid ∧
        exec (processAsset sampleApi (getBuffer s) true job.toIAssetJob) s.ipfs = (.ok (),
          Function.update s.ipfs (sampleApi.hash file.buffer) (some file.buffer)) := by
  obtain ⟨s, hs, hids, hjobs⟩ : ∃ s, run (step sampleApi sampleCalculate 300) start uploadOnce =
      some s ∧ s.assetQueue.jobs.map Prod.fst = [sampleCid] ∧ ∀ entry ∈ s.assetQueue.jobs,
        getBuffer s entry.2.contentLocation ≠ none ∧
          sampleApi.getExtension entry.2.mimeType ≠ none :=
    exists_of_run_any (by decide +kernel)
  obtain ⟨⟨cid, job⟩, hjob, -⟩ := List.mem_map.mp
    (hids ▸ List.mem_singleton_self sampleCid : sampleCid ∈ s.assetQueue.jobs.map Prod.fst)
  refine ⟨s, cid, job, hs, hjob, ?_⟩
  rcases pins_upload_of_run (fun _ => rfl) hs hjob true with hpins | ⟨-, hnone | hnone | hfalse⟩
  · exact hpins
  · exact absurd hnone (hjobs _ hjob).1
  · exact absurd hnone (hjobs _ hjob).2
  · cases hfalse

/-- A note with the file as an image. -/
def sampleBody : Json :=
  .obj [("content", .obj [("assets", .arr [.obj [("references",
    .arr [.obj [("referenceId", .str sampleCid)]])]])])]

theorem fetchReference_smallFile : ∃ s t map, run (step sampleApi sampleCalculate 300) start
    (uploadOnce ++ [.upload 0]) = some s ∧
    run (step sampleApi sampleCalculate 300) s [.process sampleCid] = some t ∧
    Api.validateAssetsAndFetchMetadata (storedMimeType s) sampleBody = .ok map ∧
    ∃ file, Uploaded s file ∧ sampleCalculate file.buffer = sampleCid ∧
      fetchReference sampleApi Announcements.plainServices t.ipfs
        (some [(sampleCid, "image/png")]) ⟨sampleCid, none, none, none⟩ =
          .ok (some file.mimetype, Announcements.plainServices.calculateDsnpHash file.buffer) := by
  obtain ⟨s, t, map, hs, ht, hvalid, hmap, hpinned⟩ : ∃ s t map,
      run (step sampleApi sampleCalculate 300) start (uploadOnce ++ [.upload 0]) = some s ∧
      run (step sampleApi sampleCalculate 300) s [.process sampleCid] = some t ∧
      Api.validateAssetsAndFetchMetadata (storedMimeType s) sampleBody = .ok map ∧
      map = Function.update (fun _ => none) sampleCid (some "image/png") ∧
      isPinned sampleApi t.ipfs sampleCid = .ok true :=
    ⟨_, _, _, rfl, rfl, rfl, rfl, rfl⟩
  refine ⟨s, t, map, hs, ht, hvalid, fetchReference_of_run (fun _ => rfl) hs ht
    ⟨sampleCid, none, none, none⟩ hvalid ?_ ?_ hpinned⟩
  · intro cid
    rw [hmap, List.lookup_singleton, Function.update_apply]
    simp
  · rw [hmap]
    simp

end Sample

end ContentPublishing.Assets
