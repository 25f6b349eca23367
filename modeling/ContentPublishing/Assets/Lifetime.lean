import ContentPublishing.Dependencies.Availability
import ContentPublishing.Lib.Entries
import ContentPublishing.Lib.Expiring
import ContentPublishing.Lib.JobQueue

/-!
# How long an upload stays in the cache

`addAssets` stores the contents, adds the asset jobs and stores the metadata, in this
order. When an asset job has completed, a handler lowers the lifetimes of both of its
keys, once. Contents are stored before their job is added, so a handler always follows.
Metadata is stored after that, and may miss the handler.

The API and the workers read one clock, and the interval is a whole number of seconds, as
`EXPIRE` requires; clocks that differ and an interval with a fraction are left out.
-/
namespace ContentPublishing.Assets
open Effects Transition Expiring Dependencies

/-- 45 days upper limit to avoid keeping abandoned data forever. -/
def storageExpireUpperLimitSeconds : ℕ := 45 * 24 * 60 * 60

def assetMetadataKeyPrefix : String := "asset:metadata"

def getAssetMetadataKey (assetId : String) : String := assetMetadataKeyPrefix ++ ":" ++ assetId

structure IAssetMetadata where
  ipfsCid : String
  mimeType : String
  createdOn : ℕ
  deriving DecidableEq, Repr

inductive Value where
  | content (data : Buffer)
  | metadata (data : IAssetMetadata)
  deriving DecidableEq, Repr

/-- A job of the asset queue, with the time that BullMQ notes when it is added. -/
structure AssetJob extends IAssetJob where
  metadataLocation : String
  timestamp : ℕ
  contentLocation_eq : contentLocation = getAssetDataKey ipfsCid
  metadataLocation_eq : metadataLocation = getAssetMetadataKey ipfsCid

/-- What an `addAssets` call does next. -/
inductive UploadStage where
  | storingContent | addingJobs | storingMetadata | returned
  deriving DecidableEq, Repr

/-- A call of `addAssets`, with the time at which it composed the metadata. -/
structure UploadCall where
  files : List UploadedFile
  createdOn : ℕ
  stage : UploadStage

/-- Where a worker is with a job. The handler starts once the job is completed and
removed; it reads the clock and sends both commands, in this order. -/
inductive RunStage where
  | processing
  | completed
  | expiringContent (now : ℕ)
  | expiringMetadata (now : ℕ)
  | done
  deriving DecidableEq, Repr

structure JobRun where
  job : AssetJob
  stage : RunStage

structure State where
  clock : ℕ
  redis : Keyspace String Value
  assetQueue : JobQueue String AssetJob
  ipfs : Ipfs
  uploads : List UploadCall
  runs : List JobRun

def start : State := ⟨0, fun _ => none, .empty, fun _ => none, [], []⟩

inductive Action where
  | tick (milliseconds : ℕ)
  | addAssets (files : List UploadedFile)
  | upload (i : ℕ)
  | process (cid : String)
  | finish (i : ℕ)
  deriving DecidableEq, Repr

/-! ## The API -/

section Api
variable (calculateIpfsCID : Buffer → String)

def references (files : List UploadedFile) : List String :=
  files.map fun f => calculateIpfsCID f.buffer

def dataTransaction (files : List UploadedFile) : List (String × Value) :=
  files.map fun f => (getAssetDataKey (calculateIpfsCID f.buffer), .content f.buffer)

def metadataTransaction (createdOn : ℕ) (files : List UploadedFile) : List (String × Value) :=
  files.map fun f =>
    let reference := calculateIpfsCID f.buffer
    (getAssetMetadataKey reference, .metadata ⟨reference, f.mimetype, createdOn⟩)

/-- The jobs under their identifiers. -/
def assetJobs (timestamp : ℕ) (files : List UploadedFile) : List (String × AssetJob) :=
  files.map fun f =>
    let reference := calculateIpfsCID f.buffer
    (reference, {
      ipfsCid := reference
      contentLocation := getAssetDataKey reference
      metadataLocation := getAssetMetadataKey reference
      mimeType := f.mimetype
      timestamp := timestamp
      contentLocation_eq := rfl
      metadataLocation_eq := rfl })

/-- The next step of the `i`-th call of `addAssets`. -/
def advanceUpload (s : State) (i : ℕ) (u : UploadCall) : Option State :=
  match u.stage with
  | .storingContent => some { s with
      redis := setexAll s.redis s.clock storageExpireUpperLimitSeconds
        (dataTransaction calculateIpfsCID u.files)
      uploads := s.uploads.set i { u with stage := .addingJobs } }
  | .addingJobs => some { s with
      assetQueue := s.assetQueue.addBulk (assetJobs calculateIpfsCID s.clock u.files)
      uploads := s.uploads.set i { u with stage := .storingMetadata } }
  | .storingMetadata => some { s with
      redis := setexAll s.redis s.clock storageExpireUpperLimitSeconds
        (metadataTransaction calculateIpfsCID u.createdOn u.files)
      uploads := s.uploads.set i { u with stage := .returned } }
  | .returned => none

end Api

/-! ## The worker -/

/-- The content stored at the location; no content is stored at a metadata key. -/
def getBuffer (s : State) (location : String) : Option Buffer :=
  match get s.redis s.clock location with
  | some (.content data) => some data
  | _ => none

/-- A worker picks a job that no worker has, and processes it. -/
def processJob (api : IpfsApi) (s : State) (cid : String) : Option State :=
  if s.runs.any fun r => r.job.ipfsCid = cid ∧ r.stage = .processing then none
  else
    match s.assetQueue.find? cid with
    | none => none
    | some job =>
        match exec (processAsset api (getBuffer s) true job.toIAssetJob) s.ipfs with
        | (.ok (), ipfs) => some { s with ipfs := ipfs, runs := s.runs ++ [⟨job, .processing⟩] }
        | (.error _, _) => none

section Worker
variable (assetExpirationIntervalSeconds : ℕ)

/-- The seconds that have passed are rounded to the nearest whole number. -/
def secondsToExpire (timestamp now : ℕ) : ℕ :=
  let secondsPassed := (now - timestamp + 500) / 1000
  assetExpirationIntervalSeconds - secondsPassed

/-- The next step with a job that was processed: the job is completed and removed, and
`onCompleted` runs. -/
def advanceRun (s : State) (i : ℕ) (r : JobRun) : Option State :=
  match r.stage with
  | .processing => some { s with
      assetQueue := s.assetQueue.remove r.job.ipfsCid
      runs := s.runs.set i { r with stage := .completed } }
  | .completed => some { s with
      runs := s.runs.set i { r with stage := .expiringContent s.clock } }
  | .expiringContent now => some { s with
      redis := expireLT s.redis s.clock r.job.contentLocation
        (secondsToExpire assetExpirationIntervalSeconds r.job.timestamp now)
      runs := s.runs.set i { r with stage := .expiringMetadata now } }
  | .expiringMetadata now => some { s with
      redis := expireLT s.redis s.clock r.job.metadataLocation
        (secondsToExpire assetExpirationIntervalSeconds r.job.timestamp now)
      runs := s.runs.set i { r with stage := .done } }
  | .done => none

end Worker

/-- No call fails: a step with a failing call is no step. -/
def step (api : IpfsApi) (calculateIpfsCID : Buffer → String)
    (assetExpirationIntervalSeconds : ℕ) (s : State) : Action → Option State
  | .tick milliseconds => some { s with clock := s.clock + milliseconds }
  | .addAssets files => some { s with
      uploads := s.uploads ++ [⟨files, s.clock, .storingContent⟩] }
  | .upload i => s.uploads[i]?.bind (advanceUpload calculateIpfsCID s i)
  | .process cid => processJob api s cid
  | .finish i => s.runs[i]?.bind (advanceRun assetExpirationIntervalSeconds s i)

/-! ## What is to hold once nothing is going on -/

section Statements
variable (calculateIpfsCID : Buffer → String) (interval : ℕ) (cid : String)

/-- All uploads of the CID have returned, and all of its jobs have completed. -/
def Settled (s : State) : Prop :=
  (∀ u ∈ s.uploads, cid ∈ references calculateIpfsCID u.files → u.stage = .returned) ∧
    cid ∉ s.assetQueue.ids ∧ ∀ r ∈ s.runs, r.job.ipfsCid = cid → r.stage = .done

/-- What remains of the lifetimes is at most the interval. -/
def Shortened (s : State) : Prop :=
  ttl s.redis s.clock (getAssetDataKey cid) ≤ interval * 1000 ∧
    ttl s.redis s.clock (getAssetMetadataKey cid) ≤ interval * 1000

/-- The handler has the content's lifetime still to lower. -/
def RunStage.owesContent : RunStage → Bool
  | .completed | .expiringContent _ => true
  | _ => false

def RunStage.owesMetadata : RunStage → Bool
  | .completed | .expiringContent _ | .expiringMetadata _ => true
  | _ => false

/-- The CID's job is still kept, or it has completed and its handler has something left to
do. -/
def Owed (owes : RunStage → Bool) (s : State) : Prop :=
  cid ∈ s.assetQueue.ids ∨ ∃ r ∈ s.runs, r.job.ipfsCid = cid ∧ owes r.stage

/-- The upload that is about to store its metadata. -/
def State.storing? (s : State) : Action → Option UploadCall
  | .upload i => s.uploads[i]?.filter fun u => u.stage = .storingMetadata
  | _ => none

/-- When metadata of the CID is stored, some handler has its lifetime still to lower, or
there is nothing to lower. -/
def InTime (s : State) (a : Action) : Prop :=
  ∀ u ∈ s.storing? a, cid ∈ references calculateIpfsCID u.files →
    storageExpireUpperLimitSeconds ≤ interval ∨ Owed cid RunStage.owesMetadata s

instance (s : State) : Decidable (Settled calculateIpfsCID cid s) :=
  inferInstanceAs (Decidable (_ ∧ _ ∧ _))

instance (s : State) : Decidable (Shortened interval cid s) :=
  inferInstanceAs (Decidable (_ ∧ _))

instance (owes : RunStage → Bool) (s : State) : Decidable (Owed cid owes s) :=
  inferInstanceAs (Decidable (_ ∨ _))

instance (s : State) (a : Action) : Decidable (InTime calculateIpfsCID interval cid s a) :=
  inferInstanceAs (Decidable (∀ _ ∈ _, _))

end Statements

/-! ## The two keys -/

section Keys
variable {calculateIpfsCID : Buffer → String} {files : List UploadedFile} {cid : String}

theorem getAssetDataKey_injective : Function.Injective getAssetDataKey :=
  fun _ _ h => (String.append_right_inj _).mp h

theorem getAssetMetadataKey_injective : Function.Injective getAssetMetadataKey :=
  fun _ _ h => (String.append_right_inj _).mp h

theorem getAssetDataKey_ne (cid cid' : String) :
    getAssetDataKey cid ≠ getAssetMetadataKey cid' := by
  intro h
  simpa [getAssetDataKey, getAssetMetadataKey, assetDataKeyPrefix, assetMetadataKeyPrefix] using
    congrArg String.toList h

theorem mem_dataTransaction : getAssetDataKey cid ∈
    (dataTransaction calculateIpfsCID files).map Prod.fst ↔
      cid ∈ references calculateIpfsCID files := by
  simp [dataTransaction, references, getAssetDataKey_injective.eq_iff]

theorem not_mem_dataTransaction :
    getAssetMetadataKey cid ∉ (dataTransaction calculateIpfsCID files).map Prod.fst := by
  simp [dataTransaction, getAssetDataKey_ne]

theorem mem_metadataTransaction {createdOn : ℕ} : getAssetMetadataKey cid ∈
    (metadataTransaction calculateIpfsCID createdOn files).map Prod.fst ↔
      cid ∈ references calculateIpfsCID files := by
  simp [metadataTransaction, references, getAssetMetadataKey_injective.eq_iff]

theorem not_mem_metadataTransaction {createdOn : ℕ} : getAssetDataKey cid ∉
    (metadataTransaction calculateIpfsCID createdOn files).map Prod.fst := by
  simp [metadataTransaction, Ne.symm (getAssetDataKey_ne _ _)]

theorem mem_assetJobs {timestamp : ℕ} :
    cid ∈ (assetJobs calculateIpfsCID timestamp files).map Prod.fst ↔
      cid ∈ references calculateIpfsCID files := by
  simp [assetJobs, references]

end Keys

/-! ## What the handlers have still to lower -/

section Worker
variable {api : IpfsApi} {interval : ℕ} {cid : String} {owes : RunStage → Bool} {s t : State}

theorem ttl_lowered_le (redis : Keyspace String Value) (clock timestamp now : ℕ) (key : String) :
    ttl (expireLT redis clock key (secondsToExpire interval timestamp now)) clock key ≤
      interval * 1000 := by
  have hseconds : secondsToExpire interval timestamp now ≤ interval := Nat.sub_le ..
  rw [ttl_expireLT_self]
  exact (min_le_right ..).trans (Nat.mul_le_mul_right 1000 hseconds)

theorem Owed.addBulk (h : Owed cid owes s) (jobs : List (String × AssetJob))
    (uploads : List UploadCall) :
    Owed cid owes { s with assetQueue := s.assetQueue.addBulk jobs, uploads := uploads } :=
  h.imp_left fun hkept => JobQueue.mem_ids_addBulk.mpr (.inl hkept)

theorem processJob_cases {c : String} (hstep : processJob api s c = some t) :
    ∃ job ipfs, t = { s with ipfs := ipfs, runs := s.runs ++ [⟨job, .processing⟩] } := by
  unfold processJob at hstep
  split at hstep
  · cases hstep
  · split at hstep
    · cases hstep
    · next job _ =>
        split at hstep
        · next ipfs _ => exact ⟨job, ipfs, (Option.some.inj hstep).symm⟩
        · cases hstep

theorem Owed.processJob (h : Owed cid owes s) {c : String}
    (hstep : processJob api s c = some t) : Owed cid owes t := by
  obtain ⟨job, ipfs, rfl⟩ := processJob_cases hstep
  refine h.imp_right ?_
  rintro ⟨r, hr, howes⟩
  exact ⟨r, List.mem_append_left _ hr, howes⟩

section Run
variable {i : ℕ} {r : JobRun}

/-- A worker raises no lifetime. -/
theorem ttl_advanceRun_le (hstep : advanceRun interval s i r = some t) (key : String) :
    ttl t.redis t.clock key ≤ ttl s.redis s.clock key := by
  unfold advanceRun at hstep
  split at hstep
  · cases hstep
    exact le_rfl
  · cases hstep
    exact le_rfl
  · cases hstep
    exact ttl_expireLT_le ..
  · cases hstep
    exact ttl_expireLT_le ..
  · cases hstep

theorem uploads_advanceRun (hstep : advanceRun interval s i r = some t) :
    t.uploads = s.uploads := by
  unfold advanceRun at hstep
  split at hstep <;> cases hstep <;> rfl

theorem Owed.set (h : Owed cid owes s) (hi : s.runs[i]? = some r) {stage : RunStage}
    (hkeep : r.job.ipfsCid = cid → owes r.stage → owes stage) :
    cid ∈ s.assetQueue.ids ∨
      ∃ x ∈ s.runs.set i { r with stage := stage }, x.job.ipfsCid = cid ∧ owes x.stage :=
  h.imp_right (Entries.exists_mem_set hi fun hr => ⟨hr.1, hkeep hr.1 hr.2⟩)

/-- A completed job is removed, and from then on its handler owes what it owed. -/
theorem Owed.complete (h : Owed cid owes s) (howes : owes .completed)
    (hi : s.runs[i]? = some r) : Owed cid owes { s with
      assetQueue := s.assetQueue.remove r.job.ipfsCid
      runs := s.runs.set i { r with stage := .completed } } := by
  by_cases hcid : r.job.ipfsCid = cid
  · have hlt : i < s.runs.length := (List.getElem?_eq_some_iff.mp hi).1
    exact .inr ⟨_, List.mem_set hlt _, hcid, howes⟩
  · refine (h.set hi fun heq => absurd heq hcid).imp_left fun hkept => ?_
    exact JobQueue.mem_ids_remove.mpr ⟨hkept, Ne.symm hcid⟩

/-- The content's lifetime stays to be lowered until it is low. -/
theorem content_advanceRun (h : Owed cid RunStage.owesContent s) (hi : s.runs[i]? = some r)
    (hstep : advanceRun interval s i r = some t) :
    Owed cid RunStage.owesContent t ∨
      ttl t.redis t.clock (getAssetDataKey cid) ≤ interval * 1000 := by
  unfold advanceRun at hstep
  split at hstep
  · cases hstep
    exact .inl (h.complete rfl hi)
  · cases hstep
    exact .inl (h.set hi fun _ _ => rfl)
  · next now hr =>
      cases hstep
      by_cases hcid : r.job.ipfsCid = cid
      · right
        rw [← hcid, ← r.job.contentLocation_eq]
        exact ttl_lowered_le ..
      · exact .inl (h.set hi fun heq => absurd heq hcid)
  · next now hr =>
      cases hstep
      refine .inl (h.set hi fun _ howes => ?_)
      rw [hr] at howes
      cases howes
  · cases hstep

/-- So does the metadata's. -/
theorem metadata_advanceRun (h : Owed cid RunStage.owesMetadata s) (hi : s.runs[i]? = some r)
    (hstep : advanceRun interval s i r = some t) :
    Owed cid RunStage.owesMetadata t ∨
      ttl t.redis t.clock (getAssetMetadataKey cid) ≤ interval * 1000 := by
  unfold advanceRun at hstep
  split at hstep
  · cases hstep
    exact .inl (h.complete rfl hi)
  · cases hstep
    exact .inl (h.set hi fun _ _ => rfl)
  · cases hstep
    exact .inl (h.set hi fun _ _ => rfl)
  · next now hr =>
      cases hstep
      by_cases hcid : r.job.ipfsCid = cid
      · right
        rw [← hcid, ← r.job.metadataLocation_eq]
        exact ttl_lowered_le ..
      · exact .inl (h.set hi fun heq => absurd heq hcid)
  · cases hstep

end Run

end Worker

/-! ## Every long lifetime is still to be lowered -/

section Invariant
variable {api : IpfsApi} {calculateIpfsCID : Buffer → String} {interval : ℕ} {cid : String}
  {s t : State} {a : Action}

/-- An upload that has stored the content is about to add its job, or some handler has the
lifetime to lower. -/
def ContentOwed (calculateIpfsCID : Buffer → String) (interval : ℕ) (cid : String)
    (s : State) : Prop :=
  interval * 1000 < ttl s.redis s.clock (getAssetDataKey cid) →
    (∃ u ∈ s.uploads, u.stage = .addingJobs ∧ cid ∈ references calculateIpfsCID u.files) ∨
      Owed cid RunStage.owesContent s

def MetadataOwed (interval : ℕ) (cid : String) (s : State) : Prop :=
  interval * 1000 < ttl s.redis s.clock (getAssetMetadataKey cid) →
    Owed cid RunStage.owesMetadata s

theorem contentOwed_upload {i : ℕ} {u : UploadCall}
    (h : ContentOwed calculateIpfsCID interval cid s) (hi : s.uploads[i]? = some u)
    (hstep : advanceUpload calculateIpfsCID s i u = some t) :
    ContentOwed calculateIpfsCID interval cid t := by
  intro hlong
  have hlt : i < s.uploads.length := (List.getElem?_eq_some_iff.mp hi).1
  unfold advanceUpload at hstep
  split at hstep
  · next hu =>
      cases hstep
      by_cases hcid : cid ∈ references calculateIpfsCID u.files
      · exact .inl ⟨_, List.mem_set hlt _, rfl, hcid⟩
      · have hkey := setexAll_of_not_mem (mt mem_dataTransaction.mp hcid) s.redis s.clock
          storageExpireUpperLimitSeconds
        rw [ttl_congr hkey] at hlong
        exact (h hlong).imp_left (Entries.exists_mem_set hi fun hadding => absurd hadding.2 hcid)
  · next hu =>
      cases hstep
      by_cases hcid : cid ∈ references calculateIpfsCID u.files
      · exact .inr (.inl (JobQueue.mem_ids_addBulk.mpr (.inr (mem_assetJobs.mpr hcid))))
      · refine (h hlong).imp (Entries.exists_mem_set hi fun hadding => absurd hadding.2 hcid) ?_
        exact fun howed => howed.addBulk _ _
  · next hu =>
      cases hstep
      rw [ttl_congr (setexAll_of_not_mem not_mem_metadataTransaction ..)] at hlong
      refine (h hlong).imp_left (Entries.exists_mem_set hi fun hadding => ?_)
      rw [hu] at hadding
      cases hadding.1
  · cases hstep

theorem contentOwed_step (h : ContentOwed calculateIpfsCID interval cid s)
    (hstep : step api calculateIpfsCID interval s a = some t) :
    ContentOwed calculateIpfsCID interval cid t := by
  cases a with
  | tick milliseconds =>
      cases hstep
      exact fun hlong => h (hlong.trans_le (ttl_anti _ _ (Nat.le_add_right ..)))
  | addAssets files =>
      cases hstep
      refine fun hlong => (h hlong).imp_left ?_
      rintro ⟨u, hu, hadding⟩
      exact ⟨u, List.mem_append_left _ hu, hadding⟩
  | upload i =>
      obtain ⟨u, hi, hstep⟩ := Option.bind_eq_some_iff.mp hstep
      exact contentOwed_upload h hi hstep
  | process c =>
      intro hlong
      obtain ⟨job, ipfs, rfl⟩ := processJob_cases hstep
      exact (h hlong).imp_right fun howed => howed.processJob hstep
  | finish i =>
      obtain ⟨r, hi, hstep⟩ := Option.bind_eq_some_iff.mp hstep
      intro hlong
      rcases h (hlong.trans_le (ttl_advanceRun_le hstep _)) with hadding | howed
      · exact .inl (uploads_advanceRun hstep ▸ hadding)
      · exact .inr ((content_advanceRun howed hi hstep).resolve_right (not_le.mpr hlong))

/-- Metadata that is stored in time does not escape its handler. -/
theorem metadataOwed_upload {i : ℕ} {u : UploadCall} (h : MetadataOwed interval cid s)
    (hi : s.uploads[i]? = some u) (htime : InTime calculateIpfsCID interval cid s (.upload i))
    (hstep : advanceUpload calculateIpfsCID s i u = some t) : MetadataOwed interval cid t := by
  intro hlong
  unfold advanceUpload at hstep
  split at hstep
  · cases hstep
    rw [ttl_congr (setexAll_of_not_mem not_mem_dataTransaction ..)] at hlong
    exact h hlong
  · cases hstep
    exact (h hlong).addBulk _ _
  · next hu =>
      cases hstep
      by_cases hcid : cid ∈ references calculateIpfsCID u.files
      · have hstoring : s.storing? (.upload i) = some u := by
          simp [State.storing?, hi, hu]
        rcases htime u hstoring hcid with hlimit | howed
        · by_contra hnot
          have hold : ttl s.redis s.clock (getAssetMetadataKey cid) ≤ interval * 1000 :=
            not_lt.mp fun hlt => hnot (h hlt)
          exact absurd (ttl_setexAll_le hold (Nat.mul_le_mul_right 1000 hlimit) _)
            (not_le.mpr hlong)
        · exact howed
      · rw [ttl_congr (setexAll_of_not_mem (mt mem_metadataTransaction.mp hcid) ..)] at hlong
        exact h hlong
  · cases hstep

theorem metadataOwed_step (h : MetadataOwed interval cid s)
    (htime : InTime calculateIpfsCID interval cid s a)
    (hstep : step api calculateIpfsCID interval s a = some t) : MetadataOwed interval cid t := by
  cases a with
  | tick milliseconds =>
      cases hstep
      exact fun hlong => h (hlong.trans_le (ttl_anti _ _ (Nat.le_add_right ..)))
  | addAssets files =>
      cases hstep
      exact h
  | upload i =>
      obtain ⟨u, hi, hstep⟩ := Option.bind_eq_some_iff.mp hstep
      exact metadataOwed_upload h hi htime hstep
  | process c =>
      intro hlong
      obtain ⟨job, ipfs, rfl⟩ := processJob_cases hstep
      exact (h hlong).processJob hstep
  | finish i =>
      obtain ⟨r, hi, hstep⟩ := Option.bind_eq_some_iff.mp hstep
      intro hlong
      have howed := h (hlong.trans_le (ttl_advanceRun_le hstep _))
      exact (metadata_advanceRun howed hi hstep).resolve_right (not_le.mpr hlong)

/-- Once all is settled there is nothing left to lower. -/
theorem Settled.not_owed (h : Settled calculateIpfsCID cid s) {owes : RunStage → Bool}
    (hdone : owes .done = false) : ¬ Owed cid owes s := by
  rintro (hkept | ⟨r, hr, hcid, howes⟩)
  · exact h.2.1 hkept
  · rw [h.2.2 r hr hcid, hdone] at howes
    cases howes

/-- The content's lifetime is lowered in every run. -/
theorem contentTtl_le_of_run {as : List Action}
    (hrun : run (step api calculateIpfsCID interval) start as = some s)
    (hsettled : Settled calculateIpfsCID cid s) :
    ttl s.redis s.clock (getAssetDataKey cid) ≤ interval * 1000 := by
  have hinit : ContentOwed calculateIpfsCID interval cid start :=
    fun hlong => absurd hlong (Nat.not_lt_zero _)
  have howed : ContentOwed calculateIpfsCID interval cid s :=
    invariant_of_step hinit (fun _ _ _ => contentOwed_step) hrun
  by_contra hlong
  rcases howed (not_le.mp hlong) with ⟨u, hu, hstage, hcid⟩ | howed
  · rw [hsettled.1 u hu hcid] at hstage
    cases hstage
  · exact hsettled.not_owed rfl howed

/-- So is the metadata's, where all metadata is stored in time. -/
theorem metadataTtl_le_of_run {as : List Action}
    (htime : EachStep (step api calculateIpfsCID interval) (InTime calculateIpfsCID interval cid)
      start as)
    (hrun : run (step api calculateIpfsCID interval) start as = some s)
    (hsettled : Settled calculateIpfsCID cid s) :
    ttl s.redis s.clock (getAssetMetadataKey cid) ≤ interval * 1000 := by
  have hinit : MetadataOwed interval cid start := fun hlong => absurd hlong (Nat.not_lt_zero _)
  have howed : MetadataOwed interval cid s :=
    invariant hinit (fun _ _ _ => metadataOwed_step) htime hrun
  by_contra hlong
  exact hsettled.not_owed rfl (howed (not_le.mp hlong))

/-- The lifetimes of both keys are low once all is settled, in every run that stores its
metadata in time. -/
theorem shortened_of_inTime (api : IpfsApi) (calculateIpfsCID : Buffer → String) (interval : ℕ)
    (cid : String) (as : List Action) (s : State)
    (htime : EachStep (step api calculateIpfsCID interval) (InTime calculateIpfsCID interval cid)
      start as)
    (hrun : run (step api calculateIpfsCID interval) start as = some s)
    (hsettled : Settled calculateIpfsCID cid s) : Shortened interval cid s :=
  ⟨contentTtl_le_of_run hrun hsettled, metadataTtl_le_of_run htime hrun hsettled⟩

end Invariant

/-! ## Two uploads of one file -/

section Sample
open Dependencies.Uploads

def sampleCid : String := sampleToV1 (sampleHash smallFile)

/-- The second upload finds the job of the first one kept. The handler runs four seconds
later. -/
def inTime : List Action :=
  [.addAssets [⟨smallFile, "image/png"⟩], .upload 0, .upload 0, .upload 0,
    .addAssets [⟨smallFile, "image/png"⟩], .upload 1, .upload 1, .process sampleCid, .tick 4000,
    .finish 0, .upload 1, .finish 0, .finish 0, .finish 0]

theorem shortened_secondUpload : ∃ s,
    run (step sampleApi (fun b => sampleToV1 (sampleHash b)) 300) start inTime = some s ∧
      Shortened 300 sampleCid s := by
  obtain ⟨s, hs, hsettled⟩ : ∃ s,
      run (step sampleApi (fun b => sampleToV1 (sampleHash b)) 300) start inTime = some s ∧
        Settled (fun b => sampleToV1 (sampleHash b)) sampleCid s :=
    exists_of_run_any (by decide +kernel)
  exact ⟨s, hs, shortened_of_inTime _ _ _ _ _ s (by decide +kernel) hs hsettled⟩

/-- The metadata of the only upload is stored after its job's handler has run. -/
def late : List Action :=
  [.addAssets [⟨smallFile, "image/png"⟩], .upload 0, .upload 0, .process sampleCid, .tick 4000,
    .finish 0, .finish 0, .finish 0, .finish 0, .upload 0]

/-- It stays for 45 days. -/
theorem not_shortened_late : ∃ s,
    run (step sampleApi (fun b => sampleToV1 (sampleHash b)) 300) start late = some s ∧
      Settled (fun b => sampleToV1 (sampleHash b)) sampleCid s ∧ ¬ Shortened 300 sampleCid s ∧
      ttl s.redis s.clock (getAssetMetadataKey sampleCid) =
        storageExpireUpperLimitSeconds * 1000 :=
  exists_of_run_any (by decide +kernel)

end Sample

end ContentPublishing.Assets
