import ContentPublishing.Common.Interfaces
import ContentPublishing.Lib.Effects
import Mathlib.Data.List.Infix
import Mathlib.Logic.Function.Basic

/-!
# Request jobs and the assets they depend on

An asset job pins the content of an upload. A request job reads every asset it
refers to from IPFS; where one of them is not there it is delayed, and given up
after the third time.
-/
namespace ContentPublishing.Dependencies
open Effects

/-- What is pinned, by CID in version 0. -/
abbrev Ipfs := String → Option Buffer

/-- The IPFS node and the libraries for CIDs and MIME types. `hash` is what the node
answers when content is added, `pinLs` what it answers for a CID that is pinned. A
CID that does not parse, or has no version 0, has no `toV0`. -/
structure IpfsApi where
  hash : Buffer → String
  toV1 : String → String
  toV0 : String → Option String
  pinLs : String → String
  getExtension : String → Option String
  hash_injective : Function.Injective hash
  toV0_toV1 : ∀ content, toV0 (toV1 (hash content)) = some (hash content)
  pinLs_names : ∀ cid, cid.toList <:+: (pinLs cid).toList

inductive Thrown where
  | error (message : String)
  | invalidCid
  | requestFailed
  | unableToPin
  deriving DecidableEq, Repr

section Service
variable (api : IpfsApi) (ipfs : Ipfs)

/-! ## The IPFS service -/

/-- The node answers with an error for a CID that is not pinned. -/
def isPinned (cid : String) : Except Thrown Bool :=
  match api.toV0 cid with
  | none => throw .invalidCid
  | some v0Cid =>
      match ipfs v0Cid with
      | none => return false
      | some _ => return decide (v0Cid.toList <:+: (api.pinLs v0Cid).toList)

def getPinned (cid : String) : Except Thrown Buffer := do
  if !(← isPinned api ipfs cid) then return []
  match api.toV0 cid >>= ipfs with
  | none => throw .requestFailed
  | some data => return data

/-- Whether the node answers with the hash and the size of the content is up to the
node. -/
def ipfsPin (answers : Bool) (mimeType : String) (file : Buffer) : EStateM Thrown Ipfs String :=
  match api.getExtension mimeType with
  | none => throw (.error ("unknown mimetype: " ++ mimeType))
  | some _ => do
      if !answers then throw .unableToPin
      modify fun ipfs => Function.update ipfs (api.hash file) (some file)
      return api.toV1 (api.hash file)

/-! ## Asset jobs -/

/-- `AssetProcessorService.process`, with what Redis holds at a location. -/
def processAsset (redis : String → Option Buffer) (answers : Bool) (job : IAssetJob) :
    EStateM Thrown Ipfs Unit :=
  match redis job.contentLocation with
  | none => throw (.error ("Content stored in " ++ job.contentLocation ++ " does not exist!"))
  | some redisResults => do
      let cid ← ipfsPin api answers job.mimeType redisResults
      if job.ipfsCid ≠ cid then
        throw (.error ("Cid does not match " ++ job.ipfsCid ++ " != " ++ cid))

/-! ## Request jobs -/

/-- The keys of `assetToMimeType`. -/
def assets (job : IRequestJob) : List String :=
  (job.assetToMimeType.getD []).map Prod.fst

/-- What a processing does that throws no error of its own. -/
inductive Next where
  | collectAnnouncementAndQueue
  | moveToDelayed (delayedTime : ℚ)
  deriving DecidableEq

variable (assetUploadVerificationDelaySeconds : ℚ)

/-- The time for which a job is delayed that was delayed this often. -/
def delayJobAndIncrementAttempts (dependencyAttempt : ℕ) : Except Thrown ℚ :=
  let dependencyAttempt := dependencyAttempt + 1
  if dependencyAttempt ≤ 3 then
    return 2 ^ dependencyAttempt * assetUploadVerificationDelaySeconds * millisecondsPerSecond
  else throw (.error "Dependency failed!")

/-- `RequestProcessorService.process`. -/
def process (job : IRequestJob) : Except Thrown Next := do
  let pinnedResult ← (assets job).mapM (getPinned api ipfs)
  if pinnedResult.any (fun buffer => buffer.length = 0) then
    return .moveToDelayed
      (← delayJobAndIncrementAttempts assetUploadVerificationDelaySeconds job.dependencyAttempt)
  else return .collectAnnouncementAndQueue

end Service

/-! ## One specification for each function -/

section Specification
variable {api : IpfsApi} {ipfs : Ipfs} {seconds : ℚ} {job : IRequestJob}

theorem isPinned_eq {cid v0Cid : String} (h : api.toV0 cid = some v0Cid) :
    isPinned api ipfs cid = .ok (ipfs v0Cid).isSome := by
  unfold isPinned
  rw [h]
  cases hpin : ipfs v0Cid with
  | none => simp only [hpin]; rfl
  | some data => simp only [hpin, api.pinLs_names, decide_true]; rfl

/-- The content that is pinned, or an empty buffer. -/
theorem getPinned_eq {cid v0Cid : String} (h : api.toV0 cid = some v0Cid) :
    getPinned api ipfs cid = .ok ((ipfs v0Cid).getD []) := by
  unfold getPinned
  rw [isPinned_eq h, h]
  cases hpin : ipfs v0Cid with
  | none => rfl
  | some data => simp [bind, Except.bind, hpin]; rfl

/-- The contents that are pinned, where the CIDs are sound. -/
theorem mapM_getPinned {cids : List String} (h : ∀ cid ∈ cids, (api.toV0 cid).isSome) :
    cids.mapM (getPinned api ipfs) =
      .ok (cids.map fun cid => ((api.toV0 cid).bind ipfs).getD []) := by
  induction cids with
  | nil => rfl
  | cons cid cids ih =>
      rw [List.forall_mem_cons] at h
      obtain ⟨v0Cid, hcid⟩ := Option.isSome_iff_exists.mp h.1
      rw [List.mapM_cons, ih h.2, getPinned_eq hcid, List.map_cons, hcid]
      rfl

/-- Some asset is not pinned, or pinned and empty. -/
def Missing (api : IpfsApi) (ipfs : Ipfs) (job : IRequestJob) : Prop :=
  ∃ cid ∈ assets job, ((api.toV0 cid).bind ipfs).getD [] = []

instance : Decidable (Missing api ipfs job) := inferInstanceAs (Decidable (∃ _ ∈ _, _))

/-- A job is delayed, or given up, exactly if something is missing. -/
theorem process_eq (h : ∀ cid ∈ assets job, (api.toV0 cid).isSome) :
    process api ipfs seconds job =
      if Missing api ipfs job then
        (delayJobAndIncrementAttempts seconds job.dependencyAttempt).map Next.moveToDelayed
      else .ok .collectAnnouncementAndQueue := by
  have hany : ((assets job).map fun cid => ((api.toV0 cid).bind ipfs).getD []).any
      (fun buffer => decide (buffer.length = 0)) = decide (Missing api ipfs job) := by
    rw [Bool.eq_iff_iff, decide_eq_true_iff, List.any_map, List.any_eq_true]
    simp [Missing]
  unfold process
  rw [mapM_getPinned h]
  simp only [bind, Except.bind, hany, decide_eq_true_eq]
  split
  · cases delayJobAndIncrementAttempts seconds job.dependencyAttempt <;> rfl
  · rfl

end Specification

end ContentPublishing.Dependencies
