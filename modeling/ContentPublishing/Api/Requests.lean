import ContentPublishing.Common.Interfaces
import ContentPublishing.Lib.JobStates
import ContentPublishing.Lib.Transition

/-!
# Requests and uploads that are accepted again

The identifier of a request job is a hash of its content, that of an asset job the
CID of the file. A job that failed for good stays in its queue, and the same content
posted again is then added under the identifier of a kept job. The history of a
system is a schedule of API calls and of worker runs.
-/
namespace ContentPublishing.Api.Requests
open Transition

/-- How many completed request jobs are kept. -/
def removeOnComplete : ℕ := 2000

structure State where
  requestQueue : JobStates String
  assetQueue : JobStates String
  pinned : List String

def start : State := ⟨.empty, .empty, []⟩

inductive Action where
  | enqueueRequest (announcementType : AnnouncementTypeDto) (dsnpUserId : String) (content : Json)
  | addAssets (files : List UploadedFile)
  | runRequest (id : String) (result : RunEnd)
  | runAsset (ipfsCid : String) (result : RunEnd)

section System
variable (calculateJobId : IRequestJob → String) (calculateIpfsCID : Buffer → String)

/-- The identifier under which a request is enqueued. -/
def requestId (announcementType : AnnouncementTypeDto) (dsnpUserId : String) (content : Json) :
    String :=
  calculateJobId ⟨"", announcementType, dsnpUserId, none, some content, 0⟩

/-- The identifiers that `addAssets` answers. -/
def assetIds (files : List UploadedFile) : List String :=
  files.map fun f => calculateIpfsCID f.buffer

/-- One API call or one run of a job. An asset job that completes has pinned the
file, and completed asset jobs are not kept. -/
def step (s : State) : Action → Option State
  | .enqueueRequest announcementType dsnpUserId content => some { s with
      requestQueue :=
        s.requestQueue.add (requestId calculateJobId announcementType dsnpUserId content) }
  | .addAssets files => some { s with
      assetQueue := (assetIds calculateIpfsCID files).foldl JobStates.add s.assetQueue }
  | .runRequest id result =>
      (s.requestQueue.run removeOnComplete id result).map fun q => { s with requestQueue := q }
  | .runAsset ipfsCid result =>
      (s.assetQueue.run 0 ipfsCid result).map fun q => { s with
        assetQueue := q
        pinned := if result = .completed then ipfsCid :: s.pinned else s.pinned }

/-- What an API call promises by returning: each identifier stands for a job that has
not failed, or for a pinned asset. -/
def Honoured (t : State) : Action → Prop
  | .enqueueRequest announcementType dsnpUserId content =>
      t.requestQueue.HasLive (requestId calculateJobId announcementType dsnpUserId content)
  | .addAssets files => ∀ id ∈ assetIds calculateIpfsCID files,
      id ∈ t.pinned ∨ t.assetQueue.HasLive id
  | .runRequest .. | .runAsset .. => True

/-- In the history before the call no job for the same content failed for good; an
asset may also have been pinned before. -/
def FirstOrRepaired (history : List Action) : Action → Prop
  | .enqueueRequest announcementType dsnpUserId content =>
      .runRequest (requestId calculateJobId announcementType dsnpUserId content) .failed ∉ history
  | .addAssets files => ∀ id ∈ assetIds calculateIpfsCID files,
      .runAsset id .completed ∈ history ∨ .runAsset id .failed ∉ history
  | .runRequest .. | .runAsset .. => True

/-- Every call of a schedule is honoured when it returns. -/
def AllHonoured (as : List Action) : Prop :=
  ∀ bs a t, bs ++ [a] <+: as →
    run (step calculateJobId calculateIpfsCID) start (bs ++ [a]) = some t →
      Honoured calculateJobId calculateIpfsCID t a

/-- Every call of a schedule is the first for its content, or comes after no failure. -/
def AllFirstOrRepaired (as : List Action) : Prop :=
  ∀ bs a t, bs ++ [a] <+: as →
    run (step calculateJobId calculateIpfsCID) start (bs ++ [a]) = some t →
      FirstOrRepaired calculateJobId calculateIpfsCID bs a

end System

section History
variable {calculateJobId : IRequestJob → String} {calculateIpfsCID : Buffer → String}

/-- The queues remember every failure, and the pins every success, of the history. -/
structure Remembers (history : List Action) (s : State) : Prop where
  requests : ∀ id, s.requestQueue.state? id = some .failed ↔ .runRequest id .failed ∈ history
  assets : ∀ id, s.assetQueue.state? id = some .failed ↔ .runAsset id .failed ∈ history
  pinned : ∀ id, id ∈ s.pinned ↔ .runAsset id .completed ∈ history

namespace Remembers
variable {history : List Action} {s t : State}

theorem initial : Remembers [] start := by
  constructor <;> simp [start, JobStates.empty]

theorem step (h : Remembers history s) {a : Action}
    (hst : Requests.step calculateJobId calculateIpfsCID s a = some t) :
    Remembers (history ++ [a]) t := by
  cases a with
  | enqueueRequest announcementType dsnpUserId content =>
      have ht := Option.some.inj hst
      subst t
      refine ⟨fun id => ?_, fun id => ?_, fun id => ?_⟩
      · simpa [JobStates.failed_add] using h.requests id
      · simpa using h.assets id
      · simpa using h.pinned id
  | addAssets files =>
      have ht := Option.some.inj hst
      subst t
      refine ⟨fun id => ?_, fun id => ?_, fun id => ?_⟩
      · simpa using h.requests id
      · simpa [JobStates.failed_foldl_add] using h.assets id
      · simpa using h.pinned id
  | runRequest i result =>
      obtain ⟨q, hq, rfl⟩ := Option.map_eq_some_iff.mp hst
      refine ⟨fun id => ?_, fun id => ?_, fun id => ?_⟩
      · rw [JobStates.failed_run hq, h.requests]
        simp [eq_comm]
      · simpa using h.assets id
      · simpa using h.pinned id
  | runAsset i result =>
      obtain ⟨q, hq, rfl⟩ := Option.map_eq_some_iff.mp hst
      refine ⟨fun id => ?_, fun id => ?_, fun id => ?_⟩
      · simpa using h.requests id
      · rw [JobStates.failed_run hq, h.assets]
        simp [eq_comm]
      · by_cases hresult : result = .completed
        · subst result
          simp [h.pinned, or_comm]
        · simp [h.pinned, hresult, eq_comm]

theorem of_run (hrun : run (Requests.step calculateJobId calculateIpfsCID) start history = some s) :
    Remembers history s :=
  run_induction (C := fun _ _ => True) initial (fun _ _ _ _ _ h _ hst => h.step hst)
    (fun _ _ _ _ _ => trivial) hrun

/-- A call is honoured exactly if the history before it allows. -/
theorem honoured_iff (h : Remembers history s) {a : Action}
    (hst : Requests.step calculateJobId calculateIpfsCID s a = some t) :
    Honoured calculateJobId calculateIpfsCID t a ↔
      FirstOrRepaired calculateJobId calculateIpfsCID history a := by
  cases a with
  | enqueueRequest announcementType dsnpUserId content =>
      have ht := Option.some.inj hst
      subst t
      have hkept := s.requestQueue.state?_add
        (requestId calculateJobId announcementType dsnpUserId content)
      refine (JobStates.hasLive_iff ?_).trans ?_
      · rw [hkept]
        exact Option.some_ne_none _
      · rw [ne_eq, JobStates.failed_add, h.requests]
        exact Iff.rfl
  | addAssets files =>
      have ht := Option.some.inj hst
      subst t
      refine forall₂_congr fun id hid => ?_
      have hkept := JobStates.foldl_add_ne_none (q := s.assetQueue) (.inl hid)
      rw [JobStates.hasLive_iff hkept, ne_eq, JobStates.failed_foldl_add, h.assets, h.pinned]
  | runRequest i result => exact Iff.rfl
  | runAsset i result => exact Iff.rfl

end Remembers

end History

/-- Exactly the calls that come after a permanent failure of the same content, and for
assets after no success, are swallowed. -/
theorem allHonoured_iff (calculateJobId : IRequestJob → String)
    (calculateIpfsCID : Buffer → String) (as : List Action) :
    AllHonoured calculateJobId calculateIpfsCID as ↔
      AllFirstOrRepaired calculateJobId calculateIpfsCID as := by
  have hstep : ∀ bs a t, run (step calculateJobId calculateIpfsCID) start (bs ++ [a]) = some t →
      (Honoured calculateJobId calculateIpfsCID t a ↔
        FirstOrRepaired calculateJobId calculateIpfsCID bs a) := by
    intro bs a t hrun
    rw [run_concat] at hrun
    obtain ⟨s, hs, hst⟩ := Option.bind_eq_some_iff.mp hrun
    exact (Remembers.of_run hs).honoured_iff hst
  constructor
  · exact fun h bs a t hp hr => (hstep bs a t hr).mp (h bs a t hp hr)
  · exact fun h bs a t hp hr => (hstep bs a t hr).mpr (h bs a t hp hr)

/-! ## The same content again -/

/-- A request whose job fails, posted a second time. -/
def postTwice : List Action :=
  [.enqueueRequest .tombstone "1" .null, .runRequest "job" .failed,
    .enqueueRequest .tombstone "1" .null]

/-- A file whose job fails in its last attempt, uploaded a second time. -/
def uploadTwice : List Action :=
  [.addAssets [⟨[1], "image/png"⟩], .runAsset "cid" .delayed, .runAsset "cid" .delayed,
    .runAsset "cid" .failed, .addAssets [⟨[1], "image/png"⟩]]

theorem not_allHonoured_again :
    ¬ AllHonoured (fun _ => "job") (fun _ => "cid") postTwice ∧
      ¬ AllHonoured (fun _ => "job") (fun _ => "cid") uploadTwice := by
  constructor
  · intro h
    obtain ⟨t, ht, hfailed⟩ : ∃ t, run (step (fun _ => "job") fun _ => "cid") start postTwice =
        some t ∧ t.requestQueue.state? "job" = some .failed :=
      exists_of_run_any (by decide +kernel)
    obtain ⟨state, hstate, hlive⟩ := h (postTwice.take 2) (.enqueueRequest .tombstone "1" .null) t
      (List.prefix_refl _) ht
    exact hlive (Option.some.inj (hstate.symm.trans hfailed))
  · intro h
    obtain ⟨t, ht, hfailed, hpin⟩ : ∃ t, run (step (fun _ => "job") fun _ => "cid") start
        uploadTwice = some t ∧ t.assetQueue.state? "cid" = some .failed ∧ "cid" ∉ t.pinned :=
      exists_of_run_any (by decide +kernel)
    rcases h (uploadTwice.take 4) (.addAssets [⟨[1], "image/png"⟩]) t (List.prefix_refl _) ht "cid"
      (List.mem_singleton_self _) with hpinned | ⟨state, hstate, hlive⟩
    · exact hpin hpinned
    · exact hlive (Option.some.inj (hstate.symm.trans hfailed))

end ContentPublishing.Api.Requests
