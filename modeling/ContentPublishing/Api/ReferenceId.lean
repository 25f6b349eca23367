import ContentPublishing.Common.Interfaces
import ContentPublishing.Lib.JobQueue
import ContentPublishing.Lib.JsonText
import ContentPublishing.Lib.Transition

/-!
# The identifier that answers a request

A request is answered with the hash of its JSON text, and its job is added under that
identifier. A text can be read in one way only, so as long as the hash has no collision
the identifier stands for the request: the same request is not enqueued twice, and the
job that is found under an identifier is the one of whoever was answered with it.
-/
namespace ContentPublishing.Api.ReferenceId
open Transition

def announcementTypeText : AnnouncementTypeDto → String
  | .broadcast => "broadcast"
  | .reply => "reply"
  | .reaction => "reaction"
  | .update => "update"
  | .tombstone => "tombstone"
  | .profile => "profile"

theorem announcementTypeText_injective : Function.Injective announcementTypeText := by
  intro x y h
  cases x <;> cases y <;> first | rfl | exact absurd h (by decide)

/-- A value that the body of a request can be. -/
abbrev Content := { content : Json // content.canonical id = true }

/-- What an endpoint passes to `enqueueRequest`. -/
structure Request where
  announcementType : AnnouncementTypeDto
  dsnpUserId : String
  content : Content

/-- `data` before it has an identifier. -/
def Request.data (request : Request) : Json :=
  .object [("content", some request.content.1), ("id", some (.str "")),
    ("announcementType", some (.str (announcementTypeText request.announcementType))),
    ("dsnpUserId", some (.str request.dsnpUserId)), ("dependencyAttempt", some (.num "0"))]

section
variable (sha1 : String → String)

def calculateJobId (request : Request) : String := sha1 request.data.stringify

def Request.job (request : Request) (assetToMimeType : Option (List (String × String))) :
    IRequestJob :=
  ⟨calculateJobId sha1 request, request.announcementType, request.dsnpUserId, assetToMimeType,
    some request.content.1, 0⟩

inductive Action where
  | enqueueRequest (request : Request) (assetToMimeType : Option (List (String × String)))
  | delay (jobId : String)
  | forget (jobId : String)

/-- A call of the API, a worker that delays a job, or a completed job that is not kept
any longer. -/
def step (requestQueue : JobQueue String IRequestJob) :
    Action → Option (JobQueue String IRequestJob)
  | .enqueueRequest request assetToMimeType =>
      some (requestQueue.add (calculateJobId sha1 request) (request.job sha1 assetToMimeType))
  | .delay jobId =>
      some (requestQueue.update jobId fun job =>
        { job with dependencyAttempt := job.dependencyAttempt + 1 })
  | .forget jobId => some (requestQueue.remove jobId)

def Action.request? : Action → Option Request
  | .enqueueRequest request _ => some request
  | _ => none

/-- The texts of these requests have different hashes. -/
def Collisionless (requests : List Request) : Prop :=
  ∀ request ∈ requests, ∀ other ∈ requests,
    sha1 request.data.stringify = sha1 other.data.stringify →
      request.data.stringify = other.data.stringify

/-- The job does what the request asks for. -/
structure IsJobOf (request : Request) (job : IRequestJob) : Prop where
  id : job.id = calculateJobId sha1 request
  announcementType : job.announcementType = request.announcementType
  dsnpUserId : job.dsnpUserId = request.dsnpUserId
  content : job.content = some request.content.1

end

/-! ## Texts of requests -/

theorem data_eq (request : Request) : request.data = .obj
    [("content", request.content.1), ("id", .str ""),
      ("announcementType", .str (announcementTypeText request.announcementType)),
      ("dsnpUserId", .str request.dsnpUserId), ("dependencyAttempt", .num "0")] := rfl

theorem canonical_data (request : Request) : request.data.canonical id = true := by
  have hkeys : Json.ordered ["content", "id", "announcementType", "dsnpUserId",
      "dependencyAttempt"] = true := by decide +kernel
  have hzero : Json.isLiteral "0".toList = true := by decide +kernel
  rw [data_eq]
  simp only [Json.canonical, Json.canonicalFields, Json.canonicalField, request.content.2,
    List.map_cons, List.map_nil, hkeys, hzero]
  rfl

theorem data_injective : Function.Injective Request.data := by
  rintro ⟨type, user, content⟩ ⟨type', user', content'⟩ h
  rw [data_eq, data_eq] at h
  simp only [Json.obj.injEq, List.cons.injEq, Prod.mk.injEq, Json.str.injEq, true_and,
    and_true] at h
  obtain ⟨hcontent, htype, huser⟩ := h
  obtain rfl := announcementTypeText_injective htype
  obtain rfl := huser
  obtain rfl := Subtype.ext hcontent
  rfl

section Run
variable {sha1 : String → String} {requests : List Request}

theorem calculateJobId_eq_iff (h : Collisionless sha1 requests) {request other : Request}
    (hrequest : request ∈ requests) (hother : other ∈ requests) :
    calculateJobId sha1 request = calculateJobId sha1 other ↔ request = other := by
  constructor
  · intro hid
    have htext := h request hrequest other hother hid
    exact data_injective
      (Json.eq_of_stringify_eq (canonical_data request) (canonical_data other) htext)
  · rintro rfl
    rfl

/-- Every job of the queue does what some request asks for, under the identifier of that
request. -/
def Kept (sha1 : String → String) (requests : List Request)
    (requestQueue : JobQueue String IRequestJob) : Prop :=
  ∀ jobId job, (jobId, job) ∈ requestQueue.jobs →
    ∃ request ∈ requests, jobId = calculateJobId sha1 request ∧ IsJobOf sha1 request job

theorem Kept.step {as : List Action} {q r : JobQueue String IRequestJob} {a : Action}
    (h : Kept sha1 (as.filterMap Action.request?) q) (hst : step sha1 q a = some r) :
    Kept sha1 ((as ++ [a]).filterMap Action.request?) r := by
  have hmono : ∀ request ∈ as.filterMap Action.request?,
      request ∈ (as ++ [a]).filterMap Action.request? := fun request hmem => by
    rw [List.filterMap_append]
    exact List.mem_append_left _ hmem
  cases a with
  | enqueueRequest request assetToMimeType =>
      cases hst
      intro jobId job hmem
      rcases JobQueue.mem_jobs_add hmem with hmem | ⟨rfl, rfl⟩
      · exact (h jobId job hmem).imp fun other hother => ⟨hmono other hother.1, hother.2⟩
      · exact ⟨request, by simp [Action.request?], rfl, ⟨rfl, rfl, rfl, rfl⟩⟩
  | delay delayed =>
      cases hst
      intro jobId job hmem
      obtain ⟨old, hold, heq⟩ := JobQueue.of_mem_jobs_update hmem
      obtain ⟨request, hrequest, hid, hjob⟩ := h jobId old hold
      refine ⟨request, hmono request hrequest, hid, ?_⟩
      rcases heq with rfl | rfl
      · exact hjob
      · exact ⟨hjob.id, hjob.announcementType, hjob.dsnpUserId, hjob.content⟩
  | forget forgotten =>
      cases hst
      intro jobId job hmem
      exact (h jobId job (List.mem_of_mem_filter hmem)).imp fun other hother =>
        ⟨hmono other hother.1, hother.2⟩

theorem Kept.of_run {as : List Action} {q : JobQueue String IRequestJob}
    (h : run (ReferenceId.step sha1) .empty as = some q) :
    Kept sha1 (as.filterMap Action.request?) q :=
  run_induction (C := fun _ _ => True)
    (I := fun as q => Kept sha1 (as.filterMap Action.request?) q) (fun _ _ hmem => by cases hmem)
    (fun _ _ _ _ _ h _ hst => h.step hst) (fun _ _ _ _ _ => trivial) h

/-- Requests are answered with one identifier exactly if they are the same, a request that
was just answered has a job under its identifier, and a job that is found there, then or
later, does what that request asks for. -/
theorem referenceId_of_run {as : List Action} {q : JobQueue String IRequestJob}
    (h : run (step sha1) .empty as = some q)
    (hsha1 : Collisionless sha1 (as.filterMap Action.request?)) :
    (∀ request ∈ as.filterMap Action.request?, ∀ other ∈ as.filterMap Action.request?,
      calculateJobId sha1 request = calculateJobId sha1 other ↔ request = other) ∧
    (∀ bs request assetToMimeType, as = bs ++ [.enqueueRequest request assetToMimeType] →
      (q.find? (calculateJobId sha1 request)).isSome) ∧
    ∀ request ∈ as.filterMap Action.request?, ∀ job,
      q.find? (calculateJobId sha1 request) = some job → IsJobOf sha1 request job := by
  refine ⟨fun request hrequest other hother => calculateJobId_eq_iff hsha1 hrequest hother,
    fun bs request assetToMimeType has => ?_, fun request hrequest job hjob => ?_⟩
  · subst as
    rw [run_concat] at h
    obtain ⟨r, -, hst⟩ := Option.bind_eq_some_iff.mp h
    cases hst
    exact JobQueue.find?_isSome.mpr (JobQueue.mem_ids_add.mpr (.inr rfl))
  · obtain ⟨other, hother, hid, hisJob⟩ := Kept.of_run h _ job (JobQueue.mem_jobs_of_find? hjob)
    obtain rfl := (calculateJobId_eq_iff hsha1 hrequest hother).mp hid
    exact hisJob

end Run

/-! ## A reaction and its retraction -/

def sampleReaction (apply : String) (h : Json.isLiteral apply.toList = true) : Request :=
  ⟨.reaction, "1", .obj [("emoji", .str "x"), ("apply", .num apply),
    ("inReplyTo", .str "dsnp://1/0x12")], by
      have hkeys : Json.ordered ["emoji", "apply", "inReplyTo"] = true := by decide +kernel
      simp [Json.canonical, Json.canonicalFields, Json.canonicalField, hkeys, h]⟩

def react : Request := sampleReaction "1" (by decide +kernel)

def retract : Request := sampleReaction "0" (by decide +kernel)

/-- What the hash is on the texts of the two. -/
def sampleSha1 (text : String) : String :=
  if text = react.data.stringify then "QgD9Icx6KUTp5MddpUkjBsA6TXs"
  else if text = retract.data.stringify then "C01IW6ErFgV9oTkzmdmofwlhNGc" else text

/-- The reaction is posted twice, delayed and taken back. -/
def postTwice : List Action :=
  [.enqueueRequest react none, .enqueueRequest react none,
    .delay "QgD9Icx6KUTp5MddpUkjBsA6TXs", .enqueueRequest retract none]

theorem referenceId_postTwice : ∃ q, run (step sampleSha1) .empty postTwice = some q ∧
    (calculateJobId sampleSha1 retract = calculateJobId sampleSha1 react ↔ retract = react) ∧
    (q.find? (calculateJobId sampleSha1 retract)).isSome ∧
    ∀ job, q.find? (calculateJobId sampleSha1 react) = some job →
      IsJobOf sampleSha1 react job := by
  obtain ⟨q, hq⟩ : ∃ q, run (step sampleSha1) .empty postTwice = some q := ⟨_, rfl⟩
  have hreact : react ∈ postTwice.filterMap Action.request? := .head _
  have hretract : retract ∈ postTwice.filterMap Action.request? := .tail _ (.tail _ (.head _))
  have hsha1 : Collisionless sampleSha1 (postTwice.filterMap Action.request?) := by
    change ∀ request ∈ [react, react, retract], ∀ other ∈ [react, react, retract], _
    simp only [List.forall_mem_cons, List.not_mem_nil, false_imp_iff, implies_true, and_true]
    decide +kernel
  obtain ⟨hids, hfound, hjobs⟩ := referenceId_of_run hq hsha1
  exact ⟨q, hq, hids _ hretract _ hreact, hfound (postTwice.take 3) retract none rfl,
    hjobs _ hreact⟩

end ContentPublishing.Api.ReferenceId
