import ContentPublishing.Announcements.Translation
import ContentPublishing.Pipeline.System

/-!
# Where the messages on the chain come from

Requests, schemas and pinned files only accumulate. What is in any queue or under way in
any service was made of them, so every message that is ever submitted names a file with
announcements of requests that the API accepted, all of one type, under the schema of
that type.
-/
namespace ContentPublishing.Publisher.Service
open Effects

/-- All submissions, receipts and jobs under way are those of publisher jobs that meet `M`. -/
structure Known (M : IPublisherJob → Prop) (s : State) : Prop where
  submissions : ∀ job, .called job ∈ s.service.submissions → M job
  receipts : ∀ jobId entry, (jobId, entry) ∈ s.service.receiptQueue.jobs →
    M entry.data.referencePublishJob
  calls : ∀ call ∈ s.calls, ∀ job, call.job? = some job → M job

section
variable {M : IPublisherJob → Prop} {capacityLimit : ICapacityLimit} {instances : ℕ} {env : Env}
  {s t : State}

theorem Known.mono {N : IPublisherJob → Prop} (h : Known M s) (hMN : ∀ job, M job → N job) :
    Known N s :=
  ⟨fun job hj => hMN job (h.submissions job hj), fun id e he => hMN _ (h.receipts id e he),
    fun call hcall job hjob => hMN job (h.calls call hcall job hjob)⟩

/-- Calls may be added that belong to no job or to one that meets `M`. -/
theorem Known.of_calls (h : Known M s)
    (hsubmissions : t.service.submissions = s.service.submissions)
    (hreceipts : t.service.receiptQueue = s.service.receiptQueue)
    (hcalls : ∀ call ∈ t.calls, ∀ job, call.job? = some job → M job) : Known M t :=
  ⟨hsubmissions ▸ h.submissions, hreceipts ▸ h.receipts, hcalls⟩

theorem Known.begin (h : Known M s) {call : Running} (hcall : ∀ job, call.job? = some job → M job) :
    ∀ other ∈ s.calls ++ [call], ∀ job, other.job? = some job → M job := by
  intro other hother
  rcases List.mem_append.mp hother with hother | hother
  · exact h.calls other hother
  · exact List.mem_singleton.mp hother ▸ hcall

theorem Known.resume (h : Known M s) {i : ℕ} {call : Running} (hi : s.calls[i]? = some call) :
    Known M (s.resume capacityLimit instances env i call) := by
  have hjob := h.calls call (List.mem_of_getElem? hi)
  have hnone : ∀ {calls : List Running}, (∀ next ∈ calls, next.job? = none) →
      ∀ next ∈ s.calls.eraseIdx i ++ calls, ∀ job, next.job? = some job → M job := by
    intro calls hcalls
    refine Entries.forall_mem_replace h.calls fun next hnext job hsome => ?_
    cases (hcalls next hnext).symm.trans hsome
  have hsame : ∀ {next : Running}, next.job? = call.job? →
      ∀ other ∈ s.calls.eraseIdx i ++ [next], ∀ job, other.job? = some job → M job := by
    intro next heq
    refine Entries.forall_mem_replace h.calls fun other hother job hsome => ?_
    rw [List.mem_singleton.mp hother, heq] at hsome
    exact hjob job hsome
  have hresumed : Resumed capacityLimit instances env s.service call _ := resumed s.service call
  unfold State.resume
  generalize Service.resume capacityLimit instances env s.service call = next at hresumed ⊢
  cases hresumed with
  | called job head =>
      refine ⟨fun other hother => ?_, h.receipts, hsame rfl⟩
      rcases List.mem_append.mp hother with hother | hother
      · exact h.submissions other hother
      · cases List.mem_singleton.mp hother
        exact hjob job rfl
  | returned job head txHash =>
      refine ⟨fun other hother => ?_, h.receipts, hsame rfl⟩
      rcases List.mem_append.mp hother with hother | hother
      · exact h.submissions other hother
      · cases List.mem_singleton.mp hother
  | recorded job head txHash =>
      refine ⟨h.submissions, fun id entry hentry => ?_, hnone (by simp [Running.job?])⟩
      rcases JobQueue.mem_jobs_add hentry with hentry | ⟨-, rfl⟩
      · exact h.receipts id entry hentry
      · exact hjob job rfl
  | failed call calls emitted hjob hchecking hcalls =>
      refine h.of_calls rfl rfl (hnone fun next hnext => ?_)
      rcases hcalls next hnext with rfl | rfl <;> rfl
  | answered exhausted =>
      exact h.of_calls rfl rfl (hnone fun next hnext => List.eq_of_mem_replicate hnext ▸ rfl)
  | unanswered | exhausted | paused | unpaused =>
      exact h.of_calls rfl rfl (hnone (by simp [Running.job?]))
  | refilled =>
      have hkeeps := keeps_handleCapacityRefilled (P := fun t =>
        t.submissions = s.service.submissions ∧ t.receiptQueue = s.service.receiptQueue)
        (fun _ _ _ _ _ h => h) s.service ⟨rfl, rfl⟩
      exact h.of_calls hkeeps.1 hkeeps.2 (hnone (by simp))
  | scheduled =>
      have hkeeps : Keeps (fun t => t.submissions = s.service.submissions ∧
          t.receiptQueue = s.service.receiptQueue) (scheduleCheck env) :=
        keeps_scheduleCheck fun _ _ _ _ h => h
      obtain ⟨hsubmissions, hreceipts⟩ := hkeeps s.service ⟨rfl, rfl⟩
      exact h.of_calls hsubmissions hreceipts (hnone (by simp))

theorem Known.step {a : Action} (h : Known M s) (hprocess : ∀ job, a = .process job → M job)
    (hstep : step capacityLimit instances s a = some t) : Known M t := by
  cases a with
  | check =>
      cases hstep
      exact h.of_calls rfl rfl (h.begin fun _ hsome => by cases hsome)
  | process job =>
      cases hstep
      refine h.of_calls rfl rfl (h.begin fun other hsome => ?_)
      cases hsome
      exact hprocess job rfl
  | fire timer =>
      obtain ⟨-, rfl⟩ := step_fire hstep
      exact h.of_calls rfl rfl (h.begin fun _ hsome => by cases hsome)
  | resume i env =>
      obtain ⟨call, hi, rfl⟩ := step_resume hstep
      exact h.resume hi

end

end ContentPublishing.Publisher.Service

namespace ContentPublishing.Monitor
open Effects

/-- All jobs of the publish queue meet `M`. -/
def Queued (M : String → IPublisherJob → Prop) (s : MonitorState) : Prop :=
  ∀ jobId publisherJob, (jobId, publisherJob) ∈ s.publishQueue.jobs → M jobId publisherJob

section
variable {env : Env} {job : ReceiptJob} {M : String → IPublisherJob → Prop}

/-- A receipt job adds nothing to the publish queue but the job that it refers to. -/
theorem keeps_queued (h : M job.data.referencePublishJob.id job.data.referencePublishJob) :
    Keeps (Queued M) (process env job) := by
  have hretry : Keeps (Queued M) (retryPublishJob env job.data.referencePublishJob) := by
    refine keeps_bind (keeps_serve _ fun s hs id other hmem => hs id other
      (List.mem_of_mem_filter hmem)) fun _ => keeps_serve _ fun s hs id other hmem => ?_
    rcases JobQueue.mem_jobs_add hmem with hmem | ⟨rfl, rfl⟩
    · exact hs id other hmem
    · exact h
  have hfound : ∀ error, Keeps (Queued M) (handleError env job error) := by
    intro error
    unfold handleError
    dsimp only
    split
    · refine keeps_bind (keeps_serve _ fun s hs => hs) fun _ => ?_
      split
      · exact hretry
      · exact keeps_throw _
    · split
      · exact hretry
      · exact keeps_throw _
  refine keeps_bind (keeps_ask _) fun txResult => ?_
  dsimp only
  split
  · refine keeps_bind (keeps_tryCatch (keeps_addEpochCapacity _ _ fun s f hs => hs)
      fun _ => keeps_pure _) fun _ => ?_
    split
    · exact keeps_bind (hfound _) fun _ => keeps_pure _
    · exact keeps_pure _
  · refine keeps_bind ?_ fun _ => keeps_pure _
    unfold handleNotFound
    split
    · exact keeps_throw _
    · exact hretry

end

end ContentPublishing.Monitor

namespace ContentPublishing.Pipeline
open Announcements (Announcement FetchOrder Queued QueuedFor RequestJob RequestTypeDto Services
  pinned_of_exec queuedFor_of_exec)
open Announcer (Announced Coherent Extends Libraries SchemaPayload)
open Batching (BatchAnnouncerJobData CallId Collected Row batchingStep)
open Dependencies (Ipfs IpfsApi)
open Dependencies.Uploads (octetApi)
open Effects Transition

section
variable (api : IpfsApi) (services : Services) (libraries : Libraries) (settings : Settings)

/-- The announcement is the one of a request that the API accepted. -/
def FromRequest (s : State) (queueName : QueueName) (jobId : String)
    (announcement : Announcement) : Prop :=
  ∃ data ∈ s.requested,
    QueuedFor api services data s.announcer.ipfs ⟨queueName, jobId, announcement⟩

/-- The batch job of one queue, with its schema, is made of different announcement jobs that
were accepted into it, at least one. -/
structure BatchOf (s : State) (queueName : QueueName) (rows : List (Row Announcement))
    (job : BatchAnnouncerJobData Announcement) : Prop where
  schemaId :
    job.schemaId = getSchemaId settings.environment (queueNameToAnnouncementMap queueName)
  announcements : job.announcements = rows.map Prod.snd
  rows_ne : rows ≠ []
  nodup : (rows.map Prod.fst).Nodup
  requested : ∀ row ∈ rows, FromRequest api services s queueName row.1 row.2
  queued : (job.batchId, job) ∈ (s.batching queueName).batchQueue.jobs
  accepted : ∀ row ∈ rows, ⟨row.1, row.2, job.batchId⟩ ∈ (s.batching queueName).accepted

def FromRequests (s : State) (job : BatchAnnouncerJobData Announcement) : Prop :=
  ∃ queueName rows, BatchOf api services settings s queueName rows job

/-- The message names the pinned file of such a batch. -/
def MessageOf (s : State) (publisherJob : IPublisherJob) : Prop :=
  ∃ job, FromRequests api services settings s job ∧
    Announced api libraries s.announcer job publisherJob

/-- Requests, schemas, pins and batches of one state are there in the other. -/
structure Grows (s t : State) : Prop where
  requested : ∀ data ∈ s.requested, data ∈ t.requested
  announcer : Extends api s.announcer t.announcer
  accepted : ∀ queueName, (s.batching queueName).accepted ⊆ (t.batching queueName).accepted
  batchQueue : ∀ queueName,
    (s.batching queueName).batchQueue.jobs ⊆ (t.batching queueName).batchQueue.jobs

/-- What the state holds was made of what `w` has on record. -/
structure Sound (w : State) (as : List Action) (s : State) : Prop where
  requestQueue : ∀ id entry, (id, entry) ∈ s.requestQueue.jobs → entry.data ∈ w.requested
  collecting : ∀ i queued, s.collecting i = some queued →
    FromRequest api services w queued.queueName queued.jobId queued.announcement
  announcementQueues : ∀ queueName jobId announcement,
    (jobId, announcement) ∈ (s.announcementQueues queueName).jobs →
      FromRequest api services w queueName jobId announcement
  processed : ∀ queueName worker i job batchId,
    .batching queueName (.process worker i job batchId) ∈ as →
      FromRequest api services w queueName job.id job.data
  announcer : Coherent api libraries (fun _ job => FromRequests api services settings w job)
    s.announcer
  publisher : Publisher.Service.Known (MessageOf api services libraries settings w) s.publisher

end

section
variable {calculateJobId : String → RequestTypeDto → String} {api : IpfsApi}
  {services : Services} {libraries : Libraries} {settings : Settings}
  {s t w w' : State} {as : List Action}

theorem FromRequest.grow {queueName : QueueName} {jobId : String} {announcement : Announcement}
    (h : FromRequest api services w queueName jobId announcement) (hG : Grows api w w') :
    FromRequest api services w' queueName jobId announcement := by
  obtain ⟨data, hdata, hqueued⟩ := h
  refine ⟨data, hG.requested data hdata, { hqueued with pinned := fun reference h => ?_ }⟩
  obtain ⟨activity, hactivity, hpinned⟩ := hqueued.pinned reference h
  exact ⟨activity, hactivity, { hpinned with pinned := hG.announcer.ipfs _ hpinned.pinned }⟩

theorem BatchOf.grow {queueName : QueueName} {rows : List (Row Announcement)}
    {job : BatchAnnouncerJobData Announcement}
    (h : BatchOf api services settings w queueName rows job) (hG : Grows api w w') :
    BatchOf api services settings w' queueName rows job :=
  { h with
    requested := fun row hrow => (h.requested row hrow).grow hG
    queued := hG.batchQueue queueName h.queued
    accepted := fun row hrow => hG.accepted queueName (h.accepted row hrow) }

theorem FromRequests.grow {job : BatchAnnouncerJobData Announcement}
    (h : FromRequests api services settings w job) (hG : Grows api w w') :
    FromRequests api services settings w' job :=
  h.imp fun _ h => h.imp fun _ h => h.grow hG

theorem MessageOf.grow {publisherJob : IPublisherJob}
    (h : MessageOf api services libraries settings w publisherJob) (hG : Grows api w w') :
    MessageOf api services libraries settings w' publisherJob :=
  h.imp fun _ h => ⟨h.1.grow hG, h.2.extend hG.announcer⟩

namespace Sound

theorem grow (h : Sound api services libraries settings w as s) (hG : Grows api w w') :
    Sound api services libraries settings w' as s where
  requestQueue id entry he := hG.requested _ (h.requestQueue id entry he)
  collecting i queued hq := (h.collecting i queued hq).grow hG
  announcementQueues q id a ha := (h.announcementQueues q id a ha).grow hG
  processed q worker i job b ha := (h.processed q worker i job b ha).grow hG
  announcer := h.announcer.mono fun _ _ hjob => hjob.grow hG
  publisher := h.publisher.mono fun _ hjob => hjob.grow hG

theorem start (chain : ℕ → SchemaPayload) (ipfs : Ipfs) :
    Sound api services libraries settings w [] (start chain ipfs) where
  requestQueue _ _ h := by cases h
  collecting _ _ h := by cases h
  announcementQueues _ _ _ h := by cases h
  processed _ _ _ _ _ h := by cases h
  announcer := .start chain ipfs
  publisher := ⟨fun _ h => (by cases h), fun _ _ h => (by cases h), fun _ h => (by cases h)⟩

theorem snoc (h : Sound api services libraries settings w as s) {a : Action}
    (ha : ∀ queueName worker i job batchId,
      a = .batching queueName (.process worker i job batchId) →
        FromRequest api services w queueName job.id job.data) :
    Sound api services libraries settings w (as ++ [a]) s := by
  refine { h with processed := fun queueName worker i job batchId hmem => ?_ }
  rcases List.mem_append.mp hmem with hmem | hmem
  · exact h.processed queueName worker i job batchId hmem
  · exact ha queueName worker i job batchId (List.mem_singleton.mp hmem).symm

end Sound

/-! ## The batches of one queue -/

/-- The steps in which the batches of a queue take part. -/
def Action.batching? (queueName : QueueName) : Action → Option (Batching.Action Announcement)
  | .tick ms => some (.tick ms)
  | .batching other a => if other = queueName then some a else none
  | _ => none

theorem batching_processRequest (s : State) (i : CallId) (entry : RequestEntry) (answers : Bool)
    (order : ∀ content, FetchOrder content) :
    (processRequest api services settings s i entry answers order).batching = s.batching := by
  unfold processRequest
  split
  · split <;> rfl
  · rfl
  · rfl

theorem batching_step {a : Action} (queueName : QueueName)
    (h : step calculateJobId api services libraries settings s a = some t) :
    (a.batching? queueName).elim (t.batching queueName = s.batching queueName) fun b =>
      batchingStep (settings.batching queueName) (s.batching queueName) b =
        some (t.batching queueName) := by
  cases a with
  | tick ms =>
      cases h
      rfl
  | batching other a =>
      simp only [step, Option.ite_none_right_eq_some, Option.map_eq_some_iff] at h
      obtain ⟨-, b, hb, rfl⟩ := h
      by_cases hq : other = queueName
      · subst other
        simpa [Action.batching?] using hb
      · simp [Action.batching?, hq, Function.update_of_ne (Ne.symm hq)]
  | request userDsnpId content assetToMimeType =>
      obtain ⟨data, -, rfl⟩ := Option.map_eq_some_iff.mp h
      rfl
  | processRequest i requestId answers order =>
      simp only [step, Option.ite_none_left_eq_some, Option.map_eq_some_iff] at h
      obtain ⟨-, entry, -, rfl⟩ := h
      exact congrFun (batching_processRequest s i entry answers order) queueName
  | queueAnnouncement i =>
      obtain ⟨queued, -, rfl⟩ := Option.map_eq_some_iff.mp h
      rfl
  | throw i => cases h; rfl
  | forgetRequest requestId => cases h; rfl
  | forgetAnnouncement other jobId => cases h; rfl
  | announcer a =>
      simp only [step, Option.ite_none_right_eq_some, Option.map_eq_some_iff] at h
      obtain ⟨-, u, -, rfl⟩ := h
      rfl
  | publisher a =>
      simp only [step, Option.ite_none_right_eq_some, Option.map_eq_some_iff] at h
      obtain ⟨-, p, -, rfl⟩ := h
      rfl
  | receipt txHash attemptsMade env =>
      obtain ⟨entry, -, rfl⟩ := Option.map_eq_some_iff.mp h
      rfl

/-- The batches of a queue are those of a run of their own. -/
theorem run_batching {chain : ℕ → SchemaPayload} {ipfs : Ipfs}
    (h : run (step calculateJobId api services libraries settings) (start chain ipfs) as = some t)
    (queueName : QueueName) :
    run (batchingStep (settings.batching queueName)) Batching.start
      (as.filterMap (Action.batching? queueName)) = some (t.batching queueName) := by
  refine run_filterMap (f := fun s => s.batching queueName) (fun s a t b hst hb => ?_)
    (fun s a t hst hb => ?_) h
  · have hstep := batching_step queueName hst
    rw [hb] at hstep
    exact hstep
  · have hstep := batching_step queueName hst
    rw [hb] at hstep
    exact hstep

/-- Jobs are given to the workers of one queue at a time. -/
theorem eq_of_batching?_process {a : Action} {queueName : QueueName} {worker : Batching.WorkerId}
    {i : CallId} {job : Batching.Job Announcement} {batchId : Batching.BatchId}
    (h : a.batching? queueName = some (.process worker i job batchId)) :
    a = .batching queueName (.process worker i job batchId) := by
  cases a with
  | tick ms => cases h
  | batching other b =>
      simp only [Action.batching?, Option.ite_none_right_eq_some, Option.some.injEq] at h
      obtain ⟨rfl, rfl⟩ := h
      rfl
  | _ => cases h

/-- What was given to the workers of a queue. -/
theorem mem_filterMap_batching {queueName : QueueName} {worker : Batching.WorkerId} {i : CallId}
    {job : Batching.Job Announcement} {batchId : Batching.BatchId}
    (h : .process worker i job batchId ∈ as.filterMap (Action.batching? queueName)) :
    .batching queueName (.process worker i job batchId) ∈ as := by
  obtain ⟨a, ha, hpart⟩ := List.mem_filterMap.mp h
  exact eq_of_batching?_process hpart ▸ ha

/-- What a batch job of one queue was collected from was made of requests. -/
theorem Sound.batchOf (h : Sound api services libraries settings w as s) {queueName : QueueName}
    {job : BatchAnnouncerJobData Announcement} {batchId : Batching.BatchId}
    {rows : List (Row Announcement)}
    (hrows : Collected (settings.batching queueName)
      (as.filterMap (Action.batching? queueName)) (s.batching queueName) batchId job rows)
    (hjob : (batchId, job) ∈ (s.batching queueName).batchQueue.jobs) (hG : Grows api s w) :
    BatchOf api services settings w queueName rows job := by
  obtain rfl := hrows.batchId
  refine ⟨hrows.schemaId, hrows.announcements, hrows.rows_ne, hrows.nodup,
    fun row hrow => ?_, hG.batchQueue queueName hjob,
    fun row hrow => hG.accepted queueName (hrows.accepted row hrow)⟩
  obtain ⟨worker, i, c, hprocess⟩ := hrows.processed row hrow
  exact h.processed queueName worker i ⟨row.1, row.2⟩ c (mem_filterMap_batching hprocess)

/-- A job of the batch queue was made of requests. -/
theorem Sound.fromRequests (h : Sound api services libraries settings w as s)
    {queueName : QueueName} {job : BatchAnnouncerJobData Announcement} {batchId : Batching.BatchId}
    (hrun : run (batchingStep (settings.batching queueName)) Batching.start
      (as.filterMap (Action.batching? queueName)) = some (s.batching queueName))
    (hjob : (batchId, job) ∈ (s.batching queueName).batchQueue.jobs) (hG : Grows api s w) :
    FromRequests api services settings w job := by
  obtain ⟨rows, hrows, -⟩ := Batching.collected_of_run hrun hjob
  exact ⟨queueName, rows, h.batchOf hrows hjob hG⟩

/-! ## One step of the system -/

theorem Grows.of_batching_eq (hrequested : ∀ data ∈ s.requested, data ∈ t.requested)
    (hannouncer : Extends api s.announcer t.announcer) (h : t.batching = s.batching) :
    Grows api s t :=
  ⟨hrequested, hannouncer, fun _ => h ▸ List.Subset.refl _, fun _ => h ▸ List.Subset.refl _⟩

theorem Grows.refl (s : State) : Grows api s s :=
  .of_batching_eq (fun _ h => h) (.of_eq rfl rfl) rfl

/-- Pins are added. -/
theorem grows_setIpfs {ipfs : Ipfs}
    (h : ∀ file, s.announcer.ipfs (api.hash file) = some file → ipfs (api.hash file) = some file) :
    Grows api s (s.setIpfs ipfs) :=
  .of_batching_eq (fun _ h => h) ⟨fun _ _ h => h, h⟩ rfl

/-- The four ways in which the processing of a request can end. -/
theorem processRequest_cases {P : State → Prop} (s : State) (i : CallId) (entry : RequestEntry)
    (answers : Bool) (order : ∀ content, FetchOrder content)
    (ok : ∀ queued ipfs, exec (Announcements.collectAnnouncementAndQueue api services answers
      entry.data (order entry.data.content)) s.announcer.ipfs = (.ok queued, ipfs) →
        P { s.setIpfs ipfs with collecting := Function.update s.collecting i (some queued) })
    (error : ∀ e ipfs, exec (Announcements.collectAnnouncementAndQueue api services answers
      entry.data (order entry.data.content)) s.announcer.ipfs = (.error e, ipfs) →
        P (s.setIpfs ipfs))
    (delayed : P { s with requestQueue := s.requestQueue.update entry.data.id fun entry =>
      { entry with dependencyAttempt := entry.dependencyAttempt + 1 } })
    (failed : P s) : P (processRequest api services settings s i entry answers order) := by
  unfold processRequest
  split
  · split
    · next queued ipfs h => exact ok queued ipfs h
    · next e ipfs h => exact error e ipfs h
  · exact delayed
  · exact failed

theorem grows_processRequest (s : State) (i : CallId) (entry : RequestEntry) (answers : Bool)
    (order : ∀ content, FetchOrder content) :
    Grows api s (processRequest api services settings s i entry answers order) := by
  refine processRequest_cases s i entry answers order (fun queued ipfs h => ?_)
    (fun e ipfs h => ?_) (.of_batching_eq (fun _ h => h) (.of_eq rfl rfl) rfl) (.refl s)
  · have hG := grows_setIpfs (s := s) fun file hfile => pinned_of_exec h hfile
    exact .of_batching_eq hG.requested hG.announcer rfl
  · exact grows_setIpfs fun file hfile => pinned_of_exec h hfile

/-- Batches only get more. -/
theorem records_of_step {a : Action}
    (h : step calculateJobId api services libraries settings s a = some t)
    (queueName : QueueName) :
    (s.batching queueName).accepted ⊆ (t.batching queueName).accepted ∧
      (s.batching queueName).batchQueue.jobs ⊆ (t.batching queueName).batchQueue.jobs := by
  have hstep := batching_step queueName h
  cases hb : a.batching? queueName with
  | none =>
      rw [hb] at hstep
      rw [show t.batching queueName = s.batching queueName from hstep]
      exact ⟨List.Subset.refl _, List.Subset.refl _⟩
  | some b =>
      rw [hb] at hstep
      have hrecords := Batching.records_of_step hstep
      exact ⟨hrecords.accepted_subset, hrecords.jobs_subset⟩

theorem grows_of_step {a : Action}
    (h : step calculateJobId api services libraries settings s a = some t) : Grows api s t := by
  have hrecords := records_of_step h
  suffices hrest : (∀ data ∈ s.requested, data ∈ t.requested) ∧
      Extends api s.announcer t.announcer from
    ⟨hrest.1, hrest.2, fun queueName => (hrecords queueName).1,
      fun queueName => (hrecords queueName).2⟩
  clear hrecords
  cases a with
  | tick ms => cases h; exact ⟨fun _ h => h, .of_eq rfl rfl⟩
  | request userDsnpId content assetToMimeType =>
      obtain ⟨data, -, rfl⟩ := Option.map_eq_some_iff.mp h
      exact ⟨fun _ h => List.mem_append_left _ h, .of_eq rfl rfl⟩
  | processRequest i requestId answers order =>
      simp only [step, Option.ite_none_left_eq_some, Option.map_eq_some_iff] at h
      obtain ⟨-, entry, -, rfl⟩ := h
      have hG : Grows api s (processRequest api services settings s i entry answers order) :=
        grows_processRequest s i entry answers order
      exact ⟨hG.requested, hG.announcer⟩
  | queueAnnouncement i =>
      obtain ⟨queued, -, rfl⟩ := Option.map_eq_some_iff.mp h
      exact ⟨fun _ h => h, .of_eq rfl rfl⟩
  | throw i => cases h; exact ⟨fun _ h => h, .of_eq rfl rfl⟩
  | forgetRequest requestId => cases h; exact ⟨fun _ h => h, .of_eq rfl rfl⟩
  | forgetAnnouncement queueName jobId => cases h; exact ⟨fun _ h => h, .of_eq rfl rfl⟩
  | batching queueName a =>
      simp only [step, Option.ite_none_right_eq_some, Option.map_eq_some_iff] at h
      obtain ⟨-, b, -, rfl⟩ := h
      exact ⟨fun _ h => h, .of_eq rfl rfl⟩
  | announcer a =>
      simp only [step, Option.ite_none_right_eq_some, Option.map_eq_some_iff] at h
      obtain ⟨-, u, hu, rfl⟩ := h
      exact ⟨fun _ h => h, (Announcer.step_cases hu).extends⟩
  | publisher a =>
      simp only [step, Option.ite_none_right_eq_some, Option.map_eq_some_iff] at h
      obtain ⟨-, p, -, rfl⟩ := h
      exact ⟨fun _ h => h, .of_eq rfl rfl⟩
  | receipt txHash attemptsMade env =>
      obtain ⟨entry, -, rfl⟩ := Option.map_eq_some_iff.mp h
      exact ⟨fun _ h => h, .of_eq rfl rfl⟩

theorem Grows.trans (h : Grows api s t) (h' : Grows api t w) : Grows api s w where
  requested data hdata := h'.requested data (h.requested data hdata)
  announcer := h.announcer.trans h'.announcer
  accepted q := List.Subset.trans (h.accepted q) (h'.accepted q)
  batchQueue q := List.Subset.trans (h.batchQueue q) (h'.batchQueue q)

theorem grows_of_run (h : run (step calculateJobId api services libraries settings) s as = some t) :
    Grows api s t :=
  invariant_of_step (I := Grows api s) (.refl s)
    (fun _ _ _ hs hstep => hs.trans (grows_of_step hstep)) h

/-- Jobs are added to one of the announcement queues or leave it. -/
theorem Sound.setQueue (h : Sound api services libraries settings w as s) (queueName : QueueName)
    {q : JobQueue String Announcement} (hq : ∀ jobId announcement,
      (jobId, announcement) ∈ q.jobs → FromRequest api services w queueName jobId announcement) :
    Sound api services libraries settings w as { s with
      announcementQueues := Function.update s.announcementQueues queueName q } := by
  refine { h with announcementQueues := fun other jobId announcement hmem => ?_ }
  dsimp only at hmem
  by_cases hother : other = queueName
  · subst other
    rw [Function.update_self] at hmem
    exact hq jobId announcement hmem
  · rw [Function.update_of_ne hother] at hmem
    exact h.announcementQueues other jobId announcement hmem

theorem sound_processRequest {entry : RequestEntry}
    (hs : Sound api services libraries settings s as s) (i : CallId) (answers : Bool)
    (order : ∀ content, FetchOrder content) (hdata : entry.data ∈ s.requested)
    (hG : Grows api s (processRequest api services settings s i entry answers order)) :
    Sound api services libraries settings
      (processRequest api services settings s i entry answers order) as
      (processRequest api services settings s i entry answers order) := by
  revert hG
  refine processRequest_cases (P := fun t => Grows api s t →
    Sound api services libraries settings t as t) s i entry answers order
    (fun queued ipfs h hG => ?_) (fun e ipfs h hG => ?_) (fun hG => ?_) fun _ => hs
  · have hw := hs.grow hG
    refine { hw with
      collecting := Entries.forall_update hw.collecting fun other e => ?_
      announcer := hw.announcer.extend hG.announcer rfl rfl rfl }
    cases e
    exact ⟨entry.data, hdata, queuedFor_of_exec h⟩
  · have hw := hs.grow hG
    exact { hw with announcer := hw.announcer.extend hG.announcer rfl rfl rfl }
  · have hw := hs.grow hG
    refine { hw with requestQueue := fun id other hmem => ?_ }
    obtain ⟨old, hold, heq⟩ := JobQueue.of_mem_jobs_update hmem
    rcases heq with rfl | rfl
    · exact hw.requestQueue id other hold
    · exact hw.requestQueue id old hold

/-- The receipt monitor may change the publish queue. -/
theorem sound_setMonitor {m : Monitor.MonitorState}
    (hw : Sound api services libraries settings w as s)
    (h : Monitor.Queued (fun jobId publisherJob => ∃ (_ : CallId) (job : _),
      FromRequests api services settings w job ∧ jobId = job.batchId ∧
        Announced api libraries s.announcer job publisherJob) m) :
    Sound api services libraries settings w as (s.setMonitor m) := by
  have hann := hw.announcer
  exact { hw with
    announcer := { hann with queue := h }
    publisher := ⟨hw.publisher.submissions, hw.publisher.receipts, hw.publisher.calls⟩ }

theorem sound_of_step {chain : ℕ → SchemaPayload} {ipfs : Ipfs} {a : Action}
    (hrun : run (step calculateJobId api services libraries settings) (start chain ipfs) as =
      some s) (hs : Sound api services libraries settings s as s)
    (h : step calculateJobId api services libraries settings s a = some t) :
    Sound api services libraries settings t (as ++ [a]) t := by
  have hG := grows_of_step h
  have hw := hs.grow hG
  cases a with
  | tick ms =>
      cases h
      exact { hw.snoc (fun _ _ _ _ _ e => by cases e) with
        announcer := hw.announcer.extend (.of_eq rfl rfl) rfl rfl rfl }
  | request userDsnpId content assetToMimeType =>
      obtain ⟨data, hdata, rfl⟩ := Option.map_eq_some_iff.mp h
      refine { hw.snoc (fun _ _ _ _ _ e => by cases e) with requestQueue := fun id entry he => ?_ }
      rcases JobQueue.mem_jobs_add he with he | ⟨-, rfl⟩
      · exact hw.requestQueue id entry he
      · exact List.mem_append_right _ (List.mem_singleton_self data)
  | processRequest i requestId answers order =>
      simp only [step, Option.ite_none_left_eq_some, Option.map_eq_some_iff] at h
      obtain ⟨-, entry, hentry, rfl⟩ := h
      have hdata := hs.requestQueue _ entry (JobQueue.mem_jobs_of_find? hentry)
      refine Sound.snoc ?_ fun _ _ _ _ _ e => by cases e
      exact sound_processRequest hs i answers order hdata hG
  | queueAnnouncement i =>
      obtain ⟨queued, hqueued, rfl⟩ := Option.map_eq_some_iff.mp h
      have hw := hw.snoc (a := .queueAnnouncement i) fun _ _ _ _ _ e => by cases e
      have hsent := hw.setQueue queued.queueName
        (q := (s.announcementQueues queued.queueName).add queued.jobId queued.announcement)
        fun jobId announcement hmem => by
          rcases JobQueue.mem_jobs_add hmem with hmem | ⟨rfl, rfl⟩
          · exact hw.announcementQueues _ jobId announcement hmem
          · exact hw.collecting i queued hqueued
      exact { hsent with
        collecting := Entries.forall_update hsent.collecting fun _ e => by cases e }
  | throw i =>
      cases h
      exact { hw.snoc (fun _ _ _ _ _ e => by cases e) with
        collecting := Entries.forall_update hw.collecting fun _ e => by cases e }
  | forgetRequest requestId =>
      cases h
      exact { hw.snoc (fun _ _ _ _ _ e => by cases e) with
        requestQueue := fun id entry he => hw.requestQueue id entry (List.mem_of_mem_filter he) }
  | forgetAnnouncement queueName jobId =>
      cases h
      have hw := hw.snoc (a := .forgetAnnouncement queueName jobId) fun _ _ _ _ _ e => by cases e
      exact hw.setQueue queueName fun other announcement hmem =>
        hw.announcementQueues queueName other announcement (List.mem_of_mem_filter hmem)
  | batching queueName b =>
      simp only [step, Option.ite_none_right_eq_some, Option.map_eq_some_iff] at h
      obtain ⟨hhands, u, -, rfl⟩ := h
      refine { hw.snoc fun other worker i job batchId e => ?_ with }
      cases e
      have hjob := (of_decide_eq_true hhands).1
      exact hw.announcementQueues queueName job.id job.data hjob
  | announcer b =>
      simp only [step, Option.ite_none_right_eq_some, Option.map_eq_some_iff] at h
      obtain ⟨hhands, u, hu, rfl⟩ := h
      refine { hw.snoc (fun _ _ _ _ _ e => by cases e) with
        announcer := hw.announcer.step (Announcer.step_cases hu) fun i job e => ?_ }
      subst e
      obtain ⟨queueName, -, hjob⟩ := of_decide_eq_true hhands
      exact hw.fromRequests (run_batching hrun queueName) hjob hG
  | publisher a =>
      simp only [step, Option.ite_none_right_eq_some, Option.map_eq_some_iff] at h
      obtain ⟨hhands, p, hp, rfl⟩ := h
      refine { hw.snoc (fun _ _ _ _ _ e => by cases e) with
        publisher := hw.publisher.step (fun publisherJob e => ?_) hp }
      subst e
      obtain ⟨⟨jobId, _⟩, hjob, rfl⟩ := List.mem_map.mp (of_decide_eq_true hhands)
      obtain ⟨i, batch, hbatch, -, hannounced⟩ := hw.announcer.queue jobId _ hjob
      exact ⟨batch, hbatch, hannounced⟩
  | receipt txHash attemptsMade env =>
      obtain ⟨entry, hentry, rfl⟩ := Option.map_eq_some_iff.mp h
      refine (sound_setMonitor hw ?_).snoc fun _ _ _ _ _ e => by cases e
      obtain ⟨batch, hbatch, hannounced⟩ :=
        hw.publisher.receipts txHash entry (JobQueue.mem_jobs_of_find? hentry)
      refine Monitor.keeps_queued ⟨0, batch, hbatch, ?_, hannounced⟩ s.monitor hw.announcer.queue
      obtain ⟨file, -, -, heq⟩ := hannounced
      rw [heq]

theorem sound_of_run {chain : ℕ → SchemaPayload} {ipfs : Ipfs}
    (h : run (step calculateJobId api services libraries settings) (start chain ipfs) as = some t) :
    Sound api services libraries settings t as t :=
  run_induction (C := fun _ _ => True)
    (I := fun as t => Sound api services libraries settings t as t) (.start chain ipfs)
    (fun _ _ _ _ hrun hs _ hst => sound_of_step hrun hs hst) (fun _ _ _ _ _ => trivial) h

/-- All announcements of a batch are of the type of its queue. -/
theorem BatchOf.announcementType {queueName : QueueName} {rows : List (Row Announcement)}
    {job : BatchAnnouncerJobData Announcement}
    (h : BatchOf api services settings w queueName rows job) :
    ∀ announcement ∈ job.announcements,
      announcement.fields.announcementType = queueNameToAnnouncementMap queueName := by
  intro announcement hmem
  rw [h.announcements] at hmem
  obtain ⟨row, hrow, rfl⟩ := List.mem_map.mp hmem
  obtain ⟨data, -, hqueued⟩ := h.requested row hrow
  exact hqueued.announcementType.trans hqueued.queueName.symm

/-- That is the type that its schema stands for. -/
theorem FromRequests.schemaId {job : BatchAnnouncerJobData Announcement}
    (h : FromRequests api services settings w job) : ∀ announcement ∈ job.announcements,
      getSchemaId settings.environment announcement.fields.announcementType = job.schemaId := by
  obtain ⟨queueName, rows, hbatch⟩ := h
  intro announcement hmem
  rw [hbatch.schemaId, hbatch.announcementType announcement hmem]

/-- Every message that is submitted to the chain, first or again, names a pinned file. The
file holds the announcements of a batch of different requests that the API accepted, and
was written under the schema that the chain has for their type. -/
theorem messageOf_of_run {chain : ℕ → SchemaPayload} {ipfs : Ipfs}
    (h : run (step calculateJobId api services libraries settings) (start chain ipfs) as = some t)
    {publisherJob : IPublisherJob}
    (hsent : .called publisherJob ∈ t.publisher.service.submissions) :
    ∃ job, FromRequests api services settings t job ∧
      Announced api libraries t.announcer job publisherJob ∧
      ∀ announcement ∈ job.announcements,
        getSchemaId settings.environment announcement.fields.announcementType =
          publisherJob.schemaId := by
  obtain ⟨job, hjob, hannounced⟩ := (sound_of_run h).publisher.submissions publisherJob hsent
  refine ⟨job, hjob, hannounced, ?_⟩
  obtain ⟨file, -, -, rfl⟩ := hannounced
  exact hjob.schemaId

theorem messageOf_reaction : ∃ t, run (step (fun _ _ => "request") octetApi
    Announcements.plainServices .sample .sample) (start (fun _ => none) fun _ => none)
      publishReaction = some t ∧
    ∃ job, FromRequests octetApi Announcements.plainServices .sample t job ∧
        Announced octetApi .sample t.announcer job reactionMessage ∧
        ∀ announcement ∈ job.announcements,
          getSchemaId .dev announcement.fields.announcementType = 4 := by
  obtain ⟨t, ht, hsent⟩ : ∃ t, run (step (fun _ _ => "request") octetApi
      Announcements.plainServices .sample .sample) (start (fun _ => none) fun _ => none)
        publishReaction = some t ∧ .called reactionMessage ∈ t.publisher.service.submissions :=
    exists_of_run_any (by decide +kernel)
  exact ⟨t, ht, messageOf_of_run ht hsent⟩

end

end ContentPublishing.Pipeline
