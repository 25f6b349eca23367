import ContentPublishing.Pipeline.AtMostOnce

/-!
# Nothing is left out of a message

All queues draw their batch identifiers from one source, so an identifier stands for one
batch of one queue. Whatever a queue has recorded as accepted into a batch is in the file
that the message of the batch names.
-/
namespace ContentPublishing.Pipeline
open Announcements (Announcement RequestTypeDto Services)
open Announcer (Announced Libraries SchemaPayload)
open Batching (Accepted BatchAnnouncerJobData BatchId CallId)
open Dependencies (Ipfs IpfsApi)
open Dependencies.Uploads (octetApi)
open Transition

section Runs
variable {calculateJobId : String → RequestTypeDto → String} {api : IpfsApi}
  {services : Services} {libraries : Libraries} {settings : Settings} {s t : State}
  {queueName : QueueName}

/-! ## Batch identifiers -/

/-- A batch identifier that is drawn for a job was not drawn before, by any queue. -/
theorem not_mem_issued_of_step {worker : Batching.WorkerId} {i : CallId}
    {job : Batching.Job Announcement} {batchId : BatchId}
    (h : step calculateJobId api services libraries settings s
      (.batching queueName (.process worker i job batchId)) = some t) (other : QueueName) :
    batchId ∉ (s.batching other).issued := by
  simp only [step, Option.ite_none_right_eq_some] at h
  exact (of_decide_eq_true h.1).2 other (mem_queueNames other)

theorem issued_of_step {chain : ℕ → SchemaPayload} {ipfs : Ipfs} {as : List Action} {a : Action}
    (hrun : run (step calculateJobId api services libraries settings) (start chain ipfs) as =
      some s) (h : step calculateJobId api services libraries settings s a = some t)
    {batchId : BatchId} (hissued : batchId ∈ (t.batching queueName).issued) :
    batchId ∈ (s.batching queueName).issued ∨
      ∃ worker i job, a = .batching queueName (.process worker i job batchId) := by
  have hstep := batching_step queueName h
  cases hpart : a.batching? queueName with
  | none =>
      rw [hpart] at hstep
      rw [show t.batching queueName = s.batching queueName from hstep] at hissued
      exact .inl hissued
  | some b =>
      rw [hpart] at hstep
      rw [Batching.issued_of_step (run_batching hrun queueName) hstep, List.mem_append,
        Option.mem_toList, Option.map_eq_some_iff] at hissued
      rcases hissued with ⟨⟨job, _⟩, hprocessed, rfl⟩ | hissued
      · obtain ⟨worker, i, rfl⟩ := Batching.Action.eq_process_of_processed? hprocessed
        exact .inr ⟨worker, i, job, eq_of_batching?_process hpart⟩
      · exact .inl hissued

/-- No two queues draw the same batch identifier. -/
theorem eq_of_mem_issued {chain : ℕ → SchemaPayload} {ipfs : Ipfs} {as : List Action}
    (hrun : run (step calculateJobId api services libraries settings) (start chain ipfs) as =
      some s) {batchId : BatchId} {other : QueueName}
    (h : batchId ∈ (s.batching queueName).issued) (h' : batchId ∈ (s.batching other).issued) :
    queueName = other := by
  refine run_induction (C := fun _ _ => True) (I := fun _ s => ∀ q r : QueueName,
      batchId ∈ (s.batching q).issued → batchId ∈ (s.batching r).issued → q = r)
    (fun _ _ hq => by cases hq) (fun as u a v hu ih _ hstep q r hq hr => ?_)
    (fun _ _ _ _ _ => trivial) hrun queueName other h h'
  rcases issued_of_step hu hstep hq with hq | ⟨worker, i, job, rfl⟩
  · rcases issued_of_step hu hstep hr with hr | ⟨worker, i, job, rfl⟩
    · exact ih q r hq hr
    · exact absurd hq (not_mem_issued_of_step hstep q)
  · rcases issued_of_step hu hstep hr with hr | ⟨_, _, _, heq⟩
    · exact absurd hr (not_mem_issued_of_step hstep r)
    · cases heq
      rfl

/-! ## The job of a batch -/

/-- A publish job is that of a batch in the batch queue. -/
theorem exists_batch_of_mem {chain : ℕ → SchemaPayload} {ipfs : Ipfs} {as : List Action}
    (hrun : run (step calculateJobId api services libraries settings) (start chain ipfs) as =
      some s) {jobId : String} {publisherJob : IPublisherJob}
    (h : (jobId, publisherJob) ∈ s.announcer.publishQueue.jobs) :
    ∃ queueName batch, (jobId, batch) ∈ (s.batching queueName).batchQueue.jobs ∧
      Announced api libraries s.announcer batch publisherJob := by
  obtain ⟨-, batch, ⟨queueName, rows, hbatch⟩, rfl, hannounced⟩ :=
    (sound_of_run hrun).announcer.queue jobId publisherJob h
  exact ⟨queueName, batch, hbatch.queued, hannounced⟩

/-- The queues do not share batches. -/
theorem eq_of_mem_jobs {chain : ℕ → SchemaPayload} {ipfs : Ipfs} {as : List Action}
    (hrun : run (step calculateJobId api services libraries settings) (start chain ipfs) as =
      some s) {batchId : BatchId} {other : QueueName}
    {batch otherBatch : BatchAnnouncerJobData Announcement}
    (h : (batchId, batch) ∈ (s.batching queueName).batchQueue.jobs)
    (h' : (batchId, otherBatch) ∈ (s.batching other).batchQueue.jobs) :
    queueName = other ∧ batch = otherBatch := by
  have hissued := fun q b hb => Batching.issued_of_mem_ids (run_batching hrun q)
    (List.mem_map.mpr ⟨(batchId, b), hb, rfl⟩)
  obtain rfl := eq_of_mem_issued hrun (hissued queueName batch h) (hissued other otherBatch h')
  have hjobs := List.inj_on_of_nodup_map (s.batching queueName).batchQueue.nodup h h' rfl
  exact ⟨rfl, congrArg Prod.snd hjobs⟩

/-- What any queue has accepted into the batch of a message that is submitted, the message
carries. -/
theorem complete_of_run {chain : ℕ → SchemaPayload} {ipfs : Ipfs} {as : List Action}
    (h : run (step calculateJobId api services libraries settings) (start chain ipfs) as = some t)
    {publisherJob : IPublisherJob} (hsent : .called publisherJob ∈ t.publisher.service.submissions)
    {x : Accepted Announcement} (hx : x ∈ (t.batching queueName).accepted)
    (hbatchId : x.batchId = publisherJob.id) :
    ∃ data ∈ t.requested, data.id = x.jobId ∧
      Carries api services libraries settings t publisherJob data := by
  have hsound := sound_of_run h
  obtain ⟨job, ⟨other, _, hbatch⟩, hannounced⟩ := hsound.publisher.submissions publisherJob hsent
  have hid : publisherJob.id = job.batchId := by
    obtain ⟨file, -, -, rfl⟩ := hannounced
    rfl
  rw [hid] at hbatchId
  have hissued := Batching.issued_of_accepted (run_batching h queueName) hx
  obtain rfl : queueName = other := eq_of_mem_issued h hissued (hbatchId ▸
    Batching.issued_of_mem_ids (run_batching h other)
      (List.mem_map.mpr ⟨(job.batchId, job), hbatch.queued, rfl⟩))
  obtain ⟨rows, hrows, hcomplete⟩ :=
    Batching.collected_of_run (run_batching h queueName) hbatch.queued
  obtain ⟨row, hrow, hjobId⟩ := List.mem_map.mp (hcomplete x hx hbatchId)
  have hrowsOf := hsound.batchOf hrows hbatch.queued (.refl t)
  obtain ⟨data, hdata, hqueued⟩ := hrowsOf.requested row hrow
  exact ⟨data, hdata, hqueued.jobId.symm.trans hjobId, queueName, rows, job, hrowsOf, hannounced,
    row, hrow, hqueued⟩

end Runs

theorem complete_reaction : ∃ t, run (step (fun _ _ => "request") octetApi
    Announcements.plainServices .sample .sample) (start (fun _ => none) fun _ => none)
      publishReaction = some t ∧
    ∃ data ∈ t.requested, data.id = "request" ∧ Carries octetApi Announcements.plainServices
      .sample .sample t reactionMessage data := by
  obtain ⟨t, ht, hsent, haccepted⟩ : ∃ t, run (step (fun _ _ => "request") octetApi
      Announcements.plainServices .sample .sample) (start (fun _ => none) fun _ => none)
        publishReaction = some t ∧ .called reactionMessage ∈ t.publisher.service.submissions ∧
      ⟨"request", Announcements.createReaction "1" "x" "dsnp://2/0x1" 1, "batch"⟩ ∈
        (t.batching .reactionQueue).accepted := exists_of_run_any (by decide +kernel)
  exact ⟨t, ht, complete_of_run ht hsent haccepted rfl⟩

end ContentPublishing.Pipeline
