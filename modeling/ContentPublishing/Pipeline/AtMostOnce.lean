import ContentPublishing.Pipeline.Provenance

/-!
# One message for each request

An announcement joins a batch once, as long as no job is processed again after its row
was accepted. Then no two messages carry the announcement of one request, whatever fails
and is repeated after that: a batch that is closed, announced or published again leads to
the same message.
-/
namespace ContentPublishing.Pipeline
open Announcements (Announcement QueuedFor RequestJob RequestTypeDto Services)
open Announcer (Announced Libraries SchemaPayload)
open Batching (Accepted BatchAnnouncerJobData JobIsNew)
open Dependencies (Ipfs IpfsApi)
open Dependencies.Uploads (octetApi)
open Transition

/-- No job is handed to `addToBatch` whose row was accepted before. -/
def NoneAgain (s : State) : Action → Prop
  | .batching queueName a => JobIsNew (s.batching queueName) a
  | _ => True

instance (s : State) (a : Action) : Decidable (NoneAgain s a) := by
  cases a <;> unfold NoneAgain <;> infer_instance

section
variable (api : IpfsApi) (services : Services) (libraries : Libraries) (settings : Settings)

/-- The message names the file of the batch that the announcement of the request is in. -/
def Carries (s : State) (publisherJob : IPublisherJob) (data : RequestJob) : Prop :=
  ∃ queueName rows job, BatchOf api services settings s queueName rows job ∧
    Announced api libraries s.announcer job publisherJob ∧
      ∃ row ∈ rows, QueuedFor api services data s.announcer.ipfs ⟨queueName, row.1, row.2⟩

end

section
variable {calculateJobId : String → RequestTypeDto → String} {api : IpfsApi}
  {services : Services} {libraries : Libraries} {settings : Settings} {s t : State}

theorem nodup_accepted_step {a : Action} (hnew : NoneAgain s a)
    (h : step calculateJobId api services libraries settings s a = some t)
    (queueName : QueueName) (hs : ((s.batching queueName).accepted.map Accepted.jobId).Nodup) :
    ((t.batching queueName).accepted.map Accepted.jobId).Nodup := by
  have hstep := batching_step queueName h
  cases a with
  | batching other b =>
      by_cases hq : other = queueName
      · subst other
        simp only [Action.batching?, if_pos, Option.elim_some] at hstep
        exact (Batching.records_of_step hstep).nodup_accepted hnew hs
      · simp only [Action.batching?, if_neg hq, Option.elim_none] at hstep
        rwa [hstep]
  | tick ms => exact (Batching.records_of_step hstep).nodup_accepted (fun _ h => by cases h) hs
  | _ =>
      rw [show t.batching queueName = s.batching queueName from hstep]
      exact hs

/-- The queue of an announcement is that of its type. -/
theorem queueNameToAnnouncementMap_injective :
    Function.Injective queueNameToAnnouncementMap := by
  intro q r h
  cases q <;> cases r <;> first | rfl | cases h

/-- A batch leads to one message. -/
theorem Announced.unique {job : BatchAnnouncerJobData Announcement}
    {publisherJob other : IPublisherJob} (h : Announced api libraries s.announcer job publisherJob)
    (hother : Announced api libraries s.announcer job other) : publisherJob = other := by
  obtain ⟨file, ⟨hexString, hchain, hfile⟩, -, rfl⟩ := h
  obtain ⟨file', ⟨hexString', hchain', hfile'⟩, -, rfl⟩ := hother
  obtain rfl := Option.some.inj (hchain.symm.trans hchain')
  obtain rfl := Except.ok.inj (hfile.symm.trans hfile')
  rfl

theorem Carries.unique {data : RequestJob} {publisherJob other : IPublisherJob}
    (hs : ∀ queueName, ((s.batching queueName).accepted.map Accepted.jobId).Nodup)
    (h : Carries api services libraries settings s publisherJob data)
    (hother : Carries api services libraries settings s other data) : publisherJob = other := by
  obtain ⟨queueName, rows, job, hbatch, hannounced, row, hrow, hqueued⟩ := h
  obtain ⟨queueName', rows', job', hbatch', hannounced', row', hrow', hqueued'⟩ := hother
  have hqueue := hqueued.queueName.trans hqueued'.queueName.symm
  obtain rfl : queueName = queueName' := queueNameToAnnouncementMap_injective hqueue
  have hjobId : row.1 = row'.1 := hqueued.jobId.trans hqueued'.jobId.symm
  have haccepted := List.inj_on_of_nodup_map (hs queueName) (hbatch.accepted row hrow)
    (hbatch'.accepted row' hrow') hjobId
  have hbatchId : job.batchId = job'.batchId := congrArg Accepted.batchId haccepted
  have hjobs := List.inj_on_of_nodup_map (s.batching queueName).batchQueue.nodup hbatch.queued
    hbatch'.queued hbatchId
  obtain rfl : job = job' := congrArg Prod.snd hjobs
  exact Announced.unique hannounced hannounced'

/-- Every message carries the announcement of an accepted request, and no other message
does, as long as no job is batched again after its row was accepted. -/
theorem carriedOnce_of_run {chain : ℕ → SchemaPayload} {ipfs : Ipfs} {as : List Action}
    (h : run (step calculateJobId api services libraries settings) (start chain ipfs) as = some t)
    (hnew : EachStep (step calculateJobId api services libraries settings) NoneAgain
      (start chain ipfs) as) :
    (∀ publisherJob, .called publisherJob ∈ t.publisher.service.submissions →
      ∃ data ∈ t.requested, Carries api services libraries settings t publisherJob data) ∧
    ∀ data publisherJob other, Carries api services libraries settings t publisherJob data →
      Carries api services libraries settings t other data → publisherJob = other := by
  refine ⟨fun publisherJob hsent => ?_, fun data publisherJob other => Carries.unique ?_⟩
  · obtain ⟨job, ⟨queueName, rows, hbatch⟩, hannounced⟩ :=
      (sound_of_run h).publisher.submissions publisherJob hsent
    obtain ⟨row, hrow⟩ := List.exists_mem_of_ne_nil rows hbatch.rows_ne
    obtain ⟨data, hdata, hqueued⟩ := hbatch.requested row hrow
    exact ⟨data, hdata, queueName, rows, job, hbatch, hannounced, row, hrow, hqueued⟩
  · have hstart : ∀ queueName, (((start chain ipfs).batching queueName).accepted.map
        Accepted.jobId).Nodup := fun _ => List.nodup_nil
    exact invariant (I := fun s : State => ∀ queueName,
      ((s.batching queueName).accepted.map Accepted.jobId).Nodup) hstart
      (fun s a t hs hnew hst queueName => nodup_accepted_step hnew hst queueName (hs queueName))
      hnew h

end

theorem carriedOnce_reaction : ∃ t, run (step (fun _ _ => "request") octetApi
    Announcements.plainServices .sample .sample) (start (fun _ => none) fun _ => none)
      publishReaction = some t ∧
    (∃ data ∈ t.requested, Carries octetApi Announcements.plainServices .sample .sample t
      reactionMessage data) ∧
    ∀ data other, Carries octetApi Announcements.plainServices .sample .sample t
        reactionMessage data →
      Carries octetApi Announcements.plainServices .sample .sample t other data →
        reactionMessage = other := by
  obtain ⟨t, ht, hsent⟩ : ∃ t, run (step (fun _ _ => "request") octetApi
      Announcements.plainServices .sample .sample) (start (fun _ => none) fun _ => none)
        publishReaction = some t ∧ .called reactionMessage ∈ t.publisher.service.submissions :=
    exists_of_run_any (by decide +kernel)
  obtain ⟨hcarries, hunique⟩ := carriedOnce_of_run ht (by decide +kernel)
  exact ⟨t, ht, hcarries _ hsent, fun data other => hunique data _ other⟩

end ContentPublishing.Pipeline
