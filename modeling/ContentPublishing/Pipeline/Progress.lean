import ContentPublishing.Batching.Progress
import ContentPublishing.Pipeline.Completeness
import ContentPublishing.Pipeline.Stopped
import ContentPublishing.Publisher.Resubmission

/-!
# From a queue to the chain

Whatever failed before, an announcement job can still reach the chain, as long as the
publish queue is not paused and the chain has the schema. The job joins a batch that is
closed, announced and published for the first time. An answer in Redis from before the
chain had the schema has to expire first.
-/
namespace ContentPublishing.Announcer
open Announcements (Announcement)
open Batching (BatchAnnouncerJobData CallId)
open Dependencies (IpfsApi ipfsPin)
open Effects Transition

/-- A call of `process`, from the schema that is not in Redis to the new publish job. -/
def announcing (i : CallId) (job : BatchAnnouncerJobData Announcement) : List Action :=
  [.process i job, .get i, .query i, .setex i, .pin i true, .add i]

theorem run_announcing {api : IpfsApi} {libraries : Libraries} {s : State} {i : CallId}
    {job : BatchAnnouncerJobData Announcement} {hexString : String} {file : Buffer}
    (free : s.calls i = none)
    (missing : Expiring.get s.cache s.clock (schemaCacheKey job.schemaId) = none)
    (known : s.chain job.schemaId = some hexString)
    (written : fileOf libraries job hexString = .ok file)
    (binary : (api.getExtension "application/octet-stream").isSome) :
    ∃ t publisherJob, run (step api libraries) s (announcing i job) = some t ∧
      t.publishQueue = s.publishQueue.add job.batchId publisherJob := by
  have hwrite : ∀ u : State, u.write libraries i job (cacheText (s.chain job.schemaId)) =
      u.setCall i ⟨job, .pin file⟩ := by
    intro u
    rw [State.write, known, announceFile_cacheText, written]
  have hpin : ∀ ipfs, exec (ipfsPin api true "application/octet-stream" file) ipfs =
      (.ok (api.toV1 (api.hash file)), Function.update ipfs (api.hash file) (some file)) := by
    intro ipfs
    obtain ⟨extension, hextension⟩ := Option.isSome_iff_exists.mp binary
    rw [ipfsPin, hextension]
    rfl
  have hprocess : step api libraries s (.process i job) = some (s.setCall i ⟨job, .get⟩) := by
    simp [step, free]
  rw [announcing, run_cons_of hprocess]
  simp only [run, step, State.setCall, State.endCall, Function.update_self, missing, hwrite, hpin]
  exact ⟨_, _, rfl, rfl⟩

end ContentPublishing.Announcer

namespace ContentPublishing.Pipeline
open Announcements (Announcement RequestTypeDto Services)
open Announcer (Announced Libraries SchemaPayload announcing fileOf schemaCacheKey)
open Batching (BatchAnnouncerJobData BatchId CallId batchingStep)
open Dependencies (Ipfs IpfsApi)
open Dependencies.Uploads (octetApi)
open Effects Transition
open Publisher (HeadFails send)

section Runs
variable {calculateJobId : String → RequestTypeDto → String} {api : IpfsApi}
  {services : Services} {libraries : Libraries} {settings : Settings} {s t : State}
  {queueName : QueueName}

/-! ## Runs of one service -/

/-- The action of the system in which the batches of a queue take this step. -/
def Action.ofBatching (queueName : QueueName) : Batching.Action Announcement → Action
  | .tick ms => .tick ms
  | a => .batching queueName a

/-- What the batches of one queue leave as it is. -/
structure Beside (queueName : QueueName) (s t : State) : Prop where
  announcementQueues : t.announcementQueues = s.announcementQueues
  issued : ∀ other ≠ queueName, (t.batching other).issued = (s.batching other).issued
  announcer : t.announcer = { s.announcer with clock := t.announcer.clock }
  publisher : t.publisher = s.publisher

theorem Beside.trans {u : State} (h : Beside queueName s t) (h' : Beside queueName t u) :
    Beside queueName s u where
  announcementQueues := h'.announcementQueues.trans h.announcementQueues
  issued other hne := (h'.issued other hne).trans (h.issued other hne)
  announcer := by rw [h'.announcer, h.announcer]
  publisher := h'.publisher.trans h.publisher

theorem step_ofBatching {a : Batching.Action Announcement}
    {b : Batching.State Announcement (Redis.Store String (Batching.Value Announcement))}
    (h : batchingStep (settings.batching queueName) (s.batching queueName) a = some b)
    (handed : ∀ job batchId, a.processed? = some (job, batchId) →
      (job.id, job.data) ∈ (s.announcementQueues queueName).jobs ∧
        ∀ other ≠ queueName, batchId ∉ (s.batching other).issued) :
    ∃ t, step calculateJobId api services libraries settings s (.ofBatching queueName a) =
        some t ∧ t.batching queueName = b ∧ Beside queueName s t := by
  have hbatching : s.hands queueName a = true →
      ∃ t, step calculateJobId api services libraries settings s (.batching queueName a) =
        some t ∧ t.batching queueName = b ∧ Beside queueName s t := by
    intro hands
    refine ⟨{ s with batching := Function.update s.batching queueName b }, ?_,
      Function.update_self .., rfl, fun other hne => ?_, rfl, rfl⟩
    · rw [step, if_pos hands, h, Option.map_some]
    · exact congrArg Batching.State.issued (Function.update_of_ne hne ..)
  cases a with
  | tick ms =>
      cases h
      exact ⟨_, rfl, rfl, rfl, fun _ _ => rfl, rfl, rfl⟩
  | process worker i job batchId =>
      obtain ⟨hjob, hothers⟩ := handed job batchId rfl
      simp only [batchingStep, Batching.step, Option.ite_none_left_eq_some, not_or] at h
      refine hbatching (decide_eq_true ⟨hjob, fun other _ => ?_⟩)
      by_cases hother : other = queueName
      · subst other
        exact h.1.2
      · exact hothers other hother
  | _ => exact hbatching rfl

/-- A run of the batches of one queue is one of the system, if the jobs are in the queue and
no other queue has drawn their identifiers. -/
theorem run_ofBatching {as : List (Batching.Action Announcement)}
    {b : Batching.State Announcement (Redis.Store String (Batching.Value Announcement))}
    (h : run (batchingStep (settings.batching queueName)) (s.batching queueName) as = some b)
    (handed : ∀ job batchId, (job, batchId) ∈ as.filterMap Batching.Action.processed? →
      (job.id, job.data) ∈ (s.announcementQueues queueName).jobs ∧
        ∀ other ≠ queueName, batchId ∉ (s.batching other).issued) :
    ∃ t, run (step calculateJobId api services libraries settings) s
        (as.map (Action.ofBatching queueName)) = some t ∧
      t.batching queueName = b ∧ Beside queueName s t := by
  induction as generalizing s with
  | nil => exact ⟨s, rfl, Option.some.inj h, rfl, fun _ _ => rfl, rfl, rfl⟩
  | cons a as ih =>
      rw [run_cons] at h
      obtain ⟨u, hu, h⟩ := Option.bind_eq_some_iff.mp h
      obtain ⟨v, hv, rfl, hbeside⟩ := step_ofBatching hu fun job batchId hprocessed =>
        handed job batchId (List.mem_filterMap.mpr ⟨a, List.mem_cons_self, hprocessed⟩)
      obtain ⟨t, ht, rfl, hrest⟩ := ih h fun job batchId hmem => by
        obtain ⟨c, hc, hprocessed⟩ := List.mem_filterMap.mp hmem
        obtain ⟨hjob, hothers⟩ := handed job batchId
          (List.mem_filterMap.mpr ⟨c, List.mem_cons_of_mem _ hc, hprocessed⟩)
        rw [hbeside.announcementQueues]
        exact ⟨hjob, fun other hne => (hbeside.issued other hne).symm ▸ hothers other hne⟩
      exact ⟨t, by rw [List.map_cons, run_cons_of hv, ht], rfl, hbeside.trans hrest⟩

/-- So is a run of the announcer, for batches in the batch queue. -/
theorem run_announcer {as : List Announcer.Action} {u : Announcer.State}
    (h : run (Announcer.step api libraries) s.announcer as = some u)
    (handed : ∀ a ∈ as, s.handsBatch a = true) :
    run (step calculateJobId api services libraries settings) s (as.map .announcer) =
      some { s with announcer := u } := by
  refine run_lift (g := fun u => { s with announcer := u }) (C := fun a => s.handsBatch a = true)
    (fun u a v ha hstep => ?_) h handed
  have hands : State.handsBatch { s with announcer := u } a = true := ha
  rw [step, if_pos hands, hstep, Option.map_some]

/-- So is one of the publishing service, for messages in the publish queue. -/
theorem run_publisher {as : List Publisher.Service.Action} {p : Publisher.Service.State}
    (h : run (Publisher.Service.step settings.capacityLimit settings.instances) s.publisher as =
      some p) (handed : ∀ a ∈ as, s.handsMessage a = true) :
    run (step calculateJobId api services libraries settings) s (as.map .publisher) =
      some { s with publisher := p } := by
  refine run_lift (g := fun p => { s with publisher := p })
    (C := fun a => s.handsMessage a = true) (fun p a q ha hstep => ?_) h handed
  have hands : State.handsMessage { s with publisher := p } a = true := ha
  rw [step, if_pos hands, hstep, Option.map_some]

theorem filterMap_ofBatching (queueName : QueueName) (as : List (Batching.Action Announcement)) :
    (as.map (Action.ofBatching queueName)).filterMap (Action.batching? queueName) = as := by
  rw [List.filterMap_map]
  refine (List.filterMap_congr fun a _ => ?_).trans List.filterMap_some
  cases a <;> simp [Action.ofBatching, Action.batching?]

/-! ## The way of one announcement -/

variable (api libraries settings)

/-- Every batch of this type can be written under the schema. -/
def Writes (schemaId : ℕ) (hexString : String) (type : AnnouncementTypeDto) : Prop :=
  ∀ job : BatchAnnouncerJobData Announcement, job.schemaId = schemaId →
    (∀ announcement ∈ job.announcements, announcement.fields.announcementType = type) →
      ∃ file, fileOf libraries job hexString = .ok file

/-- The publish queue is not paused, the chain has the schema of the queue and accepts
transactions, the identifiers of the next call and the next batch are not in use. -/
structure Ready (s : State) (queueName : QueueName) (i : CallId) (batchId : BatchId)
    (env : Publisher.Env) (txHash : Hash) : Prop where
  batching : (s.batching queueName).calls i = none
  announcer : s.announcer.calls i = none
  fresh : ∀ other, batchId ∉ (s.batching other).issued
  binary : (api.getExtension "application/octet-stream").isSome
  schema : ∃ hexString, s.announcer.chain (getSchemaId settings.environment
    (queueNameToAnnouncementMap queueName)) = some hexString ∧
      Writes libraries (getSchemaId settings.environment (queueNameToAnnouncementMap queueName))
        hexString (queueNameToAnnouncementMap queueName)
  running : s.publisher.service.queuePaused = false
  head : ¬ HeadFails env
  sends : send env = .ok txHash

/-- The steps that bring a job of the queue to the publish queue. Nothing fails. -/
def Serves (queueName : QueueName) (i : CallId) : Action → Prop
  | .tick _ => True
  | .batching other a => other = queueName ∧ (∀ k ∈ a.call?, k = i) ∧ a.isFault = false
  | .announcer (.process k _) | .announcer (.get k) | .announcer (.query k)
  | .announcer (.setex k) | .announcer (.add k) => k = i
  | .announcer (.pin k answers) => k = i ∧ answers = true
  | _ => False

variable (calculateJobId services)

/-- After these steps the publish queue, which is not paused, has a new job. Its message
carries the announcement of the request and is sent. -/
structure Publishes (s : State) (queueName : QueueName) (jobId : String) (i : CallId)
    (env : Publisher.Env) (txHash : Hash) (as : List Action) (t : State)
    (publisherJob : IPublisherJob) (u : State) : Prop where
  reach : run (step calculateJobId api services libraries settings) s as = some t
  serves : ∀ a ∈ as, Serves queueName i a
  running : t.publisher.service.queuePaused = false
  new : publisherJob.id ∉ s.announcer.publishQueue.ids
  publish : run (step calculateJobId api services libraries settings) t
    ((.process publisherJob :: List.replicate 2 (.resume t.publisher.calls.length env)).map
      .publisher) = some u
  returned : .returned publisherJob txHash ∈ u.publisher.service.submissions
  carries : ∃ data ∈ u.requested, data.id = jobId ∧
    Carries api services libraries settings u publisherJob data

variable {calculateJobId api services libraries settings} {chain : ℕ → SchemaPayload} {ipfs : Ipfs}
  {as : List Action} {i : CallId} {batchId : BatchId} {env : Publisher.Env} {txHash : Hash}

theorem serves_ofBatching {bs : List (Batching.Action Announcement)}
    (h : Batching.Undisturbed i bs) :
    ∀ a ∈ bs.map (Action.ofBatching queueName), Serves queueName i a := by
  intro a ha
  obtain ⟨b, hb, rfl⟩ := List.mem_map.mp ha
  cases b with
  | tick ms => trivial
  | _ => exact ⟨rfl, h _ hb⟩

/-- The job joins a batch that is not in the batch queue, which is then closed. -/
theorem exists_run_batch
    (h : run (step calculateJobId api services libraries settings) (start chain ipfs) as = some s)
    {jobId : String} {announcement : Announcement}
    (queued : (jobId, announcement) ∈ (s.announcementQueues queueName).jobs)
    (ready : Ready api libraries settings s queueName i batchId env txHash) :
    ∃ bs t batch rows, run (step calculateJobId api services libraries settings) s bs = some t ∧
      (∀ a ∈ bs, Serves queueName i a) ∧ Beside queueName s t ∧
      batch.batchId ∉ (s.batching queueName).batchQueue.ids ∧
      BatchOf api services settings t queueName rows batch ∧ jobId ∈ rows.map Prod.fst := by
  obtain ⟨bs, b, hb, hdrains⟩ := Batching.drains_of_run (run_batching h queueName)
    ready.batching ⟨jobId, announcement⟩ (ready.fresh queueName)
  obtain ⟨t, ht, rfl, hbeside⟩ := run_ofBatching hb fun job c hmem => by
    rw [hdrains.once, List.mem_singleton] at hmem
    cases hmem
    exact ⟨queued, fun other _ => ready.fresh other⟩
  obtain ⟨c, batch, rows, hnew, hbatch, hrows, hrow⟩ := hdrains.enqueued
  obtain rfl := hrows.batchId
  have hreach : run (step calculateJobId api services libraries settings) (start chain ipfs)
      (as ++ bs.map (Action.ofBatching queueName)) = some t := by
    rw [run_append, h, Option.bind_some, ht]
  rw [← filterMap_ofBatching queueName bs, ← List.filterMap_append] at hrows
  exact ⟨_, t, batch, rows, ht, serves_ofBatching hdrains.undisturbed, hbeside, hnew,
    (sound_of_run hreach).batchOf hrows hbatch (.refl t), hrow⟩

/-- The batch is announced once no schema is in Redis. -/
theorem exists_run_announcing {batch : BatchAnnouncerJobData Announcement}
    (hbatch : (batch.batchId, batch) ∈ (s.batching queueName).batchQueue.jobs)
    (free : s.announcer.calls i = none)
    (binary : (api.getExtension "application/octet-stream").isSome) {hexString : String}
    (known : s.announcer.chain batch.schemaId = some hexString) {file : Buffer}
    (written : fileOf libraries batch hexString = .ok file) :
    ∃ bs t, run (step calculateJobId api services libraries settings) s bs = some t ∧
      (∀ a ∈ bs, Serves queueName i a) ∧ t.publisher = s.publisher ∧
      batch.batchId ∈ t.announcer.publishQueue.ids := by
  let wait : ℕ := (s.announcer.cache (schemaCacheKey batch.schemaId)).elim 0
    fun e => e.expiresAt + 1
  obtain ⟨later, hlater, hpublisher, hbatching, hannouncer⟩ :
      ∃ later, step calculateJobId api services libraries settings s (.tick wait) = some later ∧
        later.publisher = s.publisher ∧
        (∀ queueName, (later.batching queueName).batchQueue =
          (s.batching queueName).batchQueue) ∧
        later.announcer = { s.announcer with clock := s.announcer.clock + wait } :=
    ⟨_, rfl, rfl, fun _ => rfl, rfl⟩
  have missing : Expiring.get later.announcer.cache later.announcer.clock
      (schemaCacheKey batch.schemaId) = none := by
    rw [hannouncer]
    refine Expiring.get_of_expired fun e he => ?_
    dsimp only at he ⊢
    have hwait : wait = e.expiresAt + 1 := by
      dsimp only [wait]
      rw [he, Option.elim_some]
    omega
  obtain ⟨u, publisherJob, hu, hqueue⟩ := Announcer.run_announcing
    (s := later.announcer) (by rw [hannouncer]; exact free) missing
    (by rw [hannouncer]; exact known) written binary
  have handed : ∀ a ∈ announcing i batch, later.handsBatch a = true := by
    have hqueue : ∃ queueName ∈ queueNames,
        (batch.batchId, batch) ∈ (later.batching queueName).batchQueue.jobs :=
      ⟨queueName, mem_queueNames queueName, hbatching queueName ▸ hbatch⟩
    simpa [announcing, State.handsBatch] using hqueue
  refine ⟨.tick wait :: (announcing i batch).map .announcer, { later with announcer := u }, ?_,
    ?_, hpublisher, ?_⟩
  · rw [run_cons_of hlater, run_announcer hu handed]
  · simp [announcing, Serves]
  · dsimp only
    rw [hqueue]
    exact JobQueue.mem_ids_add.mpr (.inr rfl)

/-- A job of the publish queue gets as far as its transaction hash. -/
theorem exists_publish {jobId : String} {publisherJob : IPublisherJob}
    (hjob : (jobId, publisherJob) ∈ s.announcer.publishQueue.jobs) (head : ¬ HeadFails env)
    (sends : send env = .ok txHash) :
    ∃ t, run (step calculateJobId api services libraries settings) s
        ((.process publisherJob :: List.replicate 2 (.resume s.publisher.calls.length env)).map
          .publisher) = some t ∧
      t.announcer = s.announcer ∧
      .returned publisherJob txHash ∈ t.publisher.service.submissions := by
  obtain ⟨currentBlockHash, hhead⟩ := exists_of_not_failed head
  have hrun := Publisher.Service.run_publishing settings.capacityLimit settings.instances env hhead
    sends publisherJob s.publisher
  have handed : ∀ a ∈ Publisher.Service.Action.process publisherJob ::
      List.replicate 2 (.resume s.publisher.calls.length env), s.handsMessage a = true := by
    have hmem : publisherJob ∈ s.announcer.publishQueue.jobs.map Prod.snd :=
      List.mem_map.mpr ⟨_, hjob, rfl⟩
    simpa [State.handsMessage] using hmem
  exact ⟨_, run_publisher hrun handed, rfl, List.mem_append_right _ (List.mem_singleton_self _)⟩

/-- The announcement of a job can reach the chain from every reachable state in which the
publish queue is not paused, whatever failed before. -/
theorem publishes_of_run
    (h : run (step calculateJobId api services libraries settings) (start chain ipfs) as = some s)
    {jobId : String} {announcement : Announcement}
    (queued : (jobId, announcement) ∈ (s.announcementQueues queueName).jobs)
    (ready : Ready api libraries settings s queueName i batchId env txHash) :
    ∃ bs t publisherJob u, Publishes calculateJobId api services libraries settings s queueName
      jobId i env txHash bs t publisherJob u := by
  obtain ⟨bs, v, batch, rows, run₁, serves₁, hbeside, hnew, hbatch, hrow⟩ :=
    exists_run_batch h queued ready
  obtain ⟨hexString, hknown, hwrites⟩ := ready.schema
  obtain ⟨file, hfile⟩ := hwrites batch hbatch.schemaId hbatch.announcementType
  have hcalls : v.announcer.calls i = none := by
    rw [hbeside.announcer]
    exact ready.announcer
  have hchain : v.announcer.chain batch.schemaId = some hexString := by
    rw [hbeside.announcer, hbatch.schemaId]
    exact hknown
  obtain ⟨cs, t, run₂, serves₂, hpublisher, hids⟩ :=
    exists_run_announcing hbatch.queued hcalls ready.binary hchain hfile
  obtain ⟨publisherJob, hfind⟩ := Option.isSome_iff_exists.mp (JobQueue.find?_isSome.mpr hids)
  have reach : run (step calculateJobId api services libraries settings) s (bs ++ cs) = some t := by
    rw [run_append, run₁, Option.bind_some, run₂]
  have reach' : run (step calculateJobId api services libraries settings) (start chain ipfs)
      (as ++ (bs ++ cs)) = some t := by
    rw [run_append, h, Option.bind_some, reach]
  have hqueued := (grows_of_run run₂).batchQueue queueName hbatch.queued
  obtain ⟨other, otherBatch, hother, hannounced⟩ :=
    exists_batch_of_mem reach' (JobQueue.mem_jobs_of_find? hfind)
  obtain ⟨rfl, rfl⟩ := eq_of_mem_jobs reach' hqueued hother
  have hid : publisherJob.id = batch.batchId := by
    obtain ⟨file, -, -, rfl⟩ := hannounced
    rfl
  obtain ⟨u, hpublish, hannouncer, hreturned⟩ := 
    exists_publish (JobQueue.mem_jobs_of_find? hfind) ready.head ready.sends
  refine ⟨bs ++ cs, t, publisherJob, u, reach, List.forall_mem_append.mpr ⟨serves₁, serves₂⟩, ?_,
    fun hold => ?_, hpublish, hreturned, ?_⟩
  · rw [hpublisher, hbeside.publisher]
    exact ready.running
  · obtain ⟨⟨_, oldJob⟩, hmem, rfl⟩ := List.mem_map.mp (hid ▸ hold)
    obtain ⟨old, oldBatch, hold, -⟩ := exists_batch_of_mem h hmem
    obtain ⟨rfl, -⟩ := eq_of_mem_jobs reach' hqueued ((grows_of_run reach).batchQueue old hold)
    exact hnew (List.mem_map.mpr ⟨_, hold, rfl⟩)
  · have hgrown := hbatch.grow ((grows_of_run run₂).trans (grows_of_run hpublish))
    obtain ⟨row, hmem, rfl⟩ := List.mem_map.mp hrow
    obtain ⟨data, hdata, hfor⟩ := hgrown.requested row hmem
    exact ⟨data, hdata, hfor.jobId.symm, queueName, rows, batch, hgrown,
      hannouncer ▸ hannounced, row, hmem, hfor⟩

end Runs

/-! ## After a crash -/

theorem exists_foldlM_sample (announcements : List Announcement) (rows : List String) :
    ∃ written : List String,
      announcements.foldlM Libraries.sample.appendRow rows = .ok written := by
  induction announcements generalizing rows with
  | nil => exact ⟨rows, rfl⟩
  | cons announcement announcements ih => exact ih (rows ++ [announcement.fromId])

theorem writes_sample (type : AnnouncementTypeDto) :
    Writes .sample 4 Announcer.samplePayload type := by
  rintro job hschemaId -
  obtain ⟨schema, hschema⟩ : ∃ schema, Announcer.schemaOf .sample 4 Announcer.samplePayload =
      .ok schema := exists_of_not_failed (by decide +kernel)
  obtain ⟨written, hwritten⟩ := exists_foldlM_sample job.announcements []
  have hfile : Announcer.writeParquet .sample schema job.announcements =
      job.announcements.foldlM Libraries.sample.appendRow [] >>= Libraries.sample.close := rfl
  rw [fileOf, hschemaId, hschema]
  exact ⟨_, hfile.trans (congrArg (· >>= Libraries.sample.close) hwritten)⟩

/-- A worker crashes before the announcement of a reaction has joined a batch. -/
def crashReaction : List Action :=
  [.announcer (.createSchema 4 Announcer.samplePayload),
    .request "1" (.reaction "x" 1 "dsnp://2/0x1") none,
    .processRequest 0 "request" true inOrder, .queueAnnouncement 0,
    .batching .reactionQueue
      (.process 0 0 ⟨"request", Announcements.createReaction "1" "x" "dsnp://2/0x1" 1⟩ "batch"),
    .batching .reactionQueue (.crash 0)]

theorem publishes_crashReaction : ∃ s, run (step (fun _ _ => "request") octetApi
    Announcements.plainServices .sample .sample) (start (fun _ => none) fun _ => none)
      crashReaction = some s ∧
    ∃ bs t publisherJob u, Publishes (fun _ _ => "request") octetApi Announcements.plainServices
      .sample .sample s .reactionQueue "request" 0 (.sample 100) "tx" bs t publisherJob u := by
  obtain ⟨s, hs, hqueued, hbatching, hannouncer, hissued, hchain, hrunning⟩ :
      ∃ s, run (step (fun _ _ => "request") octetApi Announcements.plainServices .sample .sample)
        (start (fun _ => none) fun _ => none) crashReaction = some s ∧
          ("request", Announcements.createReaction "1" "x" "dsnp://2/0x1" 1) ∈
            (s.announcementQueues .reactionQueue).jobs ∧
          (s.batching .reactionQueue).calls 0 = none ∧ s.announcer.calls 0 = none ∧
          (∀ q ∈ queueNames, "other" ∉ (s.batching q).issued) ∧
          s.announcer.chain 4 = some Announcer.samplePayload ∧
          s.publisher.service.queuePaused = false := exists_of_run_any (by decide +kernel)
  have ready : Ready octetApi .sample .sample s .reactionQueue 0 "other" (.sample 100) "tx" :=
    ⟨hbatching, hannouncer, fun q => hissued q (mem_queueNames q), by decide,
      ⟨_, hchain, writes_sample _⟩, hrunning, by decide, rfl⟩
  exact ⟨s, hs, publishes_of_run hs hqueued ready⟩

end ContentPublishing.Pipeline
