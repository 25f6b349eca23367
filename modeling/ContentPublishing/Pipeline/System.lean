import ContentPublishing.Announcements.Pinned
import ContentPublishing.Announcer.Coherence
import ContentPublishing.Batching.Provenance
import ContentPublishing.Monitor.Status
import ContentPublishing.Publisher.Service

/-!
# From requests to messages on the chain

All services around their queues: the API adds request jobs, a processor turns each into
an announcement for the queue of its type, every queue is collected into batches, the
batches are announced and published, and a transaction that is not found is published
again. Workers interleave; a call may fail or a worker crash between any two steps, and a
job that a queue knows may be processed any number of times.
-/
namespace ContentPublishing.Pipeline
open Announcements (Announcement FetchOrder Queued RequestJob RequestTypeDto Services
  acceptRequest collectAnnouncementAndQueue)
open Announcer (Libraries SchemaPayload)
open Batching (CallId Value batchingStep)
open Dependencies (Ipfs IpfsApi)
open Effects Transition
open Publisher (ICapacityLimit)

/-- The part of the validated environment that the services read, and how many instances
of the publishing service the modules create. -/
structure Settings where
  environment : ChainEnvironment
  batchIntervalSeconds : ℚ
  batchMaxCount : ℚ
  batchIntervalSeconds_min : 1 ≤ batchIntervalSeconds
  batchMaxCount_min : 1 ≤ batchMaxCount
  assetUploadVerificationDelaySeconds : ℚ
  capacityLimit : ICapacityLimit
  instances : ℕ

def Settings.batching (settings : Settings) (queueName : QueueName) : Batching.Config :=
  ⟨settings.environment, queueName, settings.batchIntervalSeconds, settings.batchMaxCount,
    settings.batchIntervalSeconds_min, settings.batchMaxCount_min⟩

def queueNames : List QueueName :=
  [.broadcastQueue, .replyQueue, .reactionQueue, .updateQueue, .tombstoneQueue, .profileQueue]

theorem mem_queueNames (queueName : QueueName) : queueName ∈ queueNames := by
  cases queueName <;> decide

/-- A request job, and how often it was delayed for its assets. -/
structure RequestEntry where
  data : RequestJob
  dependencyAttempt : ℕ

/-- What the request processor reads before it looks at the content. -/
def RequestEntry.job (entry : RequestEntry) : IRequestJob :=
  ⟨entry.data.id, entry.data.content.announcementType, entry.data.dsnpUserId,
    entry.data.assetToMimeType, none, entry.dependencyAttempt⟩

/-- `requested` is the history of accepted requests. The batches of all queues make up
the batch queue. The publish queue and what is pinned are those of the announcer. -/
structure State where
  requested : List RequestJob
  requestQueue : JobQueue String RequestEntry
  collecting : CallId → Option Queued
  announcementQueues : QueueName → JobQueue String Announcement
  batching : QueueName → Batching.State Announcement (Redis.Store String (Value Announcement))
  announcer : Announcer.State
  publisher : Publisher.Service.State
  epochCapacity : ℕ → Option ℕ
  readded : List IPublisherJob

def start (chain : ℕ → SchemaPayload) (ipfs : Ipfs) : State where
  requested := []
  requestQueue := .empty
  collecting _ := none
  announcementQueues _ := .empty
  batching _ := Batching.start
  announcer := Announcer.start chain ipfs
  publisher := Publisher.Service.start
  epochCapacity _ := none
  readded := []

namespace State

def setIpfs (s : State) (ipfs : Ipfs) : State :=
  { s with announcer := { s.announcer with ipfs := ipfs } }

/-- The receipt monitor shares the publish queue with the publisher and the announcer. -/
def monitor (s : State) : Monitor.MonitorState :=
  ⟨s.epochCapacity, s.announcer.publishQueue, s.publisher.service.queuePaused, s.readded⟩

def setMonitor (s : State) (m : Monitor.MonitorState) : State :=
  { s with
    epochCapacity := m.epochCapacity
    announcer := { s.announcer with publishQueue := m.publishQueue }
    publisher := { s.publisher with
      service := { s.publisher.service with queuePaused := m.paused } }
    readded := m.readded }

end State

inductive Action where
  | tick (ms : ℕ)
  | request (userDsnpId : String) (content : RequestTypeDto)
      (assetToMimeType : Option (List (String × String)))
  | processRequest (i : CallId) (requestId : String) (answers : Bool)
      (order : ∀ content, FetchOrder content)
  | queueAnnouncement (i : CallId)
  | throw (i : CallId)
  | forgetRequest (requestId : String)
  | forgetAnnouncement (queueName : QueueName) (jobId : String)
  | batching (queueName : QueueName) (a : Batching.Action Announcement)
  | announcer (a : Announcer.Action)
  | publisher (a : Publisher.Service.Action)
  | receipt (txHash : Hash) (attemptsMade : ℕ) (env : Monitor.Env)

/-- What the queues hand to a worker of the batching processor. Time passes for all
services at once, and batch identifiers are drawn by all queues. -/
def State.hands (s : State) (queueName : QueueName) : Batching.Action Announcement → Bool
  | .tick _ => false
  | .process _ _ job batchId =>
      (job.id, job.data) ∈ (s.announcementQueues queueName).jobs ∧
        ∀ other ∈ queueNames, batchId ∉ (s.batching other).issued
  | _ => true

/-- The batch queue hands the jobs of all queues to the announcer. -/
def State.handsBatch (s : State) : Announcer.Action → Bool
  | .tick _ => false
  | .process _ job =>
      ∃ queueName ∈ queueNames, (job.batchId, job) ∈ (s.batching queueName).batchQueue.jobs
  | _ => true

/-- The publish queue hands its jobs to the publishing service. -/
def State.handsMessage (s : State) : Publisher.Service.Action → Bool
  | .process publisherJob => publisherJob ∈ s.announcer.publishQueue.jobs.map Prod.snd
  | _ => true

section Step
variable (calculateJobId : String → RequestTypeDto → String) (api : IpfsApi)
  (services : Services) (libraries : Libraries) (settings : Settings)

/-- `RequestProcessorService.process`, up to the job that it adds to a queue. -/
def processRequest (s : State) (i : CallId) (entry : RequestEntry) (answers : Bool)
    (order : ∀ content, FetchOrder content) : State :=
  match Dependencies.process api s.announcer.ipfs settings.assetUploadVerificationDelaySeconds
      entry.job with
  | .ok .collectAnnouncementAndQueue =>
      match exec (collectAnnouncementAndQueue api services answers entry.data
          (order entry.data.content)) s.announcer.ipfs with
      | (.ok queued, ipfs) =>
          { s.setIpfs ipfs with collecting := Function.update s.collecting i (some queued) }
      | (.error _, ipfs) => s.setIpfs ipfs
  | .ok (.moveToDelayed _) =>
      { s with requestQueue := s.requestQueue.update entry.data.id fun entry =>
          { entry with dependencyAttempt := entry.dependencyAttempt + 1 } }
  | .error _ => s

def step (s : State) : Action → Option State
  | .tick ms =>
      some { s with
        batching := fun queueName =>
          { s.batching queueName with clock := (s.batching queueName).clock + ms }
        announcer := { s.announcer with clock := s.announcer.clock + ms } }
  | .request userDsnpId content assetToMimeType =>
      (acceptRequest calculateJobId userDsnpId content assetToMimeType).map fun data =>
        { s with
          requested := s.requested ++ [data]
          requestQueue := s.requestQueue.add data.id ⟨data, 0⟩ }
  | .processRequest i requestId answers order =>
      if (s.collecting i).isSome then none else
        (s.requestQueue.find? requestId).map fun entry =>
          processRequest api services settings s i entry answers order
  | .queueAnnouncement i =>
      (s.collecting i).map fun queued =>
        { s with
          announcementQueues := Function.update s.announcementQueues queued.queueName
            ((s.announcementQueues queued.queueName).add queued.jobId queued.announcement)
          collecting := Function.update s.collecting i none }
  | .throw i => some { s with collecting := Function.update s.collecting i none }
  | .forgetRequest requestId =>
      some { s with requestQueue := s.requestQueue.remove requestId }
  | .forgetAnnouncement queueName jobId =>
      some { s with
        announcementQueues := Function.update s.announcementQueues queueName
          ((s.announcementQueues queueName).remove jobId) }
  | .batching queueName a =>
      if s.hands queueName a then
        (batchingStep (settings.batching queueName) (s.batching queueName) a).map fun b =>
          { s with batching := Function.update s.batching queueName b }
      else none
  | .announcer a =>
      if s.handsBatch a then
        (Announcer.step api libraries s.announcer a).map fun t => { s with announcer := t }
      else none
  | .publisher a =>
      if s.handsMessage a then
        (Publisher.Service.step settings.capacityLimit settings.instances s.publisher a).map
          fun p => { s with publisher := p }
      else none
  | .receipt txHash attemptsMade env =>
      (s.publisher.service.receiptQueue.find? txHash).map fun entry =>
        s.setMonitor (exec (Monitor.process env ⟨entry.data, some entry.attempts, attemptsMade⟩)
          s.monitor).2

end Step

/-! ## One reaction -/

def Settings.sample : Settings :=
  ⟨.dev, 1, 2, Batching.Config.sample.batchIntervalSeconds_min,
    Batching.Config.sample.batchMaxCount_min, 5, .sample, 2⟩

def inOrder (content : RequestTypeDto) : FetchOrder content := ⟨_, _, .refl _, .refl _⟩

/-- The batch that the reaction ends up in. -/
def reactionBatch : Batching.BatchAnnouncerJobData Announcement :=
  ⟨"batch", 4, [Announcements.createReaction "1" "x" "dsnp://2/0x1" 1]⟩

/-- A reaction is requested, batched alone after one second, and announced. -/
def announceReaction : List Action :=
  [.announcer (.createSchema 4 Announcer.samplePayload),
    .request "1" (.reaction "x" 1 "dsnp://2/0x1") none,
    .processRequest 0 "request" true inOrder, .queueAnnouncement 0] ++
  [.process 0 0 ⟨"request", Announcements.createReaction "1" "x" "dsnp://2/0x1" 1⟩ "batch",
    .addToBatch 0, .addReply 0].map (.batching .reactionQueue) ++ [.tick 1000] ++
  [.fire 0 "batch" 1, .lockBatch 1, .add 1].map (.batching .reactionQueue) ++
  [.process 0 reactionBatch, .get 0, .query 0, .setex 0, .pin 0 true, .add 0].map .announcer

def reactionMessage : IPublisherJob := ⟨"batch", 4, ⟨"vf1", 1⟩⟩

/-- Its message is submitted, and two instances handle the refill that the check finds. -/
def publishReaction : List Action :=
  announceReaction ++
    (.process reactionMessage :: List.replicate 6 (.resume 0 (.sample 100))).map .publisher

end ContentPublishing.Pipeline
