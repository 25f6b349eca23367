import ContentPublishing.Announcer.Announce
import ContentPublishing.Lib.Entries

/-!
# The cached schema agrees with the chain

`Step` lists what one action can do. A schema that is on the chain stays there, so a
cached payload never goes stale, and a file that is handed to the publisher was written
under the schema that the chain has. What the chain answers before it has the schema is
cached as well; it yields no file.
-/
namespace ContentPublishing.Announcer
open Announcements (Announcement)
open Assets (storageExpireUpperLimitSeconds)
open Batching (BatchAnnouncerJobData CallId)
open Dependencies (Ipfs IpfsApi ipfsPin)
open Dependencies.Uploads (ipfsPin_cases octetApi)
open Effects Expiring Transition

section
variable (api : IpfsApi) (libraries : Libraries)

/-- The transitions of the announcer. -/
inductive Step (s : State) : Action → State → Prop
  | tick (ms : ℕ) : Step s (.tick ms) { s with clock := s.clock + ms }
  | createSchema (schemaId : ℕ) (hexString : String) (unknown : s.chain schemaId = none) :
      Step s (.createSchema schemaId hexString)
        { s with chain := Function.update s.chain schemaId (some hexString) }
  | pinned (file : Buffer) : Step s (.pinned file)
      { s with ipfs := Function.update s.ipfs (api.hash file) (some file) }
  | process (i : CallId) (job : BatchAnnouncerJobData Announcement) (free : s.calls i = none) :
      Step s (.process i job) (s.setCall i ⟨job, .get⟩)
  | hit (i : CallId) (job : BatchAnnouncerJobData Announcement) (cachedSchema : String)
      (call : s.calls i = some ⟨job, .get⟩)
      (found : Expiring.get s.cache s.clock (schemaCacheKey job.schemaId) = some cachedSchema) :
      Step s (.get i) (s.write libraries i job cachedSchema)
  | miss (i : CallId) (job : BatchAnnouncerJobData Announcement)
      (call : s.calls i = some ⟨job, .get⟩)
      (missing : ∀ cachedSchema, Expiring.get s.cache s.clock (schemaCacheKey job.schemaId) =
        some cachedSchema → cachedSchema = "") : Step s (.get i) (s.setCall i ⟨job, .query⟩)
  | query (i : CallId) (job : BatchAnnouncerJobData Announcement)
      (call : s.calls i = some ⟨job, .query⟩) :
      Step s (.query i) (s.setCall i ⟨job, .setex (cacheText (s.chain job.schemaId))⟩)
  | setex (i : CallId) (job : BatchAnnouncerJobData Announcement) (cachedSchema : String)
      (call : s.calls i = some ⟨job, .setex cachedSchema⟩) :
      Step s (.setex i)
        ({ s with
          cache := Expiring.setex s.cache s.clock (schemaCacheKey job.schemaId)
            storageExpireUpperLimitSeconds cachedSchema }.write libraries i job cachedSchema)
  | pin (i : CallId) (answers : Bool) (job : BatchAnnouncerJobData Announcement) (file : Buffer)
      (call : s.calls i = some ⟨job, .pin file⟩) :
      Step s (.pin i answers)
        ({ s with ipfs := Function.update s.ipfs (api.hash file) (some file) }.setCall i
          ⟨job, .add ⟨job.batchId, job.schemaId,
            ⟨api.toV1 (api.hash file), libraries.pinnedSize file⟩⟩⟩)
  | pinFail (i : CallId) (answers : Bool) (job : BatchAnnouncerJobData Announcement)
      (file : Buffer) (call : s.calls i = some ⟨job, .pin file⟩) :
      Step s (.pin i answers) (s.endCall i)
  | add (i : CallId) (job : BatchAnnouncerJobData Announcement) (publisherJob : IPublisherJob)
      (call : s.calls i = some ⟨job, .add publisherJob⟩) :
      Step s (.add i) ({ s with
        publishQueue := s.publishQueue.add publisherJob.id publisherJob }.endCall i)
  | throw (i : CallId) (c : Call) (call : s.calls i = some c) :
      Step s (.throw i) (s.endCall i)
  | forget (jobId : String) : Step s (.forget jobId)
      { s with publishQueue := s.publishQueue.remove jobId }

variable {api libraries} {s t : State} {a : Action}

theorem step_cases (h : step api libraries s a = some t) : Step api libraries s a t := by
  cases a with
  | tick ms => simp only [step, Option.some.injEq] at h; exact h ▸ .tick ms
  | createSchema schemaId hexString =>
      simp only [step, Option.ite_none_left_eq_some, Option.some.injEq] at h
      obtain ⟨hunknown, rfl⟩ := h
      exact .createSchema schemaId hexString (by simpa using hunknown)
  | pinned file => simp only [step, Option.some.injEq] at h; exact h ▸ .pinned file
  | process i job =>
      simp only [step, Option.ite_none_left_eq_some, Option.some.injEq] at h
      obtain ⟨hfree, rfl⟩ := h
      exact .process i job (by simpa using hfree)
  | get i =>
      simp only [step] at h
      split at h
      · next job hc =>
          split at h
          · next cachedSchema hfound =>
              split at h
              · next hempty =>
                  refine Option.some.inj h ▸ .miss i job hc fun text htext => ?_
                  rw [hfound, Option.some.injEq] at htext
                  exact htext ▸ hempty
              · exact Option.some.inj h ▸ .hit i job cachedSchema hc hfound
          · next hnone =>
              refine Option.some.inj h ▸ .miss i job hc fun text htext => ?_
              rw [hnone] at htext
              cases htext
      · cases h
  | query i =>
      simp only [step] at h
      split at h
      · next job hc => exact Option.some.inj h ▸ .query i job hc
      · cases h
  | setex i =>
      simp only [step] at h
      split at h
      · next job cachedSchema hc => exact Option.some.inj h ▸ .setex i job cachedSchema hc
      · cases h
  | pin i answers =>
      simp only [step] at h
      split at h
      · next job file hc =>
          rcases ipfsPin_cases api answers "application/octet-stream" file s.ipfs with
            ⟨e, hpin⟩ | hpin
          · rw [hpin] at h
            exact Option.some.inj h ▸ .pinFail i answers job file hc
          · rw [hpin] at h
            exact Option.some.inj h ▸ .pin i answers job file hc
      · cases h
  | add i =>
      simp only [step] at h
      split at h
      · next job publisherJob hc => exact Option.some.inj h ▸ .add i job publisherJob hc
      · cases h
  | throw i =>
      simp only [step, Option.ite_none_right_eq_some, Option.some.injEq] at h
      obtain ⟨hsome, rfl⟩ := h
      obtain ⟨c, hc⟩ := Option.isSome_iff_exists.mp hsome
      exact .throw i c hc
  | forget jobId => simp only [step, Option.some.injEq] at h; exact h ▸ .forget jobId

/-! ## What the chain and the IPFS node keep -/

/-- Schemas and pins of one state are there in the other. -/
structure Extends (api : IpfsApi) (s t : State) : Prop where
  chain : ∀ schemaId hexString,
    s.chain schemaId = some hexString → t.chain schemaId = some hexString
  ipfs : ∀ file, s.ipfs (api.hash file) = some file → t.ipfs (api.hash file) = some file

theorem Extends.of_eq (hchain : t.chain = s.chain) (hipfs : t.ipfs = s.ipfs) :
    Extends api s t :=
  ⟨fun _ _ h => hchain ▸ h, fun _ h => hipfs ▸ h⟩

theorem Extends.trans {u : State} (h : Extends api s t) (h' : Extends api t u) :
    Extends api s u :=
  ⟨fun schemaId hexString hc => h'.chain schemaId hexString (h.chain schemaId hexString hc),
    fun file hf => h'.ipfs file (h.ipfs file hf)⟩

/-- A pin under the hash of another file is no pin of this one. -/
theorem update_ipfs (ipfs : Ipfs) (file : Buffer) {other : Buffer}
    (h : ipfs (api.hash other) = some other) :
    Function.update ipfs (api.hash file) (some file) (api.hash other) = some other := by
  by_cases hfile : api.hash other = api.hash file
  · rw [api.hash_injective hfile, Function.update_self]
  · rw [Function.update_of_ne hfile, h]

theorem chain_write (s : State) (i : CallId) (job : BatchAnnouncerJobData Announcement)
    (cachedSchema : String) : (s.write libraries i job cachedSchema).chain = s.chain := by
  unfold State.write
  split <;> rfl

theorem ipfs_write (s : State) (i : CallId) (job : BatchAnnouncerJobData Announcement)
    (cachedSchema : String) : (s.write libraries i job cachedSchema).ipfs = s.ipfs := by
  unfold State.write
  split <;> rfl

theorem Step.extends (h : Step api libraries s a t) : Extends api s t := by
  cases h with
  | createSchema schemaId hexString unknown =>
      refine ⟨fun other text h => ?_, fun _ h => h⟩
      have hne : other ≠ schemaId := by
        rintro rfl
        rw [unknown] at h
        cases h
      exact (Function.update_of_ne hne ..).trans h
  | pinned file => exact ⟨fun _ _ h => h, fun _ h => update_ipfs s.ipfs file h⟩
  | pin i answers job file call => exact ⟨fun _ _ h => h, fun _ h => update_ipfs s.ipfs file h⟩
  | hit i job cachedSchema call found =>
      exact .of_eq (chain_write s i job cachedSchema) (ipfs_write s i job cachedSchema)
  | setex i job cachedSchema call => exact .of_eq (chain_write ..) (ipfs_write ..)
  | _ => exact .of_eq rfl rfl

/-! ## The invariant -/

/-- The text is the answer of the chain, now or before it had the schema. -/
def Answered (s : State) (schemaId : ℕ) (text : String) : Prop :=
  text = cacheText none ∨ text = cacheText (s.chain schemaId)

variable (api libraries)

/-- The file is the batch under the schema on the chain. -/
def FileOf (s : State) (job : BatchAnnouncerJobData Announcement) (file : Buffer) : Prop :=
  ∃ hexString, s.chain job.schemaId = some hexString ∧ fileOf libraries job hexString = .ok file

/-- The publisher job is the one of this batch, and its file is pinned. -/
def Announced (s : State) (job : BatchAnnouncerJobData Announcement)
    (publisherJob : IPublisherJob) : Prop :=
  ∃ file, FileOf libraries s job file ∧ s.ipfs (api.hash file) = some file ∧
    publisherJob = ⟨job.batchId, job.schemaId,
      ⟨api.toV1 (api.hash file), libraries.pinnedSize file⟩⟩

def StageOk (s : State) (job : BatchAnnouncerJobData Announcement) : Stage → Prop
  | .get | .query => True
  | .setex cachedSchema => Answered s job.schemaId cachedSchema
  | .pin file => FileOf libraries s job file
  | .add publisherJob => Announced api libraries s job publisherJob

/-- The cache holds answers of the chain, and what is under way or queued was made from
batches that were processed by calls that meet `P`. -/
structure Coherent (P : CallId → BatchAnnouncerJobData Announcement → Prop) (s : State) :
    Prop where
  cache : ∀ schemaId e, s.cache (schemaCacheKey schemaId) = some e → Answered s schemaId e.value
  calls : ∀ i c, s.calls i = some c → P i c.job ∧ StageOk api libraries s c.job c.stage
  queue : ∀ jobId publisherJob, (jobId, publisherJob) ∈ s.publishQueue.jobs →
    ∃ i job, P i job ∧ jobId = job.batchId ∧ Announced api libraries s job publisherJob

variable {api libraries} {P Q : CallId → BatchAnnouncerJobData Announcement → Prop}

theorem Answered.extend {schemaId : ℕ} {text : String} (h : Answered s schemaId text)
    (hE : Extends api s t) : Answered t schemaId text := by
  rcases h with h | h
  · exact .inl h
  · cases hchain : s.chain schemaId with
    | none => exact .inl (hchain ▸ h)
    | some hexString => exact .inr (by rw [hE.chain _ _ hchain, ← hchain]; exact h)

theorem FileOf.extend {job : BatchAnnouncerJobData Announcement} {file : Buffer}
    (h : FileOf libraries s job file) (hE : Extends api s t) : FileOf libraries t job file :=
  h.imp fun _ h => ⟨hE.chain _ _ h.1, h.2⟩

theorem Announced.extend {job : BatchAnnouncerJobData Announcement}
    {publisherJob : IPublisherJob} (h : Announced api libraries s job publisherJob)
    (hE : Extends api s t) : Announced api libraries t job publisherJob :=
  h.imp fun file h => ⟨h.1.extend hE, hE.ipfs file h.2.1, h.2.2⟩

theorem StageOk.extend {job : BatchAnnouncerJobData Announcement} {stage : Stage}
    (h : StageOk api libraries s job stage) (hE : Extends api s t) :
    StageOk api libraries t job stage := by
  cases stage with
  | get => trivial
  | query => trivial
  | setex cachedSchema => exact Answered.extend h hE
  | pin file => exact FileOf.extend h hE
  | add publisherJob => exact Announced.extend h hE

namespace Coherent

theorem mono (h : Coherent api libraries P s) (hPQ : ∀ i job, P i job → Q i job) :
    Coherent api libraries Q s where
  cache := h.cache
  calls i c hc := (h.calls i c hc).imp (hPQ i _) id
  queue id j hj := (h.queue id j hj).imp fun i h => h.imp fun job h => ⟨hPQ i job h.1, h.2⟩

/-- Time, schemas and pins. -/
theorem extend (h : Coherent api libraries P s) (hE : Extends api s t)
    (hcache : t.cache = s.cache) (hcalls : t.calls = s.calls)
    (hqueue : t.publishQueue = s.publishQueue) : Coherent api libraries P t where
  cache schemaId e he := (h.cache schemaId e (hcache ▸ he)).extend hE
  calls i c hc := (h.calls i c (hcalls ▸ hc)).imp id (·.extend hE)
  queue id j hj := (h.queue id j (hqueue ▸ hj)).imp fun _ h => h.imp fun _ h =>
    ⟨h.1, h.2.1, h.2.2.extend hE⟩

theorem setCall (h : Coherent api libraries P s) (i : CallId) {c : Call} (hP : P i c.job)
    (hstage : StageOk api libraries s c.job c.stage) :
    Coherent api libraries P (s.setCall i c) where
  cache := h.cache
  calls := Entries.forall_update h.calls fun _ e => Option.some.inj e ▸ ⟨hP, hstage⟩
  queue := h.queue

theorem endCall (h : Coherent api libraries P s) (i : CallId) :
    Coherent api libraries P (s.endCall i) where
  cache := h.cache
  calls := Entries.forall_update h.calls fun _ e => by cases e
  queue := h.queue

theorem setex (h : Coherent api libraries P s) {schemaId : ℕ} {text : String}
    (ht : Answered s schemaId text) (seconds : ℕ) :
    Coherent api libraries P { s with
      cache := Expiring.setex s.cache s.clock (schemaCacheKey schemaId) seconds text } where
  cache other e he := by
    by_cases hk : other = schemaId
    · subst other
      dsimp only at he
      rw [setex_self, Option.some.injEq] at he
      exact he ▸ ht
    · have hkey := schemaCacheKey_injective.ne hk
      exact h.cache other e ((setex_of_ne _ _ _ _ hkey).symm.trans he)
  calls := h.calls
  queue := h.queue

/-- Only an answer with a schema yields a file. -/
theorem write (h : Coherent api libraries P s) {i : CallId}
    {job : BatchAnnouncerJobData Announcement} (hP : P i job) {text : String}
    (ht : Answered s job.schemaId text) :
    Coherent api libraries P (s.write libraries i job text) := by
  unfold State.write
  split
  · next file hfile =>
      refine h.setCall i hP ?_
      rcases ht with rfl | rfl
      · rw [announceFile_cacheText_none] at hfile
        cases hfile
      · cases hchain : s.chain job.schemaId with
        | none =>
            rw [hchain, announceFile_cacheText_none] at hfile
            cases hfile
        | some hexString =>
            rw [hchain, announceFile_cacheText] at hfile
            exact ⟨hexString, hchain, hfile⟩
  · exact h.endCall i

/-- The publisher job of a batch is queued. -/
theorem add (h : Coherent api libraries P s) {i : CallId}
    {job : BatchAnnouncerJobData Announcement} {publisherJob : IPublisherJob} (hP : P i job)
    (hann : Announced api libraries s job publisherJob) : Coherent api libraries P { s with
      publishQueue := s.publishQueue.add publisherJob.id publisherJob } := by
  refine { h with queue := fun jobId other hmem => ?_ }
  rcases JobQueue.mem_jobs_add hmem with hmem | ⟨rfl, rfl⟩
  · exact h.queue jobId other hmem
  · obtain ⟨file, hfile, hpin, heq⟩ := hann
    exact ⟨i, job, hP, by rw [heq], file, hfile, hpin, heq⟩

theorem step (h : Coherent api libraries P s) (hst : Step api libraries s a t)
    (hP : ∀ i job, a = .process i job → P i job) : Coherent api libraries P t := by
  have hE := hst.extends
  cases hst with
  | tick ms => exact h.extend hE rfl rfl rfl
  | createSchema schemaId hexString unknown => exact h.extend hE rfl rfl rfl
  | pinned file => exact h.extend hE rfl rfl rfl
  | process i job free => exact h.setCall i (hP i job rfl) trivial
  | hit i job cachedSchema call found =>
      obtain ⟨e, he, hvalue⟩ := Option.map_eq_some_iff.mp found
      have hanswered := h.cache job.schemaId e (Option.filter_eq_some_iff.mp he).1
      exact h.write (h.calls i _ call).1 (hvalue ▸ hanswered)
  | miss i job call missing => exact h.setCall i (h.calls i _ call).1 trivial
  | query i job call => exact h.setCall i (h.calls i _ call).1 (.inr rfl)
  | setex i job cachedSchema call =>
      obtain ⟨hjob, hstage⟩ := h.calls i _ call
      exact (h.setex hstage _).write hjob hstage
  | pin i answers job file call =>
      obtain ⟨hjob, hfile⟩ := h.calls i _ call
      have hpinned := h.extend (t := { s with
        ipfs := Function.update s.ipfs (api.hash file) (some file) })
        ⟨hE.chain, hE.ipfs⟩ rfl rfl rfl
      exact hpinned.setCall i hjob ⟨file, hfile, Function.update_self .., rfl⟩
  | pinFail i answers job file call => exact h.endCall i
  | add i job publisherJob call =>
      obtain ⟨hjob, hann⟩ := h.calls i _ call
      exact (h.add hjob hann).endCall i
  | throw i c call => exact h.endCall i
  | forget jobId =>
      refine { h with queue := fun id j hj => h.queue id j ?_ }
      exact List.mem_of_mem_filter hj

theorem start (chain : ℕ → SchemaPayload) (ipfs : Ipfs) :
    Coherent api libraries P (start chain ipfs) where
  cache _ _ h := by cases h
  calls _ _ h := by cases h
  queue _ _ h := by cases h

theorem of_run {chain : ℕ → SchemaPayload} {ipfs : Ipfs} {as : List Action} {t : State}
    (h : run (Announcer.step api libraries) (Announcer.start chain ipfs) as = some t) :
    Coherent api libraries (fun i job => .process i job ∈ as) t := by
  refine run_induction (C := fun _ _ => True)
    (I := fun as t => Coherent api libraries (fun i job => .process i job ∈ as) t)
    (start chain ipfs) (fun as s a t _ hs _ hst => ?_) (fun _ _ _ _ _ => trivial) h
  have hs := hs.mono (Q := fun i job => .process i job ∈ as ++ [a])
    fun i job h => List.mem_append_left _ h
  exact hs.step (step_cases hst) fun i job ha => by simp [ha]

end Coherent

/-- Every job of the publish queue carries the identifier and the schema of a batch that
was processed, and names a pinned file with exactly the announcements of that batch, in
their order, under the schema that the chain has. -/
theorem announced_of_run {chain : ℕ → SchemaPayload} {ipfs : Ipfs} {as : List Action}
    (h : run (step api libraries) (start chain ipfs) as = some t) {jobId : String}
    {publisherJob : IPublisherJob} (hjob : (jobId, publisherJob) ∈ t.publishQueue.jobs) :
    ∃ i job, .process i job ∈ as ∧ jobId = job.batchId ∧
      Announced api libraries t job publisherJob :=
  (Coherent.of_run h).queue jobId publisherJob hjob

theorem announced_sampleBatch : ∃ t publisherJob, run (step octetApi .sample)
    (start (fun _ => none) fun _ => none) announceBatch = some t ∧ publisherJob.schemaId = 4 ∧
      ∃ i job, .process i job ∈ announceBatch ∧ "batch" = job.batchId ∧
        Announced octetApi .sample t job publisherJob := by
  obtain ⟨t, ht, hjobs⟩ : ∃ t, run (step octetApi .sample) (start (fun _ => none) fun _ => none)
      announceBatch = some t ∧ t.publishQueue.jobs.map Prod.fst = ["batch"] ∧
        ∀ job ∈ t.publishQueue.jobs, job.2.schemaId = 4 := exists_of_run_any (by decide +kernel)
  obtain ⟨⟨jobId, publisherJob⟩, hmem, rfl⟩ := List.mem_map.mp
    (hjobs.1 ▸ List.mem_singleton_self "batch" : "batch" ∈ t.publishQueue.jobs.map Prod.fst)
  exact ⟨t, publisherJob, ht, hjobs.2 _ hmem, announced_of_run ht hmem⟩

/-! ## A cached answer without a schema -/

variable (schemaId expiresAt : ℕ)

/-- Redis holds until then that the chain has no such schema, and no call of the schema
has got past reading it. -/
structure Unavailable (s : State) : Prop where
  cache : s.cache (schemaCacheKey schemaId) = some ⟨cacheText none, expiresAt⟩
  calls : ∀ i c, s.calls i = some c → c.job.schemaId = schemaId → c.stage = .get

variable {schemaId expiresAt}

theorem clock_write (s : State) (i : CallId) (job : BatchAnnouncerJobData Announcement)
    (cachedSchema : String) : (s.write libraries i job cachedSchema).clock = s.clock := by
  unfold State.write
  split <;> rfl

theorem publishQueue_write (s : State) (i : CallId) (job : BatchAnnouncerJobData Announcement)
    (cachedSchema : String) :
    (s.write libraries i job cachedSchema).publishQueue = s.publishQueue := by
  unfold State.write
  split <;> rfl

namespace Unavailable

theorem of_eq (h : Unavailable schemaId expiresAt s) (hcache : t.cache = s.cache)
    (hcalls : t.calls = s.calls) : Unavailable schemaId expiresAt t :=
  ⟨hcache ▸ h.cache, hcalls ▸ h.calls⟩

theorem setCall (h : Unavailable schemaId expiresAt s) (i : CallId) {c : Call}
    (hc : c.job.schemaId = schemaId → c.stage = .get) :
    Unavailable schemaId expiresAt (s.setCall i c) where
  cache := h.cache
  calls := Entries.forall_update h.calls fun _ e => Option.some.inj e ▸ hc

theorem endCall (h : Unavailable schemaId expiresAt s) (i : CallId) :
    Unavailable schemaId expiresAt (s.endCall i) where
  cache := h.cache
  calls := Entries.forall_update h.calls fun _ e => by cases e

/-- A call of this schema that reads the cache ends. -/
theorem write (h : Unavailable schemaId expiresAt s) {i : CallId}
    {job : BatchAnnouncerJobData Announcement} {text : String}
    (ht : job.schemaId = schemaId → text = cacheText none) :
    Unavailable schemaId expiresAt (s.write libraries i job text) := by
  unfold State.write
  split
  · next file hfile =>
      refine h.setCall i fun hschema => ?_
      rw [ht hschema, announceFile_cacheText_none] at hfile
      cases hfile
  · exact h.endCall i

theorem get_eq (h : Unavailable schemaId expiresAt s) (htime : s.clock ≤ expiresAt) :
    Expiring.get s.cache s.clock (schemaCacheKey schemaId) = some (cacheText none) := by
  simp [Expiring.get, h.cache, htime]

theorem step (h : Unavailable schemaId expiresAt s) (hc : Coherent api libraries P s)
    (hst : Step api libraries s a t) (htime : t.clock ≤ expiresAt) :
    Unavailable schemaId expiresAt t ∧
      ∀ jobId publisherJob, (jobId, publisherJob) ∈ t.publishQueue.jobs →
        publisherJob.schemaId = schemaId → (jobId, publisherJob) ∈ s.publishQueue.jobs := by
  -- A call that is past reading the cache is one of another schema.
  have hother : ∀ {i job stage}, s.calls i = some ⟨job, stage⟩ → stage ≠ .get →
      job.schemaId ≠ schemaId := fun call hstage hschema => hstage (h.calls _ _ call hschema)
  cases hst with
  | tick ms => exact ⟨h.of_eq rfl rfl, fun _ _ hj _ => hj⟩
  | createSchema id hexString unknown => exact ⟨h.of_eq rfl rfl, fun _ _ hj _ => hj⟩
  | pinned file => exact ⟨h.of_eq rfl rfl, fun _ _ hj _ => hj⟩
  | process i job free => exact ⟨h.setCall i fun _ => rfl, fun _ _ hj _ => hj⟩
  | hit i job cachedSchema call found =>
      rw [clock_write] at htime
      refine ⟨h.write fun hschema => ?_, fun _ _ hj _ => publishQueue_write s i .. ▸ hj⟩
      rw [hschema, h.get_eq htime] at found
      exact (Option.some.inj found).symm
  | miss i job call missing =>
      refine ⟨h.setCall i fun hschema => ?_, fun _ _ hj _ => hj⟩
      have hfound := h.get_eq htime
      rw [← show job.schemaId = schemaId from hschema] at hfound
      exact absurd (missing _ hfound) (cacheText_ne_empty none)
  | query i job call =>
      have hne := hother call (by simp)
      exact ⟨h.setCall i fun hschema => absurd hschema hne, fun _ _ hj _ => hj⟩
  | setex i job cachedSchema call =>
      have hne := hother call (by simp)
      have hcache := (setex_of_ne s.cache s.clock storageExpireUpperLimitSeconds cachedSchema
        (schemaCacheKey_injective.ne hne.symm)).trans h.cache
      have hset : Unavailable schemaId expiresAt { s with
          cache := Expiring.setex s.cache s.clock (schemaCacheKey job.schemaId)
            storageExpireUpperLimitSeconds cachedSchema } := ⟨hcache, h.calls⟩
      refine ⟨hset.write fun hschema => absurd hschema hne, fun _ _ hj _ => ?_⟩
      rw [publishQueue_write] at hj
      exact hj
  | pin i answers job file call =>
      have hne := hother call (by simp)
      have hpinned := h.of_eq (t := { s with
        ipfs := Function.update s.ipfs (api.hash file) (some file) }) rfl rfl
      exact ⟨hpinned.setCall i fun hschema => absurd hschema hne, fun _ _ hj _ => hj⟩
  | pinFail i answers job file call => exact ⟨h.endCall i, fun _ _ hj _ => hj⟩
  | add i job publisherJob call =>
      have hne := hother call (by simp)
      have hadded := h.of_eq (t := { s with
        publishQueue := s.publishQueue.add publisherJob.id publisherJob }) rfl rfl
      refine ⟨hadded.endCall i, fun jobId other hj hschema => ?_⟩
      rcases JobQueue.mem_jobs_add hj with hj | ⟨-, rfl⟩
      · exact hj
      · obtain ⟨file, -, -, heq⟩ := (hc.calls i _ call).2
        rw [heq] at hschema
        exact absurd hschema hne
  | throw i c call => exact ⟨h.endCall i, fun _ _ hj _ => hj⟩
  | forget jobId => exact ⟨h.of_eq rfl rfl, fun _ _ hj _ => List.mem_of_mem_filter hj⟩

end Unavailable

/-- Time does not run backwards. -/
theorem Step.clock_le (h : Step api libraries s a t) : s.clock ≤ t.clock := by
  cases h with
  | tick ms => exact Nat.le_add_right ..
  | hit i job cachedSchema call found => rw [clock_write]
  | setex i job cachedSchema call => rw [clock_write]
  | _ => exact Nat.le_refl _

/-- Once Redis holds the answer that the chain has no such schema, no batch of the schema
is published before that entry expires, whatever is put on the chain meanwhile. -/
theorem not_announced_of_unavailable {chain : ℕ → SchemaPayload} {ipfs : Ipfs}
    {as bs : List Action} (hs : run (step api libraries) (start chain ipfs) as = some s)
    (h : Unavailable schemaId expiresAt s) (ht : run (step api libraries) s bs = some t)
    (htime : t.clock ≤ expiresAt) :
    Unavailable schemaId expiresAt t ∧
      ∀ jobId publisherJob, (jobId, publisherJob) ∈ t.publishQueue.jobs →
        publisherJob.schemaId = schemaId → (jobId, publisherJob) ∈ s.publishQueue.jobs := by
  have hcoherent := Coherent.of_run hs
  clear hs
  suffices ∀ t, run (step api libraries) s bs = some t → Coherent api libraries
      (fun _ _ => True) t ∧ (t.clock ≤ expiresAt → Unavailable schemaId expiresAt t ∧
        ∀ jobId publisherJob, (jobId, publisherJob) ∈ t.publishQueue.jobs →
          publisherJob.schemaId = schemaId → (jobId, publisherJob) ∈ s.publishQueue.jobs) from
    (this t ht).2 htime
  intro t ht
  refine invariant_of_step (I := fun t => Coherent api libraries (fun _ _ => True) t ∧
      (t.clock ≤ expiresAt → Unavailable schemaId expiresAt t ∧ ∀ jobId publisherJob,
        (jobId, publisherJob) ∈ t.publishQueue.jobs → publisherJob.schemaId = schemaId →
          (jobId, publisherJob) ∈ s.publishQueue.jobs))
    ⟨hcoherent.mono fun _ _ _ => trivial, fun _ => ⟨h, fun _ _ hj _ => hj⟩⟩ ?_ ht
  rintro u a v ⟨hu, hkept⟩ hst
  have hst := step_cases hst
  refine ⟨hu.step hst fun _ _ _ => trivial, fun hv => ?_⟩
  obtain ⟨hun, hjobs⟩ := hkept (Nat.le_trans hst.clock_le hv)
  obtain ⟨hun', hjobs'⟩ := hun.step hu hst hv
  exact ⟨hun', fun jobId publisherJob hj hschema =>
    hjobs jobId publisherJob (hjobs' jobId publisherJob hj hschema) hschema⟩

theorem not_announced_sampleBatch : ∃ s t, run (step octetApi .sample)
    (start (fun _ => none) fun _ => none) announceEarly = some s ∧
      run (step octetApi .sample) s announceLate = some t ∧ t.calls 1 = none ∧
        Unavailable 4 3888000000 t ∧ ∀ jobId publisherJob,
          (jobId, publisherJob) ∈ t.publishQueue.jobs → publisherJob.schemaId = 4 →
            (jobId, publisherJob) ∈ s.publishQueue.jobs := by
  obtain ⟨s, hs, hcache, hcall, hlate⟩ : ∃ s, run (step octetApi .sample)
      (start (fun _ => none) fun _ => none) announceEarly = some s ∧
        s.cache (schemaCacheKey 4) = some ⟨cacheText none, 3888000000⟩ ∧ s.calls 0 = none ∧
          (run (step octetApi .sample) s announceLate).any fun t =>
            decide (t.clock ≤ 3888000000 ∧ t.calls 1 = none) :=
    exists_of_run_any (by decide +kernel)
  obtain ⟨t, ht, htime, hend⟩ := exists_of_run_any hlate
  refine ⟨s, t, hs, ht, hend, not_announced_of_unavailable hs ⟨hcache, fun i c hc => ?_⟩ ht htime⟩
  have hmem := ((Coherent.of_run hs).calls i c hc).1
  obtain rfl : i = 0 := by simp [announceEarly] at hmem; exact hmem.1
  rw [hcall] at hc
  cases hc

end

end ContentPublishing.Announcer
