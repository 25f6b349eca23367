import ContentPublishing.Batching.ExactlyOnce

/-!
# Where the contents of a batch come from

Whatever fails on the way, a job of the batch queue carries the schema of its queue and
rows of different announcement jobs, at least one, and every row is the data of a job
that a worker was given.
-/
namespace ContentPublishing.Batching
open Transition
variable {A : Type}

/-- What was in memory or in a batch was given to `process` before, and a batch job was
made by the queue's own configuration. -/
structure Traced (cfg : Config) (as : List (Action A)) (s : BatchState A) : Prop where
  calls : ∀ i c, s.calls i = some c → ∀ w job b t, c = .adding w job b t →
    .process w i job b ∈ as
  accepted : ∀ x ∈ s.accepted, ∃ w i b, .process w i ⟨x.jobId, x.data⟩ b ∈ as
  queue : ∀ b job, (b, job) ∈ s.batchQueue.jobs →
    ∃ snapshot : Snapshot A, b = snapshot.batchId ∧ job = cfg.batchJob snapshot

namespace Traced
variable {cfg : Config} {as : List (Action A)} {s t : BatchState A}

theorem mono (h : Traced cfg as s) (bs : List (Action A)) : Traced cfg (as ++ bs) s where
  calls i c hc w job b t e := List.mem_append_left _ (h.calls i c hc w job b t e)
  accepted x hx := (h.accepted x hx).imp fun _ h => h.imp fun _ h => h.imp fun _ h =>
    List.mem_append_left _ h
  queue := h.queue

/-- A call goes on, with no row in memory that was not there. -/
theorem setCall (h : Traced cfg as s) {i : CallId} {c : Call A}
    (hc : ∀ w job b t, c = .adding w job b t → .process w i job b ∈ as) :
    Traced cfg as (s.setCall i c) where
  calls := State.forall_setCall h.calls hc
  accepted := h.accepted
  queue := h.queue

theorem endCall (h : Traced cfg as s) (i : CallId) : Traced cfg as (s.endCall i) where
  calls := State.forall_endCall h.calls i
  accepted := h.accepted
  queue := h.queue

theorem of_eq (h : Traced cfg as s) (hcalls : t.calls = s.calls)
    (haccepted : t.accepted = s.accepted) (hqueue : t.batchQueue = s.batchQueue) :
    Traced cfg as t where
  calls := hcalls ▸ h.calls
  accepted := haccepted ▸ h.accepted
  queue := hqueue ▸ h.queue

theorem closeBatch (h : Traced cfg as s) (i : CallId) (w : WorkerId) (b : BatchId)
    (timeout : Bool) (raisedFor : BatchId) :
    Traced cfg as (s.closeBatch i w b timeout raisedFor) :=
  h.setCall fun _ _ _ _ e => by cases e

theorem finish (h : Traced cfg as s) (i : CallId) (w : WorkerId) (b : BatchId)
    (timeout : Bool) (raisedFor : BatchId) (status : LockStatus) :
    Traced cfg as (s.finish i w b timeout raisedFor status) := by
  cases status with
  | leftover => exact h.closeBatch i w b timeout raisedFor
  | locked => exact h.endCall i

/-- A row that was in memory is now in a batch. -/
theorem accept (h : Traced cfg as s) {i : CallId} {w : WorkerId} {job : Job A} {b : BatchId}
    {u : ℕ} (call : s.calls i = some (.adding w job b u)) (redis : Batches A)
    (joined : BatchId) : Traced cfg as { s with
      redis := redis
      accepted := s.accepted ++ [⟨job.id, job.data, joined⟩] } where
  calls := h.calls
  accepted x hx := by
    rcases List.mem_append.mp hx with hx | hx
    · exact h.accepted x hx
    · rw [List.mem_singleton] at hx
      subst x
      exact ⟨w, i, b, h.calls i _ call w job b u rfl⟩
  queue := h.queue

theorem enqueue (h : Traced cfg as s) (snapshot : Snapshot A) : Traced cfg as { s with
    batchQueue := s.batchQueue.add snapshot.batchId (cfg.batchJob snapshot) } := by
  refine { h with queue := fun b job hj => ?_ }
  rcases JobQueue.mem_jobs_add hj with hj | ⟨rfl, rfl⟩
  · exact h.queue b job hj
  · exact ⟨snapshot, rfl, rfl⟩

theorem step (h : Traced cfg as s) {a : Action A} (hst : Step cfg s a t) :
    Traced cfg (as ++ [a]) t := by
  have hmem : a ∈ as ++ [a] := List.mem_append_right _ (List.mem_singleton_self a)
  have h := h.mono [a]
  cases hst with
  | tick ms => exact h.of_eq rfl rfl rfl
  | process w i job b free fresh =>
      have hissued := h.of_eq (t := { s with issued := b :: s.issued }) rfl rfl rfl
      refine hissued.setCall fun _ _ _ _ e => ?_
      cases e
      exact hmem
  | addNew i w job b u call current =>
      exact (h.accept call _ b).setCall fun _ _ _ _ e => by cases e
  | addRow i w job b u o call current =>
      exact (h.accept call _ o.batchId).setCall fun _ _ _ _ e => by cases e
  | addReply i w job b n joined call =>
      unfold State.processReply
      split_ifs
      · exact (h.of_eq (t := s.addBatchTimeout w b cfg.batchTimeoutMs) rfl rfl rfl).endCall i
      · exact h.closeBatch i w b false joined
      · exact h.endCall i
  | setup w i free => exact h.setCall fun _ _ _ _ e => by cases e
  | setupReply i w m call =>
      cases m with
      | none => exact h.endCall i
      | some m =>
          dsimp only [State.setupReply]
          split_ifs
          · exact h.closeBatch i w m.batchId false m.batchId
          · exact (h.of_eq (t := s.addBatchTimeout w m.batchId _) rfl rfl rfl).endCall i
  | fire w b i u free timer unfired due =>
      exact (h.of_eq (t := s.setTimeout w b _) rfl rfl rfl).closeBatch i w b true b
  | lockNone i w b timeout raisedFor now call current => exact h.endCall i
  | lockHeld i w b timeout raisedFor now o l call current locked live => exact h.endCall i
  | lockLeftover i w b timeout raisedFor now o l call current locked expired =>
      exact h.setCall fun _ _ _ _ e => by cases e
  | lockOpen i w b timeout raisedFor now o call current locked =>
      have hlocked := h.of_eq (t := { s with redis := ⟨none, some (o.lock now)⟩ }) rfl rfl rfl
      exact hlocked.setCall fun _ _ _ _ e => by cases e
  | add i w b timeout raisedFor snapshot call =>
      exact (h.enqueue snapshot).setCall fun _ _ _ _ e => by cases e
  | del i w b timeout raisedFor snapshot call =>
      have hclear := h.of_eq (t := { s with redis := s.redis.clear }) rfl rfl rfl
      exact hclear.setCall fun _ _ _ _ e => by cases e
  | delReply i w b timeout raisedFor snapshot call =>
      exact (h.of_eq (t := s.deleteTimeout w b) rfl rfl rfl).finish i w b timeout raisedFor _
  | delFail i w b timeout raisedFor snapshot call => exact h.finish i w b timeout raisedFor _
  | throw i c call => exact h.endCall i
  | crash w =>
      exact ⟨State.forall_filter h.calls _, h.accepted, h.queue⟩

theorem of_run (h : run (Batching.step Batches.store cfg) (Batching.initial .empty) as = some t) :
    Traced cfg as t := by
  refine run_induction (C := fun _ _ => True) (I := Traced cfg) ?_
    (fun as s a u _ hs _ hst => hs.step (step_cases hst)) (fun _ _ _ _ _ => trivial) h
  exact ⟨fun _ _ h => (by cases h), fun _ h => (by cases h), fun _ _ h => (by cases h)⟩

end Traced

/-- A batch job of this queue: its rows are different jobs that the queue's workers were
given and that were accepted into this batch, at least one. -/
structure Collected {R : Type} (cfg : Config) (as : List (Action A)) (s : State A R) (b : BatchId)
    (job : BatchAnnouncerJobData A) (rows : List (Row A)) : Prop where
  batchId : job.batchId = b
  schemaId : job.schemaId =
    getSchemaId cfg.environment (queueNameToAnnouncementMap cfg.queueName)
  announcements : job.announcements = rows.map Prod.snd
  rows_ne : rows ≠ []
  nodup : (rows.map Prod.fst).Nodup
  processed : ∀ row ∈ rows, ∃ w i c, .process w i ⟨row.1, row.2⟩ c ∈ as
  accepted : ∀ row ∈ rows, ⟨row.1, row.2, b⟩ ∈ s.accepted

/-- Every job that gets into the batch queue was collected in this way, and it holds a row
for every announcement that was accepted into its batch. -/
theorem collected_of_run [DecidableEq A] {cfg : Config} {as : List (Action A)}
    {s : State A (Redis.Store String (Value A))} (h : run (batchingStep cfg) start as = some s)
    {b : BatchId} {job : BatchAnnouncerJobData A} (hjob : (b, job) ∈ s.batchQueue.jobs) :
    ∃ rows, Collected cfg as s b job rows ∧
      ∀ x ∈ s.accepted, x.batchId = b → x.jobId ∈ rows.map Prod.fst := by
  obtain ⟨t, ht, rfl⟩ := exists_of_run h
  obtain ⟨L, hL⟩ := Ledger.of_run ht
  have htraced := Traced.of_run ht
  obtain ⟨o, ho, hannouncements⟩ := hL.queue b job hjob
  obtain ⟨snapshot, rfl, rfl⟩ := htraced.queue b job hjob
  have haccepted := (hL.origin _ o (.inl ho)).2
  refine ⟨o.rows, ⟨rfl, rfl, hannouncements, o.rows_ne, o.nodup,
    fun row hrow => htraced.accepted _ (haccepted row hrow), haccepted⟩, fun x hx hb => ?_⟩
  obtain ⟨p, hp, hmem⟩ := hL.accepted x hx
  rw [hb] at hp
  exact hL.holds_unique hp (.inl ho) ▸ hmem

/-! ## What a step records -/

section Records
variable {A R : Type} {store : BatchStore A R} {cfg : Config} {s t : State A R}

/-- Nothing was accepted or enqueued. -/
structure SameRecords (s t : State A R) : Prop where
  accepted : t.accepted = s.accepted
  batchQueue : t.batchQueue = s.batchQueue

namespace SameRecords
variable {u : State A R} (h : SameRecords s u) (i : CallId) (w : WorkerId) (b : BatchId)
include h

theorem processReply (n : ℤ) (joined : BatchId) :
    SameRecords s (u.processReply cfg i w b n joined) := by
  unfold State.processReply
  split_ifs <;> exact ⟨h.accepted, h.batchQueue⟩

theorem setupReply (m : Option BatchMetadata) : SameRecords s (u.setupReply cfg i w m) := by
  unfold State.setupReply
  split
  · exact ⟨h.accepted, h.batchQueue⟩
  · dsimp only
    split_ifs <;> exact ⟨h.accepted, h.batchQueue⟩

theorem finish (timeout : Bool) (raisedFor : BatchId) (status : LockStatus) :
    SameRecords s (u.finish i w b timeout raisedFor status) := by
  cases status <;> exact ⟨h.accepted, h.batchQueue⟩

theorem receive (timeout : Bool) (raisedFor : BatchId) (status : LockStatus)
    (batch : List (Value A)) (metadata : Value A) :
    SameRecords s (u.receive i w b timeout raisedFor status batch metadata) := by
  unfold State.receive
  split <;> exact ⟨h.accepted, h.batchQueue⟩

theorem lockReply (timeout : Bool) (raisedFor : BatchId) (reply : LockReply (Value A)) :
    SameRecords s (u.lockReply i w b timeout raisedFor reply) := by
  cases reply with
  | noBatch => exact ⟨h.accepted, h.batchQueue⟩
  | stillLocked => exact ⟨h.accepted, h.batchQueue⟩
  | leftover batch metadata => exact h.receive ..
  | locked batch metadata => exact h.receive ..

end SameRecords

/-- What one step adds to the history of accepted jobs and to the batch queue. -/
inductive Records (s : State A R) (a : Action A) (t : State A R) : Prop where
  | same (h : SameRecords s t)
  | accept (job : Job A) (joined : BatchId) (request : s.addRequest? a = some job)
      (accepted : t.accepted = s.accepted ++ [⟨job.id, job.data, joined⟩])
      (batchQueue : t.batchQueue = s.batchQueue)
  | enqueue (b : BatchId) (job : BatchAnnouncerJobData A) (accepted : t.accepted = s.accepted)
      (batchQueue : t.batchQueue = s.batchQueue.add b job)

theorem records_of_step {a : Action A} (h : step store cfg s a = some t) : Records s a t := by
  cases a with
  | tick ms =>
      cases h
      exact .same ⟨rfl, rfl⟩
  | process w i job b =>
      simp only [step, Option.ite_none_left_eq_some, Option.some.injEq] at h
      exact .same (h.2 ▸ ⟨rfl, rfl⟩)
  | addToBatch i =>
      simp only [step] at h
      split at h
      · next w job b u call =>
          split at h
          · next n r _ =>
              cases h
              by_cases hn : n = -1
              · exact .same ⟨if_pos hn, rfl⟩
              · exact .accept job _ (by simp [State.addRequest?, call]) (if_neg hn) rfl
          · cases h
            exact .same ⟨rfl, rfl⟩
      · cases h
  | addReply i =>
      simp only [step] at h
      split at h
      · cases h
        exact .same (SameRecords.processReply ⟨rfl, rfl⟩ ..)
      · cases h
  | setupActiveBatchTimeout w i =>
      simp only [step, Option.ite_none_left_eq_some, Option.some.injEq] at h
      exact .same (h.2 ▸ ⟨rfl, rfl⟩)
  | setupReply i =>
      simp only [step] at h
      split at h
      · cases h
        exact .same (SameRecords.setupReply ⟨rfl, rfl⟩ ..)
      · cases h
  | fire w b i =>
      simp only [step] at h
      split at h
      · simp only [Option.ite_none_left_eq_some, Option.some.injEq] at h
        exact .same (h.2 ▸ ⟨rfl, rfl⟩)
      · cases h
  | lockBatch i =>
      simp only [step] at h
      split at h
      · split at h
        · cases h
          refine .same (SameRecords.lockReply ?_ ..)
          exact ⟨rfl, rfl⟩
        · cases h
          exact .same ⟨rfl, rfl⟩
      · cases h
  | add i =>
      simp only [step] at h
      split at h
      · cases h
        exact .enqueue _ _ rfl rfl
      · cases h
  | del i =>
      simp only [step] at h
      split at h
      · cases h
        exact .same ⟨rfl, rfl⟩
      · cases h
  | delReply i =>
      simp only [step] at h
      split at h
      · cases h
        refine .same (SameRecords.finish ?_ ..)
        exact ⟨rfl, rfl⟩
      · cases h
  | delFail i =>
      simp only [step] at h
      split at h
      · cases h
        exact .same (SameRecords.finish ⟨rfl, rfl⟩ ..)
      · cases h
        exact .same (SameRecords.finish ⟨rfl, rfl⟩ ..)
      · cases h
  | throw i =>
      simp only [step, Option.ite_none_right_eq_some, Option.some.injEq] at h
      exact .same (h.2 ▸ ⟨rfl, rfl⟩)
  | crash w =>
      cases h
      exact .same ⟨rfl, rfl⟩

/-- A history is only added to. -/
theorem Records.accepted_subset {a : Action A} (h : Records s a t) : s.accepted ⊆ t.accepted := by
  cases h with
  | same h => exact h.accepted ▸ List.Subset.refl _
  | accept job joined request accepted batchQueue =>
      exact accepted ▸ List.subset_append_left _ _
  | enqueue b job accepted batchQueue => exact accepted ▸ List.Subset.refl _

theorem Records.jobs_subset {a : Action A} (h : Records s a t) :
    s.batchQueue.jobs ⊆ t.batchQueue.jobs := by
  cases h with
  | same h => exact h.batchQueue ▸ List.Subset.refl _
  | accept job joined request accepted batchQueue => exact batchQueue ▸ List.Subset.refl _
  | enqueue b job accepted batchQueue => exact batchQueue ▸ JobQueue.jobs_subset_add _ b job

/-- As long as no job is accepted again, every job is accepted once. -/
theorem Records.nodup_accepted {a : Action A} (h : Records s a t) (hnew : JobIsNew s a)
    (hs : (s.accepted.map Accepted.jobId).Nodup) : (t.accepted.map Accepted.jobId).Nodup := by
  cases h with
  | same h => exact h.accepted ▸ hs
  | accept job joined request accepted batchQueue =>
      rw [accepted]
      simpa using List.Nodup.concat (hnew job request) hs
  | enqueue b job accepted batchQueue => exact accepted ▸ hs

end Records

/-! ## Batch identifiers -/

/-- The announcement job that an action hands to a worker, and the batch identifier that is
drawn for it. -/
def Action.processed? : Action A → Option (Job A × BatchId)
  | .process _ _ job b => some (job, b)
  | _ => none

theorem Action.eq_process_of_processed? {a : Action A} {job : Job A} {b : BatchId}
    (h : a.processed? = some (job, b)) : ∃ w i, a = .process w i job b := by
  cases a with
  | process w i job b =>
      cases h
      exact ⟨w, i, rfl⟩
  | _ => cases h

section Identifiers
variable {cfg : Config} {s t : BatchState A} {a : Action A}

/-- Batch identifiers are drawn for the jobs that are handed to a worker. -/
theorem Step.issued (h : Step cfg s a t) :
    t.issued = (a.processed?.map Prod.snd).toList ++ s.issued := by
  cases h with
  | addReply i w job b n joined call =>
      unfold State.processReply
      split_ifs <;> rfl
  | setupReply i w m call =>
      cases m with
      | none => rfl
      | some m =>
          dsimp only [State.setupReply]
          split_ifs <;> rfl
  | delReply i w b timeout raisedFor snapshot call => cases snapshot.status <;> rfl
  | delFail i w b timeout raisedFor snapshot call => cases snapshot.status <;> rfl
  | _ => rfl

variable [DecidableEq A] {as : List (Action A)} {s t : State A (Redis.Store String (Value A))}
  (h : run (batchingStep cfg) start as = some s)
include h

theorem issued_of_step (hst : batchingStep cfg s a = some t) :
    t.issued = (a.processed?.map Prod.snd).toList ++ s.issued := by
  obtain ⟨u, -, rfl⟩ := exists_of_run h
  rw [batchingStep_encode] at hst
  obtain ⟨v, hv, rfl⟩ := Option.map_eq_some_iff.mp hst
  exact (step_cases hv).issued

theorem issued_of_mem_ids {b : BatchId} (hb : b ∈ s.batchQueue.ids) : b ∈ s.issued := by
  obtain ⟨u, hu, rfl⟩ := exists_of_run h
  obtain ⟨L, hL⟩ := Ledger.of_run hu
  obtain ⟨⟨_, job⟩, hjob, rfl⟩ := List.mem_map.mp hb
  obtain ⟨o, ho, -⟩ := hL.queue _ job hjob
  exact hL.issued_of_isBatch (.inr ⟨o, ho⟩)

theorem issued_of_accepted {x : Accepted A} (hx : x ∈ s.accepted) : x.batchId ∈ s.issued := by
  obtain ⟨u, hu, rfl⟩ := exists_of_run h
  obtain ⟨L, hL⟩ := Ledger.of_run hu
  obtain ⟨o, ho, -⟩ := hL.accepted x hx
  rcases ho with hclosed | ⟨hcurrent, hb⟩
  · exact hL.issued_of_isBatch (.inr ⟨o, hclosed⟩)
  · exact hL.issued_of_isBatch (.inl ((hL.current _).mpr ⟨o, hcurrent, hb⟩))

end Identifiers

end ContentPublishing.Batching
