import ContentPublishing.Batching.Ledger

/-!
# When an accepted announcement can be lost

A row is safe while it is in the open keys, in the locked keys, or its batch is
in the output queue. `DEL` of the locked keys is unconditional: it removes
whatever is locked at that moment. As long as every `DEL` finds its own batch
there, no row is lost, whatever calls and workers fail; a `DEL` that comes after
the lock was taken over removes a batch that only another call's memory holds.
-/
namespace ContentPublishing.Batching
open Transition

section Statements
variable {A R : Type} (store : BatchStore A R)

/-- The job is a row of the open batch of this identifier. -/
def InOpen (r : R) (x : Accepted A) : Prop :=
  (store.metadata r).map BatchMetadata.batchId = some x.batchId ∧
    .jobId x.jobId ∈ store.rows r

/-- The job is a row of the locked batch of this identifier. -/
def InLocked (r : R) (x : Accepted A) : Prop :=
  (store.lockedMetadata r).map BatchMetadata.batchId = some x.batchId ∧
    .jobId x.jobId ∈ store.lockedRows r

/-- Every accepted job whose batch is not in the output queue is still stored. -/
def Retained (s : State A R) : Prop :=
  ∀ x ∈ s.accepted, x.batchId ∉ s.batchQueue.ids →
    InOpen store s.redis x ∨ InLocked store s.redis x

/-- A `DEL` finds the locked keys empty or still holding the batch of its own call. -/
def OwnsLock (s : State A R) (a : Action A) : Prop :=
  ∀ snapshot ∈ s.delRequest? a, ∀ m ∈ store.lockedMetadata s.redis, m.batchId = snapshot.batchId

instance [DecidableEq A] (r : R) (x : Accepted A) : Decidable (InOpen store r x) :=
  inferInstanceAs (Decidable (_ ∧ _))

instance [DecidableEq A] (r : R) (x : Accepted A) : Decidable (InLocked store r x) :=
  inferInstanceAs (Decidable (_ ∧ _))

instance [DecidableEq A] (s : State A R) : Decidable (Retained store s) :=
  inferInstanceAs (Decidable (∀ x ∈ s.accepted, _ → _))

instance (s : State A R) (a : Action A) : Decidable (OwnsLock store s a) :=
  inferInstanceAs (Decidable (∀ _ ∈ _, _))

end Statements

section Invariant
variable {A : Type}

/-- Every accepted job is in the queue or in the open batch, or `P` holds of its batch. -/
def Located (P : BatchId → Prop) (s : BatchState A) : Prop :=
  ∀ x ∈ s.accepted, x.batchId ∈ s.batchQueue.ids ∨
    (∃ o, s.redis.current = some o ∧ o.batchId = x.batchId) ∨ P x.batchId

namespace Located
variable {P Q : BatchId → Prop} {s : BatchState A}

theorem mono (h : Located P s) (hPQ : ∀ b, P b → Q b) : Located Q s :=
  fun x hx => (h x hx).imp id (Or.imp id (hPQ _))

/-- The row just added belongs to the batch that is open now. -/
theorem accept (h : Located P s) {o : OpenBatch A} {x : Accepted A}
    (hid : ∀ p, s.redis.current = some p → p.batchId = o.batchId) (hx : o.batchId = x.batchId) :
    Located P { s with
      redis := ⟨some o, s.redis.locked⟩
      accepted := s.accepted ++ [x] } := by
  intro y hy
  rcases List.mem_append.mp hy with hy | hy
  · rcases h y hy with hq | ⟨p, hp, hpid⟩ | hl
    · exact .inl hq
    · exact .inr (.inl ⟨o, rfl, (hid p hp).symm.trans hpid⟩)
    · exact .inr (.inr hl)
  · rw [List.mem_singleton] at hy
    exact .inr (.inl ⟨o, rfl, hy ▸ hx⟩)

/-- Closing the open batch moves its jobs to where `Q` says. -/
theorem lockBatch (h : Located P s) {o : OpenBatch A} (current : s.redis.current = some o)
    (hPQ : ∀ b, P b → Q b) (ho : Q o.batchId) (l : Option (LockedBatch A)) :
    Located Q { s with redis := ⟨none, l⟩ } := by
  intro x hx
  rcases h x hx with hq | ⟨p, hp, hid⟩ | hl
  · exact .inl hq
  · rw [current, Option.some.injEq] at hp
    exact .inr (.inr (hid ▸ hp ▸ ho))
  · exact .inr (.inr (hPQ _ hl))

/-- What `P` says of an enqueued batch is no longer needed. -/
theorem enqueue (h : Located P s) {b : BatchId} (job : BatchAnnouncerJobData A)
    (hPQ : ∀ c, P c → c = b ∨ Q c) :
    Located Q { s with batchQueue := s.batchQueue.add b job } := by
  intro x hx
  rcases h x hx with hq | ho | hl
  · exact .inl (JobQueue.mem_ids_add.mpr (.inl hq))
  · exact .inr (.inl ho)
  · rcases hPQ _ hl with hb | hl
    · exact .inl (JobQueue.mem_ids_add.mpr (.inr hb))
    · exact .inr (.inr hl)

end Located

/-- The identifier of the batch that a call has already put into the queue. -/
def Call.enqueued? : Call A → Option BatchId
  | .closing _ _ _ _ (.del snapshot) | .closing _ _ _ _ (.deleted snapshot) =>
      some snapshot.batchId
  | _ => none

/-- A call about to delete has put its batch into the queue. -/
def AfterAdd (q : JobQueue BatchId (BatchAnnouncerJobData A)) (_ : CallId) (c : Call A) : Prop :=
  ∀ b, c.enqueued? = some b → b ∈ q.ids

theorem afterAdd_of_none {q : JobQueue BatchId (BatchAnnouncerJobData A)} {i : CallId}
    {c : Call A} (h : c.enqueued? = none) : AfterAdd q i c := fun b hb => by
  rw [h] at hb
  cases hb

def IsLocked (s : BatchState A) (b : BatchId) : Prop :=
  ∃ l, s.redis.locked = some l ∧ l.batchId = b

/-- Every accepted job belongs to the queue, the open or the locked batch. -/
structure Kept (s : BatchState A) : Prop where
  located : Located (IsLocked s) s
  enqueued : ∀ i c, s.calls i = some c → AfterAdd s.batchQueue i c

namespace Kept
variable {s : BatchState A}

theorem setCall (h : Kept s) {i : CallId} {c : Call A} (hc : AfterAdd s.batchQueue i c) :
    Kept (s.setCall i c) :=
  ⟨h.located, State.forall_setCall h.enqueued hc⟩

theorem endCall (h : Kept s) (i : CallId) : Kept (s.endCall i) :=
  ⟨h.located, State.forall_endCall h.enqueued i⟩

theorem setTimeout (h : Kept s) (w : WorkerId) (b : BatchId) (t : Option Timeout) :
    Kept (s.setTimeout w b t) := ⟨h.located, h.enqueued⟩

theorem closeBatch (h : Kept s) (i : CallId) (w : WorkerId) (b : BatchId) (timeout : Bool)
    (raisedFor : BatchId) : Kept (s.closeBatch i w b timeout raisedFor) :=
  h.setCall (afterAdd_of_none rfl)

theorem finish (h : Kept s) (i : CallId) (w : WorkerId) (b : BatchId) (timeout : Bool)
    (raisedFor : BatchId) (status : LockStatus) :
    Kept (s.finish i w b timeout raisedFor status) := by
  cases status with
  | leftover => exact h.closeBatch ..
  | locked => exact h.endCall i

/-- A step that deletes only what its own call holds keeps every job. -/
theorem step (h : Kept s) {cfg : Config} {a : Action A} {t : BatchState A}
    (hown : OwnsLock Batches.store s a) (hst : Step cfg s a t) : Kept t := by
  cases hst with
  | tick ms => exact ⟨h.located, h.enqueued⟩
  | process w i job b free fresh =>
      exact ⟨h.located, State.forall_setCall h.enqueued (afterAdd_of_none rfl)⟩
  | addNew i w job b t call current =>
      refine ⟨h.located.accept (fun p hp => ?_) rfl,
        State.forall_setCall h.enqueued (afterAdd_of_none rfl)⟩
      rw [current] at hp
      cases hp
  | addRow i w job b t o call current =>
      refine ⟨h.located.accept (fun p hp => ?_) rfl,
        State.forall_setCall h.enqueued (afterAdd_of_none rfl)⟩
      rw [current, Option.some.injEq] at hp
      exact hp ▸ rfl
  | addReply i w job b n joined call =>
      unfold State.processReply
      split_ifs
      · exact (h.setTimeout ..).endCall i
      · exact h.closeBatch ..
      · exact h.endCall i
  | setup w i free => exact h.setCall (afterAdd_of_none rfl)
  | setupReply i w m call =>
      cases m with
      | none => exact h.endCall i
      | some m =>
          dsimp only [State.setupReply]
          split_ifs
          · exact h.closeBatch ..
          · exact (h.setTimeout ..).endCall i
  | fire w b i t free timer unfired due => exact (h.setTimeout ..).closeBatch ..
  | lockNone i w b timeout raisedFor now call current => exact h.endCall i
  | lockHeld i w b timeout raisedFor now o l call current locked live => exact h.endCall i
  | lockLeftover i w b timeout raisedFor now o l call current locked expired =>
      exact h.setCall (afterAdd_of_none rfl)
  | lockOpen i w b timeout raisedFor now o call current locked =>
      refine ⟨h.located.lockBatch current ?_ ⟨_, rfl, rfl⟩ _,
        State.forall_setCall h.enqueued (afterAdd_of_none rfl)⟩
      rintro c ⟨l, hl, _⟩
      rw [locked] at hl
      cases hl
  | add i w b timeout raisedFor snapshot call =>
      refine ⟨h.located.enqueue _ fun c => .inr,
        State.forall_setCall (fun k c hk d hd => ?_) (fun d hd => ?_)⟩
      · exact JobQueue.mem_ids_add.mpr (.inl (h.enqueued k c hk d hd))
      · cases hd
        exact JobQueue.mem_ids_add.mpr (.inr rfl)
  | del i w b timeout raisedFor snapshot call =>
      have hafter : AfterAdd s.batchQueue i (.closing w b timeout raisedFor (.del snapshot)) :=
        h.enqueued i _ call
      refine ⟨fun x hx => ?_, State.forall_setCall h.enqueued hafter⟩
      rcases h.located x hx with hq | ho | ⟨l, hl, hid⟩
      · exact .inl hq
      · exact .inr (.inl ho)
      · have hsame : l.batchId = snapshot.batchId :=
          hown snapshot (by simp [State.delRequest?, call, Call.snapshot?, CloseStage.snapshot?])
            l.lockedMetadata (by simp [Batches.store, hl])
        exact .inl (hid ▸ hafter _ (congrArg some hsame.symm))
  | delReply i w b timeout raisedFor snapshot call => exact (h.setTimeout ..).finish ..
  | delFail i w b timeout raisedFor snapshot call => exact h.finish ..
  | throw i c call => exact h.endCall i
  | crash w => exact ⟨h.located, State.forall_filter h.enqueued _⟩

theorem initial : Kept (initial (Batches.empty (A := A))) :=
  ⟨fun _ hx => (by cases hx), fun _ _ hc => (by cases hc)⟩

/-- A job kept somewhere is a row of the batch it joined. -/
theorem retained (h : Kept s) {L : BatchId → Life A} (hL : Ledger L s) :
    Retained Batches.store s := by
  intro x hx hq
  obtain ⟨o, ho, hrow⟩ := hL.accepted x hx
  rcases (h.located x hx).resolve_left hq with ⟨p, hp, hid⟩ | ⟨l, hl, hid⟩
  · have hop : o = p := hL.holds_unique ho (.inr ⟨hp, hid⟩)
    subst p
    exact .inl ⟨by simp [Batches.store, hp, OpenBatch.metadata, hid],
      by simpa [Batches.store, hp] using jobId_mem_flatten.mpr hrow⟩
  · have hol : o = l.toOpenBatch := hL.holds_unique ho (.inl (hid ▸ hL.locked l hl))
    subst o
    exact .inr ⟨by simp [Batches.store, hl, LockedBatch.lockedMetadata, hid],
      by simpa [Batches.store, hl] using jobId_mem_flatten.mpr hrow⟩

end Kept

/-- Deleting a locked batch that is not in the queue loses its jobs. -/
theorem not_retained_clear {s : BatchState A} {L : BatchId → Life A} (hL : Ledger L s)
    {l : LockedBatch A} (hl : s.redis.locked = some l) (hq : l.batchId ∉ s.batchQueue.ids) :
    ¬ Retained Batches.store { s with redis := s.redis.clear } := by
  intro hret
  obtain ⟨row, hrow⟩ := List.exists_mem_of_ne_nil _ l.rows_ne
  have hclosed := hL.locked l hl
  have hacc := (hL.origin l.batchId l.toOpenBatch (.inl hclosed)).2 row hrow
  rcases hret _ hacc hq with ⟨hid, _⟩ | ⟨hid, _⟩
  · obtain ⟨m, hm, hmid⟩ := Option.map_eq_some_iff.mp hid
    obtain ⟨o, ho, rfl⟩ := Option.map_eq_some_iff.mp hm
    have hopen := (hL.current l.batchId).mpr ⟨o, ho, hmid⟩
    rw [hclosed] at hopen
    cases hopen
  · cases hid

end Invariant

section Runs
variable {A : Type} [DecidableEq A]

theorem retained_encode {cfg : Config} {t : BatchState A} :
    Retained (batchingStore cfg) (t.encode cfg) ↔ Retained Batches.store t := by
  simp only [Retained, InOpen, InLocked, metadata_encode, rows_encode, lockedMetadata_encode,
    lockedRows_encode]
  rfl

theorem ownsLock_encode {cfg : Config} {t : BatchState A} {a : Action A} :
    OwnsLock (batchingStore cfg) (t.encode cfg) a ↔ OwnsLock Batches.store t a := by
  simp only [OwnsLock, lockedMetadata_encode]
  rfl

/-- Every accepted job is stored or enqueued, over any interleaving and whatever
calls and workers fail, as long as no `DEL` meets the batch of another call. -/
theorem retained_of_ownsLock (cfg : Config) (as : List (Action A))
    (s : State A (Redis.Store String (Value A))) (hrun : run (batchingStep cfg) start as = some s)
    (hown : EachStep (batchingStep cfg) (OwnsLock (batchingStore cfg)) start as) :
    Retained (batchingStore cfg) s := by
  obtain ⟨t, ht, rfl⟩ := exists_of_run hrun
  obtain ⟨L, hL⟩ := Ledger.of_run ht
  have hkept : Kept t := invariant (C := OwnsLock Batches.store) Kept.initial
    (fun _ _ _ h ho hs => h.step ho (step_cases hs))
    ((eachStep_encode hown).mono fun _ _ => ownsLock_encode.mp) ht
  exact retained_encode.mpr (hkept.retained hL)

end Runs

/-! ## Two schedules -/

/-- The first worker closes a batch, and fails only after its `DEL`. -/
def closeAndCrash : List (Action String) :=
  [.process 0 0 ⟨"j1", "a1"⟩ "b1", .addToBatch 0, .addReply 0, .tick 1000, .fire 0 "b1" 1,
    .lockBatch 1, .process 1 2 ⟨"j2", "a2"⟩ "b2", .addToBatch 2, .add 1, .del 1, .crash 0]

theorem retained_closeAndCrash : ∃ s, run (batchingStep .sample) start closeAndCrash = some s ∧
    Retained (batchingStore .sample) s := by
  obtain ⟨s, hs⟩ := Option.isSome_iff_exists.mp
    (by decide +kernel : (run (batchingStep .sample) start closeAndCrash).isSome)
  exact ⟨s, hs, retained_of_ownsLock .sample closeAndCrash s hs (by decide +kernel)⟩

/-- The second worker takes over the lock of a slow closer and locks the next
batch, which the slow closer then deletes; the second worker's `add` fails. -/
def takeover : List (Action String) :=
  [.process 0 0 ⟨"j1", "a1"⟩ "b1", .addToBatch 0, .addReply 0, .tick 1000, .fire 0 "b1" 1,
    .lockBatch 1, .process 1 2 ⟨"j2", "a2"⟩ "b2", .addToBatch 2, .addReply 2, .tick 7000,
    .fire 1 "b2" 3, .lockBatch 3, .add 3, .del 3, .delReply 3, .lockBatch 3, .add 1, .del 1,
    .throw 3]

theorem not_retained_takeover : ∃ s, run (batchingStep .sample) start takeover = some s ∧
    ¬ Retained (batchingStore .sample) s :=
  exists_of_run_any (by decide +kernel)

end ContentPublishing.Batching
