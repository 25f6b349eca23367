import ContentPublishing.Batching.Retention

/-!
# Every announcement in exactly one batch

Overlapping closers may enqueue the same batch, delete each other's lock and
lock the next batch. As long as no closer dies, each accepted job still ends up
in the queue once: batches are told apart by their identifiers, every copy of a
batch has the same rows, and whoever received a batch goes on to enqueue it.
-/
namespace ContentPublishing.Batching
open Transition

section Statements
variable {A R : Type} (store : BatchStore A R)

def Call.isClosing {A : Type} : Call A → Bool
  | .closing .. => true
  | _ => false

/-- No `closeBatch` call throws, alone or with its worker. -/
def CloserSurvives (s : State A R) : Action A → Prop
  | .throw i => ∀ c, s.calls i = some c → c.isClosing = false
  | .crash w => ∀ i c, s.calls i = some c → c.worker = w → c.isClosing = false
  | _ => True

/-- `addToBatch` is not called for a job that it accepted before. -/
def JobIsNew (s : State A R) (a : Action A) : Prop :=
  ∀ job ∈ s.addRequest? a, job.id ∉ s.accepted.map Accepted.jobId

instance (s : State A R) (a : Action A) : Decidable (JobIsNew s a) :=
  inferInstanceAs (Decidable (∀ _ ∈ _, _))

/-- The batch whose `add` a call is about to send. -/
def Call.pending? {A : Type} : Call A → Option BatchId
  | .closing _ _ _ _ (.add snapshot) => some snapshot.batchId
  | _ => none

/-- The batch is in the memory of a call that will still enqueue it. -/
def IsPending (s : State A R) (b : BatchId) : Prop :=
  ∃ i c, s.calls i = some c ∧ c.pending? = some b

/-- One table of rows describes every copy of every batch, and each accepted job
is a row of one batch, which is open, about to be enqueued, or enqueued. -/
structure BatchedOnce (s : State A R) (rows : BatchId → List (Row A)) : Prop where
  nodup : ∀ b, ((rows b).map Prod.fst).Nodup
  accepted : ∀ x ∈ s.accepted, (x.jobId, x.data) ∈ rows x.batchId
  unique : ∀ x ∈ s.accepted, ∀ b, x.jobId ∈ (rows b).map Prod.fst → b = x.batchId
  origin : ∀ b, ∀ r ∈ rows b, ⟨r.1, r.2, b⟩ ∈ s.accepted
  located : ∀ x ∈ s.accepted,
    (store.metadata s.redis).map BatchMetadata.batchId = some x.batchId ∨
      IsPending s x.batchId ∨ x.batchId ∈ s.batchQueue.ids
  openRows : ∀ m, store.metadata s.redis = some m →
    store.rows s.redis = Redis.flatten (hashFields (rows m.batchId))
  snapshots : ∀ i c snapshot, s.calls i = some c → c.snapshot? = some snapshot →
    snapshot.batch = Redis.flatten (hashFields (rows snapshot.batchId)) ∧
      snapshot.announcements = (rows snapshot.batchId).map Prod.snd
  queued : ∀ b job, (b, job) ∈ s.batchQueue.jobs → job.announcements = (rows b).map Prod.snd

end Statements

section Invariant
variable {A : Type} {s : BatchState A}

/-- The rows that an identifier stands for, none if it names no batch. -/
def rowsOf (L : BatchId → Life A) (current : Option (OpenBatch A)) (b : BatchId) : List (Row A) :=
  match L b with
  | .closed o => o.rows
  | .opened => current.elim [] OpenBatch.rows
  | _ => []

namespace Ledger
variable {L : BatchId → Life A}

theorem rowsOf_eq (h : Ledger L s) {b : BatchId} {o : OpenBatch A}
    (ho : Holds L s.redis.current b o) : rowsOf L s.redis.current b = o.rows := by
  unfold rowsOf
  rcases ho with ho | ⟨ho, hb⟩
  · rw [ho]
  · rw [(h.current b).mpr ⟨o, ho, hb⟩, ho]
    rfl

theorem holds_or_rowsOf_eq_nil (h : Ledger L s) (b : BatchId) :
    (∃ o, Holds L s.redis.current b o) ∨ rowsOf L s.redis.current b = [] := by
  cases hb : L b with
  | closed o => exact .inl ⟨o, .inl hb⟩
  | opened =>
      obtain ⟨o, ho⟩ := (h.current b).mp hb
      exact .inl ⟨o, .inr ho⟩
  | unused => exact .inr (by simp [rowsOf, hb])
  | minted i => exact .inr (by simp [rowsOf, hb])
  | spare => exact .inr (by simp [rowsOf, hb])

theorem accepted_of_mem_rowsOf (h : Ledger L s) {b : BatchId} {r : Row A}
    (hr : r ∈ rowsOf L s.redis.current b) : ⟨r.1, r.2, b⟩ ∈ s.accepted := by
  rcases h.holds_or_rowsOf_eq_nil b with ⟨o, ho⟩ | hb
  · rw [h.rowsOf_eq ho] at hr
    exact (h.origin b o ho).2 r hr
  · rw [hb] at hr
    cases hr

end Ledger

theorem IsPending.update {b : BatchId} (h : IsPending s b) {i : CallId}
    (hi : (s.calls i).bind Call.pending? = none) (x : Option (Call A)) :
    IsPending { s with calls := Function.update s.calls i x } b := by
  obtain ⟨k, c, hk, hc⟩ := h
  have hne : k ≠ i := by
    rintro rfl
    rw [hk, Option.bind_some, hc] at hi
    cases hi
  exact ⟨k, c, by simpa [hne] using hk, hc⟩

/-- Every job was accepted once, and its batch is open, about to be enqueued or
in the queue. -/
structure Placed (s : BatchState A) : Prop where
  located : Located (IsPending s) s
  once : (s.accepted.map Accepted.jobId).Nodup

namespace Placed

theorem setCall (h : Placed s) {i : CallId} (hi : (s.calls i).bind Call.pending? = none)
    (c : Call A) : Placed (s.setCall i c) :=
  ⟨h.located.mono fun _ hb => hb.update hi _, h.once⟩

theorem endCall (h : Placed s) {i : CallId} (hi : (s.calls i).bind Call.pending? = none) :
    Placed (s.endCall i) :=
  ⟨h.located.mono fun _ hb => hb.update hi _, h.once⟩

theorem setTimeout (h : Placed s) (w : WorkerId) (b : BatchId) (t : Option Timeout) :
    Placed (s.setTimeout w b t) := ⟨h.located, h.once⟩

theorem closeBatch (h : Placed s) {i : CallId} (hi : (s.calls i).bind Call.pending? = none)
    (w : WorkerId) (b : BatchId) (timeout : Bool) (raisedFor : BatchId) :
    Placed (s.closeBatch i w b timeout raisedFor) :=
  h.setCall hi _

theorem finish (h : Placed s) {i : CallId} (hi : (s.calls i).bind Call.pending? = none)
    (w : WorkerId) (b : BatchId) (timeout : Bool) (raisedFor : BatchId) (status : LockStatus) :
    Placed (s.finish i w b timeout raisedFor status) := by
  cases status with
  | leftover => exact h.closeBatch hi ..
  | locked => exact h.endCall hi

/-- A new job joins the batch that is open now. -/
theorem accept (h : Placed s) {o : OpenBatch A} {x : Accepted A}
    (hid : ∀ p, s.redis.current = some p → p.batchId = o.batchId) (hx : o.batchId = x.batchId)
    (hnew : x.jobId ∉ s.accepted.map Accepted.jobId) :
    Placed { s with
      redis := ⟨some o, s.redis.locked⟩
      accepted := s.accepted ++ [x] } :=
  ⟨h.located.accept hid hx, by simpa using List.Nodup.concat hnew h.once⟩

/-- A step that keeps the closers alive and accepts no job again. -/
theorem step (h : Placed s) {cfg : Config} {a : Action A} {t : BatchState A}
    (halive : CloserSurvives s a) (hnew : JobIsNew s a) (hst : Step cfg s a t) : Placed t := by
  have idle : ∀ {i : CallId} {c : Call A}, s.calls i = some c → c.pending? = none →
      (s.calls i).bind Call.pending? = none := fun hc hn => by rw [hc, Option.bind_some, hn]
  have free : ∀ {i : CallId}, s.calls i = none → (s.calls i).bind Call.pending? = none :=
    fun hc => by rw [hc, Option.bind_none]
  cases hst with
  | tick ms => exact ⟨h.located, h.once⟩
  | process w i job b hfree fresh =>
      exact setCall (s := { s with issued := b :: s.issued }) ⟨h.located, h.once⟩ (free hfree) _
  | addNew i w job b t call current =>
      have haccept := h.accept (o := .single b t (job.id, job.data)) (x := ⟨job.id, job.data, b⟩)
        (fun p hp => by rw [current] at hp; cases hp) rfl
        (hnew job (by simp [State.addRequest?, call]))
      exact haccept.setCall (idle call rfl) _
  | addRow i w job b t o call current =>
      have haccept := h.accept (o := o.addRow (job.id, job.data))
        (x := ⟨job.id, job.data, o.batchId⟩)
        (fun p hp => by rw [current, Option.some.injEq] at hp; exact hp ▸ rfl) rfl
        (hnew job (by simp [State.addRequest?, call]))
      exact haccept.setCall (idle call rfl) _
  | addReply i w job b n joined call =>
      unfold State.processReply
      split_ifs
      · exact (h.setTimeout ..).endCall (idle call rfl)
      · exact h.closeBatch (idle call rfl) ..
      · exact h.endCall (idle call rfl)
  | setup w i hfree => exact h.setCall (free hfree) _
  | setupReply i w m call =>
      cases m with
      | none => exact h.endCall (idle call rfl)
      | some m =>
          dsimp only [State.setupReply]
          split_ifs
          · exact h.closeBatch (idle call rfl) ..
          · exact (h.setTimeout ..).endCall (idle call rfl)
  | fire w b i t hfree timer unfired due => exact (h.setTimeout ..).closeBatch (free hfree) ..
  | lockNone i w b timeout raisedFor now call current => exact h.endCall (idle call rfl)
  | lockHeld i w b timeout raisedFor now o l call current locked live =>
      exact h.endCall (idle call rfl)
  | lockLeftover i w b timeout raisedFor now o l call current locked expired =>
      exact h.setCall (idle call rfl) _
  | lockOpen i w b timeout raisedFor now o call current locked =>
      have hmine : IsPending (s.setCall i
          (.closing w b timeout raisedFor (.add (o.snapshot .locked)))) o.batchId :=
        ⟨i, _, Function.update_self .., rfl⟩
      exact ⟨h.located.lockBatch current (fun c hc => hc.update (idle call rfl) _) hmine _, h.once⟩
  | add i w b timeout raisedFor snapshot call =>
      refine ⟨h.located.enqueue _ ?_, h.once⟩
      rintro c ⟨k, d, hk, hd⟩
      by_cases hki : k = i
      · subst k
        rw [call, Option.some.injEq] at hk
        subst d
        exact .inl (Option.some.inj hd).symm
      · exact .inr ⟨k, d, by simpa [State.setCall, hki] using hk, hd⟩
  | del i w b timeout raisedFor snapshot call =>
      exact setCall (s := { s with redis := s.redis.clear }) ⟨h.located, h.once⟩ (idle call rfl) _
  | delReply i w b timeout raisedFor snapshot call =>
      exact (h.setTimeout ..).finish (idle call rfl) ..
  | delFail i w b timeout raisedFor snapshot call =>
      rcases call with call | call <;> exact h.finish (idle call rfl) ..
  | throw i c call =>
      refine h.endCall (idle call ?_)
      have hc := halive c call
      cases c with
      | closing => cases hc
      | _ => rfl
  | crash w =>
      refine ⟨h.located.mono ?_, h.once⟩
      rintro b ⟨i, c, hi, hc⟩
      have hw : c.worker ≠ w := fun hw => by
        have hclosing := halive i c hi hw
        cases c with
        | closing => cases hclosing
        | _ => cases hc
      exact ⟨i, c, by simp [hi, hw], hc⟩

theorem initial : Placed (initial (Batches.empty (A := A))) :=
  ⟨fun _ hx => (by cases hx), List.nodup_nil⟩

/-- The rows kept by the ledger describe every copy of every batch. -/
theorem batchedOnce (h : Placed s) {L : BatchId → Life A} (hL : Ledger L s) :
    BatchedOnce Batches.store s (rowsOf L s.redis.current) := by
  have unique : ∀ x ∈ s.accepted, ∀ y ∈ s.accepted, x.jobId = y.jobId → x = y :=
    fun x hx y hy e => List.inj_on_of_nodup_map h.once hx hy e
  refine ⟨fun b => ?_, fun x hx => ?_, fun x hx b hb => ?_, fun b r => hL.accepted_of_mem_rowsOf,
    fun x hx => ?_, fun m hm => ?_, fun i c snapshot hc hs => ?_, fun b job hj => ?_⟩
  · rcases hL.holds_or_rowsOf_eq_nil b with ⟨o, ho⟩ | hb
    · rw [hL.rowsOf_eq ho]
      exact o.nodup
    · rw [hb]
      exact List.nodup_nil
  · obtain ⟨o, ho, hj⟩ := hL.accepted x hx
    rw [hL.rowsOf_eq ho]
    obtain ⟨⟨j, d⟩, hrow, rfl⟩ := List.mem_map.mp hj
    have hsame := unique _ ((hL.origin _ o ho).2 _ hrow) x hx rfl
    exact (congrArg Accepted.data hsame : d = x.data) ▸ hrow
  · obtain ⟨r, hr, hrj⟩ := List.mem_map.mp hb
    exact congrArg Accepted.batchId (unique _ (hL.accepted_of_mem_rowsOf hr) x hx hrj)
  · rcases h.located x hx with hq | ⟨o, ho, hid⟩ | hp
    · exact .inr (.inr hq)
    · exact .inl (by simp [Batches.store, ho, OpenBatch.metadata, hid])
    · exact .inr (.inl hp)
  · obtain ⟨o, ho, rfl⟩ := Option.map_eq_some_iff.mp hm
    have hrows : rowsOf L s.redis.current o.metadata.batchId = o.rows :=
      hL.rowsOf_eq (.inr ⟨ho, rfl⟩)
    rw [hrows]
    simp [Batches.store, ho]
  · have hcall := hL.calls i c hc
    cases c with
    | closing w b timeout raisedFor stage =>
        obtain ⟨o, ho, hso⟩ := hcall.2.2 snapshot hs
        rw [hL.rowsOf_eq (.inl ho), hso]
        exact ⟨rfl, rfl⟩
    | adding => cases hs
    | added => cases hs
    | setup => cases hs
  · obtain ⟨o, ho, hja⟩ := hL.queue b job hj
    rw [hL.rowsOf_eq (.inl ho), hja]

end Placed

end Invariant

section Runs
variable {A : Type} [DecidableEq A]

/-- Exactly-once batching over any interleaving in which no closer dies. -/
theorem batchedOnce_of_run (cfg : Config) (as : List (Action A))
    (s : State A (Redis.Store String (Value A))) (hrun : run (batchingStep cfg) start as = some s)
    (halive : EachStep (batchingStep cfg) CloserSurvives start as)
    (hnew : EachStep (batchingStep cfg) JobIsNew start as) :
    ∃ rows, BatchedOnce (batchingStore cfg) s rows := by
  obtain ⟨t, ht, rfl⟩ := exists_of_run hrun
  obtain ⟨L, hL⟩ := Ledger.of_run ht
  have hplaced : Placed t := invariant (C := fun u a => CloserSurvives u a ∧ JobIsNew u a)
    Placed.initial (fun _ _ _ h hc hs => h.step hc.1 hc.2 (step_cases hs))
    ((eachStep_encode halive).and (eachStep_encode hnew)) ht
  have h := hplaced.batchedOnce hL
  refine ⟨_, { h with located := fun x hx => ?_, openRows := ?_ }⟩
  · rw [metadata_encode]
    exact h.located x hx
  · simpa only [metadata_encode, rows_encode] using h.openRows

end Runs

/-- A lock is taken over from a live closer, both enqueue the first batch, and
the late `DEL` meets the second one. -/
def overlap : List (Action String) :=
  [.process 0 0 ⟨"j1", "a1"⟩ "b1", .addToBatch 0, .addReply 0, .tick 1000, .fire 0 "b1" 1,
    .lockBatch 1, .process 1 2 ⟨"j2", "a2"⟩ "b2", .addToBatch 2, .addReply 2, .tick 7000,
    .fire 1 "b2" 3, .lockBatch 3, .add 3, .del 3, .delReply 3, .lockBatch 3, .add 1, .del 1]

theorem batchedOnce_overlap : ∃ s, run (batchingStep .sample) start overlap = some s ∧
    ∃ rows, BatchedOnce (batchingStore .sample) s rows := by
  obtain ⟨s, hs⟩ := Option.isSome_iff_exists.mp
    (by decide +kernel : (run (batchingStep .sample) start overlap).isSome)
  refine ⟨s, hs, batchedOnce_of_run .sample overlap s hs ?_ (by decide +kernel)⟩
  exact eachStep_of_forall_mem (by simp [overlap, CloserSurvives]) _

end ContentPublishing.Batching
