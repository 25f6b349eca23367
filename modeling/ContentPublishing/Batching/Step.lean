import ContentPublishing.Batching.System
import ContentPublishing.Lib.Entries

/-!
# What one step can do to the open and the locked batch

`Step` lists the transitions of the system over the abstract batches, one
constructor for each way an action can end, with the state before and the guard
that was met. Invariants are proved by cases on it and never unfold `step`.
-/
namespace ContentPublishing.Batching
open Transition
variable {A : Type}

/-- The memory of a `closeBatch` call that has received this batch. -/
def OpenBatch.snapshot (o : OpenBatch A) (status : LockStatus) : Snapshot A :=
  ⟨status, o.batchId, Redis.flatten (hashFields o.rows), o.rows.map Prod.snd⟩

/-- States over the abstract batches. -/
abbrev BatchState (A : Type) := State A (Batches A)

namespace State

/-- A received batch is never empty, so it goes on to be enqueued. -/
theorem receive_snapshot {R : Type} (s : State A R) (i : CallId) (w : WorkerId) (b : BatchId)
    (timeout : Bool) (raisedFor : BatchId) (status : LockStatus) (o : OpenBatch A)
    (m : BatchMetadata) (hm : m.batchId = o.batchId) :
    s.receive i w b timeout raisedFor status (Redis.flatten (hashFields o.rows)) (.metadata m) =
      s.setCall i (.closing w b timeout raisedFor (.add (o.snapshot status))) := by
  have hne : (o.rows.map Prod.snd).isEmpty = false := by
    simpa using o.rows_ne
  simp only [receive, Value.metadata?, parseAnnouncements_flatten, hne, hm]
  rfl

theorem timeouts_setTimeout_self {R : Type} (s : State A R) (w : WorkerId) (b : BatchId)
    (t : Option Timeout) : (s.setTimeout w b t).timeouts w b = t := by
  simp [setTimeout]

/-- A timer found after one entry was written is the new one or an old one. -/
theorem of_timeouts_setTimeout {R : Type} {s : State A R} {v w : WorkerId} {b c : BatchId}
    {t : Option Timeout} {u : Timeout} (h : (s.setTimeout w b t).timeouts v c = some u) :
    (v = w ∧ c = b ∧ t = some u) ∨ (¬ (v = w ∧ c = b) ∧ s.timeouts v c = some u) := by
  by_cases hv : v = w
  · subst v
    by_cases hc : c = b
    · subst c
      rw [timeouts_setTimeout_self] at h
      exact .inl ⟨rfl, rfl, h⟩
    · exact .inr ⟨fun e => hc e.2, by simpa [setTimeout, hc] using h⟩
  · exact .inr ⟨fun e => hv e.1, by simpa [setTimeout, hv] using h⟩

/-! What holds of every in-flight call, when one call is replaced or ended. -/

section Calls
variable {R : Type} {s : State A R} {P : CallId → Call A → Prop}

theorem forall_setCall (h : ∀ k d, s.calls k = some d → P k d) {i : CallId} {c : Call A}
    (hc : P i c) : ∀ k d, (s.setCall i c).calls k = some d → P k d :=
  Entries.forall_update h fun _ e => Option.some.inj e ▸ hc

theorem forall_endCall (h : ∀ k d, s.calls k = some d → P k d) (i : CallId) :
    ∀ k d, (s.endCall i).calls k = some d → P k d :=
  Entries.forall_update h fun _ e => by cases e

theorem forall_filter (h : ∀ k d, s.calls k = some d → P k d) (p : Call A → Bool) :
    ∀ k d, (s.calls k).filter p = some d → P k d :=
  fun k d hd => h k d (Option.filter_eq_some_iff.mp hd).1

end Calls

end State

/-- The transitions of the batching system. -/
inductive Step (cfg : Config) (s : BatchState A) : Action A → BatchState A → Prop
  | tick (ms : ℕ) : Step cfg s (.tick ms) { s with clock := s.clock + ms }
  | process (w : WorkerId) (i : CallId) (job : Job A) (b : BatchId)
      (free : s.calls i = none) (fresh : b ∉ s.issued) :
      Step cfg s (.process w i job b)
        ({ s with issued := b :: s.issued }.setCall i (.adding w job b s.clock))
  | addNew (i : CallId) (w : WorkerId) (job : Job A) (b : BatchId) (t : ℕ)
      (call : s.calls i = some (.adding w job b t)) (current : s.redis.current = none) :
      Step cfg s (.addToBatch i)
        (({ s with
          redis := ⟨some (.single b t (job.id, job.data)), s.redis.locked⟩
          accepted := s.accepted ++ [⟨job.id, job.data, b⟩] } : BatchState A).setCall i
            (.added w job b 1 b))
  | addRow (i : CallId) (w : WorkerId) (job : Job A) (b : BatchId) (t : ℕ) (o : OpenBatch A)
      (call : s.calls i = some (.adding w job b t)) (current : s.redis.current = some o) :
      Step cfg s (.addToBatch i)
        (({ s with
          redis := ⟨some (o.addRow (job.id, job.data)), s.redis.locked⟩
          accepted := s.accepted ++ [⟨job.id, job.data, o.batchId⟩] } : BatchState A).setCall i
            (.added w job b ((o.rowCount + 1 : ℕ) : ℤ) o.batchId))
  | addReply (i : CallId) (w : WorkerId) (job : Job A) (b : BatchId) (n : ℤ) (joined : BatchId)
      (call : s.calls i = some (.added w job b n joined)) :
      Step cfg s (.addReply i) (s.processReply cfg i w b n joined)
  | setup (w : WorkerId) (i : CallId) (free : s.calls i = none) :
      Step cfg s (.setupActiveBatchTimeout w i)
        (s.setCall i (.setup w (s.redis.current.map OpenBatch.metadata)))
  | setupReply (i : CallId) (w : WorkerId) (m : Option BatchMetadata)
      (call : s.calls i = some (.setup w m)) :
      Step cfg s (.setupReply i) (s.setupReply cfg i w m)
  | fire (w : WorkerId) (b : BatchId) (i : CallId) (t : Timeout) (free : s.calls i = none)
      (timer : s.timeouts w b = some t) (unfired : t.fired = false) (due : t.dueAt ≤ s.clock) :
      Step cfg s (.fire w b i)
        ((s.setTimeout w b (some { t with fired := true })).closeBatch i w b true b)
  | lockNone (i : CallId) (w : WorkerId) (b : BatchId) (timeout : Bool) (raisedFor : BatchId)
      (now : ℕ) (call : s.calls i = some (.closing w b timeout raisedFor (.lock now)))
      (current : s.redis.current = none) :
      Step cfg s (.lockBatch i) (s.endCall i)
  | lockHeld (i : CallId) (w : WorkerId) (b : BatchId) (timeout : Bool) (raisedFor : BatchId)
      (now : ℕ) (o : OpenBatch A) (l : LockedBatch A)
      (call : s.calls i = some (.closing w b timeout raisedFor (.lock now)))
      (current : s.redis.current = some o) (locked : s.redis.locked = some l)
      (live : ¬ l.Expired now lockExpireMs) :
      Step cfg s (.lockBatch i) (s.endCall i)
  | lockLeftover (i : CallId) (w : WorkerId) (b : BatchId) (timeout : Bool) (raisedFor : BatchId)
      (now : ℕ) (o : OpenBatch A) (l : LockedBatch A)
      (call : s.calls i = some (.closing w b timeout raisedFor (.lock now)))
      (current : s.redis.current = some o) (locked : s.redis.locked = some l)
      (expired : l.Expired now lockExpireMs) :
      Step cfg s (.lockBatch i)
        (s.setCall i (.closing w b timeout raisedFor (.add (l.toOpenBatch.snapshot .leftover))))
  | lockOpen (i : CallId) (w : WorkerId) (b : BatchId) (timeout : Bool) (raisedFor : BatchId)
      (now : ℕ) (o : OpenBatch A)
      (call : s.calls i = some (.closing w b timeout raisedFor (.lock now)))
      (current : s.redis.current = some o) (locked : s.redis.locked = none) :
      Step cfg s (.lockBatch i)
        (({ s with redis := ⟨none, some (o.lock now)⟩ } : BatchState A).setCall i
          (.closing w b timeout raisedFor (.add (o.snapshot .locked))))
  | add (i : CallId) (w : WorkerId) (b : BatchId) (timeout : Bool) (raisedFor : BatchId)
      (snapshot : Snapshot A)
      (call : s.calls i = some (.closing w b timeout raisedFor (.add snapshot))) :
      Step cfg s (.add i)
        ({ s with
          batchQueue := s.batchQueue.add snapshot.batchId (cfg.batchJob snapshot) }.setCall i
            (.closing w b timeout raisedFor (.del snapshot)))
  | del (i : CallId) (w : WorkerId) (b : BatchId) (timeout : Bool) (raisedFor : BatchId)
      (snapshot : Snapshot A)
      (call : s.calls i = some (.closing w b timeout raisedFor (.del snapshot))) :
      Step cfg s (.del i)
        ({ s with redis := s.redis.clear }.setCall i
          (.closing w b timeout raisedFor (.deleted snapshot)))
  | delReply (i : CallId) (w : WorkerId) (b : BatchId) (timeout : Bool) (raisedFor : BatchId)
      (snapshot : Snapshot A)
      (call : s.calls i = some (.closing w b timeout raisedFor (.deleted snapshot))) :
      Step cfg s (.delReply i)
        ((s.deleteTimeout w b).finish i w b timeout raisedFor snapshot.status)
  | delFail (i : CallId) (w : WorkerId) (b : BatchId) (timeout : Bool) (raisedFor : BatchId)
      (snapshot : Snapshot A)
      (call : s.calls i = some (.closing w b timeout raisedFor (.del snapshot)) ∨
        s.calls i = some (.closing w b timeout raisedFor (.deleted snapshot))) :
      Step cfg s (.delFail i) (s.finish i w b timeout raisedFor snapshot.status)
  | throw (i : CallId) (c : Call A) (call : s.calls i = some c) :
      Step cfg s (.throw i) (s.endCall i)
  | crash (w : WorkerId) :
      Step cfg s (.crash w)
        { s with
          calls := fun i => (s.calls i).filter (fun c => c.worker != w)
          timeouts := Function.update s.timeouts w (fun _ => none) }

/-- Every step over the abstract batches is one of the listed transitions. -/
theorem step_cases {cfg : Config} {s t : BatchState A} {a : Action A}
    (h : step Batches.store cfg s a = some t) : Step cfg s a t := by
  cases a with
  | tick ms => simp only [step, Option.some.injEq] at h; exact h ▸ .tick ms
  | process w i job b =>
      simp only [step, Option.ite_none_left_eq_some, not_or, Option.some.injEq] at h
      obtain ⟨⟨hfree, hfresh⟩, rfl⟩ := h
      exact .process w i job b (by simpa using hfree) hfresh
  | addToBatch i =>
      simp only [step] at h
      split at h
      · next w job b t hc =>
          cases hcur : s.redis.current with
          | none =>
              simp only [Batches.store, Batches.add, hcur, Option.some.injEq] at h
              exact h ▸ .addNew i w job b t hc hcur
          | some o =>
              simp only [Batches.store, Batches.add, hcur, Option.some.injEq] at h
              have hne : ((o.addRow (job.id, job.data)).rowCount : ℤ) ≠ -1 := by omega
              rw [if_neg hne] at h
              exact h ▸ .addRow i w job b t o hc hcur
      · cases h
  | addReply i =>
      simp only [step] at h
      split at h
      · next w job b n joined hc => exact Option.some.inj h ▸ .addReply i w job b n joined hc
      · cases h
  | setupActiveBatchTimeout w i =>
      simp only [step, Option.ite_none_left_eq_some, Option.some.injEq] at h
      obtain ⟨hfree, rfl⟩ := h
      exact .setup w i (by simpa using hfree)
  | setupReply i =>
      simp only [step] at h
      split at h
      · next w m hc => exact Option.some.inj h ▸ .setupReply i w m hc
      · cases h
  | fire w b i =>
      simp only [step] at h
      split at h
      · next t ht =>
          simp only [Option.ite_none_left_eq_some, not_or, Option.some.injEq] at h
          obtain ⟨⟨hfree, hfired, hdue⟩, rfl⟩ := h
          exact .fire w b i t (by simpa using hfree) ht (by simpa using hfired) (not_lt.mp hdue)
      · cases h
  | lockBatch i =>
      simp only [step] at h
      split at h
      · next w b timeout raisedFor now hc =>
          cases hcur : s.redis.current with
          | none =>
              simp only [Batches.store, Batches.lock, hcur, Option.some.injEq] at h
              exact h ▸ .lockNone i w b timeout raisedFor now hc hcur
          | some o =>
              cases hlock : s.redis.locked with
              | none =>
                  simp only [Batches.store, Batches.lock, hcur, hlock, Option.some.injEq,
                    State.lockReply] at h
                  rw [State.receive_snapshot _ _ _ _ _ _ _ o _ rfl] at h
                  exact h ▸ .lockOpen i w b timeout raisedFor now o hc hcur hlock
              | some l =>
                  by_cases he : l.Expired now lockExpireMs
                  · simp only [Batches.store, Batches.lock, hcur, hlock, if_pos he,
                      Option.some.injEq, State.lockReply] at h
                    rw [State.receive_snapshot _ _ _ _ _ _ _ l.toOpenBatch _ rfl] at h
                    exact h ▸ .lockLeftover i w b timeout raisedFor now o l hc hcur hlock he
                  · simp only [Batches.store, Batches.lock, hcur, hlock, if_neg he,
                      Option.some.injEq, State.lockReply] at h
                    exact h ▸ .lockHeld i w b timeout raisedFor now o l hc hcur hlock he
      · cases h
  | add i =>
      simp only [step] at h
      split at h
      · next w b timeout raisedFor snapshot hc =>
          exact Option.some.inj h ▸ .add i w b timeout raisedFor snapshot hc
      · cases h
  | del i =>
      simp only [step] at h
      split at h
      · next w b timeout raisedFor snapshot hc =>
          exact Option.some.inj h ▸ .del i w b timeout raisedFor snapshot hc
      · cases h
  | delReply i =>
      simp only [step] at h
      split at h
      · next w b timeout raisedFor snapshot hc =>
          exact Option.some.inj h ▸ .delReply i w b timeout raisedFor snapshot hc
      · cases h
  | delFail i =>
      simp only [step] at h
      split at h
      · next w b timeout raisedFor snapshot hc =>
          exact Option.some.inj h ▸ .delFail i w b timeout raisedFor snapshot (.inl hc)
      · next w b timeout raisedFor snapshot hc =>
          exact Option.some.inj h ▸ .delFail i w b timeout raisedFor snapshot (.inr hc)
      · cases h
  | throw i =>
      simp only [step, Option.ite_none_right_eq_some, Option.some.injEq] at h
      obtain ⟨hsome, rfl⟩ := h
      obtain ⟨c, hc⟩ := Option.isSome_iff_exists.mp hsome
      exact .throw i c hc
  | crash w => simp only [step, Option.some.injEq] at h; exact h ▸ .crash w

/-- Every listed transition can be taken. -/
theorem Step.enabled {cfg : Config} {s t : BatchState A} {a : Action A} (h : Step cfg s a t) :
    Batching.step Batches.store cfg s a = some t := by
  cases h with
  | tick ms => rfl
  | process w i job b free fresh => simp [Batching.step, free, fresh]
  | addNew i w job b t call current =>
      simp only [Batching.step, call, Batches.store, Batches.add, current]
      rfl
  | addRow i w job b t o call current =>
      have hne : ((o.addRow (job.id, job.data)).rowCount : ℤ) ≠ -1 := by omega
      simp only [Batching.step, call, Batches.store, Batches.add, current, if_neg hne]
      rfl
  | addReply i w job b n joined call => simp [Batching.step, call]
  | setup w i free => simp [Batching.step, free, Batches.store]
  | setupReply i w m call => simp [Batching.step, call]
  | fire w b i u free timer unfired due => simp [Batching.step, free, timer, unfired, due]
  | lockNone i w b timeout raisedFor now call current =>
      simp [Batching.step, call, Batches.store, Batches.lock, current, State.lockReply]
  | lockHeld i w b timeout raisedFor now o l call current locked live =>
      simp [Batching.step, call, Batches.store, Batches.lock, current, locked, live,
        State.lockReply]
  | lockLeftover i w b timeout raisedFor now o l call current locked expired =>
      have hr := s.receive_snapshot i w b timeout raisedFor .leftover l.toOpenBatch
        l.lockedMetadata rfl
      simp [Batching.step, call, Batches.store, Batches.lock, current, locked, expired,
        State.lockReply, hr]
  | lockOpen i w b timeout raisedFor now o call current locked =>
      have hr := State.receive_snapshot
        ({ s with redis := ⟨none, some (o.lock now)⟩ } : BatchState A) i w b timeout
        raisedFor .locked o (o.lock now).lockedMetadata rfl
      simp [Batching.step, call, Batches.store, Batches.lock, current, locked, State.lockReply, hr]
  | add i w b timeout raisedFor snapshot call => simp [Batching.step, call]
  | del i w b timeout raisedFor snapshot call => simp [Batching.step, call, Batches.store]
  | delReply i w b timeout raisedFor snapshot call => simp [Batching.step, call]
  | delFail i w b timeout raisedFor snapshot call =>
      rcases call with call | call <;> simp [Batching.step, call]
  | throw i c call => simp [Batching.step, call]
  | crash w => rfl

/-- The clock never goes back. -/
theorem Step.clock_le {cfg : Config} {s t : BatchState A} {a : Action A} (h : Step cfg s a t) :
    s.clock ≤ t.clock := by
  have hfinish : ∀ (u : BatchState A) i w b timeout raisedFor status,
      (u.finish i w b timeout raisedFor status).clock = u.clock :=
    fun u i w b timeout raisedFor status => by cases status <;> rfl
  cases h with
  | tick ms => exact Nat.le_add_right _ ms
  | addReply =>
      unfold State.processReply
      split_ifs <;> exact le_rfl
  | setupReply i w m =>
      cases m with
      | none => exact le_rfl
      | some m =>
          dsimp only [State.setupReply]
          split_ifs <;> exact le_rfl
  | delReply i w b => exact (hfinish (s.deleteTimeout w b) ..).ge
  | delFail => exact (hfinish ..).ge
  | _ => exact le_rfl

/-! ## The footprint of a schedule

Calls and timers exist only under the identifiers that the schedule mentions,
so what holds of all of them can be checked one by one. -/

/-- The call that an action starts or continues. -/
def Action.call? : Action A → Option CallId
  | .process _ i _ _ | .addToBatch i | .addReply i | .setupActiveBatchTimeout _ i
  | .setupReply i | .fire _ _ i | .lockBatch i | .add i | .del i | .delReply i | .delFail i
  | .throw i => some i
  | .tick _ | .crash _ => none

/-- The worker on which an action starts a call. -/
def Action.worker? : Action A → Option WorkerId
  | .process w _ _ _ | .setupActiveBatchTimeout w _ | .fire w _ _ => some w
  | _ => none

/-- Calls run under these identifiers, calls and timers on these workers. -/
structure Footprint (calls : List CallId) (workers : List WorkerId) (s : BatchState A) :
    Prop where
  calls : ∀ i c, s.calls i = some c → i ∈ calls ∧ c.worker ∈ workers
  timeouts : ∀ w b t, s.timeouts w b = some t → w ∈ workers

namespace Footprint
variable {calls : List CallId} {workers : List WorkerId} {s : BatchState A}

theorem setCall (h : Footprint calls workers s) {i : CallId} {c : Call A}
    (hi : i ∈ calls) (hw : c.worker ∈ workers) : Footprint calls workers (s.setCall i c) :=
  ⟨State.forall_setCall h.calls ⟨hi, hw⟩, h.timeouts⟩

theorem endCall (h : Footprint calls workers s) (i : CallId) :
    Footprint calls workers (s.endCall i) :=
  ⟨State.forall_endCall h.calls i, h.timeouts⟩

theorem setTimeout (h : Footprint calls workers s) {w : WorkerId} (hw : w ∈ workers)
    (b : BatchId) (t : Option Timeout) : Footprint calls workers (s.setTimeout w b t) := by
  refine ⟨h.calls, fun v c u hu => ?_⟩
  rcases State.of_timeouts_setTimeout hu with ⟨rfl, _⟩ | ⟨_, hu⟩
  · exact hw
  · exact h.timeouts v c u hu

theorem finish (h : Footprint calls workers s) {i : CallId} {w : WorkerId} (hi : i ∈ calls)
    (hw : w ∈ workers) (b : BatchId) (timeout : Bool) (raisedFor : BatchId)
    (status : LockStatus) : Footprint calls workers (s.finish i w b timeout raisedFor status) := by
  cases status with
  | leftover => exact h.setCall hi hw
  | locked => exact h.endCall i

theorem step (h : Footprint calls workers s) {cfg : Config} {a : Action A} {t : BatchState A}
    (hi : ∀ i, a.call? = some i → i ∈ calls) (hw : ∀ w, a.worker? = some w → w ∈ workers)
    (hst : Step cfg s a t) : Footprint calls workers t := by
  cases hst with
  | tick ms => exact ⟨h.calls, h.timeouts⟩
  | process w i job b free fresh =>
      exact setCall (s := { s with issued := b :: s.issued }) ⟨h.calls, h.timeouts⟩ (hi i rfl)
        (hw w rfl)
  | addNew i w job b t call current =>
      exact ⟨State.forall_setCall h.calls ⟨hi i rfl, (h.calls i _ call).2⟩, h.timeouts⟩
  | addRow i w job b t o call current =>
      exact ⟨State.forall_setCall h.calls ⟨hi i rfl, (h.calls i _ call).2⟩, h.timeouts⟩
  | addReply i w job b n joined call =>
      unfold State.processReply
      split_ifs
      · exact (h.setTimeout (h.calls i _ call).2 ..).endCall i
      · exact h.setCall (hi i rfl) (h.calls i _ call).2
      · exact h.endCall i
  | setup w i free => exact h.setCall (hi i rfl) (hw w rfl)
  | setupReply i w m call =>
      cases m with
      | none => exact h.endCall i
      | some m =>
          dsimp only [State.setupReply]
          split_ifs
          · exact h.setCall (hi i rfl) (h.calls i _ call).2
          · exact (h.setTimeout (h.calls i _ call).2 ..).endCall i
  | fire w b i t free timer unfired due =>
      exact (h.setTimeout (hw w rfl) ..).setCall (hi i rfl) (hw w rfl)
  | lockNone i w b timeout raisedFor now call current => exact h.endCall i
  | lockHeld i w b timeout raisedFor now o l call current locked live => exact h.endCall i
  | lockLeftover i w b timeout raisedFor now o l call current locked expired =>
      exact h.setCall (hi i rfl) (h.calls i _ call).2
  | lockOpen i w b timeout raisedFor now o call current locked =>
      exact ⟨State.forall_setCall h.calls ⟨hi i rfl, (h.calls i _ call).2⟩, h.timeouts⟩
  | add i w b timeout raisedFor snapshot call =>
      exact ⟨State.forall_setCall h.calls ⟨hi i rfl, (h.calls i _ call).2⟩, h.timeouts⟩
  | del i w b timeout raisedFor snapshot call =>
      exact ⟨State.forall_setCall h.calls ⟨hi i rfl, (h.calls i _ call).2⟩, h.timeouts⟩
  | delReply i w b timeout raisedFor snapshot call =>
      have hcw := (h.calls i _ call).2
      exact (h.setTimeout hcw ..).finish (hi i rfl) hcw ..
  | delFail i w b timeout raisedFor snapshot call =>
      rcases call with call | call <;> exact h.finish (hi i rfl) (h.calls i _ call).2 ..
  | throw i c call => exact h.endCall i
  | crash w =>
      refine ⟨State.forall_filter h.calls _, fun v b t ht => ?_⟩
      by_cases hv : v = w
      · subst v
        simp at ht
      · simp only [Function.update_of_ne hv] at ht
        exact h.timeouts v b t ht

theorem of_run {cfg : Config} {as : List (Action A)} {t : BatchState A}
    (hrun : run (Batching.step Batches.store cfg) (initial .empty) as = some t) :
    Footprint (as.filterMap Action.call?) (as.filterMap Action.worker?) t :=
  invariant (C := fun _ a => a ∈ as)
    ⟨fun _ _ hc => (by cases hc), fun _ _ _ ht => (by cases ht)⟩
    (fun _ a _ h ha hs => h.step (fun i hi => List.mem_filterMap.mpr ⟨a, ha, hi⟩)
      (fun w hw => List.mem_filterMap.mpr ⟨a, ha, hw⟩) (step_cases hs))
    (eachStep_of_mem _) hrun

end Footprint

end ContentPublishing.Batching
