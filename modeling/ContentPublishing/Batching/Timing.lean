import ContentPublishing.Batching.Ledger
import Mathlib.Tactic.Ring
import Mathlib.Tactic.Linarith

/-!
# Whether a batch is closed before its time

A timer is armed for one batch and a size trigger is raised by a row of one
batch, but `closeBatch` closes whatever is open when it runs. While every
trigger meets the batch it was raised for, a batch is closed only when it is
full or its interval has elapsed. A timer that outlives its batch, because the
size trigger deletes a timer under a name that was never armed, closes a later
batch early.
-/
namespace ContentPublishing.Batching
open Transition

/-- The metadata of the batch that an answer `1` closes. -/
def LockReply.closed? {A : Type} : LockReply (Value A) → Option BatchMetadata
  | .locked _ metadata => metadata.metadata?
  | _ => none

section Statements
variable {A R : Type} (store : BatchStore A R) (cfg : Config)

/-- A batch closed by this step is full or its interval has elapsed. -/
def ClosesInTime (s : State A R) (a : Action A) : Prop :=
  ∀ q ∈ s.lockRequest? a,
    ∀ m ∈ (store.lockBatch q.now lockExpireMs s.redis).1.toOption.bind LockReply.closed?,
      (∃ n ∈ m.rowCount, cfg.batchMaxCount ≤ n) ∨ m.startTimestamp + cfg.batchTimeoutMs ≤ s.clock

/-- A `lockBatch` that finds no locked batch meets the batch it was raised for. -/
def MeetsOwnBatch (s : State A R) (a : Action A) : Prop :=
  ∀ q ∈ s.lockRequest? a, store.lockedMetadata s.redis = none →
    ∀ m ∈ store.metadata s.redis, m.batchId = q.raisedFor

instance (s : State A R) (a : Action A) : Decidable (ClosesInTime store cfg s a) :=
  inferInstanceAs (Decidable (∀ _ ∈ _, _))

instance (s : State A R) (a : Action A) : Decidable (MeetsOwnBatch store s a) :=
  inferInstanceAs (Decidable (∀ _ ∈ _, _))

end Statements

section Invariant
variable {A : Type} {cfg : Config} {N clock : ℕ} {o : OpenBatch A} {s : BatchState A}

/-- The batch may be closed now; `N` is the batch interval in milliseconds. -/
def Ripe (cfg : Config) (N clock : ℕ) (o : OpenBatch A) : Prop :=
  cfg.batchMaxCount ≤ o.rowCount ∨ o.startTimestamp + N ≤ clock

theorem Ripe.mono {clock' : ℕ} (h : Ripe cfg N clock o) (hc : clock ≤ clock') :
    Ripe cfg N clock' o :=
  h.imp id fun h => h.trans hc

theorem Ripe.addRow (h : Ripe cfg N clock o) (row : Row A) : Ripe cfg N clock (o.addRow row) := by
  refine h.imp (fun h => h.trans ?_) id
  exact_mod_cast Nat.le_succ o.rowCount

/-- A `process` call has read the clock in the past. -/
def Call.Started (clock : ℕ) : Call A → Prop
  | .adding _ _ _ t => t ≤ clock
  | _ => True

/-- What a call knows about the open batch, if it is the one the call is about. -/
def Call.Timely (cfg : Config) (N clock : ℕ) (o : OpenBatch A) : Call A → Prop
  | .adding .. => True
  | .added _ _ _ n joined => joined = o.batchId → n ≤ o.rowCount
  | .setup _ m => ∀ metadata, m = some metadata → metadata.batchId = o.batchId →
      metadata.startTimestamp = o.startTimestamp
  | .closing _ _ _ raisedFor _ => raisedFor = o.batchId → Ripe cfg N clock o

theorem Call.Timely.mono {clock' : ℕ} {c : Call A} (h : c.Timely cfg N clock o)
    (hc : clock ≤ clock') : c.Timely cfg N clock' o := by
  cases c with
  | closing => exact fun hr => (h hr).mono hc
  | _ => exact h

theorem Call.Timely.addRow {c : Call A} (h : c.Timely cfg N clock o) (row : Row A) :
    c.Timely cfg N clock (o.addRow row) := by
  cases c with
  | adding => trivial
  | added w job b n joined =>
      intro hj
      have hn : n ≤ o.rowCount := h hj
      have hadd : (o.addRow row).rowCount = o.rowCount + 1 := rfl
      omega
  | setup => exact h
  | closing => exact fun hr => (h hr).addRow row

/-- Timers are armed for the end of the interval, and closers are under way only
for a batch that may be closed. -/
structure Timely (cfg : Config) (N : ℕ) (s : BatchState A) : Prop where
  started : ∀ i c, s.calls i = some c → c.Started s.clock
  opened : ∀ o, s.redis.current = some o → o.startTimestamp ≤ s.clock
  timeouts : ∀ o, s.redis.current = some o → ∀ w t, s.timeouts w o.batchId = some t →
    o.startTimestamp + N ≤ t.dueAt
  calls : ∀ o, s.redis.current = some o → ∀ i c, s.calls i = some c →
    c.Timely cfg N s.clock o

/-- A timer armed for the rest of the interval is due at its end. -/
theorem dueAt_remaining {start : ℕ} (hstart : start ≤ clock) (hopen : clock < start + N)
    (hmax : N ≤ timeoutMax) :
    clock + setTimeoutDelay ((N : ℚ) - ((clock - start : ℤ) : ℚ)) = start + N := by
  have hcast : (N : ℚ) - ((clock - start : ℤ) : ℚ) = ((start + N - clock : ℕ) : ℚ) := by
    rw [Nat.cast_sub hopen.le]
    push_cast
    ring
  rw [hcast, setTimeoutDelay_natCast (by omega) (by omega)]
  omega

namespace Timely

theorem of_noBatch (hnone : s.redis.current = none)
    (h : ∀ i c, s.calls i = some c → c.Started s.clock) : Timely cfg N s := by
  have none_open : ∀ o, s.redis.current ≠ some o := fun o ho => by
    rw [hnone] at ho
    cases ho
  exact ⟨h, fun o ho => (none_open o ho).elim, fun o ho => (none_open o ho).elim,
    fun o ho => (none_open o ho).elim⟩

theorem setCall (h : Timely cfg N s) {i : CallId} {c : Call A} (hs : c.Started s.clock)
    (hc : ∀ o, s.redis.current = some o → c.Timely cfg N s.clock o) :
    Timely cfg N (s.setCall i c) :=
  { h with
    started := State.forall_setCall h.started hs
    calls := fun o ho => State.forall_setCall (h.calls o ho) (hc o ho) }

theorem endCall (h : Timely cfg N s) (i : CallId) : Timely cfg N (s.endCall i) :=
  { h with
    started := State.forall_endCall h.started i
    calls := fun o ho => State.forall_endCall (h.calls o ho) i }

theorem setTimeout (h : Timely cfg N s) (w : WorkerId) {b : BatchId} {t : Option Timeout}
    (ht : ∀ o, s.redis.current = some o → b = o.batchId → ∀ u, t = some u →
      o.startTimestamp + N ≤ u.dueAt) : Timely cfg N (s.setTimeout w b t) := by
  refine { h with timeouts := fun o ho v u hu => ?_ }
  rcases State.of_timeouts_setTimeout hu with ⟨_, hb, hu⟩ | ⟨_, hu⟩
  · exact ht o ho hb.symm u hu
  · exact h.timeouts o ho v u hu

theorem closeBatch (h : Timely cfg N s) {i : CallId} {w : WorkerId} {b : BatchId}
    {timeout : Bool} {raisedFor : BatchId}
    (hr : ∀ o, s.redis.current = some o → raisedFor = o.batchId → Ripe cfg N s.clock o) :
    Timely cfg N (s.closeBatch i w b timeout raisedFor) :=
  h.setCall trivial hr

theorem finish (h : Timely cfg N s) {i : CallId} {w : WorkerId} {b : BatchId}
    {timeout : Bool} {raisedFor : BatchId} (status : LockStatus)
    (hr : ∀ o, s.redis.current = some o → raisedFor = o.batchId → Ripe cfg N s.clock o) :
    Timely cfg N (s.finish i w b timeout raisedFor status) := by
  cases status with
  | leftover => exact h.closeBatch hr
  | locked => exact h.endCall i

/-- A batch that is opened now is unknown to all calls and timers. -/
theorem openBatch (h : Timely cfg N s) {L : BatchId → Life A} (hL : Ledger L s) {i : CallId}
    {w : WorkerId} {job : Job A} {b : BatchId} {t : ℕ}
    (call : s.calls i = some (.adding w job b t)) :
    Timely cfg N (({ s with
      redis := ⟨some (.single b t (job.id, job.data)), s.redis.locked⟩
      accepted := s.accepted ++ [⟨job.id, job.data, b⟩] } : BatchState A).setCall i
        (.added w job b 1 b)) := by
  have unknown : ¬ (L b).IsBatch := fun hb => hL.unsettled call (.inl hb)
  refine ⟨State.forall_setCall h.started trivial, ?_, ?_, ?_⟩
  · rintro o ⟨⟩
    exact h.started i _ call
  · rintro o ⟨⟩ v u hu
    exact (unknown (hL.timeouts v b u hu)).elim
  · rintro o ⟨⟩
    refine State.forall_setCall (fun k c hk => ?_) fun _ => le_rfl
    have hok := hL.calls k c hk
    cases c with
    | adding => trivial
    | added w' job' b' n joined =>
        rintro rfl
        exact (unknown hok.2.1).elim
    | setup w' m =>
        intro metadata hm hid
        exact (unknown ((congrArg (Life.IsBatch ∘ L) hid).mp (hok metadata hm))).elim
    | closing w' b' timeout raisedFor stage =>
        rintro rfl
        exact (unknown hok.2.1).elim

/-- Every step keeps the times, whatever fails. -/
theorem step (h : Timely cfg N s) {L : BatchId → Life A} (hL : Ledger L s)
    (hN : cfg.batchTimeoutMs = N) (hpos : 1 ≤ N) (hmax : N ≤ timeoutMax) {a : Action A}
    {t : BatchState A} (hst : Step cfg s a t) : Timely cfg N t := by
  cases hst with
  | tick ms =>
      refine ⟨fun i c hc => ?_, fun o ho => (h.opened o ho).trans (Nat.le_add_right _ ms),
        h.timeouts, fun o ho i c hc => (h.calls o ho i c hc).mono (Nat.le_add_right _ ms)⟩
      have hs := h.started i c hc
      cases c with
      | adding => exact hs.trans (Nat.le_add_right _ ms)
      | _ => trivial
  | process w i job b free fresh =>
      exact setCall (s := { s with issued := b :: s.issued }) { h with } le_rfl
        fun _ _ => trivial
  | addNew i w job b t call current => exact h.openBatch hL call
  | addRow i w job b t o call current =>
      refine ⟨State.forall_setCall h.started trivial, ?_, ?_, ?_⟩
      · rintro p ⟨⟩
        exact h.opened o current
      · rintro p ⟨⟩
        exact h.timeouts o current
      · rintro p ⟨⟩
        exact State.forall_setCall (fun k c hk => (h.calls o current k c hk).addRow _)
          fun _ => le_rfl
  | addReply i w job b n joined call =>
      have hn : ∀ o, s.redis.current = some o → joined = o.batchId → n ≤ o.rowCount :=
        fun o ho => h.calls o ho i _ call
      unfold State.processReply
      split_ifs with h1 h2
      · refine (h.setTimeout w fun o ho _ u hu => ?_).endCall i
        obtain rfl := Option.some.inj hu
        have hopen := h.opened o ho
        rw [hN, setTimeoutDelay_natCast hpos hmax]
        dsimp only
        omega
      · refine h.closeBatch fun o ho hj => .inl (h2.trans ?_)
        exact_mod_cast hn o ho hj
      · exact h.endCall i
  | setup w i free =>
      refine h.setCall trivial fun o ho metadata hm _ => ?_
      rw [ho, Option.map_some, Option.some.injEq] at hm
      exact hm ▸ rfl
  | setupReply i w m call =>
      cases m with
      | none => exact h.endCall i
      | some m =>
          have hm : ∀ o, s.redis.current = some o → m.batchId = o.batchId →
              m.startTimestamp = o.startTimestamp ∧ o.startTimestamp ≤ s.clock :=
            fun o ho hid => ⟨h.calls o ho i _ call m rfl hid, h.opened o ho⟩
          dsimp only [State.setupReply]
          rw [hN]
          split_ifs with hpast
          · refine h.closeBatch fun o ho hid => .inr ?_
            have hpast' : (N : ℤ) ≤ s.clock - m.startTimestamp := by exact_mod_cast hpast
            have := hm o ho hid
            omega
          · refine (h.setTimeout w fun o ho hid u hu => ?_).endCall i
            obtain rfl := Option.some.inj hu
            obtain ⟨hstart, hclock⟩ := hm o ho hid
            have hopen : ¬ (N : ℤ) ≤ s.clock - m.startTimestamp := by exact_mod_cast hpast
            rw [hstart] at hopen ⊢
            exact (dueAt_remaining hclock (by omega) hmax).ge
  | fire w b i u free timer unfired due =>
      have hripe : ∀ o, s.redis.current = some o → b = o.batchId → Ripe cfg N s.clock o :=
        fun o ho hb => .inr ((h.timeouts o ho w u (hb ▸ timer)).trans due)
      refine closeBatch (h.setTimeout w fun o ho hb v hv => ?_) hripe
      obtain rfl := Option.some.inj hv
      exact h.timeouts o ho w u (hb ▸ timer)
  | lockNone i w b timeout raisedFor now call current => exact h.endCall i
  | lockHeld i w b timeout raisedFor now o l call current locked live => exact h.endCall i
  | lockLeftover i w b timeout raisedFor now o l call current locked expired =>
      have hcall := fun p hp => h.calls p hp i _ call
      exact h.setCall trivial hcall
  | lockOpen i w b timeout raisedFor now o call current locked =>
      exact .of_noBatch rfl (State.forall_setCall h.started trivial)
  | add i w b timeout raisedFor snapshot call =>
      have hcall := fun p hp => h.calls p hp i _ call
      exact ⟨State.forall_setCall h.started trivial, h.opened, h.timeouts,
        fun o ho => State.forall_setCall (h.calls o ho) (hcall o ho)⟩
  | del i w b timeout raisedFor snapshot call =>
      have hcall := fun p hp => h.calls p hp i _ call
      exact ⟨State.forall_setCall h.started trivial, h.opened, h.timeouts,
        fun o ho => State.forall_setCall (h.calls o ho) (hcall o ho)⟩
  | delReply i w b timeout raisedFor snapshot call =>
      have hcleared : Timely cfg N (s.setTimeout w b none) :=
        h.setTimeout w fun _ _ _ _ hu => (by cases hu)
      exact hcleared.finish _ fun o ho => h.calls o ho i _ call
  | delFail i w b timeout raisedFor snapshot call =>
      rcases call with call | call <;>
        exact h.finish _ fun o ho => h.calls o ho i _ call
  | throw i c call => exact h.endCall i
  | crash w =>
      refine ⟨State.forall_filter h.started _, h.opened, fun o ho v u hu => ?_,
        fun o ho => State.forall_filter (h.calls o ho) _⟩
      by_cases hv : v = w
      · subst v
        simp at hu
      · simp only [Function.update_of_ne hv] at hu
        exact h.timeouts o ho v u hu

theorem initial : Timely cfg N (initial (Batches.empty (A := A))) :=
  .of_noBatch rfl fun _ _ hc => (by cases hc)

/-- A call that closes the batch it was raised for closes it in time. -/
theorem closesInTime (h : Timely cfg N s) (hN : cfg.batchTimeoutMs = N) {a : Action A}
    (hown : MeetsOwnBatch Batches.store s a) : ClosesInTime Batches.store cfg s a := by
  intro q hq m hm
  have hclosed : ∃ o, s.redis.current = some o ∧ s.redis.locked = none ∧
      m = (o.lock q.now).lockedMetadata := by
    revert hm
    cases ho : s.redis.current with
    | none => simp [Batches.store, Batches.lock, ho, LockReply.closed?, Except.toOption]
    | some o =>
        cases hl : s.redis.locked with
        | none =>
            simp [Batches.store, Batches.lock, ho, hl, LockReply.closed?, Except.toOption,
              Value.metadata?, eq_comm]
        | some l =>
            by_cases he : l.Expired q.now lockExpireMs <;>
              simp [Batches.store, Batches.lock, ho, hl, he, LockReply.closed?, Except.toOption]
  obtain ⟨o, ho, hl, rfl⟩ := hclosed
  have hid : o.batchId = q.raisedFor :=
    hown q hq (by simp [Batches.store, hl]) o.metadata (by simp [Batches.store, ho])
  have hripe : Ripe cfg N s.clock o := by
    cases a with
    | lockBatch i =>
        obtain ⟨c, hc, hcq⟩ := Option.bind_eq_some_iff.mp hq
        have hcall := h.calls o ho i c hc
        cases c with
        | closing w b timeout raisedFor stage =>
            cases stage with
            | lock now =>
                obtain rfl := Option.some.inj hcq
                exact hcall hid.symm
            | _ => cases hcq
        | _ => cases hcq
    | _ => cases hq
  refine hripe.imp (fun hfull => ⟨o.rowCount, rfl, hfull⟩) fun hold => ?_
  rw [hN]
  exact_mod_cast hold

end Timely

end Invariant

section Runs
variable {A : Type} [DecidableEq A]

theorem closesInTime_encode {cfg : Config} {t : BatchState A} {a : Action A} :
    ClosesInTime (batchingStore cfg) cfg (t.encode cfg) a ↔ ClosesInTime Batches.store cfg t a := by
  simp only [ClosesInTime, lockBatch_encode]
  rfl

theorem meetsOwnBatch_encode {cfg : Config} {t : BatchState A} {a : Action A} :
    MeetsOwnBatch (batchingStore cfg) (t.encode cfg) a ↔ MeetsOwnBatch Batches.store t a := by
  simp only [MeetsOwnBatch, metadata_encode, lockedMetadata_encode]
  rfl

/-- Batches are closed in time in every run whose triggers meet their own batch,
if the interval is a whole number of milliseconds that a timer can wait. -/
theorem closesInTime_of_meetsOwnBatch (cfg : Config) (N : ℕ) (hN : cfg.batchTimeoutMs = N)
    (hmax : N ≤ timeoutMax) (as : List (Action A))
    (hown : EachStep (batchingStep cfg) (MeetsOwnBatch (batchingStore cfg)) start as) :
    EachStep (batchingStep cfg) (ClosesInTime (batchingStore cfg) cfg) start as := by
  have hpos : 1 ≤ N := by
    have hmin := cfg.batchIntervalSeconds_min
    have hms : (1000 : ℚ) ≤ N := by
      rw [← hN, Config.batchTimeoutMs, millisecondsPerSecond]
      push_cast
      linarith
    have : 1000 ≤ N := by exact_mod_cast hms
    omega
  intro bs a s hp hrun
  obtain ⟨t, ht, rfl⟩ := exists_of_run hrun
  have htimely : ∃ L, Ledger L t ∧ Timely cfg N t := by
    refine invariant (C := fun _ _ => True) (I := fun u => ∃ L, Ledger L u ∧ Timely cfg N u)
      ⟨_, .initial, .initial⟩ ?_ (fun _ _ _ _ _ => trivial) ht
    rintro u a v ⟨L, hL, h⟩ _ hs
    obtain ⟨L', _, hL'⟩ := hL.step (step_cases hs)
    exact ⟨L', hL', h.step hL hN hpos hmax (step_cases hs)⟩
  obtain ⟨_, _, h⟩ := htimely
  exact closesInTime_encode.mpr (h.closesInTime hN (meetsOwnBatch_encode.mp (hown bs a _ hp hrun)))

end Runs

/-- A full batch is closed by its second row, the next one by its own timer. -/
def ownTriggers : List (Action String) :=
  [.process 0 0 ⟨"j1", "a1"⟩ "b1", .addToBatch 0, .addReply 0,
    .process 0 1 ⟨"j2", "a2"⟩ "b2", .addToBatch 1, .addReply 1, .lockBatch 1, .add 1, .del 1,
    .delReply 1, .process 0 2 ⟨"j3", "a3"⟩ "b3", .addToBatch 2, .addReply 2, .tick 1000,
    .fire 0 "b3" 3, .lockBatch 3]

theorem closesInTime_ownTriggers : (run (batchingStep .sample) start ownTriggers).isSome ∧
    EachStep (batchingStep .sample) (ClosesInTime (batchingStore .sample) .sample) start
      ownTriggers :=
  ⟨by decide +kernel, closesInTime_of_meetsOwnBatch .sample 1000 (by decide +kernel) (by decide)
    ownTriggers (by decide +kernel)⟩

/-- The timer of a batch closed by its second row fires 100 ms after the next
batch was opened. -/
def staleTimer : List (Action String) :=
  [.process 0 0 ⟨"j1", "a1"⟩ "b1", .addToBatch 0, .addReply 0,
    .process 0 1 ⟨"j2", "a2"⟩ "b2", .addToBatch 1, .addReply 1, .lockBatch 1, .add 1, .del 1,
    .delReply 1, .tick 900, .process 0 2 ⟨"j3", "a3"⟩ "b3", .addToBatch 2, .addReply 2,
    .tick 100, .fire 0 "b1" 3, .lockBatch 3]

theorem not_closesInTime_staleTimer : (∀ a ∈ staleTimer, a.isFault = false) ∧
    (run (batchingStep .sample) start staleTimer).isSome ∧
    ¬ EachStep (batchingStep .sample) (ClosesInTime (batchingStore .sample) .sample) start
      staleTimer :=
  ⟨by decide, by decide +kernel, by decide +kernel⟩

end ContentPublishing.Batching
