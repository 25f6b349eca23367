import ContentPublishing.Batching.Ledger
import Mathlib.Tactic.Linarith

/-!
# What a restart recovers

After a crash of all workers nothing is left but the keys of the queue. One call
of `setupActiveBatchTimeout` closes the open batch, now or by a timer, and takes
an expired locked batch along on the way. It looks at the open batch only, so a
locked batch that was left behind alone stays where it is.
-/
namespace ContentPublishing.Batching
open Transition

section Statements
variable {A R : Type} (store : BatchStore A R) (cfg : Config)

/-- Actions that let calls and timers go on; nothing is started and nothing fails. -/
def Action.goesOn : Action A → Bool
  | .process .. | .setupActiveBatchTimeout .. | .delFail _ | .throw _ | .crash _ => false
  | _ => true

/-- One `setupActiveBatchTimeout`, and then whatever it leads to. -/
def IsRecovery (as : List (Action A)) : Prop :=
  ∃ w i bs, as = .setupActiveBatchTimeout w i :: bs ∧ ∀ a ∈ bs, a.goesOn = true

/-- The open or the locked keys hold the batch of this identifier. -/
def Stored (r : R) (b : BatchId) : Prop :=
  (store.metadata r).map BatchMetadata.batchId = some b ∨
    (store.lockedMetadata r).map BatchMetadata.batchId = some b

/-- Every lock is older than the lock expiry. -/
def LockExpired (s : State A R) : Prop :=
  ∀ m ∈ store.lockedMetadata s.redis, ∀ t ∈ m.lockTimestamp, t + lockExpireMs < s.clock

/-- Recovery can be completed; whenever it is, the batches that were stored before
or are stored now are in the queue; and `lockBatch` answers `0` only if nothing
is stored. -/
structure Recovers (s : State A R) : Prop where
  completes : ∃ as t, IsRecovery as ∧ run (step store cfg) s as = some t ∧ t.Quiet
  enqueued : ∀ as t, IsRecovery as → run (step store cfg) s as = some t → t.Quiet →
    ∀ b, Stored store s.redis b ∨ Stored store t.redis b → b ∈ t.batchQueue.ids
  answers : ∀ now, (store.lockBatch now lockExpireMs s.redis).1.toOption = some .noBatch →
    ∀ b, ¬ Stored store s.redis b

instance (r : R) (b : BatchId) : Decidable (Stored store r b) :=
  inferInstanceAs (Decidable (_ ∨ _))

instance (s : State A R) : Decidable (LockExpired store s) :=
  inferInstanceAs (Decidable (∀ _ ∈ _, _))

end Statements

section Invariant
variable {A : Type}

theorem stored_iff {r : Batches A} {b : BatchId} : Stored Batches.store r b ↔
    (∃ o, r.current = some o ∧ o.batchId = b) ∨ ∃ l, r.locked = some l ∧ l.batchId = b := by
  simp [Stored, Batches.store, OpenBatch.metadata, LockedBatch.lockedMetadata]

/-- Exactly one call is in flight. -/
def oneCall (i : CallId) (c : Call A) : CallId → Option (Call A) :=
  Function.update (fun _ => none) i (some c)

theorem oneCall_eq_some {i k : CallId} {c d : Call A} (h : oneCall i c k = some d) :
    k = i ∧ c = d := by
  by_cases hk : k = i
  · subst k
    simpa [oneCall] using h
  · simp [oneCall, hk] at h

theorem calls_setCall {s : BatchState A} {i : CallId} {c : Call A} (h : s.calls = oneCall i c)
    (d : Call A) : (s.setCall i d).calls = oneCall i d := by
  rw [State.setCall, h]
  exact Function.update_idem ..

theorem calls_endCall {s : BatchState A} {i : CallId} {c : Call A} (h : s.calls = oneCall i c) :
    (s.endCall i).calls = fun _ => none := by
  rw [State.endCall, h, oneCall, Function.update_idem]
  exact Function.update_eq_self i _

/-- The batch that was locked at the crash is in the queue. -/
def LeftoverDone (s₀ s : BatchState A) : Prop :=
  ∀ l, s₀.redis.locked = some l → l.batchId ∈ s.batchQueue.ids

/-- A received batch is the leftover one, or the open one after that. -/
def Received (s₀ s : BatchState A) (o : OpenBatch A) (snapshot : Snapshot A) : Prop :=
  match snapshot.status with
  | .leftover => s.redis = s₀.redis ∧
      ∃ l, s₀.redis.locked = some l ∧ l.batchId = snapshot.batchId
  | .locked => s.redis.current = none ∧ o.batchId = snapshot.batchId ∧ LeftoverDone s₀ s

/-- How far the one `closeBatch` call has got with the batches of the crash. -/
def StageOk (s₀ s : BatchState A) (o : OpenBatch A) : CloseStage A → Prop
  | .lock now => s₀.clock ≤ now ∧ s.redis.current = some o ∧
      (s.redis.locked = s₀.redis.locked ∨ s.redis.locked = none ∧ LeftoverDone s₀ s)
  | .add snapshot => Received s₀ s o snapshot
  | .del snapshot => Received s₀ s o snapshot ∧ snapshot.batchId ∈ s.batchQueue.ids
  | .deleted snapshot => s.redis.locked = none ∧ LeftoverDone s₀ s ∧
      match snapshot.status with
      | .leftover => s.redis.current = some o
      | .locked => s.redis.current = none ∧ o.batchId ∈ s.batchQueue.ids

/-- The phases of a recovery on worker `w` from the crash state `s₀`. -/
inductive Phase (s₀ : BatchState A) (w : WorkerId) (s : BatchState A) : Prop
  | asked (i : CallId)
      (calls : s.calls = oneCall i (.setup w (s₀.redis.current.map OpenBatch.metadata)))
      (timeouts : ∀ v b, s.timeouts v b = none) (redis : s.redis = s₀.redis)
      (queue : s.batchQueue = s₀.batchQueue)
  | armed (o : OpenBatch A) (current : s₀.redis.current = some o) (calls : s.calls = fun _ => none)
      (only : ∀ v b u, s.timeouts v b = some u → v = w ∧ b = o.batchId)
      (unfired : ∃ u, s.timeouts w o.batchId = some u ∧ u.fired = false)
      (redis : s.redis = s₀.redis)
  | closing (o : OpenBatch A) (i : CallId) (timeout : Bool) (stage : CloseStage A)
      (current : s₀.redis.current = some o)
      (calls : s.calls = oneCall i (.closing w o.batchId timeout o.batchId stage))
      (fired : ∀ v b u, s.timeouts v b = some u → u.fired = true)
      (ok : StageOk s₀ s o stage)
  | closed (o : OpenBatch A) (current : s₀.redis.current = some o) (calls : s.calls = fun _ => none)
      (fired : ∀ v b u, s.timeouts v b = some u → u.fired = true)
      (redis : s.redis = .empty) (leftover : LeftoverDone s₀ s)
      (enqueued : o.batchId ∈ s.batchQueue.ids)
  | idle (current : s₀.redis.current = none) (calls : s.calls = fun _ => none)
      (timeouts : ∀ v b, s.timeouts v b = none) (redis : s.redis = s₀.redis)
      (queue : s.batchQueue = s₀.batchQueue)

namespace Phase
variable {s₀ s : BatchState A} {w : WorkerId}

/-- The one call in flight is `setupActiveBatchTimeout` or `closeBatch`. -/
theorem call_cases (h : Phase s₀ w s) {i : CallId} {c : Call A} (call : s.calls i = some c) :
    s.calls = oneCall i c ∧
      ((c = .setup w (s₀.redis.current.map OpenBatch.metadata) ∧
          (∀ v b, s.timeouts v b = none) ∧ s.redis = s₀.redis ∧ s.batchQueue = s₀.batchQueue) ∨
        ∃ o timeout stage, c = .closing w o.batchId timeout o.batchId stage ∧
          s₀.redis.current = some o ∧ (∀ v b u, s.timeouts v b = some u → u.fired = true) ∧
          StageOk s₀ s o stage) := by
  cases h with
  | asked k calls timeouts redis queue =>
      rw [calls] at call
      obtain ⟨rfl, rfl⟩ := oneCall_eq_some call
      exact ⟨calls, .inl ⟨rfl, timeouts, redis, queue⟩⟩
  | closing o k timeout stage current calls fired ok =>
      rw [calls] at call
      obtain ⟨rfl, rfl⟩ := oneCall_eq_some call
      exact ⟨calls, .inr ⟨o, timeout, stage, rfl, current, fired, ok⟩⟩
  | armed o current calls only unfired redis => rw [calls] at call; cases call
  | closed o current calls fired redis leftover enqueued => rw [calls] at call; cases call
  | idle current calls timeouts redis queue => rw [calls] at call; cases call

theorem of_closing (h : Phase s₀ w s) {i : CallId} {v : WorkerId} {b r : BatchId} {timeout : Bool}
    {stage : CloseStage A} (call : s.calls i = some (.closing v b timeout r stage)) :
    ∃ o, s₀.redis.current = some o ∧ v = w ∧ b = o.batchId ∧ r = o.batchId ∧
      s.calls = oneCall i (.closing v b timeout r stage) ∧
      (∀ v b u, s.timeouts v b = some u → u.fired = true) ∧ StageOk s₀ s o stage := by
  rcases h.call_cases call with ⟨calls, ⟨hc, _⟩ | ⟨o, timeout', stage', hc, current, fired, ok⟩⟩
  · cases hc
  · cases hc
    exact ⟨o, current, rfl, rfl, rfl, calls, fired, ok⟩

/-- Time passes in every phase. -/
theorem tick (h : Phase s₀ w s) (ms : ℕ) : Phase s₀ w { s with clock := s.clock + ms } := by
  cases h with
  | asked i calls timeouts redis queue => exact .asked i calls timeouts redis queue
  | armed o current calls only unfired redis => exact .armed o current calls only unfired redis
  | closing o i timeout stage current calls fired ok =>
      refine .closing o i timeout stage current calls fired ?_
      cases stage <;> exact ok
  | closed o current calls fired redis leftover enqueued =>
      exact .closed o current calls fired redis leftover enqueued
  | idle current calls timeouts redis queue => exact .idle current calls timeouts redis queue

/-- The call that read the open batch closes it or arms its timer. -/
theorem setupReply (h : Phase s₀ w s) (hclock : s₀.clock ≤ s.clock) (cfg : Config) {i : CallId}
    {v : WorkerId} {m : Option BatchMetadata} (call : s.calls i = some (.setup v m)) :
    Phase s₀ w (s.setupReply cfg i v m) := by
  rcases h.call_cases call with ⟨calls, ⟨hc, timeouts, redis, queue⟩ | ⟨o, _, _, hc, _⟩⟩
  · cases hc
    cases hcur : s₀.redis.current with
    | none => exact .idle hcur (calls_endCall calls) timeouts redis queue
    | some o =>
        dsimp only [Option.map_some, State.setupReply]
        rw [hcur] at calls
        split_ifs
        · refine .closing o i false (.lock s.clock) hcur (calls_setCall calls _)
            (fun v b u hu => ?_) ⟨hclock, redis ▸ hcur, .inl (redis ▸ rfl)⟩
          have hn := timeouts v b
          rw [show s.timeouts v b = some u from hu] at hn
          cases hn
        · refine .armed o hcur (calls_endCall (s := s.addBatchTimeout ..) calls)
            (fun v b u hu => ?_) ⟨_, State.timeouts_setTimeout_self .., rfl⟩ redis
          rcases State.of_timeouts_setTimeout hu with ⟨hv, hb, _⟩ | ⟨_, hu⟩
          · exact ⟨hv, hb⟩
          · rw [timeouts v b] at hu
            cases hu
  · cases hc

/-- The timer fires for the open batch. -/
theorem fire (h : Phase s₀ w s) (hclock : s₀.clock ≤ s.clock) {i : CallId} {v : WorkerId}
    {b : BatchId} {t : Timeout} (timer : s.timeouts v b = some t) (unfired : t.fired = false) :
    Phase s₀ w ((s.setTimeout v b (some { t with fired := true })).closeBatch i v b true b) := by
  have late : ¬ ∀ v b u, s.timeouts v b = some u → u.fired = true := fun hfired => by
    rw [hfired v b t timer] at unfired
    cases unfired
  cases h with
  | armed o current calls only hu redis =>
      obtain ⟨rfl, rfl⟩ := only v b t timer
      refine .closing o i true (.lock s.clock) current ?_ (fun x c u hu => ?_)
        ⟨hclock, redis ▸ current, .inl (redis ▸ rfl)⟩
      · rw [State.closeBatch, State.setCall, State.setTimeout, calls]
        rfl
      · rcases State.of_timeouts_setTimeout hu with ⟨_, _, hu⟩ | ⟨hne, hu⟩
        · exact Option.some.inj hu ▸ rfl
        · exact (hne (only x c u hu)).elim
  | asked k calls timeouts redis queue => rw [timeouts v b] at timer; cases timer
  | closing o k timeout stage current calls fired ok => exact (late fired).elim
  | closed o current calls fired redis leftover enqueued => exact (late fired).elim
  | idle current calls timeouts redis queue => rw [timeouts v b] at timer; cases timer

/-- `lockBatch` hands out the leftover first and the open batch after that. -/
theorem received (h : Phase s₀ w s) {i : CallId} {v : WorkerId} {b r : BatchId} {timeout : Bool}
    {now : ℕ} (call : s.calls i = some (.closing v b timeout r (.lock now)))
    {t : BatchState A} {snapshot : Snapshot A} (htimeouts : t.timeouts = s.timeouts)
    (hcalls : t.calls = s.calls)
    (hok : ∀ o, s₀.redis.current = some o → s.redis.current = some o →
      (s.redis.locked = s₀.redis.locked ∨ s.redis.locked = none ∧ LeftoverDone s₀ s) →
      Received s₀ t o snapshot) :
    Phase s₀ w (t.setCall i (.closing v b timeout r (.add snapshot))) := by
  obtain ⟨o, current, rfl, rfl, rfl, calls, fired, _, hcur, hlocked⟩ := h.of_closing call
  exact .closing o i timeout (.add snapshot) current (calls_setCall (hcalls.trans calls) _)
    (fun x c u hu => fired x c u (htimeouts ▸ hu)) (hok o current hcur hlocked)

/-- Every step of a recovery leads to a phase, provided the lock had expired. -/
theorem step (h : Phase s₀ w s) (hclock : s₀.clock ≤ s.clock)
    (hexp : ∀ l, s₀.redis.locked = some l → l.Expired s₀.clock lockExpireMs) {cfg : Config}
    {a : Action A} {t : BatchState A} (ha : a.goesOn = true) (hst : Step cfg s a t) :
    Phase s₀ w t := by
  cases hst with
  | tick ms => exact h.tick ms
  | addNew i v job b t call current =>
      rcases h.call_cases call with ⟨_, ⟨hc, _⟩ | ⟨_, _, _, hc, _⟩⟩ <;> cases hc
  | addRow i v job b t o call current =>
      rcases h.call_cases call with ⟨_, ⟨hc, _⟩ | ⟨_, _, _, hc, _⟩⟩ <;> cases hc
  | addReply i v job b n joined call =>
      rcases h.call_cases call with ⟨_, ⟨hc, _⟩ | ⟨_, _, _, hc, _⟩⟩ <;> cases hc
  | setupReply i v m call => exact h.setupReply hclock cfg call
  | fire v b i t free timer unfired due => exact h.fire hclock timer unfired
  | lockNone i v b timeout raisedFor now call current =>
      obtain ⟨o, _, _, _, _, _, _, _, hcur, _⟩ := h.of_closing call
      rw [current] at hcur
      cases hcur
  | lockHeld i v b timeout raisedFor now o l call current locked live =>
      obtain ⟨_, _, _, _, _, _, _, hnow, _, hlocked | ⟨hnone, _⟩⟩ := h.of_closing call
      · have hl := hexp l (hlocked ▸ locked)
        unfold LockedBatch.Expired at hl live
        omega
      · rw [locked] at hnone
        cases hnone
  | lockLeftover i v b timeout raisedFor now o l call current locked expired =>
      refine h.received call rfl rfl fun p hp hcur hlocked => ⟨?_, l, ?_, rfl⟩
      · rcases hlocked with hlocked | ⟨hnone, _⟩
        · exact Batches.ext (hcur.trans hp.symm) hlocked
        · rw [locked] at hnone
          cases hnone
      · rcases hlocked with hlocked | ⟨hnone, _⟩
        · exact hlocked ▸ locked
        · rw [locked] at hnone
          cases hnone
  | lockOpen i v b timeout raisedFor now o call current locked =>
      refine h.received call rfl rfl fun p hp hcur hlocked => ⟨rfl, ?_, fun l hl => ?_⟩
      · rw [current, Option.some.injEq] at hcur
        exact hcur ▸ rfl
      · rcases hlocked with hlocked | ⟨_, hdone⟩
        · rw [← hlocked, locked] at hl
          cases hl
        · exact hdone l hl
  | add i v b timeout raisedFor snapshot call =>
      obtain ⟨o, current, rfl, rfl, rfl, calls, fired, hreceived⟩ := h.of_closing call
      refine .closing o i timeout (.del snapshot) current (calls_setCall calls _) fired
        ⟨?_, JobQueue.mem_ids_add.mpr (.inr rfl)⟩
      unfold StageOk Received at hreceived
      unfold Received
      cases hs : snapshot.status with
      | leftover =>
          simp only [hs] at hreceived
          exact hreceived
      | locked =>
          simp only [hs] at hreceived
          exact ⟨hreceived.1, hreceived.2.1, fun l hl =>
            JobQueue.mem_ids_add.mpr (.inl (hreceived.2.2 l hl))⟩
  | del i v b timeout raisedFor snapshot call =>
      obtain ⟨o, current, rfl, rfl, rfl, calls, fired, hreceived, hqueue⟩ := h.of_closing call
      refine .closing o i timeout (.deleted snapshot) current (calls_setCall calls _) fired ?_
      unfold Received at hreceived
      unfold StageOk
      cases hs : snapshot.status with
      | leftover =>
          simp only [hs] at hreceived ⊢
          obtain ⟨hredis, l, hl, hid⟩ := hreceived
          refine ⟨rfl, fun l' hl' => ?_, hredis ▸ current⟩
          rw [hl, Option.some.injEq] at hl'
          exact hl' ▸ hid ▸ hqueue
      | locked =>
          simp only [hs] at hreceived ⊢
          exact ⟨rfl, hreceived.2.2, hreceived.1, hreceived.2.1 ▸ hqueue⟩
  | delReply i v b timeout raisedFor snapshot call =>
      obtain ⟨o, current, rfl, rfl, rfl, calls, fired, hlocked, hdone, hrest⟩ := h.of_closing call
      have fired' : ∀ x c u, (s.deleteTimeout v o.batchId).timeouts x c = some u →
          u.fired = true := fun x c u hu => by
        rcases State.of_timeouts_setTimeout hu with ⟨_, _, hu⟩ | ⟨_, hu⟩
        · cases hu
        · exact fired x c u hu
      cases hs : snapshot.status with
      | leftover =>
          simp only [hs] at hrest
          exact .closing o i timeout (.lock s.clock) current
            (calls_setCall (s := s.deleteTimeout ..) calls _) fired'
            ⟨hclock, hrest, .inr ⟨hlocked, hdone⟩⟩
      | locked =>
          simp only [hs] at hrest
          exact .closed o current (calls_endCall (s := s.deleteTimeout ..) calls) fired'
            (Batches.ext hrest.1 hlocked) hdone hrest.2
  | process => cases ha
  | setup => cases ha
  | delFail => cases ha
  | throw => cases ha
  | crash => cases ha

/-- The last phase has everything in the queue, unless a locked batch was alone. -/
theorem enqueued (h : Phase s₀ w s) (hquiet : s.Quiet)
    (hopen : s₀.redis.current.isSome ∨ s₀.redis.locked = none) (b : BatchId)
    (hb : Stored Batches.store s₀.redis b ∨ Stored Batches.store s.redis b) :
    b ∈ s.batchQueue.ids := by
  have alone : ∀ i c, s.calls ≠ oneCall i c := fun i c hc => by
    have hi := hquiet.1 i
    simp [hc, oneCall] at hi
  cases h with
  | asked i calls timeouts redis queue => exact (alone _ _ calls).elim
  | closing o i timeout stage current calls fired ok => exact (alone _ _ calls).elim
  | armed o current calls only unfired redis =>
      obtain ⟨u, hu, hf⟩ := unfired
      rw [hquiet.2 w o.batchId u hu] at hf
      cases hf
  | closed o current calls fired redis leftover enqueued =>
      rcases hb with hb | hb
      · rcases stored_iff.mp hb with ⟨p, hp, rfl⟩ | ⟨l, hl, rfl⟩
        · rw [current, Option.some.injEq] at hp
          exact hp ▸ enqueued
        · exact leftover l hl
      · rw [redis] at hb
        rcases stored_iff.mp hb with ⟨p, hp, _⟩ | ⟨l, hl, _⟩
        · cases hp
        · cases hl
  | idle current calls timeouts redis queue =>
      rw [redis, or_self] at hb
      rcases stored_iff.mp hb with ⟨p, hp, _⟩ | ⟨l, hl, _⟩
      · rw [current] at hp
        cases hp
      · rw [current] at hopen
        rw [hopen.resolve_left Bool.false_ne_true] at hl
        cases hl

end Phase

section Recovering
variable {cfg : Config} {s₀ t : BatchState A}

/-- A recovery from a crash state stays within the phases. -/
theorem phase_of_recovery (hdown : s₀.Down)
    (hexp : ∀ l, s₀.redis.locked = some l → l.Expired s₀.clock lockExpireMs)
    {as : List (Action A)} (has : IsRecovery as)
    (hrun : run (step Batches.store cfg) s₀ as = some t) : ∃ w, Phase s₀ w t := by
  obtain ⟨w, i, bs, rfl, hbs⟩ := has
  rw [run_cons_of (Step.setup w i (hdown.1 i)).enabled] at hrun
  have hcalls : s₀.calls = fun _ => none := funext hdown.1
  have hasked : Phase s₀ w
      (s₀.setCall i (.setup w (s₀.redis.current.map OpenBatch.metadata))) := by
    refine .asked i ?_ hdown.2 rfl rfl
    rw [State.setCall, hcalls]
    rfl
  have h := invariant (C := fun _ a => a.goesOn = true)
    (I := fun u => Phase s₀ w u ∧ s₀.clock ≤ u.clock) ⟨hasked, le_rfl⟩
    (fun u a v h ha hs => ⟨h.1.step h.2 hexp ha (step_cases hs),
      h.2.trans (step_cases hs).clock_le⟩)
    (eachStep_of_forall_mem (fun a ha _ => hbs a ha) _) hrun
  exact ⟨w, h.1⟩

theorem IsRecovery.append {as bs : List (Action A)} (h : IsRecovery as)
    (hbs : ∀ a ∈ bs, a.goesOn = true) : IsRecovery (as ++ bs) := by
  obtain ⟨w, i, cs, rfl, hcs⟩ := h
  refine ⟨w, i, cs ++ bs, rfl, fun a ha => ?_⟩
  exact (List.mem_append.mp ha).elim (hcs a) (hbs a)

/-- `closeBatch` from one `lockBatch` to its end or to the next one. -/
def closeRound (i : CallId) : List (Action A) := [.lockBatch i, .add i, .del i, .delReply i]

theorem goesOn_closeRound (i : CallId) :
    ∀ a ∈ (closeRound i : List (Action A)), a.goesOn = true := by
  simp [closeRound, Action.goesOn]

/-- A closer that meets no locked batch closes the open one. -/
theorem run_close {s : BatchState A} {i : CallId} {w : WorkerId} {b r : BatchId} {timeout : Bool}
    {now : ℕ} {o : OpenBatch A} (calls : s.calls = oneCall i (.closing w b timeout r (.lock now)))
    (fired : ∀ v c u, s.timeouts v c = some u → u.fired = true)
    (current : s.redis.current = some o) (locked : s.redis.locked = none) :
    ∃ t, run (step Batches.store cfg) s (closeRound i) = some t ∧ t.Quiet := by
  have call : s.calls i = some (.closing w b timeout r (.lock now)) := by simp [calls, oneCall]
  rw [closeRound, run_cons_of (Step.lockOpen i w b timeout r now o call current locked).enabled,
    run_cons_of (Step.add i w b timeout r (o.snapshot .locked) (Function.update_self ..)).enabled,
    run_cons_of (Step.del i w b timeout r (o.snapshot .locked) (Function.update_self ..)).enabled,
    run_cons_of (Step.delReply i w b timeout r (o.snapshot .locked)
      (Function.update_self ..)).enabled]
  refine ⟨_, rfl, fun k => ?_, fun v c u hu => ?_⟩
  · simp [State.finish, State.endCall, State.setCall, State.deleteTimeout, State.setTimeout,
      OpenBatch.snapshot, calls, oneCall]
  · rcases State.of_timeouts_setTimeout hu with ⟨_, _, hu⟩ | ⟨_, hu⟩
    · cases hu
    · exact fired v c u hu

/-- A closer that meets an expired lock removes the leftover and starts over. -/
theorem run_leftover {s : BatchState A} {i : CallId} {w : WorkerId} {b r : BatchId}
    {timeout : Bool} {now : ℕ} {o : OpenBatch A} {l : LockedBatch A}
    (calls : s.calls = oneCall i (.closing w b timeout r (.lock now)))
    (fired : ∀ v c u, s.timeouts v c = some u → u.fired = true)
    (current : s.redis.current = some o) (locked : s.redis.locked = some l)
    (expired : l.Expired now lockExpireMs) :
    ∃ t, run (step Batches.store cfg) s (closeRound i) = some t ∧
      t.calls = oneCall i (.closing w b timeout r (.lock t.clock)) ∧
      (∀ v c u, t.timeouts v c = some u → u.fired = true) ∧
      t.redis.current = some o ∧ t.redis.locked = none := by
  have call : s.calls i = some (.closing w b timeout r (.lock now)) := by simp [calls, oneCall]
  rw [closeRound,
    run_cons_of (Step.lockLeftover i w b timeout r now o l call current locked expired).enabled,
    run_cons_of (Step.add i w b timeout r (l.toOpenBatch.snapshot .leftover)
      (Function.update_self ..)).enabled,
    run_cons_of (Step.del i w b timeout r (l.toOpenBatch.snapshot .leftover)
      (Function.update_self ..)).enabled,
    run_cons_of (Step.delReply i w b timeout r (l.toOpenBatch.snapshot .leftover)
      (Function.update_self ..)).enabled]
  refine ⟨_, rfl, ?_, fun v c u hu => ?_, current, rfl⟩
  · simp only [State.finish, State.closeBatch, OpenBatch.snapshot, State.setCall,
      State.deleteTimeout, State.setTimeout, calls, oneCall, Function.update_idem]
  · rcases State.of_timeouts_setTimeout hu with ⟨_, _, hu⟩ | ⟨_, hu⟩
    · cases hu
    · exact fired v c u hu

/-- `setupActiveBatchTimeout` starts closing a batch once it is old enough. -/
theorem run_setup (cfg : Config) (hdown : s₀.Down) {o : OpenBatch A}
    (current : s₀.redis.current = some o) :
    ∃ as s, IsRecovery as ∧ run (step Batches.store cfg) s₀ as = some s ∧
      s.calls = oneCall 0 (.closing 0 o.batchId false o.batchId (.lock s.clock)) ∧
      (∀ v c u, s.timeouts v c = some u → u.fired = true) ∧ s.redis = s₀.redis ∧
      s₀.clock ≤ s.clock := by
  have hold : cfg.batchTimeoutMs ≤
      ((((s₀.clock + (⌈cfg.batchTimeoutMs⌉₊ + o.startTimestamp) : ℕ) : ℤ) -
        o.startTimestamp : ℤ) : ℚ) := by
    have hceil := Nat.le_ceil cfg.batchTimeoutMs
    have hclock : (0 : ℚ) ≤ s₀.clock := Nat.cast_nonneg _
    push_cast
    linarith
  refine ⟨[.setupActiveBatchTimeout 0 0, .tick (⌈cfg.batchTimeoutMs⌉₊ + o.startTimestamp),
    .setupReply 0], ?_⟩
  rw [run_cons_of (Step.setup 0 0 (hdown.1 0)).enabled, run_cons_of (Step.tick _).enabled,
    run_cons_of (Step.setupReply 0 0 (some o.metadata)
      (by simp [State.setCall, current])).enabled]
  refine ⟨_, ⟨0, 0, _, rfl, by simp [Action.goesOn]⟩, rfl, ?_⟩
  dsimp only [State.setupReply, State.setCall, OpenBatch.metadata]
  rw [if_pos hold]
  refine ⟨?_, fun v c u hu => ?_, rfl, Nat.le_add_right ..⟩
  · rw [State.closeBatch, State.setCall, funext hdown.1]
    exact Function.update_idem ..
  · have hu' : s₀.timeouts v c = some u := hu
    rw [hdown.2 v c] at hu'
    cases hu'

/-- Some recovery runs to its end. -/
theorem exists_recovery (cfg : Config) (hdown : s₀.Down)
    (hexp : ∀ l, s₀.redis.locked = some l → l.Expired s₀.clock lockExpireMs) :
    ∃ as t, IsRecovery as ∧ run (step Batches.store cfg) s₀ as = some t ∧ t.Quiet := by
  cases hcur : s₀.redis.current with
  | none =>
      refine ⟨[.setupActiveBatchTimeout 0 0, .setupReply 0], ?_⟩
      rw [run_cons_of (Step.setup 0 0 (hdown.1 0)).enabled, run_cons_of (Step.setupReply 0 0 none
        (by simp [State.setCall, hcur])).enabled]
      refine ⟨_, ⟨0, 0, _, rfl, by simp [Action.goesOn]⟩, rfl, fun k => ?_, fun v c u hu => ?_⟩
      · simp [State.setupReply, State.endCall, State.setCall, funext hdown.1]
      · have hu' : s₀.timeouts v c = some u := hu
        rw [hdown.2 v c] at hu'
        cases hu'
  | some o =>
      obtain ⟨as, s, has, hs, calls, fired, redis, hclock⟩ := run_setup cfg hdown hcur
      rw [← redis] at hcur
      cases hlock : s.redis.locked with
      | none =>
          obtain ⟨t, ht, hquiet⟩ := run_close calls fired hcur hlock
          refine ⟨as ++ closeRound 0, t, has.append (goesOn_closeRound 0), ?_, hquiet⟩
          rw [run_append, hs, Option.bind_some, ht]
      | some l =>
          have hl : l.Expired s.clock lockExpireMs :=
            lt_of_lt_of_le (hexp l (redis ▸ hlock)) hclock
          obtain ⟨u, hu, ucalls, ufired, ucur, ulock⟩ :=
            run_leftover calls fired hcur hlock hl
          obtain ⟨t, ht, hquiet⟩ := run_close ucalls ufired ucur ulock
          refine ⟨as ++ closeRound 0 ++ closeRound 0, t,
            (has.append (goesOn_closeRound 0)).append (goesOn_closeRound 0), ?_, hquiet⟩
          rw [run_append, run_append, hs, Option.bind_some, hu, Option.bind_some, ht]

/-- A restart recovers everything unless a locked batch was left alone. -/
theorem recovers_iff (cfg : Config) (hdown : s₀.Down)
    (hexp : ∀ l, s₀.redis.locked = some l → l.Expired s₀.clock lockExpireMs) :
    Recovers Batches.store cfg s₀ ↔ s₀.redis.current.isSome ∨ s₀.redis.locked = none := by
  constructor
  · intro h
    by_contra hn
    rw [not_or, Bool.not_eq_true, Option.isSome_eq_false_iff, Option.isNone_iff_eq_none] at hn
    obtain ⟨hcur, hlocked⟩ := hn
    obtain ⟨l, hl⟩ := Option.ne_none_iff_exists'.mp hlocked
    refine h.answers 0 ?_ l.batchId (stored_iff.mpr (.inr ⟨l, hl, rfl⟩))
    simp [Batches.store, Batches.lock, hcur, Except.toOption]
  · intro hopen
    refine ⟨exists_recovery cfg hdown hexp, fun as t has hrun hquiet => ?_, fun now hnow b hb => ?_⟩
    · obtain ⟨w, h⟩ := phase_of_recovery hdown hexp has hrun
      exact h.enqueued hquiet hopen
    · cases hcur : s₀.redis.current with
      | none =>
          rw [hcur] at hopen
          have hlocked := hopen.resolve_left Bool.false_ne_true
          rcases stored_iff.mp hb with ⟨o, ho, _⟩ | ⟨l, hl, _⟩
          · rw [hcur] at ho
            cases ho
          · rw [hlocked] at hl
            cases hl
      | some o =>
          revert hnow
          cases hl : s₀.redis.locked with
          | none => simp [Batches.store, Batches.lock, hcur, hl, Except.toOption]
          | some l =>
              by_cases he : l.Expired now lockExpireMs <;>
                simp [Batches.store, Batches.lock, hcur, hl, he, Except.toOption]

end Recovering

end Invariant

section Runs
variable {A : Type} [DecidableEq A]

theorem run_encode {cfg : Config} {t : BatchState A} {as : List (Action A)} :
    run (step (batchingStore cfg) cfg) (t.encode cfg) as =
      (run (step Batches.store cfg) t as).map (State.encode cfg) :=
  run_map (batchingStep_encode cfg) t as

theorem stored_encode {cfg : Config} {t : BatchState A} {b : BatchId} :
    Stored (batchingStore cfg) (t.encode cfg).redis b ↔ Stored Batches.store t.redis b := by
  simp only [Stored, metadata_encode, lockedMetadata_encode]

theorem recovers_encode {cfg : Config} {t : BatchState A} :
    Recovers (batchingStore cfg) cfg (t.encode cfg) ↔ Recovers Batches.store cfg t := by
  constructor
  · intro h
    refine ⟨?_, fun as u has hu hquiet b hb => ?_, fun now hnow b hb => ?_⟩
    · obtain ⟨as, _, has, hu, hquiet⟩ := h.completes
      rw [run_encode] at hu
      obtain ⟨u, hu', rfl⟩ := Option.map_eq_some_iff.mp hu
      exact ⟨as, u, has, hu', hquiet⟩
    · apply h.enqueued as (u.encode cfg) has (by rw [run_encode, hu, Option.map_some]) hquiet b
      rwa [stored_encode, stored_encode]
    · exact h.answers now (by rwa [lockBatch_encode]) b (stored_encode.mpr hb)
  · intro h
    refine ⟨?_, fun as u has hu hquiet b hb => ?_, fun now hnow b hb => ?_⟩
    · obtain ⟨as, u, has, hu, hquiet⟩ := h.completes
      exact ⟨as, u.encode cfg, has, by rw [run_encode, hu, Option.map_some], hquiet⟩
    · rw [run_encode] at hu
      obtain ⟨u, hu', rfl⟩ := Option.map_eq_some_iff.mp hu
      rw [stored_encode, stored_encode] at hb
      exact h.enqueued as u has hu' hquiet b hb
    · rw [lockBatch_encode] at hnow
      exact h.answers now hnow b (stored_encode.mp hb)

/-- Whatever state a crash of all workers leaves behind, a restart after the lock
expiry recovers it if and only if there is an open batch or no locked one. -/
theorem recovers_iff_of_run (cfg : Config) (as : List (Action A))
    (s : State A (Redis.Store String (Value A))) (hrun : run (batchingStep cfg) start as = some s)
    (hdown : s.Down) (hexp : LockExpired (batchingStore cfg) s) :
    Recovers (batchingStore cfg) cfg s ↔
      ((batchingStore cfg).metadata s.redis).isSome ∨
        (batchingStore cfg).lockedMetadata s.redis = none := by
  obtain ⟨t, _, rfl⟩ := exists_of_run hrun
  have hexp' : ∀ l, t.redis.locked = some l → l.Expired t.clock lockExpireMs := fun l hl =>
    hexp l.lockedMetadata (by simp [Batches.store, hl]) l.lockTimestamp rfl
  rw [recovers_encode, recovers_iff cfg hdown hexp', metadata_encode, lockedMetadata_encode]
  simp [Batches.store]

end Runs

/-- Both batches are left behind: a closer dies before its `add`, and the next
batch has been opened. -/
def crashWithBoth : List (Action String) :=
  [.process 0 0 ⟨"j1", "a1"⟩ "b1", .addToBatch 0, .addReply 0, .tick 1000, .fire 0 "b1" 1,
    .lockBatch 1, .process 0 2 ⟨"j2", "a2"⟩ "b2", .addToBatch 2, .addReply 2, .crash 0, .tick 7000]

theorem recovers_crashWithBoth : ∃ s, run (batchingStep .sample) start crashWithBoth = some s ∧
    Recovers (batchingStore .sample) .sample s := by
  obtain ⟨s, hs, hcalls, htimers, hexp, hopen⟩ := exists_of_run_any
    (P := fun s => (∀ i ∈ crashWithBoth.filterMap Action.call?, s.calls i = none) ∧
      (∀ w ∈ crashWithBoth.filterMap Action.worker?, ∀ b ∈ s.issued, s.timeouts w b = none) ∧
      LockExpired (batchingStore .sample) s ∧
      ((batchingStore .sample).metadata s.redis).isSome)
    (by decide +kernel : (run (batchingStep .sample) start crashWithBoth).any _)
  exact ⟨s, hs, (recovers_iff_of_run .sample crashWithBoth s hs (down_of_run hs hcalls htimers)
    hexp).mpr (.inl hopen)⟩

/-- A closer dies before its `add`, and no other batch is open. -/
def crashWithLocked : List (Action String) :=
  [.process 0 0 ⟨"j1", "a1"⟩ "b1", .addToBatch 0, .addReply 0, .tick 1000, .fire 0 "b1" 1,
    .lockBatch 1, .crash 0, .tick 7000]

/-- What a restart does then. -/
def restart : List (Action String) := [.setupActiveBatchTimeout 1 2, .setupReply 2]

theorem not_recovers_crashWithLocked : ∃ s,
    run (batchingStep .sample) start crashWithLocked = some s ∧ s.Down ∧
      LockExpired (batchingStore .sample) s ∧ ¬ Recovers (batchingStore .sample) .sample s := by
  obtain ⟨s, hs, hcalls, htimers, hexp, hrest⟩ := exists_of_run_any
    (P := fun s => (∀ i ∈ crashWithLocked.filterMap Action.call?, s.calls i = none) ∧
      (∀ w ∈ crashWithLocked.filterMap Action.worker?, ∀ b ∈ s.issued, s.timeouts w b = none) ∧
      LockExpired (batchingStore .sample) s ∧
      (run (batchingStep .sample) s restart).any fun t => decide
        ((∀ i ∈ (crashWithLocked ++ restart).filterMap Action.call?, t.calls i = none) ∧
          (∀ w ∈ (crashWithLocked ++ restart).filterMap Action.worker?, ∀ b ∈ t.issued,
            ∀ u ∈ t.timeouts w b, u.fired = true) ∧
          Stored (batchingStore .sample) s.redis "b1" ∧ "b1" ∉ t.batchQueue.ids))
    (by decide +kernel : (run (batchingStep .sample) start crashWithLocked).any _)
  obtain ⟨t, ht, tcalls, ttimers, hstored, hlost⟩ := exists_of_run_any hrest
  have hboth : run (batchingStep .sample) start (crashWithLocked ++ restart) = some t := by
    rw [run_append, hs, Option.bind_some, ht]
  have hquiet : t.Quiet := quiet_of_run hboth tcalls ttimers
  exact ⟨s, hs, down_of_run hs hcalls htimers, hexp, fun h => hlost
    (h.enqueued restart t ⟨1, 2, _, rfl, by decide⟩ ht hquiet "b1" (.inl hstored))⟩

end ContentPublishing.Batching
