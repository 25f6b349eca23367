import ContentPublishing.Batching.Step

/-!
# One `closeBatch` with nothing in between

A call of `closeBatch` that runs alone, without failures, closes an expired locked
batch and then the open one, or nothing if the lock is still fresh. Any time may pass
before each of its steps.
-/
namespace ContentPublishing.Batching
open Transition

def CloseStage.action {A : Type} (i : CallId) : CloseStage A → Action A
  | .lock _ => .lockBatch i
  | .add _ => .add i
  | .del _ => .del i
  | .deleted _ => .delReply i

section Alone
variable {A R : Type}

/-- The step by which a `closeBatch` call goes on, none once it has returned. -/
def State.nextAction? (s : State A R) (i : CallId) : Option (Action A) :=
  match s.calls i with
  | some (.closing _ _ _ _ stage) => some (stage.action i)
  | _ => none

/-- The call takes its own steps until it returns, at most the given number. The steps
taken are listed; `pause` is the time that passes before each of them. -/
def alone (step : State A R → Action A → Option (State A R)) (i : CallId) (pause : ℕ → ℕ) :
    ℕ → State A R → Option (List (Action A) × State A R)
  | 0, s => some ([], s)
  | fuel + 1, s =>
      match s.nextAction? i with
      | none => some ([], s)
      | some a =>
          (run step s [.tick (pause fuel), a]).bind fun t =>
            (alone step i pause fuel t).map (Prod.map (a :: ·) id)

variable {step : State A R → Action A → Option (State A R)} {i : CallId} {pause : ℕ → ℕ}

theorem alone_of_returned {s : State A R} (h : s.calls i = none) (fuel : ℕ) :
    alone step i pause fuel s = some ([], s) := by
  cases fuel with
  | zero => rfl
  | succ fuel =>
      have hnext : s.nextAction? i = none := by rw [State.nextAction?, h]
      rw [alone, hnext]

theorem alone_succ {s t : State A R} {a : Action A} {fuel : ℕ} (hnext : s.nextAction? i = some a)
    (hrun : run step s [.tick (pause fuel), a] = some t) :
    alone step i pause (fuel + 1) s =
      (alone step i pause fuel t).map (Prod.map (a :: ·) id) := by
  rw [alone, hnext]
  dsimp only
  rw [hrun, Option.bind_some]

end Alone

section Rounds
variable {A : Type} (cfg : Config) (pause : ℕ → ℕ) {s : BatchState A} {i : CallId}
  {w : WorkerId} {b raisedFor : BatchId} {timeout : Bool}

/-- The job for a batch. -/
def OpenBatch.job (cfg : Config) (o : OpenBatch A) : BatchAnnouncerJobData A :=
  ⟨o.batchId, getSchemaId cfg.environment (queueNameToAnnouncementMap cfg.queueName),
    o.rows.map Prod.snd⟩

theorem alone_step {stage : CloseStage A} {t : BatchState A} {fuel : ℕ}
    (call : s.calls i = some (.closing w b timeout raisedFor stage))
    (hstep : Step cfg { s with clock := s.clock + pause fuel } (stage.action i) t) :
    alone (step Batches.store cfg) i pause (fuel + 1) s =
      (alone (step Batches.store cfg) i pause fuel t).map (Prod.map (stage.action i :: ·) id) := by
  apply alone_succ
  · rw [State.nextAction?, call]
  · rw [run_cons_of (Step.tick (pause fuel)).enabled, run_cons_of hstep.enabled, run_nil]

/-- What follows `lockBatch` once a batch has been received, up to the last reply. -/
theorem alone_received {snapshot : Snapshot A} (fuel : ℕ)
    (call : s.calls i = some (.closing w b timeout raisedFor (.add snapshot))) :
    ∃ t : BatchState A, t.redis = s.redis.clear ∧
      t.batchQueue = s.batchQueue.add snapshot.batchId (cfg.batchJob snapshot) ∧
      alone (step Batches.store cfg) i pause (fuel + 3) s =
        (alone (step Batches.store cfg) i pause fuel
          (t.finish i w b timeout raisedFor snapshot.status)).map
            (Prod.map ([.add i, .del i, .delReply i] ++ ·) id) := by
  let added : BatchState A := { s with
    clock := s.clock + pause (fuel + 2)
    batchQueue := s.batchQueue.add snapshot.batchId (cfg.batchJob snapshot) }.setCall i
      (.closing w b timeout raisedFor (.del snapshot))
  let deleted : BatchState A := { added with
    clock := added.clock + pause (fuel + 1)
    redis := added.redis.clear }.setCall i (.closing w b timeout raisedFor (.deleted snapshot))
  have hadded : added.calls i = some (.closing w b timeout raisedFor (.del snapshot)) :=
    Function.update_self ..
  have hdeleted : deleted.calls i = some (.closing w b timeout raisedFor (.deleted snapshot)) :=
    Function.update_self ..
  refine ⟨({ deleted with clock := deleted.clock + pause fuel } : BatchState A).deleteTimeout w b,
    rfl, rfl, ?_⟩
  rw [alone_step cfg pause call (Step.add i w b timeout raisedFor snapshot call),
    alone_step cfg pause hadded (Step.del i w b timeout raisedFor snapshot hadded),
    alone_step cfg pause hdeleted (Step.delReply i w b timeout raisedFor snapshot hdeleted)]
  simp only [Option.map_map]
  rfl

/-- A round that meets no locked batch takes the open one and returns. -/
theorem alone_locked {o : OpenBatch A} {now : ℕ} (fuel : ℕ)
    (call : s.calls i = some (.closing w b timeout raisedFor (.lock now)))
    (redis : s.redis = ⟨some o, none⟩) :
    ∃ t : BatchState A, t.calls i = none ∧ t.redis = .empty ∧
      t.batchQueue = s.batchQueue.add o.batchId (o.job cfg) ∧
      alone (step Batches.store cfg) i pause (fuel + 4) s =
        some ([.lockBatch i, .add i, .del i, .delReply i], t) := by
  let locked : BatchState A := { s with
    clock := s.clock + pause (fuel + 3)
    redis := (⟨none, some (o.lock now)⟩ : Batches A) }.setCall i
      (.closing w b timeout raisedFor (.add (o.snapshot .locked)))
  have hlock : alone (step Batches.store cfg) i pause (fuel + 4) s =
      (alone (step Batches.store cfg) i pause (fuel + 3) locked).map
        (Prod.map (.lockBatch i :: ·) id) :=
    alone_step cfg pause call (Step.lockOpen i w b timeout raisedFor now o call
      (congrArg Batches.current redis) (congrArg Batches.locked redis))
  have hlocked : locked.calls i =
      some (.closing w b timeout raisedFor (.add (o.snapshot .locked))) := Function.update_self ..
  obtain ⟨t, tredis, tqueue, halone⟩ :=
    alone_received cfg pause fuel hlocked
  have hreturned : (t.finish i w b timeout raisedFor .locked).calls i = none :=
    Function.update_self ..
  refine ⟨t.finish i w b timeout raisedFor .locked, hreturned, tredis, tqueue, ?_⟩
  have hstatus : (o.snapshot .locked).status = .locked := rfl
  rw [hlock, halone, hstatus, alone_of_returned hreturned]
  rfl

/-- A round that meets an expired lock takes the leftover and starts over. -/
theorem alone_leftover {o : OpenBatch A} {l : LockedBatch A} {now : ℕ} (fuel : ℕ)
    (call : s.calls i = some (.closing w b timeout raisedFor (.lock now)))
    (redis : s.redis = ⟨some o, some l⟩) (expired : l.Expired now lockExpireMs) :
    ∃ (t : BatchState A) (later : ℕ),
      t.calls i = some (.closing w b timeout raisedFor (.lock later)) ∧
      t.redis = ⟨some o, none⟩ ∧
      t.batchQueue = s.batchQueue.add l.batchId (l.toOpenBatch.job cfg) ∧
      alone (step Batches.store cfg) i pause (fuel + 4) s =
        (alone (step Batches.store cfg) i pause fuel t).map
          (Prod.map ([.lockBatch i, .add i, .del i, .delReply i] ++ ·) id) := by
  let received : BatchState A := { s with clock := s.clock + pause (fuel + 3) }.setCall i
    (.closing w b timeout raisedFor (.add (l.toOpenBatch.snapshot .leftover)))
  have hlock : alone (step Batches.store cfg) i pause (fuel + 4) s =
      (alone (step Batches.store cfg) i pause (fuel + 3) received).map
        (Prod.map (.lockBatch i :: ·) id) :=
    alone_step cfg pause call (Step.lockLeftover i w b timeout raisedFor now o l call
      (congrArg Batches.current redis) (congrArg Batches.locked redis) expired)
  have hreceived : received.calls i =
      some (.closing w b timeout raisedFor (.add (l.toOpenBatch.snapshot .leftover))) :=
    Function.update_self ..
  obtain ⟨t, tredis, tqueue, halone⟩ :=
    alone_received cfg pause fuel hreceived
  refine ⟨t.finish i w b timeout raisedFor .leftover, t.clock, Function.update_self .., ?_,
    tqueue, ?_⟩
  · have hclear : t.redis = s.redis.clear := tredis
    rw [redis] at hclear
    exact hclear
  · rw [hlock, halone, Option.map_map]
    rfl

/-- A round that meets a fresh lock returns at once. -/
theorem alone_held {o : OpenBatch A} {l : LockedBatch A} {now : ℕ} (fuel : ℕ)
    (call : s.calls i = some (.closing w b timeout raisedFor (.lock now)))
    (redis : s.redis = ⟨some o, some l⟩) (fresh : ¬ l.Expired now lockExpireMs) :
    ∃ t : BatchState A, t.calls i = none ∧ t.redis = s.redis ∧ t.batchQueue = s.batchQueue ∧
      alone (step Batches.store cfg) i pause (fuel + 1) s = some ([.lockBatch i], t) := by
  refine ⟨({ s with clock := s.clock + pause fuel } : BatchState A).endCall i,
    Function.update_self .., rfl, rfl, ?_⟩
  rw [alone_step cfg pause call (Step.lockHeld i w b timeout raisedFor now o l call
    (congrArg Batches.current redis) (congrArg Batches.locked redis) fresh),
    alone_of_returned (Function.update_self ..)]
  rfl

end Rounds

section Statement
variable {A : Type} (cfg : Config)

/-- A lock that is not older than the lock expiry. -/
def FreshLock (clock : ℕ) (l : Option (LockedBatch A)) : Prop :=
  ∃ x ∈ l, (clock : ℤ) - x.lockTimestamp ≤ batchLockExpireSeconds * 1000

/-- What is left of an open batch, a locked one and the queue. -/
def Closes {R : Type} (empty : R → Prop) (b : OpenBatch A) (l : Option (LockedBatch A))
    (s t : State A R) : Prop :=
  (FreshLock s.clock l → t.redis = s.redis ∧ t.batchQueue = s.batchQueue) ∧
    (¬ FreshLock s.clock l → empty t.redis ∧
      t.batchQueue = (l.elim s.batchQueue fun x =>
        s.batchQueue.add x.batchId (x.toOpenBatch.job cfg)).add b.batchId (b.job cfg))

theorem freshLock_iff {clock : ℕ} {l : LockedBatch A} :
    FreshLock clock (some l) ↔ ¬ l.Expired clock lockExpireMs := by
  unfold FreshLock LockedBatch.Expired lockExpireMs
  constructor
  · rintro ⟨x, hx, hage⟩
    cases hx
    omega
  · exact fun h => ⟨l, rfl, by omega⟩

/-- A closer goes through one round for each batch. -/
theorem alone_closeBatch (s : BatchState A) {b : OpenBatch A} {l : Option (LockedBatch A)}
    (redis : s.redis = ⟨some b, l⟩) (i : CallId) (w : WorkerId) (batchId raisedFor : BatchId)
    (timeout : Bool) (pause : ℕ → ℕ) :
    ∃ (as : List (Action A)) (t : BatchState A), alone (step Batches.store cfg) i pause 8
        (s.closeBatch i w batchId timeout raisedFor) = some (as, t) ∧ t.calls i = none ∧
      (as = [.lockBatch i] ∨ as = [.lockBatch i, .add i, .del i, .delReply i] ∨
        as = [.lockBatch i, .add i, .del i, .delReply i,
          .lockBatch i, .add i, .del i, .delReply i]) ∧
      Closes cfg (· = .empty) b l s t := by
  have call : (s.closeBatch i w batchId timeout raisedFor).calls i =
      some (.closing w batchId timeout raisedFor (.lock s.clock)) := Function.update_self ..
  cases l with
  | none =>
      obtain ⟨t, returned, tredis, tqueue, halone⟩ :=
        alone_locked cfg pause 4 call redis
      refine ⟨_, t, halone, returned, .inr (.inl rfl), fun h => ?_, fun _ => ⟨tredis, tqueue⟩⟩
      obtain ⟨x, hx, _⟩ := h
      cases hx
  | some l =>
      by_cases expired : l.Expired s.clock lockExpireMs
      · obtain ⟨u, later, ucall, uredis, uqueue, hfirst⟩ :=
          alone_leftover cfg pause 4 call redis expired
        obtain ⟨t, returned, tredis, tqueue, hsecond⟩ :=
          alone_locked cfg pause 0 ucall uredis
        refine ⟨_, t, ?_, returned, .inr (.inr rfl), fun h => ?_, fun _ => ⟨tredis, ?_⟩⟩
        · rw [hfirst, hsecond]
          rfl
        · exact absurd expired (freshLock_iff.mp h)
        · rw [tqueue, uqueue]
          rfl
      · obtain ⟨t, returned, tredis, tqueue, halone⟩ :=
          alone_held cfg pause 7 call redis expired
        refine ⟨_, t, halone, returned, .inl rfl, fun _ => ⟨tredis, tqueue⟩, fun h => ?_⟩
        exact absurd (freshLock_iff.mpr expired) h

end Statement

section Deployed
variable {A : Type}

/-- A map that commutes with steps and keeps the calls commutes with a call that runs
alone. -/
theorem alone_map {R R' : Type} {step : State A R → Action A → Option (State A R)}
    {step' : State A R' → Action A → Option (State A R')} {f : State A R → State A R'}
    (h : ∀ s a, step' (f s) a = (step s a).map f) (hcalls : ∀ s, (f s).calls = s.calls)
    (i : CallId) (pause : ℕ → ℕ) (fuel : ℕ) (s : State A R) :
    alone step' i pause fuel (f s) = (alone step i pause fuel s).map (Prod.map id f) := by
  induction fuel generalizing s with
  | zero => rfl
  | succ fuel ih =>
      have hnext : (f s).nextAction? i = s.nextAction? i := by
        rw [State.nextAction?, hcalls]
        rfl
      unfold alone
      rw [hnext]
      cases s.nextAction? i with
      | none => rfl
      | some a =>
          dsimp only
          rw [run_map h]
          cases run step s [.tick (pause fuel), a] with
          | none => rfl
          | some t =>
              simp only [Option.map_some, Option.bind_some, ih, Option.map_map]
              rfl

variable [DecidableEq A]

/-- A `closeBatch` call that runs alone returns after at most one recursive call. Under
a fresh lock it changes nothing; otherwise nothing is left in Redis, and the queue has
received the locked batch and then the open one. -/
theorem closeBatch_alone (cfg : Config) (s : BatchState A) (b : OpenBatch A)
    (l : Option (LockedBatch A)) (i : CallId) (w : WorkerId) (batchId raisedFor : BatchId)
    (timeout : Bool) (pause : ℕ → ℕ) :
    let start := ({ s with redis := ⟨some b, l⟩ } : BatchState A).encode cfg
    ∃ as t, alone (batchingStep cfg) i pause 8
        (start.closeBatch i w batchId timeout raisedFor) = some (as, t) ∧
      t.calls i = none ∧ as.count (.lockBatch i) ≤ 2 ∧
      Closes cfg (fun r => ∀ key, r key = none) b l start t := by
  intro start
  obtain ⟨as, t, halone, returned, has, hfresh, hclosed⟩ := alone_closeBatch cfg
    ({ s with redis := ⟨some b, l⟩ } : BatchState A) rfl i w batchId raisedFor timeout pause
  refine ⟨as, t.encode cfg, ?_, returned, ?_, fun h => ?_, fun h => ?_⟩
  · have hmap := alone_map (batchingStep_encode cfg) (fun _ => rfl) i pause 8
      (({ s with redis := ⟨some b, l⟩ } : BatchState A).closeBatch i w batchId timeout raisedFor)
    rw [halone] at hmap
    exact hmap
  · rcases has with rfl | rfl | rfl <;> simp
  · obtain ⟨tredis, tqueue⟩ := hfresh h
    exact ⟨congrArg (Batches.encode _) tredis, tqueue⟩
  · obtain ⟨tredis, tqueue⟩ := hclosed h
    refine ⟨fun key => ?_, tqueue⟩
    have hempty : (t.encode cfg).redis = fun _ => none :=
      (congrArg (Batches.encode _) tredis).trans (Batches.encode_empty _)
    rw [hempty]

end Deployed

end ContentPublishing.Batching
