import ContentPublishing.Batching.Provenance
import ContentPublishing.Batching.Recovery

/-!
# No state is a dead end

After one more announcement and at most one start of a worker everything that Redis holds
is in the batch queue, whatever failed before. If the call of the announcement does not
close its batch, a starting worker takes its place and finds the batch old enough. The
call that closes meets an expired lock, closes the batch that was left behind, and starts
over.
-/
namespace ContentPublishing.Batching
open Transition
variable {A : Type}

/-- Only calls in this slot take steps, and nothing fails. -/
def Undisturbed (i : CallId) (as : List (Action A)) : Prop :=
  ∀ a ∈ as, (∀ k ∈ a.call?, k = i) ∧ a.isFault = false

theorem Undisturbed.append {i : CallId} {as bs : List (Action A)} (has : Undisturbed i as)
    (hbs : Undisturbed i bs) : Undisturbed i (as ++ bs) :=
  fun a ha => (List.mem_append.mp ha).elim (has a) (hbs a)

theorem undisturbed_closeRound (i : CallId) : Undisturbed i (closeRound i : List (Action A)) := by
  simp [Undisturbed, closeRound, Action.call?, Action.isFault]

section Runs
variable (cfg : Config) {s : BatchState A} {i : CallId} {w : WorkerId} {o : OpenBatch A}

/-- The call has returned, or it has begun to close a batch. -/
def ReturnedOrClosing (s : BatchState A) (i : CallId) : Prop :=
  s.calls i = none ∨ ∃ w b r, s.calls i = some (.closing w b false r (.lock s.clock))

theorem returnedOrClosing_processReply (s : BatchState A) (i : CallId) (w : WorkerId)
    (b : BatchId) (n : ℤ) (joined : BatchId) :
    ReturnedOrClosing (s.processReply cfg i w b n joined) i := by
  unfold State.processReply
  split_ifs
  · exact .inl (Function.update_self ..)
  · exact .inr ⟨w, b, joined, Function.update_self ..⟩
  · exact .inl (Function.update_self ..)

/-- The reply of `addToBatch` changes neither the batches nor the clock. -/
theorem processReply_eq (s : BatchState A) (i : CallId) (w : WorkerId) (b : BatchId) (n : ℤ)
    (joined : BatchId) :
    (s.processReply cfg i w b n joined).redis = s.redis ∧
      (s.processReply cfg i w b n joined).clock = s.clock := by
  unfold State.processReply
  split_ifs <;> exact ⟨rfl, rfl⟩

/-- A call of `process` that is not interrupted puts its row into the open batch. -/
theorem run_process (w : WorkerId) (job : Job A) {b : BatchId} (free : s.calls i = none)
    (fresh : b ∉ s.issued) :
    ∃ t o, run (step Batches.store cfg) s [.process w i job b, .addToBatch i, .addReply i] =
        some t ∧ t.redis = ⟨some o, s.redis.locked⟩ ∧
      (∀ p, s.redis.current = some p → o.batchId = p.batchId) ∧
      ⟨job.id, job.data, o.batchId⟩ ∈ t.accepted ∧ t.batchQueue = s.batchQueue ∧
      t.clock = s.clock ∧ ReturnedOrClosing t i := by
  have processed : ({ s with issued := b :: s.issued }.setCall i
      (.adding w job b s.clock) : BatchState A).calls i = some (.adding w job b s.clock) :=
    Function.update_self ..
  rw [run_cons_of (Step.process w i job b free fresh).enabled]
  cases hcur : s.redis.current with
  | none =>
      rw [run_cons_of (Step.addNew i w job b s.clock processed hcur).enabled,
        run_cons_of (Step.addReply i w job b 1 b (Function.update_self ..)).enabled]
      refine ⟨_, _, rfl, (processReply_eq cfg ..).1, (fun _ h => by cases h), ?_, ?_,
        (processReply_eq cfg ..).2, returnedOrClosing_processReply cfg ..⟩
      · rw [(SameRecords.processReply ⟨rfl, rfl⟩ i w b 1 b).accepted]
        exact List.mem_append_right _ (List.mem_singleton_self _)
      · exact (SameRecords.processReply ⟨rfl, rfl⟩ i w b 1 b).batchQueue
  | some o =>
      rw [run_cons_of (Step.addRow i w job b s.clock o processed hcur).enabled,
        run_cons_of (Step.addReply i w job b _ o.batchId (Function.update_self ..)).enabled]
      refine ⟨_, o.addRow (job.id, job.data), rfl, (processReply_eq cfg ..).1,
        (fun p hp => by cases hp; rfl), ?_, ?_, (processReply_eq cfg ..).2,
        returnedOrClosing_processReply cfg ..⟩
      · rw [(SameRecords.processReply ⟨rfl, rfl⟩ i w b _ o.batchId).accepted]
        exact List.mem_append_right _ (List.mem_singleton_self _)
      · exact (SameRecords.processReply ⟨rfl, rfl⟩ i w b _ o.batchId).batchQueue

/-- If the call has returned without closing the batch, a worker starts in its slot and
begins to close the batch once it is old enough. -/
theorem run_begin (current : s.redis.current = some o) (h : ReturnedOrClosing s i) :
    ∃ as t, run (step Batches.store cfg) s as = some t ∧ Undisturbed i as ∧
      as.filterMap Action.processed? = [] ∧ t.redis = s.redis ∧ t.accepted = s.accepted ∧
      ∃ w b timeout r now,
        t.calls i = some (.closing w b timeout r (.lock now)) ∧ s.clock ≤ now := by
  rcases h with returned | ⟨w, b, r, closing⟩
  · have hold : cfg.batchTimeoutMs ≤
        ((((s.clock + (⌈cfg.batchTimeoutMs⌉₊ + o.startTimestamp) : ℕ) : ℤ) -
          o.startTimestamp : ℤ) : ℚ) := by
      have hceil := Nat.le_ceil cfg.batchTimeoutMs
      have hclock : (0 : ℚ) ≤ s.clock := Nat.cast_nonneg _
      push_cast
      linarith
    refine ⟨[.setupActiveBatchTimeout 0 i, .tick (⌈cfg.batchTimeoutMs⌉₊ + o.startTimestamp),
      .setupReply i], ?_⟩
    rw [run_cons_of (Step.setup 0 i returned).enabled, run_cons_of (Step.tick _).enabled,
      run_cons_of (Step.setupReply i 0 (some o.metadata)
        (by simp [State.setCall, current])).enabled]
    refine ⟨_, rfl, by simp [Undisturbed, Action.call?, Action.isFault], rfl, ?_⟩
    dsimp only [State.setupReply, State.setCall, OpenBatch.metadata]
    rw [if_pos hold]
    exact ⟨rfl, rfl, 0, o.batchId, false, o.batchId, _, Function.update_self ..,
      Nat.le_add_right _ _⟩
  · exact ⟨[], s, rfl, (fun _ h => by cases h), rfl, rfl, rfl, w, b, false, r, s.clock, closing,
      le_rfl⟩

/-- A round that meets no locked batch enqueues the open one. -/
theorem run_round {b r : BatchId} {timeout : Bool} {now : ℕ}
    (call : s.calls i = some (.closing w b timeout r (.lock now)))
    (redis : s.redis = ⟨some o, none⟩) :
    ∃ t, run (step Batches.store cfg) s (closeRound i) = some t ∧ t.redis = .empty ∧
      t.accepted = s.accepted ∧
      t.batchQueue = s.batchQueue.add o.batchId (cfg.batchJob (o.snapshot .locked)) := by
  have current : s.redis.current = some o := congrArg Batches.current redis
  have locked : s.redis.locked = none := congrArg Batches.locked redis
  rw [closeRound, run_cons_of (Step.lockOpen i w b timeout r now o call current locked).enabled,
    run_cons_of (Step.add i w b timeout r (o.snapshot .locked) (Function.update_self ..)).enabled,
    run_cons_of (Step.del i w b timeout r (o.snapshot .locked) (Function.update_self ..)).enabled,
    run_cons_of (Step.delReply i w b timeout r (o.snapshot .locked)
      (Function.update_self ..)).enabled]
  exact ⟨_, rfl, rfl, rfl, rfl⟩

/-- A round that meets an expired lock enqueues the leftover batch and starts over. -/
theorem run_leftoverRound {b r : BatchId} {timeout : Bool} {now : ℕ} {l : LockedBatch A}
    (call : s.calls i = some (.closing w b timeout r (.lock now)))
    (redis : s.redis = ⟨some o, some l⟩) (expired : l.Expired now lockExpireMs) :
    ∃ t, run (step Batches.store cfg) s (closeRound i) = some t ∧ t.redis = ⟨some o, none⟩ ∧
      t.accepted = s.accepted ∧
      t.batchQueue = s.batchQueue.add l.batchId
        (cfg.batchJob (l.toOpenBatch.snapshot .leftover)) ∧
      t.calls i = some (.closing w b timeout r (.lock t.clock)) := by
  have current : s.redis.current = some o := congrArg Batches.current redis
  have locked : s.redis.locked = some l := congrArg Batches.locked redis
  rw [closeRound,
    run_cons_of (Step.lockLeftover i w b timeout r now o l call current locked expired).enabled,
    run_cons_of (Step.add i w b timeout r (l.toOpenBatch.snapshot .leftover)
      (Function.update_self ..)).enabled,
    run_cons_of (Step.del i w b timeout r (l.toOpenBatch.snapshot .leftover)
      (Function.update_self ..)).enabled,
    run_cons_of (Step.delReply i w b timeout r (l.toOpenBatch.snapshot .leftover)
      (Function.update_self ..)).enabled]
  refine ⟨_, rfl, ?_, rfl, rfl, Function.update_self ..⟩
  exact congrArg (fun r : Batches A => Batches.mk r.current none) redis

/-- One round or two enqueue everything that is stored. -/
theorem run_rounds {b r : BatchId} {timeout : Bool} {now : ℕ} {locked : Option (LockedBatch A)}
    (call : s.calls i = some (.closing w b timeout r (.lock now)))
    (redis : s.redis = ⟨some o, locked⟩) (expired : ∀ l ∈ locked, l.Expired now lockExpireMs) :
    ∃ as t, run (step Batches.store cfg) s as = some t ∧ Undisturbed i as ∧
      as.filterMap Action.processed? = [] ∧ t.redis = .empty ∧ t.accepted = s.accepted ∧
      o.batchId ∈ t.batchQueue.ids ∧ ∀ l ∈ locked, l.batchId ∈ t.batchQueue.ids := by
  cases locked with
  | none =>
      obtain ⟨t, ht, tredis, taccepted, tqueue⟩ := run_round cfg call redis
      refine ⟨closeRound i, t, ht, undisturbed_closeRound i, rfl, tredis, taccepted, ?_,
        fun _ h => by cases h⟩
      rw [tqueue]
      exact JobQueue.mem_ids_add.mpr (.inr rfl)
  | some l =>
      obtain ⟨u, hu, uredis, uaccepted, uqueue, ucall⟩ :=
        run_leftoverRound cfg call redis (expired l rfl)
      obtain ⟨t, ht, tredis, taccepted, tqueue⟩ := run_round cfg ucall uredis
      have hleftover : l.batchId ∈ u.batchQueue.ids := by
        rw [uqueue]
        exact JobQueue.mem_ids_add.mpr (.inr rfl)
      refine ⟨closeRound i ++ closeRound i, t, by rw [run_append, hu, Option.bind_some, ht],
        (undisturbed_closeRound i).append (undisturbed_closeRound i), rfl, tredis,
        taccepted.trans uaccepted, ?_, ?_⟩
      · rw [tqueue]
        exact JobQueue.mem_ids_add.mpr (.inr rfl)
      · rintro _ ⟨⟩
        rw [tqueue]
        exact JobQueue.mem_ids_add.mpr (.inl hleftover)

/-- An open batch was never enqueued. -/
theorem not_mem_ids_of_current {as : List (Action A)}
    (h : run (step Batches.store cfg) (initial .empty) as = some s)
    (current : s.redis.current = some o) : o.batchId ∉ s.batchQueue.ids := by
  obtain ⟨L, hL⟩ := Ledger.of_run h
  intro hids
  obtain ⟨⟨b, job⟩, hjob, hb⟩ := List.mem_map.mp hids
  obtain ⟨closed, hclosed, -⟩ := hL.queue b job hjob
  have hopened : L b = .opened := (hL.current b).mpr ⟨o, current, hb.symm⟩
  rw [hclosed] at hopened
  cases hopened

/-- Whatever is stored and whoever holds the lock, one call brings all of it into the
queue. -/
theorem exists_run_empty {before : List (Action A)}
    (h : run (step Batches.store cfg) (initial .empty) before = some s) (job : Job A) {b : BatchId}
    (free : s.calls i = none) (fresh : b ∉ s.issued) :
    ∃ as t c, run (step Batches.store cfg) s as = some t ∧ Undisturbed i as ∧
      as.filterMap Action.processed? = [(job, b)] ∧ t.redis = .empty ∧
      (∀ c, Stored Batches.store s.redis c → c ∈ t.batchQueue.ids) ∧
      ⟨job.id, job.data, c⟩ ∈ t.accepted ∧ c ∉ s.batchQueue.ids ∧ c ∈ t.batchQueue.ids := by
  let wait : ℕ := s.redis.locked.elim 0 fun l => l.lockTimestamp + lockExpireMs + 1
  let later : BatchState A := { s with clock := s.clock + wait }
  obtain ⟨t₁, o, run₁, redis₁, same, accepted₁, queue₁, clock₁, closing⟩ :=
    run_process (s := later) cfg 0 job free fresh
  have current : t₁.redis.current = some o := congrArg Batches.current redis₁
  obtain ⟨as₂, t₂, run₂, undisturbed₂, jobs₂, redis₂, accepted₂, w, b', timeout, r, now, call,
    hnow⟩ := run_begin cfg current closing
  have expired : ∀ l ∈ s.redis.locked, l.Expired now lockExpireMs := by
    intro l hl
    have hwait : wait = l.lockTimestamp + lockExpireMs + 1 := by
      dsimp only [wait]
      rw [Option.mem_def.mp hl, Option.elim_some]
    have hclock : t₁.clock = s.clock + wait := clock₁
    unfold LockedBatch.Expired
    omega
  obtain ⟨as₃, t₃, run₃, undisturbed₃, jobs₃, redis₃, accepted₃, hopen, hlocked⟩ :=
    run_rounds cfg call (redis₂.trans redis₁) expired
  let as₁ : List (Action A) := [.tick wait, .process 0 i job b, .addToBatch i, .addReply i]
  have reach₁ : run (step Batches.store cfg) s as₁ = some t₁ := by
    rw [run_cons_of (Step.tick wait).enabled, run₁]
  have undisturbed₁ : Undisturbed i as₁ := by
    simp [as₁, Undisturbed, Action.call?, Action.isFault]
  refine ⟨as₁ ++ as₂ ++ as₃, t₃, o.batchId, ?_,
    (undisturbed₁.append undisturbed₂).append undisturbed₃, ?_, redis₃, ?_, ?_, ?_, hopen⟩
  · rw [run_append, run_append, reach₁, Option.bind_some, run₂, Option.bind_some, run₃]
  · rw [List.filterMap_append, List.filterMap_append, jobs₂, jobs₃]
    rfl
  · intro c hc
    rcases stored_iff.mp hc with ⟨p, hp, rfl⟩ | ⟨l, hl, rfl⟩
    · exact same p hp ▸ hopen
    · exact hlocked l hl
  · rw [accepted₃, accepted₂]
    exact accepted₁
  · rw [show s.batchQueue = t₁.batchQueue from queue₁.symm]
    have reach : run (step Batches.store cfg) (initial .empty) (before ++ as₁) = some t₁ := by
      rw [run_append, h, Option.bind_some, reach₁]
    exact not_mem_ids_of_current cfg reach current

end Runs

/-- A continuation with one job, after which Redis holds nothing: what it held is in the batch
queue, and so is a batch with a row for the job, which was not there before. -/
structure Drains [DecidableEq A] (cfg : Config) (as : List (Action A))
    (s : State A (Redis.Store String (Value A))) (i : CallId) (job : Job A) (b : BatchId)
    (bs : List (Action A)) (t : State A (Redis.Store String (Value A))) : Prop where
  undisturbed : Undisturbed i bs
  once : bs.filterMap Action.processed? = [(job, b)]
  redis : t.redis = fun _ => none
  stored : ∀ c, Stored (batchingStore cfg) s.redis c → c ∈ t.batchQueue.ids
  enqueued : ∃ c batch rows, c ∉ s.batchQueue.ids ∧ (c, batch) ∈ t.batchQueue.jobs ∧
    Collected cfg (as ++ bs) t c batch rows ∧ job.id ∈ rows.map Prod.fst

/-- Whatever a run has left behind is drained after one more announcement, and the start of
a worker where the announcement does not close its batch. -/
theorem drains_of_run [DecidableEq A] {cfg : Config} {as : List (Action A)}
    {s : State A (Redis.Store String (Value A))} (h : run (batchingStep cfg) start as = some s)
    {i : CallId} (free : s.calls i = none) (job : Job A) {b : BatchId} (fresh : b ∉ s.issued) :
    ∃ bs t, run (batchingStep cfg) s bs = some t ∧ Drains cfg as s i job b bs t := by
  obtain ⟨u, hu, rfl⟩ := exists_of_run h
  obtain ⟨bs, t, c, ht, hundisturbed, honce, hredis, hstored, haccepted, hnew, hids⟩ :=
    exists_run_empty cfg hu job free fresh
  have hrun : run (batchingStep cfg) (u.encode cfg) bs = some (t.encode cfg) := by
    rw [run_map (batchingStep_encode cfg), ht, Option.map_some]
  have hall : run (batchingStep cfg) start (as ++ bs) = some (t.encode cfg) := by
    rw [run_append, h, Option.bind_some, hrun]
  refine ⟨bs, t.encode cfg, hrun, hundisturbed, honce, ?_, ?_, ?_⟩
  · exact (congrArg (Batches.encode _) hredis).trans (Batches.encode_empty _)
  · exact fun b hb => hstored b (stored_encode.mp hb)
  · obtain ⟨⟨_, batch⟩, hbatch, rfl⟩ := List.mem_map.mp hids
    obtain ⟨rows, hrows, hcomplete⟩ := collected_of_run hall hbatch
    exact ⟨_, batch, rows, hnew, hbatch, hrows, hcomplete _ haccepted rfl⟩

/-- The batch that a restart does not recover is recovered by the next announcement. -/
theorem drains_crashWithLocked : ∃ s, run (batchingStep .sample) start crashWithLocked = some s ∧
    Stored (batchingStore .sample) s.redis "b1" ∧
    ∃ bs t, run (batchingStep .sample) s bs = some t ∧
      Drains .sample crashWithLocked s 2 ⟨"j2", "a2"⟩ "b2" bs t := by
  obtain ⟨s, hs, hstored, free, fresh⟩ := exists_of_run_any
    (P := fun s => Stored (batchingStore .sample) s.redis "b1" ∧ s.calls 2 = none ∧
      "b2" ∉ s.issued)
    (by decide +kernel : (run (batchingStep .sample) start crashWithLocked).any _)
  exact ⟨s, hs, hstored, drains_of_run hs free ⟨"j2", "a2"⟩ fresh⟩

end ContentPublishing.Batching
