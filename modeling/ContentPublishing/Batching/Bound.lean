import ContentPublishing.Batching.Coverage
import Mathlib.Data.Rat.Lemmas

/-!
# How many announcements one batch can carry

The size of the open batch is looked at only after a row was inserted, and the
batch is closed by a later script that may be refused. Until then every further
`addToBatch` inserts its row, and nobody comes back to a full batch whose closing
was refused. A batch stays within a maximum that the size can meet exactly as long as
no row slips in while a call is on its way to close it.
-/
namespace ContentPublishing.Batching
open Transition

section Statements
variable {A R : Type} (store : BatchStore A R) (cfg : Config)

/-- Rows of the open batch; `HGETALL` answers two values for each. -/
def openRowCount (r : R) : ℕ := (store.rows r).length / 2

/-- The open batch, if it is of the size at which it is to be closed. -/
def fullBatch? (r : R) : Option BatchId :=
  (store.metadata r).bind fun m => m.rowCount.bind fun rowCount =>
    if cfg.batchMaxCount ≤ rowCount then some m.batchId else none

/-- The batch that a call is on its way to close: it got a count for which it will call
`closeBatch`, or it has called it and got no batch but a leftover. -/
def Call.closes? : Call A → Option BatchId
  | .added _ _ _ rowCount joined =>
      if rowCount ≠ 1 ∧ cfg.batchMaxCount ≤ rowCount then some joined else none
  | .closing _ _ _ raisedFor stage =>
      if stage.status? = some .locked then none else some raisedFor
  | _ => none

def State.Closes (s : State A R) (i : CallId) (b : BatchId) : Prop :=
  (s.calls i).bind (Call.closes? cfg) = some b

instance (s : State A R) (i : CallId) (b : BatchId) : Decidable (s.Closes cfg i b) :=
  inferInstanceAs (Decidable (_ = _))

/-- The step does not end this call, and its `lockBatch` meets no lock that is alive. -/
def State.GoesOn (s : State A R) (a : Action A) (i : CallId) : Prop :=
  a ≠ .throw i ∧ (∀ c ∈ s.calls i, a ≠ .crash c.worker) ∧
    (a = .lockBatch i → ∀ q ∈ s.lockRequest? a, ∀ m ∈ store.lockedMetadata s.redis,
      ∀ t ∈ m.lockTimestamp, t + lockExpireMs < q.now)

instance [DecidableEq A] (s : State A R) (a : Action A) (i : CallId) :
    Decidable (s.GoesOn store a i) :=
  inferInstanceAs (Decidable (_ ∧ (∀ _ ∈ _, _) ∧ (_ → ∀ _ ∈ _, ∀ _ ∈ _, ∀ _ ∈ _, _)))

/-- While calls are on their way to close a full batch, no job is added that the batch does
not have, and one of the calls goes on. -/
def LeftAlone (s : State A R) (a : Action A) : Prop :=
  ∀ b ∈ fullBatch? store cfg s.redis, (∃ i, s.Closes cfg i b) →
    (∀ job ∈ s.addRequest? a, .jobId job.id ∈ store.rows s.redis) ∧
      ∃ i, s.Closes cfg i b ∧ s.GoesOn store a i

/-- An `addToBatch` of a job that is not in the open batch yet finds fewer rows
there than the maximum. -/
def HasRoom (s : State A R) (a : Action A) : Prop :=
  ∀ job ∈ s.addRequest? a, .jobId job.id ∈ store.rows s.redis ∨
    ((openRowCount store s.redis + 1 : ℕ) : ℚ) ≤ cfg.batchMaxCount

/-- No job of the output queue carries more than the maximum. -/
def WithinMaximum (s : State A R) : Prop :=
  ∀ job ∈ s.batchQueue.jobs, (job.2.announcements.length : ℚ) ≤ cfg.batchMaxCount

instance (s : State A R) : Decidable (WithinMaximum cfg s) :=
  inferInstanceAs (Decidable (∀ _ ∈ _, _))

end Statements

theorem length_flatten_hashFields {A : Type} (rows : List (Row A)) :
    (Redis.flatten (hashFields rows)).length = 2 * rows.length := by
  induction rows with
  | nil => rfl
  | cons row rows ih =>
      simp only [hashFields, List.map_cons, Redis.flatten, List.length_cons] at ih ⊢
      omega

section Invariant
variable {A : Type}

/-- The rows of a batch number at most the maximum. -/
def OpenBatch.Fits (cfg : Config) (o : OpenBatch A) : Prop :=
  (o.rows.length : ℚ) ≤ cfg.batchMaxCount

theorem OpenBatch.fits_single (cfg : Config) (b : BatchId) (t : ℕ) (row : Row A) :
    (OpenBatch.single b t row).Fits cfg := by
  have hone : ((1 : ℕ) : ℚ) ≤ cfg.batchMaxCount := by
    simpa using cfg.batchMaxCount_min
  exact hone

/-- A row that is already there leaves the batch as it is; a new one needs room. -/
theorem OpenBatch.Fits.addRow {cfg : Config} {o : OpenBatch A} (h : o.Fits cfg) {row : Row A}
    (room : row.1 ∈ o.rows.map Prod.fst ∨ ((o.rows.length + 1 : ℕ) : ℚ) ≤ cfg.batchMaxCount) :
    (o.addRow row).Fits cfg := by
  have hrows : (o.addRow row).rows.length = (OpenBatch.insert o.rows row).length := rfl
  unfold Fits
  rw [hrows, OpenBatch.insert]
  by_cases hrow : row.1 ∈ o.rows.map Prod.fst
  · rw [if_pos hrow]
    exact h
  · rw [if_neg hrow, List.length_append, List.length_singleton]
    exact room.resolve_left hrow

/-- The announcements a `closeBatch` call holds number at most the maximum. -/
def Call.Fits (cfg : Config) (c : Call A) : Prop :=
  ∀ snapshot, c.snapshot? = some snapshot →
    (snapshot.announcements.length : ℚ) ≤ cfg.batchMaxCount

theorem Call.fits_of_none {cfg : Config} {c : Call A} (h : c.snapshot? = none) : c.Fits cfg := by
  intro snapshot hs
  rw [h] at hs
  cases hs

theorem OpenBatch.Fits.closing {cfg : Config} {o : OpenBatch A} (h : o.Fits cfg) (w : WorkerId)
    (b : BatchId) (timeout : Bool) (raisedFor : BatchId) (status : LockStatus) :
    (Call.closing w b timeout raisedFor (.add (o.snapshot status))).Fits cfg := by
  intro snapshot hs
  have hsnap : o.snapshot status = snapshot := Option.some.inj hs
  subst hsnap
  have hlen : (o.snapshot status).announcements.length = o.rows.length := List.length_map ..
  rw [hlen]
  exact h

/-- Every copy of every batch is within the maximum. -/
structure Fitting (cfg : Config) (s : BatchState A) : Prop where
  current : ∀ o, s.redis.current = some o → o.Fits cfg
  locked : ∀ l, s.redis.locked = some l → l.toOpenBatch.Fits cfg
  calls : ∀ i c, s.calls i = some c → c.Fits cfg
  queued : WithinMaximum cfg s

namespace Fitting
variable {cfg : Config} {s : BatchState A}

theorem initial : Fitting cfg (initial (Batches.empty (A := A))) :=
  ⟨fun _ ho => (by cases ho), fun _ hl => (by cases hl), fun _ _ hc => (by cases hc),
    fun _ hj => (by cases hj)⟩

theorem setCall (h : Fitting cfg s) {i : CallId} {c : Call A} (hc : c.Fits cfg) :
    Fitting cfg (s.setCall i c) :=
  ⟨h.current, h.locked, State.forall_setCall h.calls hc, h.queued⟩

theorem endCall (h : Fitting cfg s) (i : CallId) : Fitting cfg (s.endCall i) :=
  ⟨h.current, h.locked, State.forall_endCall h.calls i, h.queued⟩

theorem setTimeout (h : Fitting cfg s) (w : WorkerId) (b : BatchId) (t : Option Timeout) :
    Fitting cfg (s.setTimeout w b t) := ⟨h.current, h.locked, h.calls, h.queued⟩

theorem closeBatch (h : Fitting cfg s) (i : CallId) (w : WorkerId) (b : BatchId)
    (timeout : Bool) (raisedFor : BatchId) :
    Fitting cfg (s.closeBatch i w b timeout raisedFor) :=
  h.setCall (Call.fits_of_none rfl)

theorem finish (h : Fitting cfg s) (i : CallId) (w : WorkerId) (b : BatchId) (timeout : Bool)
    (raisedFor : BatchId) (status : LockStatus) :
    Fitting cfg (s.finish i w b timeout raisedFor status) := by
  cases status with
  | leftover => exact h.closeBatch ..
  | locked => exact h.endCall i

/-- The open batch is replaced by one that fits, under whatever was accepted. -/
theorem setCurrent (h : Fitting cfg s) {o : OpenBatch A} (ho : o.Fits cfg)
    (accepted : List (Accepted A)) :
    Fitting cfg { s with redis := ⟨some o, s.redis.locked⟩, accepted := accepted } := by
  refine ⟨fun p hp => ?_, h.locked, h.calls, h.queued⟩
  have hop : o = p := Option.some.inj hp
  exact hop ▸ ho

/-- A step whose insertion finds room keeps every copy within the maximum. -/
theorem step (h : Fitting cfg s) {a : Action A} {t : BatchState A}
    (room : HasRoom Batches.store cfg s a) (hst : Step cfg s a t) : Fitting cfg t := by
  cases hst with
  | tick ms => exact ⟨h.current, h.locked, h.calls, h.queued⟩
  | process w i job b free fresh =>
      exact setCall (s := { s with issued := b :: s.issued })
        ⟨h.current, h.locked, h.calls, h.queued⟩ (Call.fits_of_none rfl)
  | addNew i w job b t call current =>
      have hnew := h.setCurrent (OpenBatch.fits_single cfg b t (job.id, job.data))
        (s.accepted ++ [⟨job.id, job.data, b⟩])
      exact hnew.setCall (Call.fits_of_none rfl)
  | addRow i w job b t o call current =>
      have hroom := room job (by simp [State.addRequest?, call])
      have hrows : Batches.store.rows s.redis = Redis.flatten (hashFields o.rows) := by
        simp [Batches.store, current]
      rw [openRowCount, hrows, length_flatten_hashFields, jobId_mem_flatten,
        Nat.mul_div_cancel_left _ Nat.two_pos] at hroom
      have hfits : (o.addRow (job.id, job.data)).Fits cfg := (h.current o current).addRow hroom
      exact (h.setCurrent hfits _).setCall (Call.fits_of_none rfl)
  | addReply i w job b n joined call =>
      unfold State.processReply
      split_ifs
      · exact (h.setTimeout ..).endCall i
      · exact h.closeBatch ..
      · exact h.endCall i
  | setup w i free => exact h.setCall (Call.fits_of_none rfl)
  | setupReply i w m call =>
      cases m with
      | none => exact h.endCall i
      | some m =>
          dsimp only [State.setupReply]
          split_ifs
          · exact h.closeBatch ..
          · exact (h.setTimeout ..).endCall i
  | fire w b i t free timer unfired due => exact (h.setTimeout ..).closeBatch ..
  | lockNone i w b timeout raisedFor now call current => exact h.endCall i
  | lockHeld i w b timeout raisedFor now o l call current locked live => exact h.endCall i
  | lockLeftover i w b timeout raisedFor now o l call current locked expired =>
      exact h.setCall ((h.locked l locked).closing w b timeout raisedFor _)
  | lockOpen i w b timeout raisedFor now o call current locked =>
      have ho := h.current o current
      refine ⟨fun p hp => (by cases hp), fun l hl => ?_, ?_, h.queued⟩
      · have hlock : o.lock now = l := Option.some.inj hl
        exact hlock ▸ ho
      · exact State.forall_setCall h.calls (ho.closing w b timeout raisedFor _)
  | add i w b timeout raisedFor snapshot call =>
      have hsnap := h.calls i _ call snapshot rfl
      have hafter : (Call.closing w b timeout raisedFor (.del snapshot)).Fits cfg :=
        fun x hx => h.calls i _ call x hx
      refine ⟨h.current, h.locked, State.forall_setCall h.calls hafter, ?_⟩
      rintro ⟨c, job⟩ hj
      rcases JobQueue.mem_jobs_add hj with hj | ⟨_, rfl⟩
      · exact h.queued _ hj
      · exact hsnap
  | del i w b timeout raisedFor snapshot call =>
      have hafter : (Call.closing w b timeout raisedFor (.deleted snapshot)).Fits cfg :=
        fun x hx => h.calls i _ call x hx
      exact ⟨h.current, fun l hl => (by cases hl), State.forall_setCall h.calls hafter, h.queued⟩
  | delReply i w b timeout raisedFor snapshot call => exact (h.setTimeout ..).finish ..
  | delFail i w b timeout raisedFor snapshot call => exact h.finish ..
  | throw i c call => exact h.endCall i
  | crash w => exact ⟨h.current, h.locked, State.forall_filter h.calls _, h.queued⟩

end Fitting

/-! ## A full batch has a call on its way -/

/-- A full batch is being closed. -/
def FullCloses (cfg : Config) (s : BatchState A) : Prop :=
  ∀ o, s.redis.current = some o → cfg.batchMaxCount ≤ o.rowCount → ∃ i, s.Closes cfg i o.batchId

theorem mem_fullBatch? {cfg : Config} {s : BatchState A} {o : OpenBatch A}
    (current : s.redis.current = some o) (full : cfg.batchMaxCount ≤ o.rowCount) :
    o.batchId ∈ fullBatch? Batches.store cfg s.redis := by
  simp [fullBatch?, Batches.store, current, OpenBatch.metadata, full]

/-- A call that is replaced by one that is on its way to the same batch, or was on the way
to none. -/
theorem exists_closes_update {cfg : Config} {s : BatchState A} {b : BatchId}
    (h : ∃ k, s.Closes cfg k b) {i : CallId} {x : Option (Call A)}
    (hi : s.Closes cfg i b → x.bind (Call.closes? cfg) = some b) :
    ∃ k, State.Closes cfg { s with calls := Function.update s.calls i x } k b := by
  obtain ⟨k, hk⟩ := h
  by_cases hki : k = i
  · subst k
    exact ⟨i, by simpa [State.Closes] using hi hk⟩
  · exact ⟨k, by simpa [State.Closes, hki] using hk⟩

namespace FullCloses
variable {cfg : Config} {s : BatchState A}

/-- Nothing changes but one call, and that is on its way to the same batch afterwards. -/
theorem update (h : FullCloses cfg s) {i : CallId} {x : Option (Call A)}
    (hi : ∀ b, s.Closes cfg i b → x.bind (Call.closes? cfg) = some b) :
    FullCloses cfg { s with calls := Function.update s.calls i x } :=
  fun o ho hfull => exists_closes_update (h o ho hfull) (hi o.batchId)

theorem of_none {i : CallId} {c : Call A} (call : s.calls i = some c) (hc : c.closes? cfg = none)
    {x : Option (Call A)} (b : BatchId) (h : s.Closes cfg i b) :
    x.bind (Call.closes? cfg) = some b := by
  rw [State.Closes, call, Option.bind_some, hc] at h
  cases h

theorem of_free {i : CallId} (free : s.calls i = none) {x : Option (Call A)} (b : BatchId)
    (h : s.Closes cfg i b) : x.bind (Call.closes? cfg) = some b := by
  rw [State.Closes, free] at h
  cases h

theorem of_same {i : CallId} {c d : Call A} (call : s.calls i = some c)
    (hd : d.closes? cfg = c.closes? cfg) (b : BatchId) (h : s.Closes cfg i b) :
    (some d).bind (Call.closes? cfg) = some b := by
  rw [State.Closes, call, Option.bind_some, ← hd] at h
  exact h

theorem finish (h : FullCloses cfg s) {i : CallId} {w : WorkerId} {b : BatchId} {timeout : Bool}
    {raisedFor : BatchId} {stage : CloseStage A} {status : LockStatus}
    (call : s.calls i = some (.closing w b timeout raisedFor stage))
    (hstage : stage.status? = some status) :
    FullCloses cfg (s.finish i w b timeout raisedFor status) := by
  cases status with
  | leftover =>
      have hsame : (Call.closing w b timeout raisedFor stage).closes? cfg = some raisedFor := by
        simp [Call.closes?, hstage]
      exact h.update (of_same call hsame.symm)
  | locked => exact h.update (of_none call (by simp [Call.closes?, hstage]))

theorem step (h : FullCloses cfg s) {a : Action A} {t : BatchState A}
    (htwo : 2 ≤ cfg.batchMaxCount) (left : LeftAlone Batches.store cfg s a)
    (hst : Step cfg s a t) : FullCloses cfg t := by
  have hleft : ∀ o, s.redis.current = some o → cfg.batchMaxCount ≤ o.rowCount →
      ∃ i, s.Closes cfg i o.batchId ∧ s.GoesOn Batches.store a i :=
    fun o ho hfull => (left _ (mem_fullBatch? ho hfull) (h o ho hfull)).2
  cases hst with
  | tick ms => exact h
  | process w i job b free fresh => exact h.update (of_free free)
  | addNew i w job b t call current =>
      intro o ho hfull
      obtain rfl : OpenBatch.single b t (job.id, job.data) = o := Option.some.inj ho
      have hone : ((1 : ℕ) : ℚ) < 2 := by norm_num
      exact absurd (htwo.trans hfull) (not_le.mpr hone)
  | addRow i w job b t o call current =>
      intro p hp hfull
      obtain rfl : o.addRow (job.id, job.data) = p := Option.some.inj hp
      have hcount : ((o.rowCount + 1 : ℕ) : ℤ) ≠ 1 := by
        have := o.rowCount_pos
        omega
      have hmax : cfg.batchMaxCount ≤ (((o.rowCount + 1 : ℕ) : ℤ) : ℚ) := by exact_mod_cast hfull
      refine ⟨i, ?_⟩
      simp only [State.Closes, State.setCall, Function.update_self, Option.bind_some, Call.closes?]
      rw [if_pos ⟨hcount, hmax⟩]
      rfl
  | addReply i w job b n joined call =>
      unfold State.processReply
      split_ifs with hone hmax
      · exact update (s := s.addBatchTimeout w b _) h (of_none call (by simp [Call.closes?, hone]))
      · refine h.update (of_same call ?_)
        simp [Call.closes?, hone, hmax, CloseStage.status?, CloseStage.snapshot?]
      · exact h.update (of_none call (by simp [Call.closes?, hmax]))
  | setup w i free => exact h.update (of_free free)
  | setupReply i w m call =>
      cases m with
      | none => exact h.update (of_none call rfl)
      | some m =>
          dsimp only [State.setupReply]
          split_ifs
          · exact h.update (of_none call rfl)
          · exact update (s := s.addBatchTimeout w _ _) h (of_none call rfl)
  | fire w b i u free timer unfired due =>
      exact update (s := s.setTimeout w b _) h (of_free free)
  | lockNone i w b timeout raisedFor now call current =>
      intro o ho
      have ho' : s.redis.current = some o := ho
      cases current.symm.trans ho'
  | lockHeld i w b timeout raisedFor now o l call current locked live =>
      intro p hp hfull
      obtain ⟨k, hk, -, -, hgoes⟩ := hleft p hp hfull
      have hne : k ≠ i := by
        rintro rfl
        exact live (hgoes rfl ⟨b, raisedFor, now⟩ (by simp [State.lockRequest?, call])
          l.lockedMetadata (by simp [Batches.store, locked]) l.lockTimestamp rfl)
      exact ⟨k, by simpa [State.Closes, State.endCall, hne] using hk⟩
  | lockLeftover i w b timeout raisedFor now o l call current locked expired =>
      exact h.update (of_same call rfl)
  | lockOpen i w b timeout raisedFor now o call current locked =>
      intro p hp
      cases hp
  | add i w b timeout raisedFor snapshot call => exact h.update (of_same call rfl)
  | del i w b timeout raisedFor snapshot call => exact h.update (of_same call rfl)
  | delReply i w b timeout raisedFor snapshot call =>
      exact finish (s := s.deleteTimeout w b) h call rfl
  | delFail i w b timeout raisedFor snapshot call =>
      rcases call with call | call <;> exact h.finish call rfl
  | throw i c call =>
      intro o ho hfull
      obtain ⟨k, hk, hthrow, -⟩ := hleft o ho hfull
      have hne : k ≠ i := fun e => hthrow (congrArg Action.throw e.symm)
      exact ⟨k, by simpa [State.Closes, State.endCall, hne] using hk⟩
  | crash w =>
      intro o ho hfull
      obtain ⟨k, hk, -, hcrash, -⟩ := hleft o ho hfull
      obtain ⟨c, hc, hcloses⟩ := Option.bind_eq_some_iff.mp hk
      have hworker : (c.worker != w) = true :=
        bne_iff_ne.mpr fun e => hcrash c hc (congrArg Action.crash e.symm)
      refine ⟨k, ?_⟩
      simp only [State.Closes, hc, Option.filter_some, hworker, if_true, Option.bind_some, hcloses]

/-- Where a full batch is left alone until it is closed, every insertion finds room. -/
theorem hasRoom (h : FullCloses cfg s) {a : Action A} (hwhole : cfg.batchMaxCount.den = 1)
    (htwo : 2 ≤ cfg.batchMaxCount) (left : LeftAlone Batches.store cfg s a) :
    HasRoom Batches.store cfg s a := by
  intro job hjob
  cases hcurrent : s.redis.current with
  | none =>
      right
      simp only [openRowCount, Batches.store, hcurrent]
      exact le_trans (by norm_num [Redis.flatten]) htwo
  | some o =>
      by_cases hfull : cfg.batchMaxCount ≤ o.rowCount
      · exact .inl ((left _ (mem_fullBatch? hcurrent hfull) (h o hcurrent hfull)).1 job hjob)
      · right
        have hrows : Batches.store.rows s.redis = Redis.flatten (hashFields o.rows) := by
          simp [Batches.store, hcurrent]
        rw [openRowCount, hrows, length_flatten_hashFields, Nat.mul_div_cancel_left _ Nat.two_pos]
        -- The size and the maximum are whole numbers, so the next size is not above it.
        have hint : (cfg.batchMaxCount.num : ℚ) = cfg.batchMaxCount :=
          (Rat.den_eq_one_iff _).mp hwhole
        rw [← hint] at hfull ⊢
        have hcounted := o.counted
        have hlt : (o.rowCount : ℤ) < cfg.batchMaxCount.num := by exact_mod_cast not_le.mp hfull
        have hle : ((o.rows.length + 1 : ℕ) : ℤ) ≤ cfg.batchMaxCount.num := by omega
        exact_mod_cast hle

end FullCloses

end Invariant

section Runs
variable {A : Type} [DecidableEq A]

theorem leftAlone_encode {cfg : Config} {t : BatchState A} {a : Action A} :
    LeftAlone (batchingStore cfg) cfg (t.encode cfg) a ↔ LeftAlone Batches.store cfg t a := by
  simp only [LeftAlone, fullBatch?, State.GoesOn, metadata_encode, lockedMetadata_encode,
    rows_encode]
  rfl

/-- Over any interleaving, for a maximum of at least two that is a whole number: as long as
a full batch gets no new row while calls are on their way to close it, and one of them gets
there, no batch job carries more than the maximum. -/
theorem withinMaximum_of_leftAlone (cfg : Config) (hwhole : cfg.batchMaxCount.den = 1)
    (htwo : 2 ≤ cfg.batchMaxCount) (as : List (Action A))
    (s : State A (Redis.Store String (Value A))) (hrun : run (batchingStep cfg) start as = some s)
    (hleft : EachStep (batchingStep cfg) (LeftAlone (batchingStore cfg) cfg) start as) :
    WithinMaximum cfg s := by
  obtain ⟨t, ht, rfl⟩ := exists_of_run hrun
  have hfit : Fitting cfg t ∧ FullCloses cfg t := by
    refine invariant (C := LeftAlone Batches.store cfg)
      (I := fun u => Fitting cfg u ∧ FullCloses cfg u) ⟨.initial, fun _ ho => by cases ho⟩ ?_
      ((eachStep_encode hleft).mono fun _ _ => leftAlone_encode.mp) ht
    rintro u a v ⟨hfit, hcloses⟩ left hst
    exact ⟨hfit.step (hcloses.hasRoom hwhole htwo left) (step_cases hst),
      hcloses.step htwo left (step_cases hst)⟩
  exact hfit.1.queued

/-- The condition on the calls that the schedule mentions; there are no others. -/
def LeftAloneAmong (store : BatchStore A (Redis.Store String (Value A))) (cfg : Config)
    (ids : List CallId) (s : State A (Redis.Store String (Value A))) (a : Action A) : Prop :=
  ∀ b ∈ fullBatch? store cfg s.redis, (∃ i ∈ ids, s.Closes cfg i b) →
    (∀ job ∈ s.addRequest? a, .jobId job.id ∈ store.rows s.redis) ∧
      ∃ i ∈ ids, s.Closes cfg i b ∧ s.GoesOn store a i

instance (store : BatchStore A (Redis.Store String (Value A))) (cfg : Config)
    (ids : List CallId) (s : State A (Redis.Store String (Value A))) (a : Action A) :
    Decidable (LeftAloneAmong store cfg ids s a) :=
  inferInstanceAs (Decidable (∀ _ ∈ _, _ → (∀ _ ∈ _, _) ∧ _))

theorem eachStep_leftAlone {cfg : Config} {as : List (Action A)}
    (h : EachStep (batchingStep cfg) (LeftAloneAmong (batchingStore cfg) cfg
      (as.filterMap Action.call?)) start as) :
    EachStep (batchingStep cfg) (LeftAlone (batchingStore cfg) cfg) start as := by
  intro bs a t hp hrun b hb ⟨i, hi⟩
  have hcalls : ∀ k, t.Closes cfg k b → k ∈ as.filterMap Action.call? := by
    intro k hk
    obtain ⟨c, hc, -⟩ := Option.bind_eq_some_iff.mp hk
    have hsub : List.Sublist (bs.filterMap Action.call?) (as.filterMap Action.call?) :=
      ((List.prefix_append bs [a]).trans hp).sublist.filterMap _
    exact hsub.subset ((support_of_run hrun).1 k c hc)
  obtain ⟨hrows, k, -, hk, hgoes⟩ := h bs a t hp hrun b hb ⟨i, hcalls i hi, hi⟩
  exact ⟨hrows, k, hk, hgoes⟩

end Runs

/-! ## Two schedules -/

/-- Two rows fill a batch, which is closed at once. -/
def fillAndClose : List (Action String) :=
  [.process 0 0 ⟨"j1", "a1"⟩ "b1", .process 0 1 ⟨"j2", "a2"⟩ "b2", .addToBatch 0, .addToBatch 1,
    .addReply 0, .addReply 1, .lockBatch 1, .add 1]

theorem withinMaximum_fillAndClose :
    ∃ s, run (batchingStep .sample) start fillAndClose = some s ∧ WithinMaximum .sample s := by
  obtain ⟨s, hs⟩ := Option.isSome_iff_exists.mp
    (by decide +kernel : (run (batchingStep .sample) start fillAndClose).isSome)
  exact ⟨s, hs, withinMaximum_of_leftAlone .sample (by decide +kernel) (by decide +kernel)
    fillAndClose s hs (eachStep_leftAlone (by decide +kernel))⟩

/-- A third row slips in between the row that fills the batch and its closing. -/
def fillAndSlipIn : List (Action String) :=
  [.process 0 0 ⟨"j1", "a1"⟩ "b1", .process 0 1 ⟨"j2", "a2"⟩ "b2", .process 1 2 ⟨"j3", "a3"⟩ "b3",
    .addToBatch 0, .addToBatch 1, .addReply 1, .addToBatch 2, .lockBatch 1, .add 1]

theorem not_withinMaximum_fillAndSlipIn :
    ∃ s, run (batchingStep .sample) start fillAndSlipIn = some s ∧ ¬ WithinMaximum .sample s :=
  exists_of_run_any (by decide +kernel)

/-- With a maximum of one, two jobs one after the other are enough: the first row
only starts the timer. -/
example : ∃ s, run (batchingStep ⟨.dev, .broadcastQueue, 1, 1, le_rfl, le_rfl⟩) start
    [.process 0 0 ⟨"j1", "a1"⟩ "b1", .addToBatch 0, .addReply 0, .process 0 1 ⟨"j2", "a2"⟩ "b2",
      .addToBatch 1, .addReply 1, .lockBatch 1, .add 1] = some s ∧
    ¬ WithinMaximum ⟨.dev, .broadcastQueue, 1, 1, le_rfl, le_rfl⟩ s :=
  exists_of_run_any (by decide +kernel)

end ContentPublishing.Batching
