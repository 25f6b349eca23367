import ContentPublishing.Batching.Ledger

/-!
# Whether an open batch always has a closer ahead

The call that opens a batch arms a timer for it, the timer calls `closeBatch`,
and a leftover makes `closeBatch` start over. The one place where the trigger of
an open batch is dropped is the answer `-2`: if the previous batch is still
locked when the timer of the open batch fires, nothing is left that would close
the open batch after the lock is gone.
-/
namespace ContentPublishing.Batching
open Transition

section Statements
variable {A R : Type} (store : BatchStore A R)

/-- A call of `setupActiveBatchTimeout`. -/
def Call.isSetup {A : Type} : Call A → Bool
  | .setup .. => true
  | _ => false

/-- An open batch has an armed timer, or a `process` or `closeBatch` call, ahead. -/
def Covered (s : State A R) : Prop :=
  (store.metadata s.redis).isSome →
    (∃ w b t, s.timeouts w b = some t ∧ t.fired = false) ∨
      ∃ i c, s.calls i = some c ∧ c.isSetup = false

/-- No `lockBatch` sent for the open batch meets a lock that has not expired. -/
def NotRefused (s : State A R) (a : Action A) : Prop :=
  ∀ q ∈ s.lockRequest? a, (store.metadata s.redis).map BatchMetadata.batchId = some q.batchId →
    ∀ m ∈ store.lockedMetadata s.redis, ∀ t ∈ m.lockTimestamp, t + lockExpireMs < q.now

instance (s : State A R) (a : Action A) : Decidable (NotRefused store s a) :=
  inferInstanceAs (Decidable (∀ _ ∈ _, _))

end Statements

section Invariant
variable {A : Type} {s : BatchState A}

def CloseStage.status? (stage : CloseStage A) : Option LockStatus :=
  stage.snapshot?.map Snapshot.status

/-- The batch for which a call will arm a timer or send another `lockBatch`. -/
def Call.trigger? : Call A → Option BatchId
  | .added _ _ b n _ => if n = 1 then some b else none
  | .closing _ b _ _ stage => if stage.status? = some .locked then none else some b
  | _ => none

/-- The batch under whose name a call got the answer `1`. -/
def Call.spent? : Call A → Option BatchId
  | .closing _ b _ _ stage => if stage.status? = some .locked then some b else none
  | _ => none

/-- Something that will try to close this batch is ahead. -/
def HasCloser (s : BatchState A) (b : BatchId) : Prop :=
  (∃ w t, s.timeouts w b = some t ∧ t.fired = false) ∨
    ∃ i c, s.calls i = some c ∧ c.trigger? = some b

namespace HasCloser
variable {b : BatchId}

theorem of_setCall {i : CallId} {c : Call A} (h : c.trigger? = some b) :
    HasCloser (s.setCall i c) b :=
  .inr ⟨i, c, Function.update_self .., h⟩

/-- Replacing a call that will not close this batch. -/
theorem update (h : HasCloser s b) {i : CallId} (hi : (s.calls i).bind Call.trigger? ≠ some b)
    (x : Option (Call A)) : HasCloser { s with calls := Function.update s.calls i x } b := by
  rcases h with ht | ⟨k, c, hk, hc⟩
  · exact .inl ht
  · have hne : k ≠ i := by
      rintro rfl
      exact hi (by rw [hk, Option.bind_some, hc])
    exact .inr ⟨k, c, by simpa [hne] using hk, hc⟩

/-! The calls whose replacement leaves a closer of this batch in place. -/

theorem free {i : CallId} (hc : s.calls i = none) : (s.calls i).bind Call.trigger? ≠ some b := by
  rw [hc, Option.bind_none]
  exact fun e => by cases e

theorem idle {i : CallId} {c : Call A} (hc : s.calls i = some c) (hn : c.trigger? = none) :
    (s.calls i).bind Call.trigger? ≠ some b := by
  rw [hc, Option.bind_some, hn]
  exact fun e => by cases e

theorem other {i : CallId} {c : Call A} {d : BatchId} (hc : s.calls i = some c)
    (hd : c.trigger? = some d) (hne : d ≠ b) : (s.calls i).bind Call.trigger? ≠ some b := by
  rw [hc, Option.bind_some, hd]
  exact fun e => hne (Option.some.inj e)

/-- Writing a timer of another batch, or one that has yet to fire. -/
theorem setTimeout (h : HasCloser s b) (w : WorkerId) {c : BatchId} {t : Option Timeout}
    (hc : c = b → ∃ u, t = some u ∧ u.fired = false) : HasCloser (s.setTimeout w c t) b := by
  rcases h with ⟨v, u, hu, hf⟩ | hcall
  · by_cases hv : v = w
    · subst v
      by_cases hcb : c = b
      · obtain ⟨u', ht, hf'⟩ := hc hcb
        subst c
        exact .inl ⟨w, u', by simp [State.setTimeout, ht], hf'⟩
      · have hbc : b ≠ c := Ne.symm hcb
        exact .inl ⟨w, u, by simpa [State.setTimeout, hbc] using hu, hf⟩
    · exact .inl ⟨v, u, by simpa [State.setTimeout, hv] using hu, hf⟩
  · exact .inr hcall

end HasCloser

/-- The open batch has a closer ahead, and a call that got the answer `1` does
not carry the name of the open batch. -/
structure Guarded (L : BatchId → Life A) (s : BatchState A) : Prop where
  closer : ∀ o, s.redis.current = some o → HasCloser s o.batchId
  spent : ∀ i c, s.calls i = some c → ∀ b, c.spent? = some b → L b ≠ .opened

namespace Guarded
variable {L L' : BatchId → Life A}

theorem spent_evolve (h : Guarded L s) (hL : Ledger L s) (hE : Evolves L L') (i : CallId)
    (c : Call A) (hc : s.calls i = some c) (b : BatchId) (hb : c.spent? = some b) :
    L' b ≠ .opened := by
  have hopen := h.spent i c hc b hb
  cases c with
  | closing w b' timeout raisedFor stage =>
      have hbb : b' = b := Option.some.inj (Option.ite_none_right_eq_some.mp hb).2
      rw [hE.final b (hbb ▸ (hL.calls i _ hc).1) hopen]
      exact hopen
  | adding => cases hb
  | added => cases hb
  | setup => cases hb

/-- A new call that has no answer yet. -/
theorem spent_setCall (h : ∀ i c, s.calls i = some c → ∀ b, c.spent? = some b → L b ≠ .opened)
    {i : CallId} {c : Call A} (hc : c.spent? = none) : ∀ k d, (s.setCall i c).calls k = some d →
      ∀ b, d.spent? = some b → L b ≠ .opened :=
  State.forall_setCall h fun b hb => by rw [hc] at hb; cases hb

/-- Without failures and refusals the open batch keeps a closer. -/
theorem step (h : Guarded L s) (hL : Ledger L s) {cfg : Config} {a : Action A} {t : BatchState A}
    (hfault : a.isFault = false) (hrefused : NotRefused Batches.store s a)
    (hst : Step cfg s a t) (hE : Evolves L L') (hL' : Ledger L' t) : Guarded L' t := by
  have hspent := h.spent_evolve hL hE
  cases hst with
  | tick ms => exact ⟨h.closer, hspent⟩
  | process w i job b hfree fresh =>
      exact ⟨fun o ho => (h.closer o ho).update (HasCloser.free hfree) _, spent_setCall hspent rfl⟩
  | addNew i w job b t call current =>
      refine ⟨fun o ho => ?_, spent_setCall hspent rfl⟩
      have hob : OpenBatch.single b t (job.id, job.data) = o := Option.some.inj ho
      exact hob ▸ HasCloser.of_setCall rfl
  | addRow i w job b t o call current =>
      refine ⟨fun p hp => ?_, spent_setCall hspent rfl⟩
      have hop : o.addRow (job.id, job.data) = p := Option.some.inj hp
      exact hop ▸ (h.closer o current).update (HasCloser.idle call rfl) _
  | addReply i w job b n joined call =>
      unfold State.processReply
      split_ifs with h1 h2
      · refine ⟨fun o ho => ?_, State.forall_endCall hspent i⟩
        by_cases hbo : b = o.batchId
        · exact .inl ⟨w, ⟨s.clock + setTimeoutDelay cfg.batchTimeoutMs, false⟩,
            by simp [State.endCall, State.addBatchTimeout, State.setTimeout, hbo], rfl⟩
        · have hcall := HasCloser.other call (by simp [Call.trigger?, h1]) hbo
          exact ((h.closer o ho).setTimeout w fun e => (hbo e).elim).update hcall _
      · have hidle : (Call.added w job b n joined).trigger? = none := by simp [Call.trigger?, h1]
        exact ⟨fun o ho => (h.closer o ho).update (HasCloser.idle call hidle) _,
          spent_setCall hspent rfl⟩
      · have hidle : (Call.added w job b n joined).trigger? = none := by simp [Call.trigger?, h1]
        exact ⟨fun o ho => (h.closer o ho).update (HasCloser.idle call hidle) _,
          State.forall_endCall hspent i⟩
  | setup w i hfree =>
      exact ⟨fun o ho => (h.closer o ho).update (HasCloser.free hfree) _, spent_setCall hspent rfl⟩
  | setupReply i w m call =>
      cases m with
      | none =>
          exact ⟨fun o ho => (h.closer o ho).update (HasCloser.idle call rfl) _,
            State.forall_endCall hspent i⟩
      | some m =>
          dsimp only [State.setupReply]
          split_ifs
          · exact ⟨fun o ho => (h.closer o ho).update (HasCloser.idle call rfl) _,
              spent_setCall hspent rfl⟩
          · refine ⟨fun o ho => ?_, State.forall_endCall hspent i⟩
            have hcall := HasCloser.idle (b := o.batchId) call rfl
            exact ((h.closer o ho).setTimeout w fun _ => ⟨_, rfl, rfl⟩).update hcall _
  | fire w b i u hfree timer unfired due =>
      refine ⟨fun o ho => ?_, spent_setCall hspent rfl⟩
      by_cases hbo : b = o.batchId
      · exact HasCloser.of_setCall (congrArg some hbo)
      · exact ((h.closer o ho).setTimeout w fun e => (hbo e).elim).update (HasCloser.free hfree) _
  | lockNone i w b timeout raisedFor now call current =>
      refine ⟨fun o ho => ?_, State.forall_endCall hspent i⟩
      have ho' : s.redis.current = some o := ho
      rw [current] at ho'
      cases ho'
  | lockHeld i w b timeout raisedFor now o l call current locked live =>
      refine ⟨fun p hp => (h.closer p hp).update (HasCloser.other call rfl fun hb => live ?_) _,
        State.forall_endCall hspent i⟩
      have hp' : s.redis.current = some p := hp
      exact hrefused ⟨b, raisedFor, now⟩ (by simp [State.lockRequest?, call])
        (by simp [Batches.store, hp', OpenBatch.metadata, hb]) l.lockedMetadata
        (by simp [Batches.store, locked]) l.lockTimestamp rfl
  | lockLeftover i w b timeout raisedFor now o l call current locked expired =>
      refine ⟨fun p hp => ?_, spent_setCall hspent rfl⟩
      by_cases hb : b = p.batchId
      · exact HasCloser.of_setCall (congrArg some hb)
      · exact (h.closer p hp).update (HasCloser.other call rfl hb) _
  | lockOpen i w b timeout raisedFor now o call current locked =>
      refine ⟨fun p hp => (by cases hp), State.forall_setCall hspent fun c _ hc => ?_⟩
      obtain ⟨p, hp, _⟩ := (hL'.current c).mp hc
      cases hp
  | add i w b timeout raisedFor snapshot call =>
      have hsame := hspent i _ call
      refine ⟨fun o ho => ?_, State.forall_setCall hspent hsame⟩
      by_cases hb : (Call.closing w b timeout raisedFor (.add snapshot)).trigger? =
          some o.batchId
      · exact HasCloser.of_setCall hb
      · exact (h.closer o ho).update (by rwa [call, Option.bind_some]) _
  | del i w b timeout raisedFor snapshot call =>
      have hsame := hspent i _ call
      refine ⟨fun o ho => ?_, State.forall_setCall hspent hsame⟩
      by_cases hb : (Call.closing w b timeout raisedFor (.del snapshot)).trigger? =
          some o.batchId
      · exact HasCloser.of_setCall hb
      · exact (h.closer o ho).update (by rwa [call, Option.bind_some]) _
  | delReply i w b timeout raisedFor snapshot call =>
      cases hs : snapshot.status with
      | leftover =>
          refine ⟨fun o ho => ?_, spent_setCall hspent rfl⟩
          by_cases hb : b = o.batchId
          · exact HasCloser.of_setCall (congrArg some hb)
          · have hcall := HasCloser.other call (by simp [Call.trigger?, CloseStage.status?,
              CloseStage.snapshot?, hs]) hb
            exact ((h.closer o ho).setTimeout w fun e => (hb e).elim).update hcall _
      | locked =>
          refine ⟨fun o ho => ?_, State.forall_endCall hspent i⟩
          have ho' : s.redis.current = some o := ho
          have hb : b ≠ o.batchId := by
            rintro rfl
            refine h.spent i _ call o.batchId ?_ ((hL.current _).mpr ⟨o, ho', rfl⟩)
            simp [Call.spent?, CloseStage.status?, CloseStage.snapshot?, hs]
          have hcall := HasCloser.idle (b := o.batchId) call (by simp [Call.trigger?,
            CloseStage.status?, CloseStage.snapshot?, hs])
          exact ((h.closer o ho).setTimeout w fun e => (hb e).elim).update hcall _
  | delFail i w b timeout raisedFor snapshot call => cases hfault
  | throw i c call => cases hfault
  | crash w => cases hfault

theorem initial : Guarded (fun _ => .unused) (initial (Batches.empty (A := A))) :=
  ⟨fun _ ho => (by cases ho), fun _ _ hc => (by cases hc)⟩

theorem covered (h : Guarded L s) : Covered Batches.store s := by
  intro hm
  obtain ⟨m, hm⟩ := Option.isSome_iff_exists.mp hm
  obtain ⟨o, ho, _⟩ := Option.map_eq_some_iff.mp hm
  rcases h.closer o ho with ⟨w, t, ht, hf⟩ | ⟨i, c, hi, hc⟩
  · exact .inl ⟨w, o.batchId, t, ht, hf⟩
  · refine .inr ⟨i, c, hi, ?_⟩
    cases c with
    | setup => cases hc
    | _ => rfl

end Guarded

end Invariant

section Runs
variable {A : Type} [DecidableEq A]

theorem covered_encode {cfg : Config} {t : BatchState A} :
    Covered (batchingStore cfg) (t.encode cfg) ↔ Covered Batches.store t := by
  simp only [Covered, metadata_encode]
  rfl

theorem notRefused_encode {cfg : Config} {t : BatchState A} {a : Action A} :
    NotRefused (batchingStore cfg) (t.encode cfg) a ↔ NotRefused Batches.store t a := by
  simp only [NotRefused, metadata_encode, lockedMetadata_encode]
  rfl

/-- Without failures, an open batch has a closer ahead as long as its own trigger
never meets a live lock. -/
theorem covered_of_notRefused (cfg : Config) (as : List (Action A))
    (s : State A (Redis.Store String (Value A))) (hrun : run (batchingStep cfg) start as = some s)
    (hfault : ∀ a ∈ as, a.isFault = false)
    (hrefused : EachStep (batchingStep cfg) (NotRefused (batchingStore cfg)) start as) :
    Covered (batchingStore cfg) s := by
  obtain ⟨t, ht, rfl⟩ := exists_of_run hrun
  have hguarded : ∃ L, Ledger L t ∧ Guarded L t := by
    refine invariant (C := fun u a => a.isFault = false ∧ NotRefused Batches.store u a)
      (I := fun u => ∃ L, Ledger L u ∧ Guarded L u) ⟨_, .initial, .initial⟩ ?_ ?_ ht
    · rintro u a v ⟨L, hL, h⟩ ⟨hf, hr⟩ hs
      obtain ⟨L', hE, hL'⟩ := hL.step (step_cases hs)
      exact ⟨L', hL', h.step hL hf hr (step_cases hs) hE hL'⟩
    · exact (eachStep_of_forall_mem (fun a ha _ => hfault a ha) _).and
        ((eachStep_encode hrefused).mono fun _ _ => notRefused_encode.mp)
  obtain ⟨L, _, h⟩ := hguarded
  exact covered_encode.mpr h.covered

end Runs

/-- The timer of the second batch fires when the lock of the first is gone. -/
def closeTwice : List (Action String) :=
  [.process 0 0 ⟨"j1", "a1"⟩ "b1", .addToBatch 0, .addReply 0, .tick 1000, .fire 0 "b1" 1,
    .lockBatch 1, .process 0 2 ⟨"j2", "a2"⟩ "b2", .addToBatch 2, .addReply 2, .add 1, .del 1,
    .delReply 1, .tick 1000, .fire 0 "b2" 3]

theorem covered_closeTwice : ∃ s, run (batchingStep .sample) start closeTwice = some s ∧
    Covered (batchingStore .sample) s := by
  obtain ⟨s, hs⟩ := Option.isSome_iff_exists.mp
    (by decide +kernel : (run (batchingStep .sample) start closeTwice).isSome)
  exact ⟨s, hs, covered_of_notRefused .sample closeTwice s hs (by decide) (by decide +kernel)⟩

/-- The timer of the second batch fires while the first is still being closed. -/
def refused : List (Action String) :=
  [.process 0 0 ⟨"j1", "a1"⟩ "b1", .addToBatch 0, .addReply 0, .tick 1000, .fire 0 "b1" 1,
    .lockBatch 1, .process 0 2 ⟨"j2", "a2"⟩ "b2", .addToBatch 2, .addReply 2, .tick 1000,
    .fire 0 "b2" 3, .lockBatch 3, .add 1, .del 1, .delReply 1]

theorem not_covered_refused : (∀ a ∈ refused, a.isFault = false) ∧
    ∃ s, run (batchingStep .sample) start refused = some s ∧
      ¬ Covered (batchingStore .sample) s := by
  obtain ⟨s, hs, hopen, hcalls, htimers⟩ := exists_of_run_any
    (P := fun s => ((batchingStore .sample).metadata s.redis).isSome ∧
      (∀ i ∈ refused.filterMap Action.call?, s.calls i = none) ∧
      ∀ w ∈ refused.filterMap Action.worker?, ∀ b ∈ s.issued, ∀ t ∈ s.timeouts w b,
        t.fired = true)
    (by decide +kernel : (run (batchingStep .sample) start refused).any _)
  obtain ⟨hquiet, hfired⟩ := quiet_of_run hs hcalls htimers
  refine ⟨by decide, s, hs, fun hcov => ?_⟩
  rcases hcov hopen with ⟨w, b, t, ht, hf⟩ | ⟨i, c, hi, _⟩
  · rw [hfired w b t ht] at hf
    cases hf
  · rw [hquiet i] at hi
    cases hi

end ContentPublishing.Batching
