import ContentPublishing.Dependencies.Availability
import ContentPublishing.Lib.Transition
import Mathlib.Data.Finset.Card

/-!
# Shutting down with work in hand

Every consumer keeps the set of jobs that it works on. When its module is destroyed it
closes its worker and then waits for the set to become empty, at most for six seconds.
The worker waits for the attempts that run. Handlers of completed jobs go on after that,
and an attempt that is neither completed nor failed is not reported to the consumer.
-/
namespace ContentPublishing.Consumer
open Dependencies Transition

def maxWaitForGraceFullShutdownMs : ℤ := 6 * 1000

def delayToCheckForShutdownMs : ℤ := 300

/-! ## A consumer and its worker -/

/-- How an attempt ends. The worker raises no event if the job was delayed, or if the
queue does not take the outcome. -/
inductive Outcome where
  | completed | failed | unreported
  deriving DecidableEq, Repr

/-- How far `onModuleDestroy` has come. -/
inductive Shutdown where
  | notCalled
  | closing
  | delaying (maxWaitMs : ℤ)
  | returned (maxWaitMs : ℤ)
  deriving DecidableEq

/-- `running` are the attempts of the worker, `handlers` the calls of `onCompleted` that
have not come to an end. -/
structure State where
  actives : Finset String
  running : List String
  handlers : List String
  shutdown : Shutdown

def start : State := ⟨∅, [], [], .notCalled⟩

def State.trackJob (s : State) (jobId : String) : State :=
  { s with actives := insert jobId s.actives }

def State.unTrackJob (s : State) (jobId : String) : State :=
  { s with actives := s.actives.erase jobId }

/-- The events of an attempt: `onCompleted` is called, or `onFailed`, or neither. -/
def State.report (s : State) (jobId : String) : Outcome → State
  | .completed => { s with handlers := jobId :: s.handlers }
  | .failed => s.unTrackJob jobId
  | .unreported => s

/-- The condition of the loop. -/
def State.checkActives (s : State) (maxWaitMs : ℤ) : State :=
  { s with shutdown :=
      if 0 < s.actives.card ∧ 0 < maxWaitMs then .delaying maxWaitMs else .returned maxWaitMs }

inductive Action where
  | onActive (jobId : String)
  | ended (jobId : String) (outcome : Outcome)
  | onCompleted (jobId : String)
  | handlerFails (jobId : String)
  | onModuleDestroy
  | closed
  | delay
  deriving DecidableEq, Repr

/-- One step. A worker that is being closed may still get a job that it had asked for, and
is closed when no attempt runs. An override of `onCompleted` calls the method of the base
class in the end, unless it fails before. -/
def step (s : State) : Action → Option State
  | .onActive jobId =>
      match s.shutdown with
      | .notCalled | .closing => some { s.trackJob jobId with running := jobId :: s.running }
      | .delaying _ | .returned _ => none
  | .ended jobId outcome =>
      if jobId ∈ s.running then
        some (State.report { s with running := s.running.erase jobId } jobId outcome)
      else none
  | .onCompleted jobId =>
      if jobId ∈ s.handlers then
        some { s.unTrackJob jobId with handlers := s.handlers.erase jobId }
      else none
  | .handlerFails jobId =>
      if jobId ∈ s.handlers then some { s with handlers := s.handlers.erase jobId } else none
  | .onModuleDestroy =>
      if s.shutdown = .notCalled then some { s with shutdown := .closing } else none
  | .closed =>
      if s.shutdown = .closing ∧ s.running = [] then
        some (s.checkActives maxWaitForGraceFullShutdownMs)
      else none
  | .delay =>
      match s.shutdown with
      | .delaying maxWaitMs => some (s.checkActives (maxWaitMs - delayToCheckForShutdownMs))
      | .notCalled | .closing | .returned _ => none

/-- A job is forgotten only when no other attempt and no other handler of it is under
way. -/
def Alone (s : State) : Action → Prop
  | .ended jobId .failed => jobId ∉ s.running.erase jobId ∧ jobId ∉ s.handlers
  | .onCompleted jobId => jobId ∉ s.running ∧ jobId ∉ s.handlers.erase jobId
  | _ => True

instance (s : State) : ∀ a, Decidable (Alone s a)
  | .ended _ .failed | .onCompleted _ => inferInstanceAs (Decidable (_ ∧ _))
  | .ended _ .completed | .ended _ .unreported | .onActive _ | .handlerFails _
  | .onModuleDestroy | .closed | .delay => isTrue trivial

/-! ## What a run says about a job -/

def Action.jobId? : Action → Option String
  | .onActive jobId | .ended jobId _ | .onCompleted jobId | .handlerFails jobId => some jobId
  | .onModuleDestroy | .closed | .delay => none

/-- The consumer does not learn that it is over. -/
def Action.silent : Action → Bool
  | .ended _ .unreported | .handlerFails _ => true
  | _ => false

/-- The last that happened to the job was silent. -/
def Silent (as : List Action) (jobId : String) : Prop :=
  (as.filter (·.jobId? = some jobId)).getLast?.any Action.silent = true

instance (as : List Action) (jobId : String) : Decidable (Silent as jobId) :=
  inferInstanceAs (Decidable (_ = _))

section Step
variable {s t : State} {as : List Action} {jobId : String} {maxWaitMs : ℤ}

theorem silent_concat (as : List Action) (a : Action) (jobId : String) :
    Silent (as ++ [a]) jobId ↔
      if a.jobId? = some jobId then a.silent = true else Silent as jobId := by
  unfold Silent
  rw [List.filter_append, List.filter_singleton]
  split_ifs with h
  · simp [h]
  · simp [h]

theorem of_onActive (h : step s (.onActive jobId) = some t) :
    (s.shutdown = .notCalled ∨ s.shutdown = .closing) ∧
      t = { s.trackJob jobId with running := jobId :: s.running } := by
  dsimp only [step] at h
  split at h
  · next heq =>
      cases h
      exact ⟨.inl heq, rfl⟩
  · next heq =>
      cases h
      exact ⟨.inr heq, rfl⟩
  · cases h
  · cases h

theorem of_ended {outcome : Outcome} (h : step s (.ended jobId outcome) = some t) :
    jobId ∈ s.running ∧
      t = State.report { s with running := s.running.erase jobId } jobId outcome := by
  dsimp only [step] at h
  split_ifs at h with hrunning
  cases h
  exact ⟨hrunning, rfl⟩

theorem of_onCompleted (h : step s (.onCompleted jobId) = some t) :
    jobId ∈ s.handlers ∧
      t = { s.unTrackJob jobId with handlers := s.handlers.erase jobId } := by
  dsimp only [step] at h
  split_ifs at h with hhandlers
  cases h
  exact ⟨hhandlers, rfl⟩

theorem of_handlerFails (h : step s (.handlerFails jobId) = some t) :
    jobId ∈ s.handlers ∧ t = { s with handlers := s.handlers.erase jobId } := by
  dsimp only [step] at h
  split_ifs at h with hhandlers
  cases h
  exact ⟨hhandlers, rfl⟩

theorem of_onModuleDestroy (h : step s .onModuleDestroy = some t) :
    s.shutdown = .notCalled ∧ t = { s with shutdown := .closing } := by
  dsimp only [step] at h
  split_ifs at h with hcalled
  cases h
  exact ⟨hcalled, rfl⟩

theorem of_closed (h : step s .closed = some t) : s.shutdown = .closing ∧ s.running = [] ∧
    t = s.checkActives maxWaitForGraceFullShutdownMs := by
  dsimp only [step] at h
  split_ifs at h with hclosing
  cases h
  exact ⟨hclosing.1, hclosing.2, rfl⟩

theorem of_delay (h : step s .delay = some t) : ∃ maxWaitMs, s.shutdown = .delaying maxWaitMs ∧
    t = s.checkActives (maxWaitMs - delayToCheckForShutdownMs) := by
  dsimp only [step] at h
  split at h
  · next maxWaitMs heq =>
      cases h
      exact ⟨maxWaitMs, heq, rfl⟩
  · cases h
  · cases h
  · cases h

/-- A step says nothing of a job that it does not name. -/
theorem step_other {a : Action} (hstep : step s a = some t) (ha : a.jobId? ≠ some jobId) :
    (jobId ∈ t.actives ↔ jobId ∈ s.actives) ∧ (jobId ∈ t.running ↔ jobId ∈ s.running) ∧
      (jobId ∈ t.handlers ↔ jobId ∈ s.handlers) := by
  cases a with
  | onActive other =>
      obtain ⟨-, rfl⟩ := of_onActive hstep
      have hne : jobId ≠ other := fun heq => ha (congrArg some heq.symm)
      simp [State.trackJob, hne]
  | ended other outcome =>
      obtain ⟨-, rfl⟩ := of_ended hstep
      have hne : jobId ≠ other := fun heq => ha (congrArg some heq.symm)
      cases outcome <;> simp [State.report, State.unTrackJob, hne, List.mem_erase_of_ne]
  | onCompleted other =>
      obtain ⟨-, rfl⟩ := of_onCompleted hstep
      have hne : jobId ≠ other := fun heq => ha (congrArg some heq.symm)
      simp [State.unTrackJob, hne, List.mem_erase_of_ne]
  | handlerFails other =>
      obtain ⟨-, rfl⟩ := of_handlerFails hstep
      have hne : jobId ≠ other := fun heq => ha (congrArg some heq.symm)
      simp [hne, List.mem_erase_of_ne]
  | onModuleDestroy =>
      obtain ⟨-, rfl⟩ := of_onModuleDestroy hstep
      exact ⟨.rfl, .rfl, .rfl⟩
  | closed =>
      obtain ⟨-, -, rfl⟩ := of_closed hstep
      exact ⟨.rfl, .rfl, .rfl⟩
  | delay =>
      obtain ⟨maxWaitMs, -, rfl⟩ := of_delay hstep
      exact ⟨.rfl, .rfl, .rfl⟩

/-- The job is being worked on as far as the consumer knows. -/
def Tracked (as : List Action) (s : State) (jobId : String) : Prop :=
  jobId ∈ s.actives ↔ jobId ∈ s.running ∨ jobId ∈ s.handlers ∨ Silent as jobId

theorem tracked_of_step_self {a : Action} (h : Tracked as s jobId) (halone : Alone s a)
    (hstep : step s a = some t) (ha : a.jobId? = some jobId) :
    jobId ∈ t.actives ↔ jobId ∈ t.running ∨ jobId ∈ t.handlers ∨ a.silent = true := by
  cases a with
  | onActive other =>
      cases ha
      obtain ⟨-, rfl⟩ := of_onActive hstep
      simp [State.trackJob]
  | ended other outcome =>
      cases ha
      obtain ⟨hrunning, rfl⟩ := of_ended hstep
      have hactive : jobId ∈ s.actives := h.mpr (.inl hrunning)
      cases outcome with
      | completed => simp [State.report, hactive]
      | failed => simpa [State.report, State.unTrackJob, Action.silent, Alone] using halone
      | unreported => simp [State.report, hactive, Action.silent]
  | onCompleted other =>
      cases ha
      obtain ⟨-, rfl⟩ := of_onCompleted hstep
      simpa [State.unTrackJob, Action.silent, Alone] using halone
  | handlerFails other =>
      cases ha
      obtain ⟨hhandlers, rfl⟩ := of_handlerFails hstep
      simp [h.mpr (.inr (.inl hhandlers)), Action.silent]
  | onModuleDestroy | closed | delay => cases ha

theorem tracked_of_step {a : Action} (h : Tracked as s jobId) (halone : Alone s a)
    (hstep : step s a = some t) : Tracked (as ++ [a]) t jobId := by
  unfold Tracked
  rw [silent_concat]
  by_cases ha : a.jobId? = some jobId
  · rw [if_pos ha]
    exact tracked_of_step_self h halone hstep ha
  · obtain ⟨hactives, hrunning, hhandlers⟩ := step_other hstep ha
    rw [if_neg ha, hactives, hrunning, hhandlers]
    exact h

/-- The set holds a job exactly while an attempt or a handler of it is under way, and
after its end if the consumer was not told. -/
theorem tracked_of_run (h : run step start as = some s) (halone : EachStep step Alone start as)
    (jobId : String) : Tracked as s jobId := by
  refine run_induction (I := fun as s => Tracked as s jobId) ?_
    (fun as t a u _ ht ha hstep => tracked_of_step ht ha hstep) halone h
  simp [Tracked, start, Silent]

/-! ## How long the hook waits -/

/-- So much is left after the delays of the run. -/
def remaining (as : List Action) : ℤ :=
  maxWaitForGraceFullShutdownMs - as.count .delay * delayToCheckForShutdownMs

/-- What the hook has seen. -/
def Waited (as : List Action) (s : State) : Prop :=
  match s.shutdown with
  | .notCalled | .closing => as.count .delay = 0
  | .delaying maxWaitMs => s.running = [] ∧ maxWaitMs = remaining as ∧ 0 < maxWaitMs
  | .returned maxWaitMs => s.running = [] ∧ maxWaitMs = remaining as ∧
      as.count .delay ≤ 20 ∧ (0 < maxWaitMs → s.actives = ∅)

theorem count_concat {a : Action} (ha : a ≠ .delay) (as : List Action) :
    (as ++ [a]).count .delay = as.count .delay := by
  rw [List.count_append, List.count_singleton]
  simp [ha]

theorem waited_checkActives (hrunning : s.running = []) (hdelays : as.count .delay ≤ 20) :
    Waited as (s.checkActives (remaining as)) := by
  unfold State.checkActives Waited
  split_ifs with hcheck
  · exact ⟨hrunning, rfl, hcheck.2⟩
  · refine ⟨hrunning, rfl, hdelays, fun hpos => ?_⟩
    rw [not_and_or, Finset.card_pos, Finset.not_nonempty_iff_eq_empty] at hcheck
    exact hcheck.resolve_right (not_not.mpr hpos)

/-- Once the worker is closed a step other than a delay only ends handlers. -/
theorem Waited.mono {a : Action} (h : Waited as s) (ha : a ≠ .delay)
    (hshutdown : t.shutdown = s.shutdown) (hrunning : s.running = [] → t.running = [])
    (hactives : t.actives ⊆ s.actives) : Waited (as ++ [a]) t := by
  unfold Waited remaining at h ⊢
  rw [hshutdown, count_concat ha]
  split
  · next heq =>
      rw [heq] at h
      exact h
  · next heq =>
      rw [heq] at h
      exact h
  · next heq =>
      rw [heq] at h
      exact ⟨hrunning h.1, h.2⟩
  · next heq =>
      rw [heq] at h
      obtain ⟨hidle, hleft, hdelays, hempty⟩ := h
      exact ⟨hrunning hidle, hleft, hdelays,
        fun hpos => Finset.subset_empty.mp (hempty hpos ▸ hactives)⟩

theorem Waited.step {a : Action} (h : Waited as s) (hstep : step s a = some t) :
    Waited (as ++ [a]) t := by
  cases a with
  | onActive jobId =>
      obtain ⟨hshutdown | hshutdown, rfl⟩ := of_onActive hstep <;>
        simpa [Waited, State.trackJob, hshutdown] using h
  | ended jobId outcome =>
      obtain ⟨-, rfl⟩ := of_ended hstep
      have hrunning : s.running = [] → s.running.erase jobId = [] := fun heq => by simp [heq]
      cases outcome with
      | completed => exact h.mono (by simp) rfl hrunning subset_rfl
      | failed => exact h.mono (by simp) rfl hrunning (Finset.erase_subset ..)
      | unreported => exact h.mono (by simp) rfl hrunning subset_rfl
  | onCompleted jobId =>
      obtain ⟨-, rfl⟩ := of_onCompleted hstep
      exact h.mono (by simp) rfl id (Finset.erase_subset ..)
  | handlerFails jobId =>
      obtain ⟨-, rfl⟩ := of_handlerFails hstep
      exact h.mono (by simp) rfl id subset_rfl
  | onModuleDestroy =>
      obtain ⟨hshutdown, rfl⟩ := of_onModuleDestroy hstep
      simpa [Waited, hshutdown] using h
  | closed =>
      obtain ⟨hshutdown, hrunning, rfl⟩ := of_closed hstep
      have hnone : (as ++ [Action.closed]).count .delay = 0 := by
        simpa [Waited, hshutdown] using h
      have hleft : remaining (as ++ [.closed]) = maxWaitForGraceFullShutdownMs := by
        simp [remaining, hnone]
      rw [← hleft]
      exact waited_checkActives hrunning (by omega)
  | delay =>
      obtain ⟨maxWaitMs, hshutdown, rfl⟩ := of_delay hstep
      unfold Waited at h
      rw [hshutdown] at h
      obtain ⟨hrunning, rfl, hpos⟩ := h
      have hcount : (as ++ [Action.delay]).count .delay = as.count .delay + 1 := by simp
      have hleft : remaining as - delayToCheckForShutdownMs = remaining (as ++ [.delay]) := by
        unfold remaining delayToCheckForShutdownMs
        omega
      rw [hleft]
      refine waited_checkActives hrunning ?_
      -- Something was left before this delay, so it is not the twenty-first.
      unfold remaining maxWaitForGraceFullShutdownMs delayToCheckForShutdownMs at hpos
      omega

theorem waited_of_run (h : run step start as = some s) : Waited as s :=
  run_induction (C := fun _ _ => True) (I := fun as s => Waited as s) (by simp [Waited, start])
    (fun _ _ _ _ _ ht _ hstep => ht.step hstep) (fun _ _ _ _ _ => trivial) h

end Step

/-! ## What has ended when the hook returns -/

section Runs
variable {s : State} {as bs cs : List Action} {maxWaitMs : ℤ}

theorem waited_of_returned (h : run step start as = some s)
    (hreturned : s.shutdown = .returned maxWaitMs) :
    s.running = [] ∧ maxWaitMs = remaining as ∧ as.count .delay ≤ 20 ∧
      (0 < maxWaitMs → s.actives = ∅) := by
  have hwaited := waited_of_run h
  unfold Waited at hwaited
  rwa [hreturned] at hwaited

/-- A hook that returns before the last delay has nothing left to wait for. -/
theorem ended_of_returned (h : run step start as = some s)
    (hreturned : s.shutdown = .returned maxWaitMs) (halone : EachStep step Alone start as)
    (hpos : 0 < maxWaitMs) : s.handlers = [] ∧ ∀ jobId, ¬ Silent as jobId := by
  obtain ⟨-, -, -, hactives⟩ := waited_of_returned h hreturned
  have hnone : ∀ jobId, ¬ (jobId ∈ s.running ∨ jobId ∈ s.handlers ∨ Silent as jobId) := by
    intro jobId hjob
    have hmem := (tracked_of_run h halone jobId).mpr hjob
    rw [hactives hpos] at hmem
    exact Finset.notMem_empty _ hmem
  refine ⟨List.eq_nil_iff_forall_not_mem.mpr fun jobId hmem => ?_, fun jobId hsilent => ?_⟩
  · exact hnone jobId (.inr (.inl hmem))
  · exact hnone jobId (.inr (.inr hsilent))

theorem delays_of_run (h : run step start as = some s) : as.count .delay ≤ 20 := by
  have hwaited := waited_of_run h
  unfold Waited at hwaited
  split at hwaited
  · omega
  · omega
  · obtain ⟨-, rfl, hpos⟩ := hwaited
    unfold remaining maxWaitForGraceFullShutdownMs delayToCheckForShutdownMs at hpos
    omega
  · exact hwaited.2.2.1

/-- The hook delays at most twenty times, and never returns while an attempt runs. If it
returns before the last delay, and every job was forgotten in its turn, no handler is under
way, and whatever happened last to any job was reported. -/
theorem returned_of_run (h : run step start as = some s) :
    as.count .delay ≤ 20 ∧ ∀ maxWaitMs, s.shutdown = .returned maxWaitMs →
      s.running = [] ∧
        maxWaitMs = maxWaitForGraceFullShutdownMs - as.count .delay * delayToCheckForShutdownMs ∧
        (EachStep step Alone start as → 0 < maxWaitMs →
          s.handlers = [] ∧ ∀ jobId, ¬ Silent as jobId) := by
  refine ⟨delays_of_run h, fun maxWaitMs hreturned => ?_⟩
  obtain ⟨hrunning, hleft, -⟩ := waited_of_returned h hreturned
  exact ⟨hrunning, hleft, ended_of_returned h hreturned⟩

theorem silent_append_cons {a : Action} {jobId : String} (ha : a.jobId? = some jobId)
    (hcs : ∀ c ∈ cs, c.jobId? ≠ some jobId) :
    Silent (bs ++ a :: cs) jobId ↔ a.silent = true := by
  have hnil : cs.filter (·.jobId? = some jobId) = [] := by
    rw [List.filter_eq_nil_iff]
    exact fun c hc => by simpa using hcs c hc
  unfold Silent
  rw [List.filter_append, List.filter_cons_of_pos (by simp [ha]), hnil]
  simp

/-- How the processing of a request ends, if the collecting of its announcement would end
like this. A job that is delayed leaves with a `DelayedError`. -/
def requestOutcome (next : Except Thrown Next) (collected : Outcome) : Outcome :=
  match next with
  | .ok .collectAnnouncementAndQueue => collected
  | .ok (.moveToDelayed _) => .unreported
  | .error _ => .failed

/-- A consumer that has delayed a request for its assets, and did not get it again, waits for
all twenty delays although nothing is left to wait for. -/
theorem returned_of_missing {api : IpfsApi} {ipfs : Ipfs} {seconds : ℚ} {job : IRequestJob}
    {collected : Outcome} (h : run step start as = some s)
    (halone : EachStep step Alone start as)
    (hsound : ∀ cid ∈ assets job, (api.toV0 cid).isSome) (hmissing : Missing api ipfs job)
    (hattempt : job.dependencyAttempt < 3)
    (has : as = bs ++ .ended job.id (requestOutcome (process api ipfs seconds job) collected) :: cs)
    (hcs : ∀ c ∈ cs, c.jobId? ≠ some job.id) (hreturned : s.shutdown = .returned maxWaitMs) :
    as.count .delay = 20 := by
  have hprocess : requestOutcome (process api ipfs seconds job) collected = .unreported := by
    rw [process_eq hsound, if_pos hmissing, delayJobAndIncrementAttempts,
      if_pos (Nat.succ_le_of_lt hattempt)]
    rfl
  have hsilent : Silent as job.id := by
    rw [has, silent_append_cons rfl hcs, hprocess]
    rfl
  obtain ⟨-, hleft, hdelays, -⟩ := waited_of_returned h hreturned
  have hnonpos : ¬ 0 < maxWaitMs := fun hpos =>
    (ended_of_returned h hreturned halone hpos).2 job.id hsilent
  unfold remaining maxWaitForGraceFullShutdownMs delayToCheckForShutdownMs at hleft
  omega

end Runs

/-! ## A handler and a delayed request -/

section Sample
open Uploads (requestFor sampleApi smallFile)

/-- The handler of an asset job ends during the first delay. -/
def closeDuringHandler : List Action :=
  [.onActive "asset", .ended "asset" .completed, .onModuleDestroy, .closed,
    .onCompleted "asset", .delay]

theorem returned_closeDuringHandler : ∃ s, run step start closeDuringHandler = some s ∧
    closeDuringHandler.count .delay ≤ 20 ∧ s.running = [] ∧
      5700 = maxWaitForGraceFullShutdownMs -
        closeDuringHandler.count .delay * delayToCheckForShutdownMs ∧
      s.handlers = [] ∧ ∀ jobId, ¬ Silent closeDuringHandler jobId := by
  obtain ⟨s, hs, hreturned⟩ : ∃ s, run step start closeDuringHandler = some s ∧
      s.shutdown = .returned 5700 := exists_of_run_any (by decide)
  obtain ⟨hdelays, hback⟩ := returned_of_run hs
  obtain ⟨hrunning, hleft, hended⟩ := hback 5700 hreturned
  exact ⟨s, hs, hdelays, hrunning, hleft, hended (by decide) (by decide)⟩

/-- How the request for a file ends that was not uploaded. -/
def unansweredRequest : Outcome :=
  requestOutcome (process sampleApi (fun _ => none) 5 (requestFor smallFile)) .completed

/-- The worker is closed, and all delays pass. -/
def closeInFull : List Action := [.onModuleDestroy, .closed] ++ List.replicate 20 .delay

/-- The request is delayed before that. -/
def delayAndClose : List Action :=
  [.onActive "request"] ++ .ended "request" unansweredRequest :: closeInFull

theorem returned_closeInFull : ∃ s maxWaitMs, run step start delayAndClose = some s ∧
    s.shutdown = .returned maxWaitMs ∧ delayAndClose.count .delay = 20 := by
  obtain ⟨s, hs, maxWaitMs, hreturned⟩ : ∃ s, run step start delayAndClose = some s ∧
      ∃ maxWaitMs, s.shutdown = .returned maxWaitMs := ⟨_, rfl, _, rfl⟩
  have hsound : ∀ cid ∈ assets (requestFor smallFile), (sampleApi.toV0 cid).isSome := by
    decide +kernel
  have hmissing : Missing sampleApi (fun _ => none) (requestFor smallFile) := by decide +kernel
  exact ⟨s, maxWaitMs, hs, hreturned, returned_of_missing hs (by decide +kernel) hsound hmissing
    (by decide) rfl (by decide) hreturned⟩

end Sample

end ContentPublishing.Consumer
