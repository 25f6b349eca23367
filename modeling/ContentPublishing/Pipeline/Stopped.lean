import ContentPublishing.Pipeline.System

/-!
# After the queue is paused

Nothing resumes the publish queue. A paused queue hands out no jobs, so what is still
submitted are the jobs that were handed out before: batches enter the queue and receipts
put messages back into it, but none of these is submitted.
-/
namespace ContentPublishing.Publisher.Service
open Effects

/-- The job of a call that has not reached `publish`. -/
def Running.waiting? : Running → Option IPublisherJob
  | .publishing job => some job
  | _ => none

def State.waiting (s : State) : List IPublisherJob := s.calls.filterMap Running.waiting?

def Submission.called? : Submission → Option IPublisherJob
  | .called job => some job
  | .returned _ _ => none

/-- The queue stays paused, and only jobs that were waiting are submitted, each once. -/
structure Stopped (s t : State) : Prop where
  paused : t.service.queuePaused = true
  submissions : ∃ log, t.service.submissions = s.service.submissions ++ log ∧
    (log.filterMap Submission.called? ++ t.waiting).Subperm s.waiting

section Stopped
variable {capacityLimit : ICapacityLimit} {instances : ℕ} {env : Env} {s t u : State}

theorem Stopped.refl (h : s.service.queuePaused = true) : Stopped s s :=
  ⟨h, [], (List.append_nil _).symm, .refl _⟩

theorem Stopped.trans (h : Stopped s t) (h' : Stopped t u) : Stopped s u := by
  obtain ⟨log, hlog, hsub⟩ := h.submissions
  obtain ⟨log', hlog', hsub'⟩ := h'.submissions
  refine ⟨h'.paused, log ++ log', by rw [hlog', hlog, List.append_assoc], ?_⟩
  rw [List.filterMap_append, List.append_assoc]
  exact ((List.subperm_append_left _).mpr hsub').trans hsub

theorem Stopped.of_eq (hpaused : t.service.queuePaused = true)
    (hsubmissions : t.service.submissions = s.service.submissions)
    (hwaiting : t.waiting = s.waiting) : Stopped s t :=
  ⟨hpaused, [], by rw [hsubmissions, List.append_nil], by rw [hwaiting]; exact .refl _⟩

/-- A call that goes on submits at most the job that it was waiting with. -/
theorem resumed_stopped {service : PublisherState} {call : Running}
    {next : List Running × PublisherState} (hpaused : service.queuePaused = true)
    (h : Resumed capacityLimit instances env service call next) :
    next.2.queuePaused = true ∧ ∃ log, next.2.submissions = service.submissions ++ log ∧
      (log.filterMap Submission.called? ++ next.1.filterMap Running.waiting?).Subperm
        call.waiting?.toList := by
  have hnothing : ∀ {calls : List Running} {service' : PublisherState},
      service'.queuePaused = true → service'.submissions = service.submissions →
        calls.filterMap Running.waiting? = [] → service'.queuePaused = true ∧
          ∃ log, service'.submissions = service.submissions ++ log ∧
            (log.filterMap Submission.called? ++
              calls.filterMap Running.waiting?).Subperm call.waiting?.toList := by
    intro calls service' hpaused' hsame hcalls
    refine ⟨hpaused', [], hsame.trans (List.append_nil _).symm, ?_⟩
    rw [hcalls]
    exact List.nil_subperm
  cases h with
  | called job head => exact ⟨hpaused, [.called job], rfl, .refl _⟩
  | returned job head txHash => exact ⟨hpaused, [.returned job txHash], rfl, .refl _⟩
  | failed call calls emitted hjob hchecking hcalls =>
      refine hnothing hpaused rfl (List.filterMap_eq_nil_iff.mpr fun next hnext => ?_)
      rcases hcalls next hnext with rfl | rfl <;> rfl
  | answered exhausted =>
      refine hnothing hpaused rfl (List.filterMap_eq_nil_iff.mpr fun next hnext => ?_)
      exact List.eq_of_mem_replicate hnext ▸ rfl
  | paused => exact hnothing rfl rfl rfl
  | recorded | exhausted | unanswered | unpaused => exact hnothing hpaused rfl rfl
  | refilled =>
      have hkeeps := keeps_handleCapacityRefilled
        (P := fun t => t.queuePaused = true ∧ t.submissions = service.submissions)
        (fun _ _ _ _ _ h => h) service ⟨hpaused, rfl⟩
      exact hnothing hkeeps.1 hkeeps.2 rfl
  | scheduled =>
      have hkeeps : Keeps (fun t => t.queuePaused = true ∧ t.submissions = service.submissions)
          (scheduleCheck env) := keeps_scheduleCheck fun _ _ _ _ h => h
      obtain ⟨hkept, hsame⟩ := hkeeps service ⟨hpaused, rfl⟩
      exact hnothing hkept hsame rfl

/-- A step of the service that is not the beginning of a job. -/
theorem stopped_of_step {a : Action} (hpaused : s.service.queuePaused = true)
    (hprocess : ∀ job, a ≠ .process job) (hstep : step capacityLimit instances s a = some t) :
    Stopped s t := by
  have hchecking : (s.calls ++ [Running.checking]).filterMap Running.waiting? = s.waiting := by
    rw [List.filterMap_append]
    exact List.append_nil _
  cases a with
  | check =>
      cases hstep
      exact .of_eq hpaused rfl hchecking
  | process job => exact absurd rfl (hprocess job)
  | fire timer =>
      obtain ⟨-, rfl⟩ := step_fire hstep
      exact .of_eq hpaused rfl hchecking
  | resume i env =>
      obtain ⟨call, hi, rfl⟩ := step_resume hstep
      have hresumed : Resumed capacityLimit instances env s.service call _ :=
        resumed s.service call
      obtain ⟨hkept, log, hlog, hsub⟩ := resumed_stopped hpaused hresumed
      refine ⟨hkept, log, hlog, ?_⟩
      have hwaiting : (call.waiting?.toList ++
          (s.calls.eraseIdx i).filterMap Running.waiting?).Perm s.waiting := by
        have hperm := (Entries.perm_cons_eraseIdx hi).filterMap Running.waiting?
        rw [List.filterMap_cons] at hperm
        cases hcall : call.waiting? <;> simpa [hcall, State.waiting] using hperm
      rw [State.waiting, State.resume, List.filterMap_append]
      refine List.Subperm.trans (List.Perm.subperm ?_)
        (((List.subperm_append_right _).mpr hsub).trans hwaiting.subperm)
      rw [List.append_assoc]
      exact List.perm_append_comm.append_left _

end Stopped

end ContentPublishing.Publisher.Service

namespace ContentPublishing.Monitor
open Effects

/-- A receipt job may pause the queue and never resumes it. -/
theorem keeps_paused {env : Env} {job : ReceiptJob} :
    Keeps (fun s : MonitorState => s.paused = true) (process env job) := by
  have hretry : Keeps (fun s : MonitorState => s.paused = true)
      (retryPublishJob env job.data.referencePublishJob) :=
    keeps_bind (keeps_serve _ fun _ h => h) fun _ => keeps_serve _ fun _ h => h
  have hrest : ∀ error, Keeps (fun s : MonitorState => s.paused = true)
      (if (handleMessagesFailure error).retry then
        retryPublishJob env job.data.referencePublishJob
        else throw (.unrecoverable job.data.id error)) := by
    intro error
    split
    · exact hretry
    · exact keeps_throw _
  refine keeps_bind (keeps_ask _) fun txResult => ?_
  dsimp only
  split
  · refine keeps_bind (keeps_tryCatch (keeps_addEpochCapacity _ _ fun s f hs => hs)
      fun _ => keeps_pure _) fun _ => ?_
    split
    · refine keeps_bind ?_ fun _ => keeps_pure _
      unfold handleError
      dsimp only
      split
      · exact keeps_bind (keeps_serve _ fun _ _ => rfl) fun _ => hrest _
      · exact hrest _
    · exact keeps_bind (keeps_pure _) fun _ => keeps_pure _
  · refine keeps_bind ?_ fun _ => keeps_pure _
    unfold handleNotFound
    split
    · exact keeps_throw _
    · exact hretry

end ContentPublishing.Monitor

namespace ContentPublishing.Pipeline
open Announcements (FetchOrder RequestTypeDto Services)
open Announcer (Libraries)
open Batching (CallId)
open Dependencies (Ipfs IpfsApi)
open Dependencies.Uploads (octetApi)
open Effects Transition
open Publisher.Service (Stopped)

/-- A paused publish queue hands out no job. -/
def OnlyIfRunning (s : State) : Action → Prop
  | .publisher (.process _) => s.publisher.service.queuePaused = false
  | _ => True

instance (s : State) (a : Action) : Decidable (OnlyIfRunning s a) := by
  unfold OnlyIfRunning
  split <;> infer_instance

section Step
variable {calculateJobId : String → RequestTypeDto → String} {api : IpfsApi}
  {services : Services} {libraries : Libraries} {settings : Settings} {s t : State}

theorem publisher_processRequest (s : State) (i : CallId) (entry : RequestEntry) (answers : Bool)
    (order : ∀ content, FetchOrder content) :
    (processRequest api services settings s i entry answers order).publisher = s.publisher := by
  unfold processRequest
  split
  · split <;> rfl
  · rfl
  · rfl

theorem stopped_of_step {a : Action} (hpaused : s.publisher.service.queuePaused = true)
    (hstep : step calculateJobId api services libraries settings s a = some t)
    (hrunning : OnlyIfRunning s a) : Stopped s.publisher t.publisher := by
  cases a with
  | tick ms =>
      cases hstep
      exact .refl hpaused
  | request userDsnpId content assetToMimeType =>
      obtain ⟨data, -, rfl⟩ := Option.map_eq_some_iff.mp hstep
      exact .refl hpaused
  | processRequest i requestId answers order =>
      dsimp only [step] at hstep
      split_ifs at hstep
      obtain ⟨entry, -, rfl⟩ := Option.map_eq_some_iff.mp hstep
      rw [publisher_processRequest]
      exact .refl hpaused
  | queueAnnouncement i =>
      obtain ⟨queued, -, rfl⟩ := Option.map_eq_some_iff.mp hstep
      exact .refl hpaused
  | throw i | forgetRequest requestId | forgetAnnouncement queueName jobId =>
      cases hstep
      exact .refl hpaused
  | batching queueName a =>
      dsimp only [step] at hstep
      split_ifs at hstep
      obtain ⟨b, -, rfl⟩ := Option.map_eq_some_iff.mp hstep
      exact .refl hpaused
  | announcer a =>
      dsimp only [step] at hstep
      split_ifs at hstep
      obtain ⟨u, -, rfl⟩ := Option.map_eq_some_iff.mp hstep
      exact .refl hpaused
  | publisher a =>
      dsimp only [step] at hstep
      split_ifs at hstep
      obtain ⟨p, hp, rfl⟩ := Option.map_eq_some_iff.mp hstep
      refine Publisher.Service.stopped_of_step hpaused (fun job heq => ?_) hp
      subst heq
      exact Bool.false_ne_true (hrunning.symm.trans hpaused)
  | receipt txHash attemptsMade env =>
      obtain ⟨entry, -, rfl⟩ := Option.map_eq_some_iff.mp hstep
      exact .of_eq (Monitor.keeps_paused s.monitor hpaused) rfl rfl

/-- Once the publish queue is paused it stays so, whatever later checks find, and all that is
still submitted are jobs that had been handed out before and had not reached the chain. -/
theorem stopped_of_run {as : List Action} (hpaused : s.publisher.service.queuePaused = true)
    (h : run (step calculateJobId api services libraries settings) s as = some t)
    (hrunning : EachStep (step calculateJobId api services libraries settings) OnlyIfRunning s as) :
    Stopped s.publisher t.publisher :=
  invariant (I := fun t => Stopped s.publisher t.publisher) (.refl hpaused)
    (fun _ _ _ ht ha hstep => ht.trans (stopped_of_step ht.paused hstep ha)) hrunning h

end Step

/-! ## A job that was under way -/

/-- A check finds no capacity while the message of the reaction waits for the chain. -/
def pauseReaction : List Action :=
  announceReaction ++ [.process reactionMessage, .check, .resume 1 (.sample 0),
    .resume 1 (.sample 0), .resume 2 (.sample 0)].map .publisher

/-- The message is submitted, the capacity is there again, and a second reaction is
requested. -/
def submitAndRefill : List Action :=
  [.resume 0 (.sample 100), .resume 2 (.sample 100), .check, .resume 3 (.sample 100)].map
    .publisher ++ [.request "2" (.reaction "y" 1 "dsnp://2/0x1") none]

theorem stopped_submitAndRefill : ∃ s t, run (step (fun _ _ => "request") octetApi
    Announcements.plainServices .sample .sample) (start (fun _ => none) fun _ => none)
      pauseReaction = some s ∧
    run (step (fun _ _ => "request") octetApi Announcements.plainServices .sample .sample) s
      submitAndRefill = some t ∧
    Stopped s.publisher t.publisher := by
  obtain ⟨s, hs, hpaused, hsubmits⟩ : ∃ s, run (step (fun _ _ => "request") octetApi
      Announcements.plainServices .sample .sample) (start (fun _ => none) fun _ => none)
        pauseReaction = some s ∧ s.publisher.service.queuePaused = true ∧
      (run (step (fun _ _ => "request") octetApi Announcements.plainServices .sample .sample) s
        submitAndRefill).isSome := exists_of_run_any (by decide +kernel)
  obtain ⟨t, ht⟩ := Option.isSome_iff_exists.mp hsubmits
  exact ⟨s, t, hs, ht, stopped_of_run hpaused ht
    (eachStep_of_forall_mem (by simp [submitAndRefill, OnlyIfRunning]) s)⟩

end ContentPublishing.Pipeline
