import ContentPublishing.Lib.Entries
import ContentPublishing.Lib.Transition
import ContentPublishing.Publisher.Publishing

/-!
# The service between its awaits

Jobs, capacity checks and event handlers of all instances of the service run at once, over
one publish queue, one event emitter and one scheduler registry. A call is interrupted
where it waits: a job for the chain and for the receipt queue, a check for its readings,
a handler for its turn, for the queue and for the chain. Every instance handles every
event. A call of a worker that crashed never goes on.
-/
namespace ContentPublishing.Publisher.Service
open Effects Transition

/-- A call that has begun and waits. The first three are those of `process`, up to its
`finally`; the last three are those of the event handlers. -/
inductive Running where
  | publishing (job : IPublisherJob)
  | sending (job : IPublisherJob) (currentBlockHash : Hash)
  | recording (job : IPublisherJob) (currentBlockHash txHash : Hash)
  | checking
  | raised (exhausted : Bool)
  | pausing
  | reading
  deriving DecidableEq, Repr

/-- The job that the call is about to submit or has submitted. -/
def Running.job? : Running → Option IPublisherJob
  | .publishing job | .sending job _ | .recording job _ _ => some job
  | _ => none

/-- The flags `capacityExhausted` of the instances are one here; nothing reads them.
`lastVerdict` is that of the last check that came to one. -/
structure State where
  service : PublisherState
  calls : List Running
  lastVerdict : Option Bool

def start : State := ⟨.start, [], none⟩

/-- A check begins at the start of an instance, and when a timer fires. -/
inductive Action where
  | check
  | process (job : IPublisherJob)
  | fire (timer : ℕ)
  | resume (i : ℕ) (env : Env)

/-- The timer that the registry knows. -/
def State.registered (s : State) : Option ℕ := s.service.timeouts capacityEpochTimeoutName

section Step
variable (capacityLimit : ICapacityLimit) (instances : ℕ) (env : Env)

/-- The `catch` of `process`: the handlers of a fee failure are not awaited, and the check
follows. -/
def caught (e : Thrown) (s : PublisherState) : List Running × PublisherState :=
  if e.includes "Inability to pay some fees" then
    (List.replicate instances (.raised true) ++ [.checking], { s with emitted := s.emitted + 1 })
  else ([.checking], s)

/-- What a call does up to its next `await`, and the calls that take its place. The awaits
in `publish` are one, as nothing of the service is read or written between them. -/
def resume (s : PublisherState) : Running → List Running × PublisherState
  | .publishing job =>
      match env.call .getLatestFinalizedBlockHash env.finalizedHead with
      | .ok currentBlockHash => ([.sending job currentBlockHash],
          { s with submissions := s.submissions ++ [.called job] })
      | .error e => caught instances e s
  | .sending job currentBlockHash =>
      match send env with
      | .ok txHash => ([.recording job currentBlockHash txHash],
          { s with submissions := s.submissions ++ [.returned job txHash] })
      | .error e => caught instances e s
  | .recording job currentBlockHash txHash =>
      match exec (sendJobToTxReceiptQueue env job txHash currentBlockHash) s with
      | (.ok _, t) => ([.checking], t)
      | (.error e, t) => caught instances e t
  | .checking =>
      match verdict capacityLimit env with
      | .ok exhausted => (List.replicate instances (.raised exhausted), s)
      | .error _ => ([], s)
  | .raised true => ([.pausing], { s with capacityExhausted := true })
  | .raised false => ([], (exec handleCapacityRefilled s).2)
  | .pausing =>
      match env.call .pause () with
      | .ok _ => ([.reading], { s with queuePaused := true })
      | .error _ => ([], s)
  | .reading => ([], (exec (scheduleCheck env) s).2)

/-- The verdict of a check that comes to one. -/
def Running.verdict? : Running → Option Bool
  | .checking => (verdict capacityLimit env).toOption
  | _ => none

def State.resume (s : State) (i : ℕ) (call : Running) : State :=
  let next := Service.resume capacityLimit instances env s.service call
  ⟨next.2, s.calls.eraseIdx i ++ next.1, (call.verdict? capacityLimit env).or s.lastVerdict⟩

/-- One step: a check or a job begins, a timer fires, or a call goes on. -/
def step (s : State) : Action → Option State
  | .check => some { s with calls := s.calls ++ [.checking] }
  | .process job => some { s with calls := s.calls ++ [.publishing job] }
  | .fire timer =>
      if timer ∈ s.service.pending.map (·.id) then some { s with
        service := { s.service with pending := s.service.pending.filter (·.id ≠ timer) }
        calls := s.calls ++ [.checking] }
      else none
  | .resume i env => s.calls[i]?.map (s.resume capacityLimit instances env i)

end Step

section Steps
variable {capacityLimit : ICapacityLimit} {instances : ℕ} {env : Env} {s t : State}

theorem step_resume {i : ℕ} (h : step capacityLimit instances s (.resume i env) = some t) :
    ∃ call, s.calls[i]? = some call ∧ t = s.resume capacityLimit instances env i call := by
  obtain ⟨call, hi, heq⟩ := Option.map_eq_some_iff.mp h
  exact ⟨call, hi, heq.symm⟩

theorem step_fire {timer : ℕ} (h : step capacityLimit instances s (.fire timer) = some t) :
    timer ∈ s.service.pending.map (·.id) ∧ t = { s with
      service := { s.service with pending := s.service.pending.filter (·.id ≠ timer) }
      calls := s.calls ++ [.checking] } := by
  rw [step, Option.ite_none_right_eq_some] at h
  exact ⟨h.1, (Option.some.inj h.2).symm⟩

/-! ## What a call can do -/

/-- The outcomes of a call that goes on. -/
inductive Resumed (capacityLimit : ICapacityLimit) (instances : ℕ) (env : Env)
    (s : PublisherState) : Running → List Running × PublisherState → Prop where
  | called (job : IPublisherJob) (head : Hash) :
      Resumed capacityLimit instances env s (.publishing job) ([.sending job head],
        { s with submissions := s.submissions ++ [.called job] })
  | returned (job : IPublisherJob) (head txHash : Hash) :
      Resumed capacityLimit instances env s (.sending job head) ([.recording job head txHash],
        { s with submissions := s.submissions ++ [.returned job txHash] })
  | recorded (job : IPublisherJob) (head txHash : Hash) :
      Resumed capacityLimit instances env s (.recording job head txHash) ([.checking],
        let entry := receiptEntry job txHash head
        { s with receiptQueue := s.receiptQueue.add entry.data.id entry })
  | failed (call : Running) (calls : List Running) (emitted : ℕ) (hjob : call.job?.isSome)
      (hchecking : .checking ∈ calls)
      (hcalls : ∀ next ∈ calls, next = .checking ∨ next = .raised true) :
      Resumed capacityLimit instances env s call (calls, { s with emitted := emitted })
  | answered (exhausted : Bool) (hverdict : verdict capacityLimit env = .ok exhausted) :
      Resumed capacityLimit instances env s .checking
        (List.replicate instances (.raised exhausted), s)
  | unanswered (hverdict : Failed (verdict capacityLimit env)) :
      Resumed capacityLimit instances env s .checking ([], s)
  | exhausted : Resumed capacityLimit instances env s (.raised true)
      ([.pausing], { s with capacityExhausted := true })
  | refilled : Resumed capacityLimit instances env s (.raised false)
      ([], (exec handleCapacityRefilled s).2)
  | paused : Resumed capacityLimit instances env s .pausing
      ([.reading], { s with queuePaused := true })
  | unpaused (hpause : Failed (env.call .pause ())) :
      Resumed capacityLimit instances env s .pausing ([], s)
  | scheduled : Resumed capacityLimit instances env s .reading ([], (exec (scheduleCheck env) s).2)

theorem resumed_caught (e : Thrown) (service : PublisherState) {call : Running}
    (hjob : call.job?.isSome) :
    Resumed capacityLimit instances env service call (caught instances e service) := by
  unfold caught
  split
  · refine .failed call _ _ hjob (List.mem_append_right _ (List.mem_singleton_self _)) ?_
    intro next hnext
    rcases List.mem_append.mp hnext with hnext | hnext
    · exact .inr (List.eq_of_mem_replicate hnext)
    · exact .inl (List.mem_singleton.mp hnext)
  · exact .failed call _ _ hjob (List.mem_singleton_self _) (by simp)

theorem resumed (service : PublisherState) (call : Running) :
    Resumed capacityLimit instances env service call
      (resume capacityLimit instances env service call) := by
  cases call with
  | publishing job =>
      simp only [resume]
      split
      · exact .called job _
      · exact resumed_caught _ service rfl
  | sending job head =>
      simp only [resume]
      split
      · exact .returned job head _
      · exact resumed_caught _ service rfl
  | recording job head txHash =>
      simp only [resume, sendJobToTxReceiptQueue]
      cases env.call .addReceiptJob () with
      | ok _ =>
          rw [exec_bind _ (exec_ask _ _), exec_modify]
          exact .recorded job head txHash
      | error e =>
          rw [exec_bind_error _ (exec_ask _ _)]
          exact resumed_caught e service rfl
  | checking =>
      simp only [resume]
      split
      · next exhausted hverdict => exact .answered exhausted hverdict
      · next e hverdict => exact .unanswered ⟨e, hverdict⟩
  | raised exhausted =>
      cases exhausted with
      | true => exact .exhausted
      | false => exact .refilled
  | pausing =>
      simp only [resume]
      split
      · exact .paused
      · next e hpause => exact .unpaused ⟨e, hpause⟩
  | reading => exact .scheduled

/-! ## A job on its way -/

theorem resume_publishing {head : Hash} (service : PublisherState) (job : IPublisherJob)
    (h : env.call .getLatestFinalizedBlockHash env.finalizedHead = .ok head) :
    resume capacityLimit instances env service (.publishing job) = ([.sending job head],
      { service with submissions := service.submissions ++ [.called job] }) := by
  rw [resume, h]

theorem resume_sending {txHash : Hash} (service : PublisherState) (job : IPublisherJob)
    (head : Hash) (h : send env = .ok txHash) :
    resume capacityLimit instances env service (.sending job head) = ([.recording job head txHash],
      { service with submissions := service.submissions ++ [.returned job txHash] }) := by
  rw [resume, h]

theorem resume_recording {service service' : PublisherState} {job : IPublisherJob}
    {head txHash : Hash} (h : exec (sendJobToTxReceiptQueue env job txHash head) service =
      (.ok (), service')) :
    resume capacityLimit instances env service (.recording job head txHash) =
      ([.checking], service') := by
  rw [resume, h]

/-! ## A call that is not interrupted -/

variable (capacityLimit instances env)

/-- The call that began last goes on. -/
theorem step_resume_last (service : PublisherState) (calls : List Running) (call : Running)
    (lastVerdict : Option Bool) : step capacityLimit instances
      ⟨service, calls ++ [call], lastVerdict⟩ (.resume calls.length env) =
    some ⟨(resume capacityLimit instances env service call).2,
      calls ++ (resume capacityLimit instances env service call).1,
      (call.verdict? capacityLimit env).or lastVerdict⟩ := by
  have herase : (calls ++ [call]).eraseIdx calls.length = calls := by
    rw [List.eraseIdx_append_of_length_le (Nat.le_refl _), Nat.sub_self]
    exact List.append_nil calls
  simp [step, State.resume, herase]

/-- A job that gets as far as its transaction hash. -/
theorem run_publishing {head txHash : Hash}
    (hhead : env.call .getLatestFinalizedBlockHash env.finalizedHead = .ok head)
    (hsend : send env = .ok txHash) (job : IPublisherJob) (s : State) :
    run (step capacityLimit instances) s
        (.process job :: List.replicate 2 (.resume s.calls.length env)) =
      some ⟨{ s.service with
          submissions := s.service.submissions ++ [.called job] ++ [.returned job txHash] },
        s.calls ++ [.recording job head txHash], s.lastVerdict⟩ := by
  have hbegin : step capacityLimit instances s (.process job) =
      some ⟨s.service, s.calls ++ [.publishing job], s.lastVerdict⟩ := rfl
  rw [run_cons_of hbegin, List.replicate_succ, run_cons_of (step_resume_last ..),
    resume_publishing _ _ hhead, List.replicate_one, run_cons_of (step_resume_last ..),
    resume_sending _ _ _ hsend]
  rfl

/-- A handler that runs alone does what it does without interruption. -/
theorem run_raised (exhausted : Bool) (service : PublisherState) (calls : List Running)
    (lastVerdict : Option Bool) : ∃ n, run (step capacityLimit 1)
      ⟨service, calls ++ [.raised exhausted], lastVerdict⟩
      (List.replicate n (.resume calls.length env)) =
    some ⟨(exec (raise env exhausted) service).2, calls, lastVerdict⟩ := by
  rw [exec_raise]
  cases exhausted with
  | false =>
      refine ⟨1, ?_⟩
      rw [List.replicate_one, run_cons_of (step_resume_last ..)]
      simp [run_nil, resume, Running.verdict?]
  | true =>
      cases hpause : env.fails .pause with
      | none =>
          have hcall : env.call .pause () = .ok () := by rw [Env.call, hpause]
          refine ⟨3, ?_⟩
          rw [if_pos rfl, exec_handleCapacityExhausted hpause, List.replicate_succ,
            run_cons_of (step_resume_last ..), List.replicate_succ]
          simp only [resume]
          rw [run_cons_of (step_resume_last ..)]
          simp only [resume, hcall]
          rw [List.replicate_one, run_cons_of (step_resume_last ..)]
          simp [run_nil, resume, Running.verdict?]
      | some e =>
          have hcall : env.call .pause () = .error e := by rw [Env.call, hpause]
          refine ⟨2, ?_⟩
          rw [if_pos rfl, handleCapacityExhausted, exec_bind _ (exec_modify _ _),
            exec_bind_error _ ((exec_ask _ _).trans (congrArg (·, _) hcall)), List.replicate_succ,
            run_cons_of (step_resume_last ..), List.replicate_one]
          simp only [resume]
          rw [run_cons_of (step_resume_last ..)]
          simp [run_nil, resume, hcall, Running.verdict?]

theorem run_checking (service : PublisherState) (calls : List Running)
    (lastVerdict : Option Bool) : ∃ n, run (step capacityLimit 1)
      ⟨service, calls ++ [.checking], lastVerdict⟩
      (List.replicate n (.resume calls.length env)) =
    some ⟨(exec (checkCapacity capacityLimit env) service).2, calls,
      (verdict capacityLimit env).toOption.or lastVerdict⟩ := by
  cases hverdict : verdict capacityLimit env with
  | error e =>
      refine ⟨1, ?_⟩
      rw [exec_checkCapacity_error hverdict, List.replicate_one,
        run_cons_of (step_resume_last ..)]
      simp [run_nil, resume, Running.verdict?, hverdict]
  | ok exhausted =>
      obtain ⟨n, hn⟩ := run_raised capacityLimit env exhausted service calls (some exhausted)
      refine ⟨n + 1, ?_⟩
      rw [exec_checkCapacity hverdict, List.replicate_succ, run_cons_of (step_resume_last ..)]
      simpa [resume, Running.verdict?, hverdict, Except.toOption] using hn

/-- What the `try` block of a job leaves behind after its `catch`. -/
def afterCatch (outcome : Except Thrown PublishResult × PublisherState) : PublisherState :=
  match outcome with
  | (.ok _, t) => t
  | (.error e, t) => (caught 1 e t).2

theorem exec_tryCatch_submit (job : IPublisherJob) (service : PublisherState) :
    (exec (tryCatch (submit env job) fun e => do
      if e.includes "Inability to pay some fees" then
        modify fun s => { s with emitted := s.emitted + 1 }
      throw e) service).2 = afterCatch (exec (submit env job) service) := by
  cases h : exec (submit env job) service with
  | mk r t =>
      cases r with
      | ok result => rw [exec_tryCatch _ h, afterCatch]
      | error e =>
          rw [exec_tryCatch_error _ h, afterCatch, caught]
          split <;> rfl

variable {capacityLimit env}

/-- The call of a job goes on to its check, with this outcome of the `try` block. Events
of a fee failure are left to be handled. -/
def ComesToCheck (capacityLimit : ICapacityLimit) (env : Env) (service : PublisherState)
    (call : Running) (outcome : Except Thrown PublishResult × PublisherState) : Prop :=
  ∀ (calls : List Running) (lastVerdict : Option Bool), ∃ n k,
    run (step capacityLimit 1) ⟨service, calls ++ [call], lastVerdict⟩
        (List.replicate n (.resume calls.length env)) =
      some ⟨afterCatch outcome, calls ++ List.replicate k (.raised true) ++ [.checking],
        lastVerdict⟩ ∧
    (afterCatch outcome).emitted = service.emitted + k

theorem ComesToCheck.ok (result : PublishResult) (service : PublisherState) :
    ComesToCheck capacityLimit env service .checking (.ok result, service) :=
  fun calls _ => ⟨0, 0, by simp [run_nil, afterCatch], rfl⟩

theorem ComesToCheck.error {service service' : PublisherState} {call : Running} {e : Thrown}
    (h : resume capacityLimit 1 env service call = caught 1 e service')
    (hnone : call.verdict? capacityLimit env = none) (hsame : service'.emitted = service.emitted) :
    ComesToCheck capacityLimit env service call (.error e, service') := by
  intro calls lastVerdict
  have hstep := step_resume_last capacityLimit 1 env service calls call lastVerdict
  rw [h, hnone] at hstep
  rw [afterCatch]
  unfold caught at hstep ⊢
  split at hstep
  · next hfees =>
      exact ⟨1, 1, by simpa [hfees, run_cons, run_nil] using hstep, by simp [hfees, hsame]⟩
  · next hfees =>
      exact ⟨1, 0, by simpa [hfees, run_cons, run_nil] using hstep, by simp [hfees, hsame]⟩

theorem ComesToCheck.step {service service' : PublisherState} {call next : Running}
    {outcome : Except Thrown PublishResult × PublisherState}
    (hnext : ComesToCheck capacityLimit env service' next outcome)
    (h : resume capacityLimit 1 env service call = ([next], service'))
    (hnone : call.verdict? capacityLimit env = none) (hsame : service'.emitted = service.emitted) :
    ComesToCheck capacityLimit env service call outcome := by
  intro calls lastVerdict
  obtain ⟨n, k, hrun, hemitted⟩ := hnext calls lastVerdict
  refine ⟨n + 1, k, ?_, hemitted.trans (congrArg (· + k) hsame)⟩
  rw [List.replicate_succ, run_cons_of (step_resume_last ..), h, hnone]
  exact hrun

theorem comesToCheck_submit (job : IPublisherJob) (service : PublisherState) :
    ComesToCheck capacityLimit env service (.publishing job) (exec (submit env job) service) := by
  unfold submit
  cases hhead : env.call .getLatestFinalizedBlockHash env.finalizedHead with
  | error e =>
      rw [exec_bind_error _ (exec_ask _ _)]
      exact .error (by rw [resume, hhead]) rfl rfl
  | ok head =>
      refine .step ?_ (resume_publishing _ _ hhead) rfl rfl
      rw [exec_bind _ (exec_ask _ _)]
      have hpublish : exec (publish env job) service = _ := exec_publish job service
      cases hsend : send env with
      | error e =>
          rw [hsend] at hpublish
          rw [exec_bind_error _ hpublish]
          exact .error (by rw [resume, hsend]) rfl rfl
      | ok txHash =>
          rw [hsend] at hpublish
          refine .step ?_ (resume_sending _ _ _ hsend) rfl rfl
          rw [exec_bind _ hpublish]
          have hkeeps : Keeps (fun t => t.emitted = service.emitted)
              (sendJobToTxReceiptQueue env job txHash head) :=
            keeps_bind (keeps_ask _) fun _ => keeps_modify fun _ h => h
          cases hadd : exec (sendJobToTxReceiptQueue env job txHash head) _ with
          | mk r t =>
              have hsame : t.emitted = service.emitted := by
                have ht := hkeeps { service with submissions :=
                  service.submissions ++ [.called job] ++ [.returned job txHash] } rfl
                rwa [hadd] at ht
              cases r with
              | error e =>
                  rw [exec_bind_error _ hadd]
                  exact .error (by rw [resume, hadd]) rfl hsame
              | ok _ =>
                  rw [exec_bind _ hadd]
                  exact .step (.ok _ t) (resume_recording hadd) rfl hsame

/-- A job of a single instance that is not interrupted does what `process` does. The event
of a fee failure is left to be handled. -/
theorem run_process (job : IPublisherJob) (s : State) : ∃ as k,
    run (step capacityLimit 1) s (.process job :: as) =
      some ⟨(exec (process capacityLimit env job) s.service).2,
        s.calls ++ List.replicate k (.raised true),
        (verdict capacityLimit env).toOption.or s.lastVerdict⟩ ∧
    (afterCatch (exec (submit env job) s.service)).emitted = s.service.emitted + k := by
  have hsubmit : ComesToCheck capacityLimit env s.service (.publishing job) _ :=
    comesToCheck_submit job s.service
  obtain ⟨n, k, hcheck, hemitted⟩ := hsubmit s.calls s.lastVerdict
  obtain ⟨m, hend⟩ := run_checking capacityLimit env
    (afterCatch (exec (submit env job) s.service)) (s.calls ++ List.replicate k (.raised true))
    s.lastVerdict
  refine ⟨List.replicate n (.resume s.calls.length env) ++ List.replicate m (.resume
    (s.calls ++ List.replicate k (Running.raised true)).length env), k, ?_, hemitted⟩
  have hbegin : step capacityLimit 1 s (.process job) =
      some ⟨s.service, s.calls ++ [.publishing job], s.lastVerdict⟩ := rfl
  rw [run_cons_of hbegin, run_append, hcheck, Option.bind_some, hend, process,
    exec_tryFinally_state, exec_tryCatch_submit]

end Steps

end ContentPublishing.Publisher.Service
