import ContentPublishing.Publisher.Service

/-!
# Checks, fee failures and timers in any order

The handler of an exhaustion awaits the queue and the chain before it creates a timer, so
handlers of several events, and of one event in several instances, may be under way at
once. A timer that fires starts a check and stays registered.
-/
namespace ContentPublishing.Publisher.Service
open Effects Entries Transition

/-- No check and no handler is running. -/
def State.Idle (s : State) : Prop := s.calls = []

instance (s : State) : Decidable s.Idle := inferInstanceAs (Decidable (_ = _))

/-- After an exhaustion the one pending timer is the registered one; after a refill
there is none. -/
def State.OneTimer (s : State) : Prop :=
  (s.lastVerdict = some true →
    ∃ timer, s.service.pending = [timer] ∧ s.registered = some timer.id) ∧
  (s.lastVerdict = some false → s.service.pending = [])

/-- The verdict that the call will act on, if it is known. A job leads to a check. -/
def Running.event : Running → Option Bool
  | .publishing _ | .sending .. | .recording .. | .checking => none
  | .raised exhausted => some exhausted
  | .pausing | .reading => some true

/-- The call leads to a check, or acts on this verdict. -/
def Running.Leads (exhausted : Bool) (call : Running) : Prop :=
  call.event = none ∨ call.event = some exhausted

instance (exhausted : Bool) (call : Running) : Decidable (call.Leads exhausted) :=
  inferInstanceAs (Decidable (_ ∨ _))

/-- The event of a handler that ends is that of the last verdict, or another call
that leads to it, or to a check, is still running. -/
def State.InTurn (s : State) (i : ℕ) (exhausted : Bool) : Prop :=
  ∀ last, s.lastVerdict = some last →
    last = exhausted ∨ ∃ call ∈ s.calls.eraseIdx i, call.Leads last

instance (s : State) (i : ℕ) (exhausted : Bool) : Decidable (s.InTurn i exhausted) :=
  inferInstanceAs (Decidable (∀ _, _))

/-- No handler creates a timer while one is registered, and none ends out of turn. -/
def Orderly (s : State) : Action → Prop
  | .resume i _ =>
      (s.calls[i]? = some .reading → s.registered = none ∧ s.InTurn i true) ∧
      (s.calls[i]? = some (.raised false) → s.InTurn i false)
  | _ => True

instance (s : State) : ∀ a, Decidable (Orderly s a)
  | .resume _ _ => inferInstanceAs (Decidable ((_ → _) ∧ (_ → _)))
  | .check | .process _ | .fire _ => isTrue trivial

/-- No check and no handler throws. A job may fail. -/
def Unfailing (capacityLimit : ICapacityLimit) (s : State) : Action → Prop
  | .resume i env =>
      (s.calls[i]? = some .checking → ¬ Failed (verdict capacityLimit env)) ∧
      (s.calls[i]? = some .pausing → ¬ Failed (env.call .pause ())) ∧
      (s.calls[i]? = some .reading → ¬ Failed (capacityInfo env .handleCapacityExhausted))
  | _ => True

instance (capacityLimit : ICapacityLimit) (s : State) :
    ∀ a, Decidable (Unfailing capacityLimit s a)
  | .resume _ _ => inferInstanceAs (Decidable ((_ → _) ∧ (_ → _) ∧ (_ → _)))
  | .check | .process _ | .fire _ => isTrue trivial

/-! ## What the handlers do to the timers -/

section Handlers
variable {env : Env}

theorem pending_handleCapacityRefilled (s : PublisherState) :
    (exec handleCapacityRefilled s).2.pending =
        match s.timeouts capacityEpochTimeoutName with
        | none => s.pending
        | some timer => s.pending.filter (·.id ≠ timer) := by
  unfold handleCapacityRefilled deleteTimeout
  rw [exec_bind _ (exec_modify _ _), exec_tryCatch_pure, exec_bind _ (exec_get _)]
  dsimp only
  cases s.timeouts capacityEpochTimeoutName <;> rfl

theorem exec_addTimeout (name : String) (timer : ℕ) (s : PublisherState) :
    exec (addTimeout name timer) s =
      if (s.timeouts name).isSome then (.error .duplicateTimeout, s)
      else (.ok (), { s with timeouts := Function.update s.timeouts name (some timer) }) := by
  unfold addTimeout
  rw [exec_bind _ (exec_get _)]
  split <;> rfl

/-- What scheduling leaves: a timer is created in any case, and registered if none is. -/
def scheduled (s : PublisherState) (delay : ℕ) : PublisherState := { s with
  pending := s.pending ++ [⟨s.created, delay⟩]
  created := s.created + 1
  timeouts := if (s.timeouts capacityEpochTimeoutName).isSome then s.timeouts
    else Function.update s.timeouts capacityEpochTimeoutName (some s.created) }

theorem exec_scheduleCheck {capacity : CapacityInfo} (s : PublisherState)
    (h : capacityInfo env .handleCapacityExhausted = .ok capacity) :
    ∃ delay, exec (scheduleCheck env) s = (.ok (), scheduled s delay) := by
  let ms : ℤ := (capacity.nextEpochStart - capacity.currentBlockNumber : ℤ) * secondsPerBlock *
    millisecondsPerSecond
  refine ⟨setTimeoutDelay ms, ?_⟩
  have hset : exec (setTimeout ms) s = (.ok s.created, { s with
      pending := s.pending ++ [⟨s.created, setTimeoutDelay ms⟩]
      created := s.created + 1 }) := rfl
  unfold scheduleCheck scheduled
  rw [exec_bind _ ((exec_ask _ s).trans (congrArg (·, s) h)), exec_tryCatch_pure,
    exec_bind _ hset, exec_addTimeout]
  split <;> rfl

end Handlers

/-! ## The invariant -/

/-- A pending timer is the registered one. Either the timers are those of the last
verdict, or a running call will see to it. -/
structure Tidy (s : State) : Prop where
  known : s.service.pending = [] ∨
    ∃ timer, s.service.pending = [timer] ∧ s.registered = some timer.id
  led : ∀ last, s.lastVerdict = some last →
    (s.service.pending ≠ [] ↔ last = true) ∨ ∃ call ∈ s.calls, call.Leads last

section Invariant
variable {capacityLimit : ICapacityLimit} {instances : ℕ} {env : Env} {s t : State} {i : ℕ}
  {call : Running}

/-- Calls may be added, and go on acting on the verdict they had. -/
theorem Tidy.of_calls (h : Tidy s) (hpending : t.service.pending = s.service.pending)
    (htimeouts : t.service.timeouts = s.service.timeouts) (hlast : t.lastVerdict = s.lastVerdict)
    (hcalls : ∀ last, (∃ call ∈ s.calls, call.Leads last) → ∃ call ∈ t.calls, call.Leads last) :
    Tidy t where
  known := by
    rw [State.registered, hpending, htimeouts]
    exact h.known
  led := by
    intro last hl
    rw [hpending]
    exact (h.led last (hlast ▸ hl)).imp_right (hcalls last)

/-- A handler ends in its turn and leaves the timers of its event. -/
theorem tidy_finish {service : PublisherState} {exhausted : Bool}
    (known : service.pending = [] ∨ ∃ timer, service.pending = [timer] ∧
      service.timeouts capacityEpochTimeoutName = some timer.id)
    (hpending : service.pending ≠ [] ↔ exhausted = true) (hturn : s.InTurn i exhausted) :
    Tidy ⟨service, s.calls.eraseIdx i ++ [], s.lastVerdict⟩ where
  known := known
  led := by
    intro last hlast
    rw [List.append_nil]
    rcases hturn last hlast with rfl | hcall
    · exact .inl hpending
    · exact .inr hcall

/-- The timer that fires was the only one. -/
theorem Tidy.fire (h : Tidy s) {timer : ℕ} (hmem : timer ∈ s.service.pending.map (·.id)) :
    Tidy { s with
      service := { s.service with pending := s.service.pending.filter (·.id ≠ timer) }
      calls := s.calls ++ [.checking] } where
  known := by
    left
    rcases h.known with hnone | ⟨known, hone, -⟩
    · rw [hnone] at hmem
      cases hmem
    · rw [hone, List.map_singleton, List.mem_singleton] at hmem
      simp [hone, hmem]
  led last _ := .inr ⟨.checking, List.mem_append_right _ (List.mem_singleton_self _), .inl rfl⟩

/-- A refill clears the timer that is registered, and there is no other. -/
theorem Tidy.refill (h : Tidy s) (hturn : s.InTurn i false) :
    Tidy ⟨(exec handleCapacityRefilled s.service).2, s.calls.eraseIdx i ++ [], s.lastVerdict⟩ := by
  have hpending : (exec handleCapacityRefilled s.service).2.pending = [] := by
    rw [pending_handleCapacityRefilled]
    rcases h.known with hnone | ⟨timer, hone, hregistered⟩
    · rw [hnone]
      cases s.service.timeouts capacityEpochTimeoutName <;> rfl
    · rw [State.registered] at hregistered
      simp [hone, hregistered]
  exact tidy_finish (.inl hpending) (by simp [hpending]) hturn

/-- Where none is registered, the timer that is created is the only one. -/
theorem Tidy.schedule (h : Tidy s) (hregistered : s.registered = none) (hturn : s.InTurn i true)
    (delay : ℕ) : Tidy ⟨scheduled s.service delay, s.calls.eraseIdx i ++ [], s.lastVerdict⟩ := by
  have hnone : s.service.pending = [] := by
    rcases h.known with hnone | ⟨timer, -, hsome⟩
    · exact hnone
    · cases hregistered.symm.trans hsome
  rw [State.registered] at hregistered
  have hpending : (scheduled s.service delay).pending = [⟨s.service.created, delay⟩] := by
    simp [scheduled, hnone]
  have hname : (scheduled s.service delay).timeouts capacityEpochTimeoutName =
      some s.service.created := by
    simp [scheduled, hregistered]
  exact tidy_finish (.inr ⟨_, hpending, hname⟩) (by simp [hpending]) hturn

theorem tidy_start : Tidy start where
  known := .inl rfl
  led _ h := by cases h

theorem tidy_resume (hinstances : 0 < instances) (h : Tidy s) (hi : s.calls[i]? = some call)
    (horderly : Orderly s (.resume i env))
    (hunfailing : Unfailing capacityLimit s (.resume i env)) :
    Tidy (s.resume capacityLimit instances env i call) := by
  obtain ⟨hscheduling, hrefilling⟩ := horderly
  obtain ⟨hanswered, hpaused, hread⟩ := hunfailing
  have hresumed : Resumed capacityLimit instances env s.service call _ := resumed s.service call
  unfold State.resume
  generalize resume capacityLimit instances env s.service call = next at hresumed ⊢
  cases hresumed with
  | called job head | returned job head txHash | recorded job head txHash =>
      exact h.of_calls rfl rfl rfl fun last =>
        exists_mem_replace hi fun hleads => ⟨_, List.mem_singleton_self _, hleads⟩
  | failed call calls emitted hjob hchecking =>
      have hverdict : call.verdict? capacityLimit env = none := by
        cases call <;> first | rfl | cases hjob
      refine h.of_calls rfl rfl ?_ fun last =>
        exists_mem_replace hi fun _ => ⟨.checking, hchecking, .inl rfl⟩
      rw [hverdict, Option.none_or]
  | answered exhausted hverdict =>
      have hlast : (Running.checking.verdict? capacityLimit env).or s.lastVerdict =
          some exhausted := by
        simp [Running.verdict?, hverdict, Except.toOption]
      rw [hlast]
      refine ⟨h.known, fun last hlast => .inr ⟨.raised exhausted, ?_, .inr hlast⟩⟩
      exact List.mem_append_right _ (List.mem_replicate.mpr ⟨hinstances.ne', rfl⟩)
  | unanswered hverdict => exact absurd hverdict (hanswered hi)
  | exhausted | paused =>
      exact h.of_calls rfl rfl rfl fun last =>
        exists_mem_replace hi fun hleads => ⟨_, List.mem_singleton_self _, hleads⟩
  | refilled => exact h.refill (hrefilling hi)
  | unpaused hpause => exact absurd hpause (hpaused hi)
  | scheduled =>
      obtain ⟨capacity, hcapacity⟩ := exists_of_not_failed (hread hi)
      obtain ⟨delay, hschedule⟩ := exec_scheduleCheck s.service hcapacity
      obtain ⟨hnone, hturn⟩ := hscheduling hi
      rw [hschedule]
      exact h.schedule hnone hturn delay

theorem tidy_step {a : Action} (hinstances : 0 < instances) (h : Tidy s)
    (hallowed : Orderly s a ∧ Unfailing capacityLimit s a)
    (hstep : step capacityLimit instances s a = some t) : Tidy t := by
  cases a with
  | check | process =>
      cases hstep
      refine h.of_calls rfl rfl rfl ?_
      intro last ⟨call, hcall, hleads⟩
      exact ⟨call, List.mem_append_left _ hcall, hleads⟩
  | fire timer =>
      obtain ⟨hmem, rfl⟩ := step_fire hstep
      exact h.fire hmem
  | resume i env =>
      obtain ⟨call, hi, rfl⟩ := step_resume hstep
      exact tidy_resume hinstances h hi hallowed.1 hallowed.2

end Invariant

/-! ## Checks one after another -/

/-- A check of `n` instances that nothing interrupts, and that finds capacity or not. -/
def checkAlone (n : ℕ) (env : Env) : Bool → List Action
  | true => .check :: List.replicate (1 + 3 * n) (.resume 0 env)
  | false => .check :: List.replicate (1 + n) (.resume 0 env)

/-- An exhaustion, the timer of which fires when there is capacity again. -/
def exhaustedThenRefilled : List Action :=
  checkAlone 1 (.sample 0) true ++ [.fire 0] ++ List.replicate 2 (.resume 0 (.sample 500))

/-- The second of two checks finds no capacity either. -/
def exhaustedTwice : List Action :=
  checkAlone 1 (.sample 0) true ++ checkAlone 1 (.sample 0) true

/-- There is no capacity when the timer fires. -/
def exhaustedStill : List Action :=
  checkAlone 1 (.sample 0) true ++ [.fire 0] ++ List.replicate 4 (.resume 0 (.sample 0))

end ContentPublishing.Publisher.Service
