import ContentPublishing.Dependencies.Processing
import ContentPublishing.Lib.Entries
import ContentPublishing.Lib.Transition
import Mathlib.Data.Rat.Floor

/-!
# How often a job waits for its assets

A processing that finds an asset missing first moves the job to the delayed set and
then stores the counter. In between the job may come up again, and another worker
then reads the counter that is not yet stored. A worker that dies keeps its job until
the queue notices and returns it. Left out are the number of times that the queue returns
such a job, and the rounding of a delay to milliseconds.
-/
namespace ContentPublishing.Dependencies
open Transition Entries

/-- How far a processing has come, or how it ended. Between its two writes the job
is `moved`. -/
inductive Stage where
  | working
  | moved
  | delayed
  | failed (reason : Thrown)
  | lockLost
  | died
  deriving DecidableEq

/-- What a worker read when it picked the job, and how often the job had been moved
to delayed by then. -/
structure Processing where
  dependencyAttempt : ℕ
  moves : ℕ
  stage : Stage
  deriving DecidableEq

/-- An active job is held by one processing. -/
inductive JobStatus where
  | waiting
  | active (token : ℕ)
  | delayed (due : ℚ)
  | failed (reason : Thrown)
  deriving DecidableEq

/-- The job as the queue keeps it, and all its processings. `moves` counts how often
it was moved to delayed. -/
structure State where
  dependencyAttempt : ℕ
  status : JobStatus
  processings : List Processing
  moves : ℕ
  clock : ℕ

def start : State := ⟨0, .waiting, [], 0, 0⟩

inductive Action where
  | tick (ms : ℕ)
  | promote
  | pick
  | delayJob (token : ℕ)
  | updateData (token : ℕ)
  | die (token : ℕ)
  | stalled
  deriving DecidableEq, Repr

def State.become (s : State) (token : ℕ) (p : Processing) (stage : Stage) : State :=
  { s with processings := s.processings.set token { p with stage := stage } }

/-- One step of a job whose assets are missing at every processing. Only the
processing that holds the job can move or fail it. -/
def step (assetUploadVerificationDelaySeconds : ℚ) (s : State) : Action → Option State
  | .tick ms => some { s with clock := s.clock + ms }
  | .promote =>
      match s.status with
      | .delayed due => if due ≤ s.clock then some { s with status := .waiting } else none
      | _ => none
  | .pick =>
      if s.status = .waiting then some { s with
        status := .active s.processings.length
        processings := s.processings ++ [⟨s.dependencyAttempt, s.moves, .working⟩] }
      else none
  | .delayJob token =>
      match s.processings[token]? with
      | some p =>
          if p.stage = .working then
            match delayJobAndIncrementAttempts assetUploadVerificationDelaySeconds
                p.dependencyAttempt with
            | .ok delayedTime =>
                if s.status = .active token then some { s.become token p .moved with
                  status := .delayed (s.clock + delayedTime)
                  moves := s.moves + 1 }
                else some (s.become token p .lockLost)
            | .error reason => some { s.become token p (.failed reason) with
                status := if s.status = .active token then .failed reason else s.status }
          else none
      | none => none
  | .updateData token =>
      match s.processings[token]? with
      | some p =>
          if p.stage = .moved then some { s.become token p .delayed with
            dependencyAttempt := p.dependencyAttempt + 1 }
          else none
      | none => none
  | .die token =>
      match s.processings[token]? with
      | some p =>
          if p.stage = .working ∨ p.stage = .moved then some (s.become token p .died) else none
      | none => none
  | .stalled =>
      match s.status with
      | .active _ => some { s with status := .waiting }
      | _ => none

def dependencyFailed : Thrown := .error "Dependency failed!"

/-- Every processing reads how often the job was delayed before. It is delayed three
times at most, and the processing after that fails it unless its worker dies. -/
structure State.Bounded (s : State) : Prop where
  read : ∀ p ∈ s.processings, p.dependencyAttempt = p.moves
  moves : s.moves ≤ 3
  failed : ∀ p ∈ s.processings, ∀ reason, p.stage = .failed reason →
    reason = dependencyFailed ∧ p.moves = 3
  fourth : ∀ p ∈ s.processings, p.moves = 3 →
    p.stage = .working ∨ p.stage = .failed dependencyFailed ∨ p.stage = .died
  status : ∀ reason, s.status = .failed reason → reason = dependencyFailed ∧ s.moves = 3

/-- No processing is between its two writes. -/
def State.Quiet (s : State) : Prop := ∀ p ∈ s.processings, p.stage ≠ .moved

/-- No job is picked, and no worker dies, between the two writes of a processing. -/
def Settled (s : State) : Action → Prop
  | .pick => s.Quiet
  | .die token => (s.processings[token]?.map Processing.stage) ≠ some .moved
  | _ => True

instance (s : State) : Decidable s.Quiet := inferInstanceAs (Decidable (∀ _ ∈ _, _))

instance (s : State) : ∀ a, Decidable (Settled s a)
  | .pick => inferInstanceAs (Decidable s.Quiet)
  | .die _ => inferInstanceAs (Decidable (_ ≠ _))
  | .tick _ | .promote | .delayJob _ | .updateData _ | .stalled => isTrue trivial

/-! ## The invariant -/

theorem delayJob_eq (seconds : ℚ) (n : ℕ) :
    delayJobAndIncrementAttempts seconds n =
      if n < 3 then .ok (2 ^ (n + 1) * seconds * millisecondsPerSecond)
      else .error dependencyFailed := rfl

/-- What is known of a processing by itself. -/
def Processing.Sound (p : Processing) : Prop :=
  p.dependencyAttempt = p.moves ∧
    match p.stage with
    | .working | .died => True
    | .moved | .delayed | .lockLost => p.moves < 3
    | .failed reason => reason = dependencyFailed ∧ 3 ≤ p.moves

/-- The stored counter lags behind while a processing is between its two writes; the
job is not active then. The processing that holds the job read the last count. -/
structure Counted (s : State) : Prop where
  sound : ∀ p ∈ s.processings, p.Sound
  le : ∀ p ∈ s.processings, p.moves ≤ s.moves
  bound : s.moves ≤ 3
  stored : s.Quiet → s.dependencyAttempt = s.moves
  moved : ∀ (i : ℕ) (p : Processing), s.processings[i]? = some p → p.stage = .moved →
    p.moves + 1 = s.moves ∧
      ∀ (j : ℕ) (q : Processing), s.processings[j]? = some q → q.stage = .moved → j = i
  held : ∀ i, s.status = .active i → s.Quiet ∧ ∃ p, s.processings[i]? = some p ∧ p.moves = s.moves
  status : ∀ reason, s.status = .failed reason → reason = dependencyFailed ∧ s.moves = 3

section Invariant
variable {seconds : ℚ} {s t : State} {token : ℕ} {p : Processing}

theorem counted_start : Counted start where
  sound := by simp [start]
  le := by simp [start]
  bound := by simp [start]
  stored _ := rfl
  moved i p hp := by simp [start] at hp
  held i hi := by simp [start] at hi
  status reason hr := by simp [start] at hr

/-- The job is no longer held. -/
theorem Counted.setStatus (h : Counted s) {status : JobStatus}
    (hheld : ∀ i, status ≠ .active i)
    (hfailed : ∀ reason, status = .failed reason → reason = dependencyFailed ∧ s.moves = 3) :
    Counted { s with status := status } :=
  { h with
    held := fun i hi => absurd hi (hheld i)
    status := hfailed }

theorem getElem?_become {stage : Stage} (hp : s.processings[token]? = some p) (j : ℕ) :
    (s.become token p stage).processings[j]? =
      if token = j then some { p with stage := stage } else s.processings[j]? :=
  getElem?_set_of_some hp _ j

theorem quiet_become {stage : Stage} (hp : s.processings[token]? = some p) (hne : p.stage ≠ .moved)
    (h : (s.become token p stage).Quiet) : s.Quiet := by
  intro q hq hmoved
  obtain ⟨r, hr, hrmoved⟩ : ∃ r ∈ (s.become token p stage).processings, r.stage = .moved :=
    exists_mem_set hp (fun hstage => absurd hstage hne) ⟨q, hq, hmoved⟩
  exact h r hr hrmoved

theorem State.Quiet.become {stage : Stage} (h : s.Quiet) (hstage : stage ≠ .moved) :
    (s.become token p stage).Quiet := forall_mem_set h hstage

/-- A processing changes its stage, and was not and is not between its writes. -/
theorem Counted.become (h : Counted s) {stage : Stage} (hp : s.processings[token]? = some p)
    (hne : p.stage ≠ .moved) (hstage : stage ≠ .moved)
    (hsound : ({ p with stage := stage } : Processing).Sound) :
    Counted (s.become token p stage) where
  sound := forall_mem_set h.sound hsound
  le := forall_mem_set h.le (h.le p (List.mem_of_getElem? hp))
  bound := h.bound
  stored hq := h.stored (quiet_become hp hne hq)
  moved i q hq hmoved := by
    have hold : ∀ (j : ℕ) (r : Processing), (s.become token p stage).processings[j]? = some r →
        r.stage = .moved → s.processings[j]? = some r := by
      intro j r hr hrmoved
      rw [getElem?_become hp] at hr
      split_ifs at hr with hj
      · obtain rfl := Option.some.inj hr
        exact absurd hrmoved hstage
      · exact hr
    have hi := h.moved i q (hold i q hq hmoved) hmoved
    exact ⟨hi.1, fun j r hr hrmoved => hi.2 j r (hold j r hr hrmoved) hrmoved⟩
  held i hi := by
    obtain ⟨hquiet, q, hq, hmoves⟩ := h.held i hi
    refine ⟨hquiet.become hstage, ?_⟩
    rw [getElem?_become hp]
    split_ifs with hj
    · subst i
      obtain rfl := Option.some.inj (hp.symm.trans hq)
      exact ⟨_, rfl, hmoves⟩
    · exact ⟨q, hq, hmoves⟩
  status := h.status

theorem Counted.pick (h : Counted s) (hquiet : s.Quiet) : Counted { s with
    status := .active s.processings.length
    processings := s.processings ++ [⟨s.dependencyAttempt, s.moves, .working⟩] } where
  sound := by
    refine List.forall_mem_append.mpr ⟨h.sound, List.forall_mem_singleton.mpr ⟨?_, trivial⟩⟩
    exact h.stored hquiet
  le := List.forall_mem_append.mpr ⟨h.le, List.forall_mem_singleton.mpr (Nat.le_refl _)⟩
  bound := h.bound
  stored _ := h.stored hquiet
  moved i p hp hmoved := by
    rcases List.mem_append.mp (List.mem_of_getElem? hp) with hmem | hmem
    · exact absurd hmoved (hquiet p hmem)
    · rw [List.mem_singleton.mp hmem] at hmoved
      cases hmoved
  held i hi := by
    obtain rfl : s.processings.length = i := JobStatus.active.inj hi
    refine ⟨?_, ⟨s.dependencyAttempt, s.moves, .working⟩, ?_, rfl⟩
    · refine List.forall_mem_append.mpr ⟨hquiet, List.forall_mem_singleton.mpr ?_⟩
      intro hmoved
      cases hmoved
    · exact List.getElem?_concat_length
  status reason hr := by cases hr

/-- The first write. -/
theorem Counted.move (h : Counted s) (hp : s.processings[token]? = some p)
    (hheld : s.status = .active token) (hlt : p.dependencyAttempt < 3) (due : ℚ) :
    Counted { s.become token p .moved with status := .delayed due, moves := s.moves + 1 } := by
  obtain ⟨hquiet, q, hq, hmoves⟩ := h.held token hheld
  obtain rfl := Option.some.inj (hp.symm.trans hq)
  have hmem := List.mem_of_getElem? hp
  have hread := (h.sound p hmem).1
  have honly : ∀ (j : ℕ) (r : Processing), (s.become token p .moved).processings[j]? = some r →
      r.stage = .moved → token = j ∧ r = { p with stage := .moved } := by
    intro j r hr hmoved
    rw [getElem?_become hp] at hr
    split_ifs at hr with hj
    · exact ⟨hj, (Option.some.inj hr).symm⟩
    · exact absurd hmoved (hquiet r (List.mem_of_getElem? hr))
  refine ⟨?_, ?_, ?_, ?_, ?_, ?_, ?_⟩
  · exact forall_mem_set h.sound ⟨hread, show p.moves < 3 by omega⟩
  · have hle := h.le p hmem
    exact forall_mem_set (fun r hr => (h.le r hr).trans (Nat.le_succ _)) (hle.trans (Nat.le_succ _))
  · show s.moves + 1 ≤ 3
    omega
  · intro hall
    refine absurd rfl (hall { p with stage := .moved } ?_)
    exact List.mem_set (List.getElem?_eq_some_iff.mp hp).1 _
  · intro i r hr hmoved
    obtain ⟨rfl, rfl⟩ := honly i r hr hmoved
    refine ⟨congrArg (· + 1) hmoves, fun j q hq hqmoved => ?_⟩
    exact (honly j q hq hqmoved).1.symm
  · intro i hi
    cases hi
  · intro reason hr
    cases hr

/-- The second write. -/
theorem Counted.updateData (h : Counted s) (hp : s.processings[token]? = some p)
    (hmoved : p.stage = .moved) : Counted { s.become token p .delayed with
      dependencyAttempt := p.dependencyAttempt + 1 } := by
  have hmem := List.mem_of_getElem? hp
  obtain ⟨hread, hlt⟩ := h.sound p hmem
  rw [hmoved] at hlt
  obtain ⟨hmoves, honly⟩ := h.moved token p hp hmoved
  have hquiet : (s.become token p .delayed).Quiet := by
    intro r hr hrmoved
    obtain ⟨j, hj⟩ := List.getElem?_of_mem hr
    rw [getElem?_become hp] at hj
    split_ifs at hj with htoken
    · rw [← Option.some.inj hj] at hrmoved
      cases hrmoved
    · exact htoken (honly j r hj hrmoved).symm
  refine ⟨?_, ?_, h.bound, ?_, ?_, ?_, h.status⟩
  · exact forall_mem_set h.sound ⟨hread, hlt⟩
  · exact forall_mem_set h.le (h.le p hmem)
  · intro _
    exact (congrArg (· + 1) hread).trans hmoves
  · intro i r hr hrmoved
    exact absurd hrmoved (hquiet r (List.mem_of_getElem? hr))
  · intro i hi
    exact absurd hmoved ((h.held i hi).1 p hmem)

/-- The end of a processing that found the job delayed three times. -/
theorem Counted.fail (h : Counted s) (hp : s.processings[token]? = some p)
    (hne : p.stage ≠ .moved) (hle : 3 ≤ p.dependencyAttempt) :
    Counted { s.become token p (.failed dependencyFailed) with
      status := if s.status = .active token then .failed dependencyFailed else s.status } := by
  have hread := (h.sound p (List.mem_of_getElem? hp)).1
  have hbecome : Counted (s.become token p (.failed dependencyFailed)) :=
    h.become hp hne (fun hd => by cases hd) ⟨hread, rfl, hread ▸ hle⟩
  split_ifs with hheld
  · apply hbecome.setStatus (fun i hi => by cases hi)
    intro reason hr
    obtain ⟨-, q, hq, hmoves⟩ := h.held token hheld
    obtain rfl := Option.some.inj (hp.symm.trans hq)
    have hthree : s.moves = 3 := by
      have hbound := h.bound
      omega
    exact ⟨(JobStatus.failed.inj hr).symm, hthree⟩
  · exact hbecome

theorem counted_step {a : Action} (h : Counted s) (hsettled : Settled s a)
    (hstep : step seconds s a = some t) : Counted t := by
  cases a with
  | tick ms =>
      cases hstep
      exact ⟨h.sound, h.le, h.bound, h.stored, h.moved, h.held, h.status⟩
  | promote =>
      simp only [step] at hstep
      split at hstep
      · split at hstep
        · cases hstep
          exact h.setStatus (fun i hi => by cases hi) (fun reason hr => by cases hr)
        · cases hstep
      · cases hstep
  | pick =>
      simp only [step] at hstep
      split at hstep
      · cases hstep
        exact h.pick hsettled
      · cases hstep
  | delayJob token =>
      simp only [step] at hstep
      split at hstep
      · next p hp =>
          split at hstep
          · next hworking =>
              have hne : p.stage ≠ .moved := by simp [hworking]
              have hread := (h.sound p (List.mem_of_getElem? hp)).1
              rw [delayJob_eq] at hstep
              by_cases hlt : p.dependencyAttempt < 3
              · rw [if_pos hlt] at hstep
                dsimp only at hstep
                split at hstep
                · next hheld =>
                    cases hstep
                    exact h.move hp hheld hlt _
                · cases hstep
                  exact h.become hp hne (fun hd => by cases hd) ⟨hread, hread ▸ hlt⟩
              · rw [if_neg hlt] at hstep
                cases hstep
                exact h.fail hp hne (Nat.le_of_not_lt hlt)
          · cases hstep
      · cases hstep
  | updateData token =>
      simp only [step] at hstep
      split at hstep
      · next p hp =>
          split at hstep
          · next hmoved =>
              cases hstep
              exact h.updateData hp hmoved
          · cases hstep
      · cases hstep
  | die token =>
      simp only [step] at hstep
      split at hstep
      · next p hp =>
          split at hstep
          · cases hstep
            have hne : p.stage ≠ .moved := by
              intro hmoved
              simp [Settled, hp, hmoved] at hsettled
            refine h.become hp hne (fun hd => by cases hd) ⟨?_, trivial⟩
            exact (h.sound p (List.mem_of_getElem? hp)).1
          · cases hstep
      · cases hstep
  | stalled =>
      simp only [step] at hstep
      split at hstep
      · cases hstep
        exact h.setStatus (fun i hi => by cases hi) (fun reason hr => by cases hr)
      · cases hstep

theorem Counted.bounded (h : Counted s) : s.Bounded where
  read p hp := (h.sound p hp).1
  moves := h.bound
  failed p hp reason hreason := by
    obtain ⟨-, hsound⟩ := h.sound p hp
    rw [hreason] at hsound
    have hle := (h.le p hp).trans h.bound
    exact ⟨hsound.1, Nat.le_antisymm hle hsound.2⟩
  fourth p hp hthree := by
    obtain ⟨-, hsound⟩ := h.sound p hp
    cases hstage : p.stage with
    | working => exact .inl rfl
    | died => exact .inr (.inr rfl)
    | failed reason =>
        rw [hstage] at hsound
        exact .inr (.inl (congrArg _ hsound.1))
    | moved | delayed | lockLost =>
        rw [hstage] at hsound
        have hlt : p.moves < 3 := hsound
        omega
  status := h.status

end Invariant

/-- In every settled run the job is delayed three times at most, and given up by the
processing after that. -/
theorem bounded_of_settled (seconds : ℚ) (as : List Action) (s : State)
    (hrun : run (step seconds) start as = some s)
    (hsettled : EachStep (step seconds) Settled start as) : s.Bounded :=
  (invariant counted_start (fun _ _ _ => counted_step) hsettled hrun).bounded

/-! ## Workers that finish, and workers that do not -/

/-- One processing that delays the job, and the time until it is due again. -/
def delayedOnce (token ms : ℕ) : List Action :=
  [.pick, .delayJob token, .updateData token, .tick ms, .promote]

/-- Three delays of a job, twice as long each time, and the processing after them. -/
def delayedThrice : List Action :=
  delayedOnce 0 10000 ++ delayedOnce 1 20000 ++ delayedOnce 2 40000 ++ [.pick, .delayJob 3]

theorem bounded_delayedThrice :
    ∃ s, run (step 5) start delayedThrice = some s ∧ s.status = .failed dependencyFailed ∧
      s.Bounded := by
  obtain ⟨s, hs, hfailed⟩ : ∃ s, run (step 5) start delayedThrice = some s ∧
      s.status = .failed dependencyFailed := exists_of_run_any (by decide +kernel)
  exact ⟨s, hs, hfailed, bounded_of_settled 5 delayedThrice s hs (by decide +kernel)⟩

/-- The worker dies between its two writes. -/
def delayedAndDied (token ms : ℕ) : List Action :=
  [.pick, .delayJob token, .die token, .tick ms, .promote]

theorem run_delayedAndDied {seconds : ℚ} {ms : ℕ} (processings : List Processing)
    (moves clock : ℕ) (hms : 2 * seconds * millisecondsPerSecond ≤ ms) :
    run (step seconds) ⟨0, .waiting, processings, moves, clock⟩
        (delayedAndDied processings.length ms) =
      some ⟨0, .waiting, processings ++ [⟨0, moves, .died⟩], moves + 1, clock + ms⟩ := by
  simpa [delayedAndDied, run_cons, step, State.become, delayJob_eq] using hms

/-- A job may be delayed any number of times if every worker dies so. -/
theorem exists_run_moves (seconds : ℚ) (n : ℕ) :
    ∃ as s, run (step seconds) start as = some s ∧ s.moves = n := by
  have hrun : ∃ as processings clock,
      run (step seconds) start as = some ⟨0, .waiting, processings, n, clock⟩ := by
    induction n with
    | zero => exact ⟨[], [], 0, rfl⟩
    | succ n ih =>
        obtain ⟨as, processings, clock, hs⟩ := ih
        let ms := ⌈2 * seconds * millisecondsPerSecond⌉₊
        refine ⟨as ++ delayedAndDied processings.length ms, processings ++ [⟨0, n, .died⟩],
          clock + ms, ?_⟩
        rw [run_append, hs, Option.bind_some, run_delayedAndDied _ _ _ (Nat.le_ceil _)]
  obtain ⟨as, processings, clock, hs⟩ := hrun
  exact ⟨as, _, hs, rfl⟩

/-- Without a delay the job comes up again before the counter is stored. -/
def pickedTwice : List Action := [.pick, .delayJob 0, .promote, .pick]

/-- The second processing reads no delay; with four workers that die, the job is
delayed four times. -/
theorem not_bounded :
    (∃ s, run (step 0) start pickedTwice = some s ∧ ¬ s.Bounded) ∧
      ∃ s, run (step 5) start (delayedAndDied 0 10000 ++ delayedAndDied 1 10000 ++
        delayedAndDied 2 10000 ++ delayedAndDied 3 10000) = some s ∧ ¬ s.Bounded := by
  constructor
  · obtain ⟨s, hs, p, hp, hread⟩ : ∃ s, run (step 0) start pickedTwice = some s ∧
        ∃ p ∈ s.processings, p.dependencyAttempt ≠ p.moves :=
      exists_of_run_any (by decide +kernel)
    exact ⟨s, hs, fun h => hread (h.read p hp)⟩
  · obtain ⟨s, hs, hmoves⟩ : ∃ s, run (step 5) start (delayedAndDied 0 10000 ++
        delayedAndDied 1 10000 ++ delayedAndDied 2 10000 ++ delayedAndDied 3 10000) = some s ∧
        s.moves = 4 := exists_of_run_any (by decide +kernel)
    refine ⟨s, hs, fun h => ?_⟩
    have hle := h.moves
    omega

end ContentPublishing.Dependencies
