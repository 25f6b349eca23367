import ContentPublishing.Lib.Entries
import ContentPublishing.Lib.Transition
import ContentPublishing.Monitor.Outcome

/-!
# Overlapping updates of the used capacity

`setEpochCapacity` reads the stored value, asks the chain for the length of an
epoch, and writes the sum back. The receipt jobs of all workers do so at the same
time. What was written between the `GET` and the `SETEX` of a call is overwritten
by it, so the stored value is the sum of all amounts only if each call writes over
the value that it read.
-/
namespace ContentPublishing.Monitor.Concurrency
open Blockchain Transition Effects Entries

structure Request where
  epoch : ℕ
  capacityWithdrawn : ℕ
  deriving DecidableEq, Repr

/-- The await a call is suspended at, with the value it read. -/
inductive Stage where
  | get
  | query (epochCapacity : ℕ)
  | setex (epochCapacity : ℕ)
  | done
  deriving DecidableEq, Repr

structure Call extends Request where
  stage : Stage
  deriving DecidableEq, Repr

structure State where
  stored : ℕ → Option ℕ
  calls : List Call

/-- `BigInt(savedCapacity ?? 0)`. -/
def State.epochCapacity (s : State) (epoch : ℕ) : ℕ := (s.stored epoch).getD 0

/-- All calls are about to read. -/
def start (stored : ℕ → Option ℕ) (requests : List Request) : State :=
  ⟨stored, requests.map fun r => ⟨r, .get⟩⟩

inductive Action where
  | get (i : ℕ)
  | getCurrentEpochLength (i : ℕ)
  | setex (i : ℕ)
  deriving DecidableEq, Repr

def State.setStage (s : State) (i : ℕ) (c : Call) (stage : Stage) : State :=
  { s with calls := s.calls.set i { c with stage := stage } }

/-- One await of one call is answered. -/
def step (s : State) : Action → Option State
  | .get i =>
      match s.calls[i]? with
      | some ⟨r, .get⟩ => some (s.setStage i ⟨r, .get⟩ (.query (s.epochCapacity r.epoch)))
      | _ => none
  | .getCurrentEpochLength i =>
      match s.calls[i]? with
      | some ⟨r, .query v⟩ => some (s.setStage i ⟨r, .query v⟩ (.setex v))
      | _ => none
  | .setex i =>
      match s.calls[i]? with
      | some ⟨r, .setex v⟩ =>
          some ({ s with
            stored := Function.update s.stored r.epoch (some (v + r.capacityWithdrawn)) }.setStage i
              ⟨r, .setex v⟩ .done)
      | _ => none

/-- The call that an action writes for, with the value it read. -/
def State.writing? (s : State) : Action → Option (Request × ℕ)
  | .setex i => s.calls[i]?.bind fun
      | ⟨r, .setex v⟩ => some (r, v)
      | _ => none
  | _ => none

/-- A `SETEX` finds the value that its call read. -/
def Undisturbed (s : State) (a : Action) : Prop :=
  ∀ w ∈ s.writing? a, s.epochCapacity w.1.epoch = w.2

instance (s : State) (a : Action) : Decidable (Undisturbed s a) :=
  inferInstanceAs (Decidable (∀ _ ∈ _, _))

def Finished (s : State) : Prop := ∀ c ∈ s.calls, c.stage = .done

instance (s : State) : Decidable (Finished s) := inferInstanceAs (Decidable (∀ _ ∈ _, _))

/-- What the requests withdraw in an epoch. -/
def withdrawnIn (epoch : ℕ) (requests : List Request) : ℕ :=
  ((requests.filter (·.epoch = epoch)).map Request.capacityWithdrawn).sum

/-- Every epoch holds its initial value and all amounts passed for it. -/
def NothingLost (stored : ℕ → Option ℕ) (requests : List Request) (s : State) : Prop :=
  ∀ epoch, s.epochCapacity epoch = (stored epoch).getD 0 + withdrawnIn epoch requests

/-! ## Steps -/

inductive Step (s : State) : Action → State → Prop
  | get (i : ℕ) (r : Request) (call : s.calls[i]? = some ⟨r, .get⟩) :
      Step s (.get i) (s.setStage i ⟨r, .get⟩ (.query (s.epochCapacity r.epoch)))
  | query (i : ℕ) (r : Request) (v : ℕ) (call : s.calls[i]? = some ⟨r, .query v⟩) :
      Step s (.getCurrentEpochLength i) (s.setStage i ⟨r, .query v⟩ (.setex v))
  | setex (i : ℕ) (r : Request) (v : ℕ) (call : s.calls[i]? = some ⟨r, .setex v⟩) :
      Step s (.setex i) ({ s with
        stored := Function.update s.stored r.epoch (some (v + r.capacityWithdrawn)) }.setStage i
          ⟨r, .setex v⟩ .done)

theorem step_cases {s t : State} {a : Action} (h : step s a = some t) : Step s a t := by
  cases a with
  | get i =>
      simp only [step] at h
      split at h
      · next r hc => exact Option.some.inj h ▸ .get i r hc
      · cases h
  | getCurrentEpochLength i =>
      simp only [step] at h
      split at h
      · next r v hc => exact Option.some.inj h ▸ .query i r v hc
      · cases h
  | setex i =>
      simp only [step] at h
      split at h
      · next r v hc => exact Option.some.inj h ▸ .setex i r v hc
      · cases h

/-- Without a failing call, the amount is added to the stored value. -/
theorem exec_setEpochCapacity {env : Env} (henv : env.AllSucceed) (epoch amount : ℕ)
    (m : MonitorState) :
    exec (setEpochCapacity env epoch amount) m = (.ok (), { m with
      epochCapacity := Function.update m.epochCapacity epoch
        (some ((m.epochCapacity epoch).getD 0 + amount)) }) := by
  have hserve : ∀ call f, serve env call f = modify f := fun call f => by
    rw [serve, henv.service, if_neg Bool.false_ne_true]
  have hlength : askNode (env.call .epochLength env.epochLength) =
      (pure env.epochLength : Attempt ℕ) := by
    rw [Node.call_of_succeeds henv.rpc]
    rfl
  apply exec_tryCatch
  simp only [addEpochCapacity, hserve, hlength]
  rfl

theorem getElem?_setStage {s : State} {i : ℕ} {c : Call} (hcall : s.calls[i]? = some c)
    (stage : Stage) : (s.setStage i c stage).calls[i]? = some { c with stage := stage } := by
  rw [State.setStage, getElem?_set_of_some hcall, if_pos rfl]

/-- A call that runs alone does what `setEpochCapacity` does when no call fails. -/
theorem run_alone (s : State) {i : ℕ} {r : Request} (hcall : s.calls[i]? = some ⟨r, .get⟩)
    {env : Env} (henv : env.AllSucceed) (m : MonitorState) (hm : m.epochCapacity = s.stored) :
    ∃ t, run step s [.get i, .getCurrentEpochLength i, .setex i] = some t ∧
      t.stored = (exec (setEpochCapacity env r.epoch r.capacityWithdrawn) m).2.epochCapacity := by
  have hget : step s (.get i) =
      some (s.setStage i ⟨r, .get⟩ (.query (s.epochCapacity r.epoch))) := by
    simp only [step, hcall]
  have hread := getElem?_setStage hcall (.query (s.epochCapacity r.epoch))
  have hquery : step (s.setStage i ⟨r, .get⟩ (.query (s.epochCapacity r.epoch)))
      (.getCurrentEpochLength i) = some ((s.setStage i ⟨r, .get⟩
        (.query (s.epochCapacity r.epoch))).setStage i ⟨r, .query (s.epochCapacity r.epoch)⟩
          (.setex (s.epochCapacity r.epoch))) := by
    simp only [step, hread]
  have hqueried := getElem?_setStage hread (.setex (s.epochCapacity r.epoch))
  rw [exec_setEpochCapacity henv, hm, run_cons_of hget, run_cons_of hquery]
  simp only [run, step, hqueried]
  exact ⟨_, rfl, rfl⟩

/-! ## Sums over the calls -/

/-- What a call has added to an epoch. -/
def Call.written (epoch : ℕ) (c : Call) : ℕ :=
  if c.stage = .done ∧ c.epoch = epoch then c.capacityWithdrawn else 0

/-- What the finished calls have added to an epoch. -/
def State.writtenIn (s : State) (epoch : ℕ) : ℕ := (s.calls.map (Call.written epoch)).sum

theorem requests_setStage {s : State} {i : ℕ} {c : Call} (hcall : s.calls[i]? = some c)
    (stage : Stage) :
    (s.setStage i c stage).calls.map Call.toRequest = s.calls.map Call.toRequest :=
  map_set_of_eq hcall rfl

theorem writtenIn_setStage {s : State} {i : ℕ} {c : Call} (hcall : s.calls[i]? = some c)
    (hopen : c.stage ≠ .done) (stage : Stage) (epoch : ℕ) :
    (s.setStage i c stage).writtenIn epoch =
      s.writtenIn epoch + Call.written epoch { c with stage := stage } := by
  have hsum := sum_map_set (Call.written epoch) { c with stage := stage } hcall
  have hnone : Call.written epoch c = 0 := if_neg fun h => hopen h.1
  rw [hnone, Nat.add_zero] at hsum
  exact hsum

theorem writtenIn_of_finished {s : State} (h : Finished s) (epoch : ℕ) :
    s.writtenIn epoch = withdrawnIn epoch (s.calls.map Call.toRequest) := by
  obtain ⟨stored, calls⟩ := s
  unfold State.writtenIn withdrawnIn
  dsimp only [Finished] at h ⊢
  induction calls with
  | nil => rfl
  | cons c calls ih =>
      obtain ⟨hc, hcalls⟩ := List.forall_mem_cons.mp h
      have hrest := ih hcalls
      by_cases he : c.epoch = epoch
      · simp [Call.written, hc, he, hrest]
      · simp [Call.written, hc, he, hrest]

/-! ## Runs -/

section Runs
variable {stored : ℕ → Option ℕ} {requests : List Request} {s t : State} {a : Action}

/-- The initial value of an epoch and what the finished calls added. -/
def State.total (s : State) (stored : ℕ → Option ℕ) (epoch : ℕ) : ℕ :=
  (stored epoch).getD 0 + s.writtenIn epoch

theorem requests_step (h : Step s a t) :
    t.calls.map Call.toRequest = s.calls.map Call.toRequest := by
  cases h with
  | get i r call => exact requests_setStage call _
  | query i r v call => exact requests_setStage call _
  | setex i r v call => exact requests_setStage (s := { s with stored := _ }) call _

theorem total_get {i : ℕ} {r : Request} (call : s.calls[i]? = some ⟨r, .get⟩) (v epoch : ℕ) :
    (s.setStage i ⟨r, .get⟩ (.query v)).total stored epoch = s.total stored epoch := by
  have hwritten := writtenIn_setStage call (by simp) (.query v) epoch
  simpa [State.total, Call.written] using hwritten

theorem total_query {i : ℕ} {r : Request} {v : ℕ} (call : s.calls[i]? = some ⟨r, .query v⟩)
    (epoch : ℕ) :
    (s.setStage i ⟨r, .query v⟩ (.setex v)).total stored epoch = s.total stored epoch := by
  have hwritten := writtenIn_setStage call (by simp) (.setex v) epoch
  simpa [State.total, Call.written] using hwritten

theorem total_setex {i : ℕ} {r : Request} {v : ℕ} (call : s.calls[i]? = some ⟨r, .setex v⟩)
    (f : ℕ → Option ℕ) (epoch : ℕ) :
    (({ s with stored := f } : State).setStage i ⟨r, .setex v⟩ .done).total stored epoch =
      s.total stored epoch + if r.epoch = epoch then r.capacityWithdrawn else 0 := by
  have hwritten := writtenIn_setStage (s := { s with stored := f }) call (by simp) .done epoch
  simp only [Call.written, true_and] at hwritten
  simp only [State.total, hwritten]
  exact (Nat.add_assoc ..).symm

theorem epochCapacity_setex (s : State) (i : ℕ) (r : Request) (v epoch : ℕ) :
    (({ s with stored := Function.update s.stored r.epoch (some (v + r.capacityWithdrawn)) } :
      State).setStage i ⟨r, .setex v⟩ .done).epochCapacity epoch =
      if r.epoch = epoch then v + r.capacityWithdrawn else s.epochCapacity epoch := by
  by_cases he : r.epoch = epoch
  · subst epoch
    simp [State.setStage, State.epochCapacity]
  · rw [if_neg he]
    simp [State.setStage, State.epochCapacity, Function.update_of_ne (Ne.symm he)]

/-- When every write finds the value that its call read, nothing is overwritten. -/
theorem accounted_step (h : ∀ epoch, s.epochCapacity epoch = s.total stored epoch)
    (hw : Undisturbed s a) (hst : Step s a t) (epoch : ℕ) :
    t.epochCapacity epoch = t.total stored epoch := by
  cases hst with
  | get i r call =>
      rw [total_get call]
      exact h epoch
  | query i r v call =>
      rw [total_query call]
      exact h epoch
  | setex i r v call =>
      have hread : s.epochCapacity r.epoch = v := hw (r, v) (by simp [State.writing?, call])
      rw [epochCapacity_setex, total_setex call]
      by_cases he : r.epoch = epoch
      · subst epoch
        rw [if_pos rfl, if_pos rfl, ← hread, h r.epoch]
      · rw [if_neg he, if_neg he, Nat.add_zero]
        exact h epoch

/-! With positive amounts the condition is also needed: a value once lost is never
made up for, since no call holds a value that contains it. -/

/-- The value that a call has read and not yet written. -/
def Call.held? (c : Call) : Option ℕ :=
  match c.stage with
  | .query v | .setex v => some v
  | _ => none

/-- No value, stored or held by a call, exceeds the total; a held value that
reaches it is the stored one. -/
structure Bounded (stored : ℕ → Option ℕ) (s : State) : Prop where
  stored_le : ∀ epoch, s.epochCapacity epoch ≤ s.total stored epoch
  held_le : ∀ c ∈ s.calls, ∀ v, c.held? = some v →
    v < s.total stored c.epoch ∨ v = s.epochCapacity c.epoch

/-- Every value of the epoch, stored or held by a call, falls short of the total. -/
structure Short (stored : ℕ → Option ℕ) (epoch : ℕ) (s : State) : Prop where
  stored_lt : s.epochCapacity epoch < s.total stored epoch
  held_lt : ∀ c ∈ s.calls, c.epoch = epoch → ∀ v, c.held? = some v → v < s.total stored epoch

theorem mem_setStage {i : ℕ} {c d : Call} {stage : Stage}
    (h : d ∈ (s.setStage i c stage).calls) : d ∈ s.calls ∨ d = { c with stage := stage } :=
  List.mem_or_eq_of_mem_set h

theorem bounded_start (stored : ℕ → Option ℕ) (requests : List Request) :
    Bounded stored (start stored requests) := by
  refine ⟨fun epoch => Nat.le_add_right _ _, fun c hc v hv => ?_⟩
  obtain ⟨r, _, rfl⟩ := List.mem_map.mp hc
  cases hv

theorem Bounded.held_le_total (h : Bounded stored s) {c : Call} (hc : c ∈ s.calls) {v : ℕ}
    (hv : c.held? = some v) : v ≤ s.total stored c.epoch := by
  rcases h.held_le c hc v hv with hlt | heq
  · exact hlt.le
  · rw [heq]
    exact h.stored_le c.epoch

theorem Bounded.step (h : Bounded stored s)
    (hpos : ∀ c ∈ s.calls, 0 < c.capacityWithdrawn) (hst : Step s a t) : Bounded stored t := by
  cases hst with
  | get i r call =>
      refine ⟨fun epoch => ?_, fun c hc v hv => ?_⟩
      · rw [total_get call]
        exact h.stored_le epoch
      · rw [total_get call]
        rcases mem_setStage hc with hc | rfl
        · exact h.held_le c hc v hv
        · exact .inr (Option.some.inj hv).symm
  | query i r w call =>
      refine ⟨fun epoch => ?_, fun c hc v hv => ?_⟩
      · rw [total_query call]
        exact h.stored_le epoch
      · rw [total_query call]
        rcases mem_setStage hc with hc | rfl
        · exact h.held_le c hc v hv
        · exact h.held_le _ (List.mem_of_getElem? call) v hv
  | setex i r w call =>
      have hmem := List.mem_of_getElem? call
      have hw : w ≤ s.total stored r.epoch := h.held_le_total hmem rfl
      refine ⟨fun epoch => ?_, fun c hc v hv => ?_⟩
      · rw [epochCapacity_setex, total_setex call]
        by_cases he : r.epoch = epoch
        · subst epoch
          rw [if_pos rfl, if_pos rfl]
          omega
        · rw [if_neg he, if_neg he]
          exact h.stored_le epoch
      · rw [epochCapacity_setex, total_setex call]
        rcases mem_setStage (s := { s with stored := _ }) hc with hc | rfl
        · have hamount := hpos _ hmem
          by_cases he : r.epoch = c.epoch
          · rw [if_pos he, if_pos he]
            have hle : v ≤ s.total stored c.epoch := h.held_le_total hc hv
            dsimp only at hamount
            left
            omega
          · rw [if_neg he, if_neg he]
            exact h.held_le c hc v hv
        · cases hv

/-- A write over a value that its call did not read leaves its epoch short. -/
theorem Bounded.short (h : Bounded stored s) (hpos : ∀ c ∈ s.calls, 0 < c.capacityWithdrawn)
    {i : ℕ} {r : Request} {w : ℕ} (call : s.calls[i]? = some ⟨r, .setex w⟩)
    (hread : s.epochCapacity r.epoch ≠ w) :
    Short stored r.epoch (({ s with
      stored := Function.update s.stored r.epoch (some (w + r.capacityWithdrawn)) } :
        State).setStage i ⟨r, .setex w⟩ .done) := by
  have hmem := List.mem_of_getElem? call
  have hlt : w < s.total stored r.epoch :=
    (h.held_le _ hmem w rfl).resolve_right fun heq => hread heq.symm
  refine ⟨?_, fun c hc he v hv => ?_⟩
  · rw [epochCapacity_setex, total_setex call, if_pos rfl, if_pos rfl]
    omega
  · rw [total_setex call, if_pos rfl]
    rcases mem_setStage (s := { s with stored := _ }) hc with hc | rfl
    · have hle : v ≤ s.total stored r.epoch := he ▸ h.held_le_total hc hv
      have hamount := hpos _ hmem
      dsimp only at hamount
      omega
    · cases hv

theorem Short.step {epoch : ℕ} (h : Short stored epoch s) (hst : Step s a t) :
    Short stored epoch t := by
  cases hst with
  | get i r call =>
      refine ⟨?_, fun c hc he v hv => ?_⟩
      · rw [total_get call]
        exact h.stored_lt
      · rw [total_get call]
        rcases mem_setStage hc with hc | rfl
        · exact h.held_lt c hc he v hv
        · have hread : s.epochCapacity r.epoch = v := Option.some.inj hv
          exact hread ▸ he ▸ h.stored_lt
  | query i r w call =>
      refine ⟨?_, fun c hc he v hv => ?_⟩
      · rw [total_query call]
        exact h.stored_lt
      · rw [total_query call]
        rcases mem_setStage hc with hc | rfl
        · exact h.held_lt c hc he v hv
        · exact h.held_lt _ (List.mem_of_getElem? call) he v hv
  | setex i r w call =>
      have hmem := List.mem_of_getElem? call
      refine ⟨?_, fun c hc he v hv => ?_⟩
      · rw [epochCapacity_setex, total_setex call]
        by_cases he : r.epoch = epoch
        · have hlt := h.held_lt _ hmem he w rfl
          rw [if_pos he, if_pos he]
          omega
        · rw [if_neg he, if_neg he]
          exact h.stored_lt
      · rw [total_setex call]
        rcases mem_setStage (s := { s with stored := _ }) hc with hc | rfl
        · exact (h.held_lt c hc he v hv).trans_le (Nat.le_add_right _ _)
        · cases hv

theorem requests_of_run {as : List Action} (hrun : run step (start stored requests) as = some s) :
    s.calls.map Call.toRequest = requests := by
  have hstart : (start stored requests).calls.map Call.toRequest = requests := by
    simp [start, Function.comp_def]
  exact invariant_of_step (I := fun s => s.calls.map Call.toRequest = requests) hstart
    (fun _ _ _ h hst => (requests_step (step_cases hst)).trans h) hrun

/-- Amounts of the requests are the amounts of the calls. -/
theorem pos_of_run {as : List Action} (hrun : run step (start stored requests) as = some s)
    (hpos : ∀ r ∈ requests, 0 < r.capacityWithdrawn) : ∀ c ∈ s.calls, 0 < c.capacityWithdrawn := by
  intro c hc
  apply hpos
  rw [← requests_of_run hrun]
  exact List.mem_map_of_mem hc

theorem nothingLost_iff_total {as : List Action}
    (hrun : run step (start stored requests) as = some s) (hdone : Finished s) :
    NothingLost stored requests s ↔ ∀ epoch, s.epochCapacity epoch = s.total stored epoch := by
  unfold NothingLost State.total
  simp only [writtenIn_of_finished hdone, requests_of_run hrun]

theorem bounded_of_run {as : List Action} (hrun : run step (start stored requests) as = some s)
    (hpos : ∀ r ∈ requests, 0 < r.capacityWithdrawn) : Bounded stored s :=
  run_induction (C := fun _ _ => True) (I := fun _ => Bounded stored)
    (bounded_start stored requests)
    (fun _ _ _ _ hprev h _ hst => h.step (pos_of_run hprev hpos) (step_cases hst))
    (fun _ _ _ _ _ => trivial) hrun

/-- An epoch that is short at one time stays so until the end. -/
theorem short_of_run {epoch : ℕ} {as : List Action} (h : Short stored epoch s)
    (hrun : run step s as = some t) : Short stored epoch t :=
  invariant_of_step h (fun _ _ _ h hst => h.step (step_cases hst)) hrun

/-- When all calls have finished: if every write found the value that its call
read, nothing is lost; and if amounts are positive, only then. -/
theorem nothingLost_of_undisturbed (stored : ℕ → Option ℕ) (requests : List Request)
    (as : List Action) (s : State) (hrun : run step (start stored requests) as = some s)
    (hdone : Finished s) :
    (EachStep step Undisturbed (start stored requests) as → NothingLost stored requests s) ∧
      ((∀ r ∈ requests, 0 < r.capacityWithdrawn) → NothingLost stored requests s →
        EachStep step Undisturbed (start stored requests) as) := by
  rw [nothingLost_iff_total hrun hdone]
  constructor
  · intro hcond
    have hstart : ∀ epoch, (start stored requests).epochCapacity epoch =
        (start stored requests).total stored epoch := by
      intro epoch
      have hnone : (start stored requests).writtenIn epoch = 0 := by
        simp [start, State.writtenIn, Function.comp_def, Call.written]
      rw [State.total, hnone]
      rfl
    exact invariant (I := fun s => ∀ epoch, s.epochCapacity epoch = s.total stored epoch) hstart
      (fun _ _ _ h hw hst => accounted_step h hw (step_cases hst)) hcond hrun
  · intro hpos htotal bs a u hprefix hu w hw
    by_contra hread
    obtain ⟨cs, rfl⟩ := hprefix
    rw [run_append, run_concat, hu, Option.bind_some] at hrun
    obtain ⟨v, hv, hrest⟩ := Option.bind_eq_some_iff.mp hrun
    have hbounded : Bounded stored u := bounded_of_run hu hpos
    have hshort : Short stored w.1.epoch v := by
      cases step_cases hv with
      | get i r call => cases hw
      | query i r x call => cases hw
      | setex i r x call =>
          simp only [State.writing?, call, Option.bind_some, Option.mem_some_iff] at hw
          subst w
          exact hbounded.short (pos_of_run hu hpos) call hread
    exact absurd (htotal w.1.epoch) (short_of_run hshort hrest).stored_lt.ne

end Runs

/-! ## Two schedules -/

def twoRequests : List Request := [⟨1, 5⟩, ⟨1, 3⟩]

/-- The second call reads after the first has written. -/
def oneAfterTheOther : List Action :=
  [.get 0, .getCurrentEpochLength 0, .setex 0, .get 1, .getCurrentEpochLength 1, .setex 1]

theorem nothingLost_oneAfterTheOther :
    ∃ s, run step (start (fun _ => none) twoRequests) oneAfterTheOther = some s ∧
      NothingLost (fun _ => none) twoRequests s := by
  obtain ⟨s, hs, hdone⟩ : ∃ s, run step (start (fun _ => none) twoRequests) oneAfterTheOther =
      some s ∧ Finished s := exists_of_run_any (by decide +kernel)
  refine ⟨s, hs, (nothingLost_of_undisturbed _ _ _ s hs hdone).1 ?_⟩
  decide +kernel

/-- Both calls read before one of them writes. -/
def bothAtOnce : List Action :=
  [.get 0, .get 1, .getCurrentEpochLength 0, .setex 0, .getCurrentEpochLength 1, .setex 1]

theorem not_nothingLost_bothAtOnce :
    ∃ s, run step (start (fun _ => none) twoRequests) bothAtOnce = some s ∧ Finished s ∧
      ¬ NothingLost (fun _ => none) twoRequests s := by
  obtain ⟨s, hs, hdone, hlost⟩ : ∃ s, run step (start (fun _ => none) twoRequests) bothAtOnce =
      some s ∧ Finished s ∧ s.epochCapacity 1 ≠ withdrawnIn 1 twoRequests :=
    exists_of_run_any (by decide +kernel)
  refine ⟨s, hs, hdone, fun h => hlost ?_⟩
  simpa using h 1

end ContentPublishing.Monitor.Concurrency
