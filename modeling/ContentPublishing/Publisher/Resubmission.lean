import ContentPublishing.Lib.Attempts
import ContentPublishing.Publisher.Publishing

/-!
# Submitting a batch more than once

A publish job is tried again when its processor throws, and the processor may throw
after its transaction was sent: when the receipt job cannot be added, or when the
capacity check at the end fails. An event handler that fails does not count, since the
emitter keeps its error. The history of `publish` is what the attempts that are reached
add to it, one after another.
-/
namespace ContentPublishing.Publisher
open Effects Attempts

section Outcome
variable {capacityLimit : ICapacityLimit} {env : Env} {job : IPublisherJob}

/-- The capacity check throws: it comes to no verdict. -/
def CheckFails (capacityLimit : ICapacityLimit) (env : Env) : Prop :=
  Failed (verdict capacityLimit env)

/-- An attempt that does not get as far as calling `publish`. -/
def HeadFails (env : Env) : Prop :=
  Failed (env.call .getLatestFinalizedBlockHash env.finalizedHead)

/-- An attempt in which something throws that is awaited. -/
def AttemptFails (capacityLimit : ICapacityLimit) (env : Env) : Prop :=
  (HeadFails env ∨ Failed (send env) ∨ Failed (env.call .addReceiptJob ())) ∨
    CheckFails capacityLimit env

instance (env : Env) : Decidable (HeadFails env) := inferInstanceAs (Decidable (Failed _))

instance (capacityLimit : ICapacityLimit) (env : Env) :
    Decidable (AttemptFails capacityLimit env) :=
  inferInstanceAs (Decidable ((_ ∨ _ ∨ _) ∨ Failed _))

theorem throws_publish (message : IPublisherJob) (s : PublisherState) :
    Throws (publish env message) s ↔ Failed (send env) := by
  refine throws_bind_modify (fun _ => throws_bind_left (throws_ask _) fun _ _ => ?_) s
  exact not_failed_ok _

theorem throws_submit (s : PublisherState) : Throws (submit env job) s ↔
    HeadFails env ∨ Failed (send env) ∨ Failed (env.call .addReceiptJob ()) := by
  have hadd : ∀ h h' s, Throws (sendJobToTxReceiptQueue env job h h') s ↔
      Failed (env.call .addReceiptJob ()) := fun _ _ =>
    throws_bind_left (throws_ask _) fun _ _ => not_failed_ok _
  exact throws_bind (throws_ask _) (fun _ => throws_bind (throws_publish job) fun _ =>
    throws_bind_left (hadd _ _) fun _ => not_throws_pure _) s

theorem throws_checkCapacity (s : PublisherState) :
    Throws (checkCapacity capacityLimit env) s ↔ CheckFails capacityLimit env :=
  throws_bind_left (throws_ask _) (fun _ => not_throws_tryCatch_pure _) s

theorem throws_process (s : PublisherState) :
    Throws (process capacityLimit env job) s ↔ AttemptFails capacityLimit env := by
  refine throws_tryFinally (fun s => ?_) throws_checkCapacity s
  rw [throws_tryCatch, throws_submit]
  intro e s
  dsimp only
  split
  · exact failed_error e
  · exact failed_error e

end Outcome

/-! ## The history of submissions -/

section History
variable {capacityLimit : ICapacityLimit} {env : Env} {job : IPublisherJob}

/-- What one attempt adds to the history. -/
def attemptLog (env : Env) (job : IPublisherJob) : List Submission :=
  if HeadFails env then [] else
    match send env with
    | .error _ => [.called job]
    | .ok txHash => [.called job, .returned job txHash]

theorem submissions_publish (message : IPublisherJob) (s : PublisherState) :
    (exec (publish env message) s).2.submissions = s.submissions ++
      match send env with
      | .error _ => [.called message]
      | .ok txHash => [.called message, .returned message txHash] := by
  rw [exec_publish]
  cases send env with
  | error e => rfl
  | ok txHash => exact List.append_assoc ..

theorem submissions_submit (s : PublisherState) :
    (exec (submit env job) s).2.submissions = s.submissions ++ attemptLog env job := by
  unfold submit attemptLog
  by_cases hhead : HeadFails env
  · rw [if_pos hhead, List.append_nil]
    obtain ⟨e, he⟩ := hhead
    rw [he, exec_bind_error _ (exec_ask _ _)]
  · rw [if_neg hhead, ← submissions_publish]
    obtain ⟨currentBlockHash, hhash⟩ := exists_of_not_failed hhead
    rw [hhash, exec_bind _ (exec_ask _ _)]
    cases h : exec (publish env job) s with
    | mk r t =>
        cases r with
        | error e => rw [exec_bind_error _ h]
        | ok txHash =>
            rw [exec_bind _ h]
            have hadd : Keeps (fun u => u.submissions = t.submissions)
                (sendJobToTxReceiptQueue env job txHash currentBlockHash) :=
              keeps_bind (keeps_ask _) fun _ => keeps_modify fun _ h => h
            exact keeps_bind hadd (fun _ => keeps_pure _) t rfl

theorem submissions_process (s : PublisherState) :
    (exec (process capacityLimit env job) s).2.submissions =
      s.submissions ++ attemptLog env job := by
  have hcheck : Keeps (fun t => t.submissions = s.submissions ++ attemptLog env job)
      (checkCapacity capacityLimit env) :=
    keeps_checkCapacity (fun _ _ _ _ _ h => h) fun _ h => h
  refine holds_tryFinally (holds_tryCatch (submissions_submit s) fun e => ?_) hcheck
  dsimp only
  split
  · exact keeps_bind (keeps_modify fun _ h => h) fun _ => keeps_throw _
  · exact keeps_throw _

/-- All attempts at a publish job; no error of the processor is marked as final. -/
def runPublishJob (capacityLimit : ICapacityLimit) (env : ℕ → Env) (job : IPublisherJob)
    (attempts : ℕ) : Action PublishResult :=
  runAttempts (fun _ => false) (fun made => process capacityLimit (env made) job) attempts

/-- In the history of the run, no call of `publish` comes after one that returned. -/
def SubmittedOnce (capacityLimit : ICapacityLimit) (env : ℕ → Env) (job : IPublisherJob)
    (attempts : ℕ) (s : PublisherState) : Prop :=
  ∃ log, (exec (runPublishJob capacityLimit env job attempts) s).2.submissions =
      s.submissions ++ log ∧
    log.Pairwise fun earlier later => ∀ txHash, earlier = .returned job txHash →
      later ≠ .called job

/-- No attempt that is reached after one that submitted gets as far as `publish`. -/
def NotRetriedAfterSubmission (capacityLimit : ICapacityLimit) (env : ℕ → Env) (attempts : ℕ) :
    Prop :=
  ∀ i j, i < j → j < attempts → (∀ m < j, AttemptFails capacityLimit (env m)) →
    ¬ HeadFails (env i) → ¬ Failed (send (env i)) → HeadFails (env j)

theorem called_mem_attemptLog : .called job ∈ attemptLog env job ↔ ¬ HeadFails env := by
  unfold attemptLog
  split
  · next h => simp [h]
  · next h =>
      split <;> simp [h]

theorem returned_mem_attemptLog (job : IPublisherJob) :
    (∃ txHash, .returned job txHash ∈ attemptLog env job) ↔
      ¬ HeadFails env ∧ ¬ Failed (send env) := by
  unfold attemptLog
  split
  · next h => simp [h]
  · next h =>
      cases send env with
      | error e => simp [failed_error]
      | ok txHash => simp [h, not_failed_ok]

theorem pairwise_attemptLog : (attemptLog env job).Pairwise fun earlier later =>
    ∀ txHash, earlier = .returned job txHash → later ≠ .called job := by
  unfold attemptLog
  split
  · exact List.Pairwise.nil
  · split <;> simp

theorem submissions_runPublishJob (capacityLimit : ICapacityLimit) (env : ℕ → Env)
    (job : IPublisherJob) (attempts : ℕ) (s : PublisherState) :
    (exec (runPublishJob capacityLimit env job attempts) s).2.submissions = s.submissions ++
      history (fun m => attemptLog (env m) job) (fun m => AttemptFails capacityLimit (env m))
        (attempts - 1) 0 :=
  log_tryFrom PublisherState.submissions (fun _ => submissions_process)
    (fun _ => throws_process) (fun _ => rfl) _ _ s

/-- Exactly when a batch is not submitted again by an automatic attempt. -/
theorem submittedOnce_iff (capacityLimit : ICapacityLimit) (env : ℕ → Env) (job : IPublisherJob)
    (attempts : ℕ) (s : PublisherState) :
    SubmittedOnce capacityLimit env job attempts s ↔
      NotRetriedAfterSubmission capacityLimit env attempts := by
  unfold SubmittedOnce
  rw [submissions_runPublishJob]
  simp only [List.append_cancel_left_eq, exists_eq_left']
  rw [pairwise_history fun m => pairwise_attemptLog]
  constructor
  · intro h i j hij hj hfails hhead hsend
    by_contra hlater
    obtain ⟨txHash, hreturned⟩ := (returned_mem_attemptLog job).mpr ⟨hhead, hsend⟩
    exact h i j (by omega) hij (by omega) ⟨by omega, fun m _ hm => hfails m hm⟩ _ hreturned _
      (called_mem_attemptLog.mpr hlater) txHash rfl rfl
  · rintro h i j - hij hj ⟨-, hfails⟩ _ hreturned _ hcalled txHash rfl rfl
    obtain ⟨hhead, hsend⟩ := (returned_mem_attemptLog job).mp ⟨txHash, hreturned⟩
    exact called_mem_attemptLog.mp hcalled
      (h i j hij (by omega) (fun m hm => hfails m (by omega) hm) hhead hsend)

/-- Three attempts; the first one submits, and then a query of its capacity check fails. -/
theorem not_submittedOnce_checkFails :
    ¬ SubmittedOnce .sample (fun made => { Env.sample 500 with
        fails := fun c =>
          if made = 0 ∧ c = .capacityInfo .checkCapacity .number then
            some (.error "disconnected")
          else none })
      .sample 3 .start := by
  rintro ⟨log, hlog, hpair⟩
  rw [submissions_runPublishJob] at hlog
  have htwice : log = [.called .sample, .returned .sample "tx", .called .sample,
      .returned .sample "tx"] := by
    rw [← List.append_cancel_left hlog]
    decide
  rw [htwice] at hpair
  revert hpair
  simp

end History

end ContentPublishing.Publisher
