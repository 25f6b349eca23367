import Mathlib.Data.List.Nodup
import Mathlib.Logic.Function.Basic

/-!
# The states of the jobs that a queue keeps

As in BullMQ, a job is kept under its identifier, and adding a job under an
identifier that is kept changes nothing, whatever state that job is in. Failed
jobs are kept for good. Of the completed jobs only the newest are kept, as many as
`removeOnComplete` says; none if it is set to `true`.
-/
namespace ContentPublishing

inductive JobState where
  | waiting | delayed | completed | failed
  deriving DecidableEq, Repr

/-- How a worker's run of a job ends. -/
inductive RunEnd where
  | completed | delayed | failed
  deriving DecidableEq, Repr

/-- `completed` lists the kept jobs that have completed, oldest first. -/
structure JobStates (I : Type) where
  state? : I → Option JobState
  completed : List I
  listed : ∀ i ∈ completed, state? i = some .completed
  nodup : completed.Nodup

namespace JobStates
variable {I : Type}

def empty : JobStates I := ⟨fun _ => none, [], fun _ hi => (by cases hi), List.nodup_nil⟩

/-- A worker may pick the job. -/
def Pending (q : JobStates I) (i : I) : Prop :=
  q.state? i = some .waiting ∨ q.state? i = some .delayed

instance (q : JobStates I) (i : I) : Decidable (q.Pending i) := inferInstanceAs (Decidable (_ ∨ _))

theorem not_mem_completed {q : JobStates I} {i : I} (h : q.state? i ≠ some .completed) :
    i ∉ q.completed := fun hi => h (q.listed i hi)

theorem Pending.ne_completed {q : JobStates I} {i : I} (h : q.Pending i) :
    q.state? i ≠ some .completed := by
  rcases h with h | h <;> rw [h] <;> decide

/-- The queue has the job, in some other state than failed. -/
def HasLive (q : JobStates I) (i : I) : Prop := ∃ state, q.state? i = some state ∧ state ≠ .failed

theorem hasLive_iff {q : JobStates I} {i : I} (h : q.state? i ≠ none) :
    q.HasLive i ↔ q.state? i ≠ some .failed := by
  obtain ⟨state, hstate⟩ := Option.ne_none_iff_exists'.mp h
  simp [HasLive, hstate]

variable [DecidableEq I]

/-- The state of a job that has not completed is replaced by another such state. -/
def setState (q : JobStates I) (i : I) (state : JobState) (h : q.state? i ≠ some .completed) :
    JobStates I where
  state? := Function.update q.state? i (some state)
  completed := q.completed
  listed j hj := by
    have hne : j ≠ i := fun e => not_mem_completed h (e ▸ hj)
    rw [Function.update_of_ne hne]
    exact q.listed j hj
  nodup := q.nodup

def add (q : JobStates I) (i : I) : JobStates I :=
  if h : q.state? i = none then q.setState i .waiting (by rw [h]; decide) else q

/-- The oldest completed jobs beyond the limit are removed. -/
def complete (q : JobStates I) (removeOnComplete : ℕ) (i : I)
    (h : q.state? i ≠ some .completed) : JobStates I where
  state? j :=
    if j ∈ (q.completed ++ [i]).take (q.completed.length + 1 - removeOnComplete) then none
    else if j = i then some .completed else q.state? j
  completed := (q.completed ++ [i]).drop (q.completed.length + 1 - removeOnComplete)
  listed j hj := by
    have hnodup : (q.completed ++ [i]).Nodup := by
      simpa using List.Nodup.concat (not_mem_completed h) q.nodup
    rw [← List.take_append_drop (q.completed.length + 1 - removeOnComplete)
      (q.completed ++ [i])] at hnodup
    rw [if_neg fun ht => List.disjoint_of_nodup_append hnodup ht hj]
    rcases List.mem_append.mp (List.mem_of_mem_drop hj) with hq | hi
    · split
      · rfl
      · exact q.listed j hq
    · rw [if_pos (List.mem_singleton.mp hi)]
  nodup := by
    have hnodup : (q.completed ++ [i]).Nodup := by
      simpa using List.Nodup.concat (not_mem_completed h) q.nodup
    exact hnodup.sublist (List.drop_sublist _ _)

/-- A worker picks the job and its run ends. -/
def run (q : JobStates I) (removeOnComplete : ℕ) (i : I) (result : RunEnd) :
    Option (JobStates I) :=
  if h : q.Pending i then
    match result with
    | .completed => some (q.complete removeOnComplete i h.ne_completed)
    | .delayed => some (q.setState i .delayed h.ne_completed)
    | .failed => some (q.setState i .failed h.ne_completed)
  else none

/-- Adding a job leaves every failed job as it is, and makes none fail. -/
theorem failed_add (q : JobStates I) (i j : I) :
    (q.add i).state? j = some .failed ↔ q.state? j = some .failed := by
  unfold add
  split
  · next h =>
      by_cases hj : j = i
      · subst j
        simp [setState, h]
      · simp [setState, Function.update_of_ne hj]
  · exact Iff.rfl

/-- After `add` the queue has the job, in the state in which it was kept. -/
theorem state?_add (q : JobStates I) (i : I) :
    (q.add i).state? i = some ((q.state? i).getD .waiting) := by
  unfold add
  split
  · next h => simp [setState, h]
  · next h =>
      obtain ⟨state, hstate⟩ := Option.ne_none_iff_exists'.mp h
      rw [hstate]
      rfl

theorem failed_foldl_add (is : List I) (q : JobStates I) (j : I) :
    (is.foldl add q).state? j = some .failed ↔ q.state? j = some .failed := by
  induction is generalizing q with
  | nil => exact Iff.rfl
  | cons i is ih => exact (ih (q.add i)).trans (q.failed_add i j)

theorem add_ne_none {q : JobStates I} {j : I} (h : q.state? j ≠ none) (i : I) :
    (q.add i).state? j ≠ none := by
  by_cases hj : j = i
  · subst j
    rw [state?_add]
    exact Option.some_ne_none _
  · unfold add
    split
    · simpa [setState, Function.update_of_ne hj] using h
    · exact h

/-- After a bulk of jobs was added the queue has each of them. -/
theorem foldl_add_ne_none {is : List I} {q : JobStates I} {j : I}
    (h : j ∈ is ∨ q.state? j ≠ none) : (is.foldl add q).state? j ≠ none := by
  induction is generalizing q with
  | nil => exact h.resolve_left List.not_mem_nil
  | cons i is ih =>
      apply ih
      rcases h with h | h
      · rcases List.mem_cons.mp h with rfl | h
        · right
          rw [state?_add]
          exact Option.some_ne_none _
        · exact .inl h
      · exact .inr (add_ne_none h i)

theorem failed_setState (q : JobStates I) (i j : I) (state : JobState)
    (h : q.state? i ≠ some .completed) : (q.setState i state h).state? j = some .failed ↔
      (j = i ∧ state = .failed) ∨ (j ≠ i ∧ q.state? j = some .failed) := by
  by_cases hj : j = i
  · subst j
    simp [setState]
  · simp [setState, hj]

/-- What completes or is removed had not failed. -/
theorem failed_complete (q : JobStates I) (removeOnComplete : ℕ) {i : I} (j : I)
    (h : q.state? i ≠ some .completed) (hi : q.state? i ≠ some .failed) :
    (q.complete removeOnComplete i h).state? j = some .failed ↔ q.state? j = some .failed := by
  have hne : q.state? j = some .failed → j ≠ i := by
    intro hj heq
    exact hi (heq ▸ hj)
  have hkept : j ∈ q.completed ++ [i] → q.state? j ≠ some .failed := by
    intro hmem hfailed
    rcases List.mem_append.mp hmem with hc | hlast
    · rw [q.listed j hc] at hfailed
      cases hfailed
    · exact hne hfailed (List.mem_singleton.mp hlast)
  simp only [complete]
  split_ifs with htake hj
  · exact ⟨fun hn => (by cases hn), fun hf => absurd hf (hkept (List.mem_of_mem_take htake))⟩
  · exact ⟨fun hn => (by cases hn), fun hf => absurd hj (hne hf)⟩
  · exact Iff.rfl

/-- A job is failed after a run if it was before, or if it is the one that failed. -/
theorem failed_run {q r : JobStates I} {removeOnComplete : ℕ} {i : I} {result : RunEnd}
    (h : q.run removeOnComplete i result = some r) (j : I) :
    r.state? j = some .failed ↔ q.state? j = some .failed ∨ (j = i ∧ result = .failed) := by
  unfold run at h
  split at h
  · next hpending =>
      have hi : q.state? i ≠ some .failed := by
        rcases hpending with hi | hi <;> rw [hi] <;> decide
      have hne : q.state? j = some .failed → j ≠ i := by
        intro hj heq
        exact hi (heq ▸ hj)
      cases result with
      | completed =>
          have hr := Option.some.inj h
          subst r
          simp [failed_complete q removeOnComplete j hpending.ne_completed hi]
      | delayed =>
          have hr := Option.some.inj h
          subst r
          rw [failed_setState]
          simp only [reduceCtorEq, and_false, false_or, or_false]
          exact ⟨And.right, fun hf => ⟨hne hf, hf⟩⟩
      | failed =>
          have hr := Option.some.inj h
          subst r
          rw [failed_setState]
          simp only [and_true]
          constructor
          · intro hf
            exact hf.symm.imp And.right id
          · intro hf
            exact hf.symm.imp id fun hj => ⟨hne hj, hj⟩
  · cases h

end JobStates

end ContentPublishing
