import Mathlib.Data.List.Nodup

/-!
# A job queue keyed by job identifiers

As in BullMQ, adding a job under an identifier that the queue already knows
changes nothing. A job stays known after it was processed, until it is removed, so
the list below is the record of all jobs the queue keeps, in the order they were added.
-/
namespace ContentPublishing

structure JobQueue (I D : Type) where
  jobs : List (I × D)
  nodup : (jobs.map Prod.fst).Nodup

namespace JobQueue
variable {I D : Type}

def empty : JobQueue I D := ⟨[], List.nodup_nil⟩

/-- Identifiers of the jobs the queue keeps. -/
def ids (q : JobQueue I D) : List I := q.jobs.map Prod.fst

variable [DecidableEq I]

def add (q : JobQueue I D) (i : I) (d : D) : JobQueue I D :=
  if h : i ∈ q.jobs.map Prod.fst then q else
    ⟨q.jobs ++ [(i, d)], by simpa using List.Nodup.concat h q.nodup⟩

theorem add_of_mem {q : JobQueue I D} {i : I} (d : D) (h : i ∈ q.ids) : q.add i d = q :=
  dif_pos h

theorem jobs_add_of_not_mem {q : JobQueue I D} {i : I} (d : D) (h : i ∉ q.ids) :
    (q.add i d).jobs = q.jobs ++ [(i, d)] := by
  have h' : i ∉ q.jobs.map Prod.fst := h
  rw [add, dif_neg h']

theorem mem_ids_add {q : JobQueue I D} {i j : I} {d : D} :
    j ∈ (q.add i d).ids ↔ j ∈ q.ids ∨ j = i := by
  by_cases h : i ∈ q.ids
  · rw [add_of_mem d h]
    exact ⟨Or.inl, fun hj => hj.elim id (fun e => e ▸ h)⟩
  · simp [ids, jobs_add_of_not_mem d h]

/-- A job of the enlarged queue was there before or is the added one. -/
theorem mem_jobs_add {q : JobQueue I D} {i j : I} {d e : D} (h : (j, e) ∈ (q.add i d).jobs) :
    (j, e) ∈ q.jobs ∨ (j = i ∧ e = d) := by
  by_cases hi : i ∈ q.ids
  · rw [add_of_mem d hi] at h
    exact Or.inl h
  · rw [jobs_add_of_not_mem d hi, List.mem_append, List.mem_singleton, Prod.mk.injEq] at h
    exact h

theorem jobs_subset_add (q : JobQueue I D) (i : I) (d : D) : q.jobs ⊆ (q.add i d).jobs := by
  by_cases hi : i ∈ q.ids
  · rw [add_of_mem d hi]
    exact List.Subset.refl _
  · rw [jobs_add_of_not_mem d hi]
    exact List.subset_append_left _ _

def addBulk (q : JobQueue I D) (jobs : List (I × D)) : JobQueue I D :=
  jobs.foldl (fun q job => q.add job.1 job.2) q

theorem mem_ids_addBulk {q : JobQueue I D} {jobs : List (I × D)} {j : I} :
    j ∈ (q.addBulk jobs).ids ↔ j ∈ q.ids ∨ j ∈ jobs.map Prod.fst := by
  induction jobs generalizing q with
  | nil => simp [addBulk]
  | cons job jobs ih =>
      rw [List.map_cons, List.mem_cons, ← or_assoc, ← mem_ids_add (d := job.2)]
      exact ih

theorem mem_jobs_addBulk {q : JobQueue I D} {jobs : List (I × D)} {j : I} {d : D}
    (h : (j, d) ∈ (q.addBulk jobs).jobs) : (j, d) ∈ q.jobs ∨ (j, d) ∈ jobs := by
  induction jobs generalizing q with
  | nil => exact .inl h
  | cons job jobs ih =>
      rcases ih h with hadded | hmem
      · rcases mem_jobs_add hadded with hmem | ⟨rfl, rfl⟩
        · exact .inl hmem
        · exact .inr List.mem_cons_self
      · exact .inr (List.mem_cons_of_mem _ hmem)

/-- The job that is kept under the identifier. -/
def find? (q : JobQueue I D) (i : I) : Option D := q.jobs.lookup i

def remove (q : JobQueue I D) (i : I) : JobQueue I D :=
  ⟨q.jobs.filter fun job => job.1 ≠ i, q.nodup.sublist (List.filter_sublist.map _)⟩

theorem not_mem_ids_remove (q : JobQueue I D) (i : I) : i ∉ (q.remove i).ids := by
  simp [remove, ids]

theorem mem_ids_remove {q : JobQueue I D} {i j : I} :
    j ∈ (q.remove i).ids ↔ j ∈ q.ids ∧ j ≠ i := by
  simp [remove, ids]

/-- Removing a job first makes `add` take effect. -/
theorem mem_jobs_add_remove (q : JobQueue I D) (i : I) (d : D) :
    (i, d) ∈ ((q.remove i).add i d).jobs := by
  rw [jobs_add_of_not_mem d (q.not_mem_ids_remove i)]
  exact List.mem_append_right _ (List.mem_singleton_self _)

/-- The data of the job under the identifier are updated. -/
def update (q : JobQueue I D) (i : I) (f : D → D) : JobQueue I D where
  jobs := q.jobs.map fun job => if job.1 = i then (job.1, f job.2) else job
  nodup := by
    have hids : (q.jobs.map fun job => if job.1 = i then (job.1, f job.2) else job).map Prod.fst =
        q.jobs.map Prod.fst := by
      rw [List.map_map]
      refine List.map_congr_left fun job _ => ?_
      dsimp only [Function.comp]
      split <;> rfl
    exact hids ▸ q.nodup

theorem of_mem_jobs_update {q : JobQueue I D} {i j : I} {f : D → D} {d : D}
    (h : (j, d) ∈ (q.update i f).jobs) : ∃ e, (j, e) ∈ q.jobs ∧ (d = e ∨ d = f e) := by
  obtain ⟨⟨k, e⟩, hmem, heq⟩ := List.mem_map.mp h
  dsimp only at heq
  split at heq
  · cases heq
    exact ⟨_, hmem, .inr rfl⟩
  · cases heq
    exact ⟨_, hmem, .inl rfl⟩

theorem find?_isSome {q : JobQueue I D} {i : I} : (q.find? i).isSome ↔ i ∈ q.ids := by
  simp [find?, ids, eq_comm (a := i)]

theorem mem_jobs_of_find? {q : JobQueue I D} {i : I} {d : D} (h : q.find? i = some d) :
    (i, d) ∈ q.jobs := by
  unfold find? at h
  obtain ⟨front, rest, heq, -⟩ := List.lookup_eq_some_iff.mp h
  rw [heq]
  exact List.mem_append_right _ List.mem_cons_self

end JobQueue

end ContentPublishing
