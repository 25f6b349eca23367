import Mathlib.Data.List.Induction
import Mathlib.Data.List.Sort
import Mathlib.Data.List.Zip
import Mathlib.Logic.Function.Basic

/-!
# Results that are pushed as they come

Tasks run concurrently, and so do the items of each. Whatever completes is pushed onto
a list: an item onto the list of its task, and a task, once all of its items are there,
onto the common one. Tasks and items stand with the positions that they have in the
input. The completions are a permutation of the items; which permutation is up to
the environment.
-/
namespace ContentPublishing

/-- An item of a task that completes. -/
structure Completion (T I : Type) where
  task : T × ℕ
  item : I × ℕ
  deriving DecidableEq, Repr

/-- What has been pushed: the items of the task at a position, and the tasks. -/
structure Gather (T I : Type) where
  items : ℕ → List (I × ℕ)
  tasks : List (T × ℕ)

namespace Gather
variable {T I : Type} (items : T → List I)

def complete (s : Gather T I) (c : Completion T I) : Gather T I :=
  let pushed := s.items c.task.2 ++ [c.item]
  { items := Function.update s.items c.task.2 pushed
    tasks :=
      if pushed.length = (items c.task.1).length then s.tasks ++ [c.task] else s.tasks }

/-- All completions, after the tasks that waited for nothing. -/
def run (settled : List (T × ℕ)) (cs : List (Completion T I)) : Gather T I :=
  cs.foldl (complete items) ⟨fun _ => [], settled⟩

/-- What there is to complete, in the order of the input. -/
def completions (tasks : List T) : List (Completion T I) :=
  tasks.zipIdx.flatMap fun t => (items t.1).zipIdx.map (Completion.mk t)

/-- The items of a task, in the order of their completions. -/
def itemsOf (cs : List (Completion T I)) (i : ℕ) : List (I × ℕ) :=
  (cs.filter fun c => c.task.2 = i).map Completion.item

/-- The last item of its task in the order of the input. -/
def isLast (c : Completion T I) : Bool := c.item.2 + 1 = (items c.task.1).length

section Run
variable {items} {settled : List (T × ℕ)} {cs : List (Completion T I)}

theorem run_append_singleton (c : Completion T I) :
    run items settled (cs ++ [c]) = complete items (run items settled cs) c := by
  rw [run, List.foldl_append]
  rfl

theorem itemsOf_append_singleton (c : Completion T I) (i : ℕ) :
    itemsOf (cs ++ [c]) i = itemsOf cs i ++ if c.task.2 = i then [c.item] else [] := by
  rw [itemsOf, List.filter_append, List.map_append, List.filter_singleton]
  split
  · next h => rw [decide_eq_true h] ; rfl
  · next h => rw [decide_eq_false h] ; rfl

/-- Each item is pushed onto the list of its task. -/
theorem items_run : (run items settled cs).items = itemsOf cs := by
  induction cs using List.reverseRecOn with
  | nil => rfl
  | append_singleton cs c ih =>
      funext i
      rw [run_append_singleton, itemsOf_append_singleton, ← ih]
      by_cases hi : c.task.2 = i
      · subst i
        rw [if_pos rfl]
        exact Function.update_self ..
      · rw [if_neg hi, List.append_nil]
        exact Function.update_of_ne (Ne.symm hi) ..

/-- The items of a task come one after the other, from the first on. -/
def Consecutive (cs : List (Completion T I)) : Prop :=
  ∀ i, (itemsOf cs i).map Prod.snd = List.range (itemsOf cs i).length

theorem Consecutive.of_append_singleton {c : Completion T I} (h : Consecutive (cs ++ [c])) :
    Consecutive cs ∧ c.item.2 = (itemsOf cs c.task.2).length := by
  have hstep : ∀ i, c.task.2 = i → (itemsOf cs i).map Prod.snd = List.range (itemsOf cs i).length ∧
      c.item.2 = (itemsOf cs i).length := by
    intro i hi
    have hpushed := h i
    rw [itemsOf_append_singleton, if_pos hi, List.map_append, List.length_append,
      List.length_singleton, List.range_succ] at hpushed
    obtain ⟨hbefore, hlast⟩ := List.append_inj' hpushed rfl
    exact ⟨hbefore, List.singleton_inj.mp hlast⟩
  refine ⟨fun i => ?_, (hstep _ rfl).2⟩
  by_cases hi : c.task.2 = i
  · exact (hstep i hi).1
  · have hpushed := h i
    rwa [itemsOf_append_singleton, if_neg hi, List.append_nil] at hpushed

/-- If the items of each task come in order, a task is pushed with the last of them. -/
theorem tasks_run (h : Consecutive cs) :
    (run items settled cs).tasks =
      settled ++ (cs.filter (isLast items)).map Completion.task := by
  induction cs using List.reverseRecOn with
  | nil => simp [run]
  | append_singleton cs c ih =>
      obtain ⟨hcs, hposition⟩ := h.of_append_singleton
      have hlast : ((run items settled cs).items c.task.2 ++ [c.item]).length =
          (items c.task.1).length ↔ isLast items c = true := by
        rw [items_run, List.length_append, List.length_singleton, isLast, decide_eq_true_eq,
          hposition]
      rw [run_append_singleton, complete, List.filter_append, List.map_append]
      dsimp only
      by_cases hc : isLast items c = true
      · rw [if_pos (hlast.mpr hc), ih hcs, List.filter_singleton, hc, List.append_assoc]
        rfl
      · rw [if_neg (fun hl => hc (hlast.mp hl)), ih hcs, List.filter_singleton,
          Bool.eq_false_of_not_eq_true hc]
        simp

end Run

/-! ## Positions -/

section Positions
variable {X : Type} {xs : List X}

theorem pairwise_zipIdx (xs : List X) : xs.zipIdx.Pairwise fun x y => x.2 < y.2 := by
  have h : (xs.zipIdx.map Prod.snd).Pairwise (· < ·) := by
    rw [List.zipIdx_map_snd]
    exact List.pairwise_lt_range'
  exact List.pairwise_map.mp h

theorem map_snd_zipIdx (xs : List X) : xs.zipIdx.map Prod.snd = List.range xs.length := by
  rw [List.zipIdx_map_snd, List.range_eq_range']

/-- A permutation that is in order is the list itself. -/
theorem eq_zipIdx_iff {ys : List (X × ℕ)} (h : ys.Perm xs.zipIdx) :
    ys = xs.zipIdx ↔ ys.Pairwise fun x y => x.2 < y.2 := by
  constructor
  · rintro rfl
    exact pairwise_zipIdx xs
  · intro hys
    refine h.eq_of_pairwise (fun a b _ _ hab hba => ?_) hys (pairwise_zipIdx xs)
    omega

end Positions

section Permutation
variable {items} {tasks : List T} {cs : List (Completion T I)}

theorem itemsOf_flatMap (ts : List (T × ℕ)) (i : ℕ) :
    itemsOf (ts.flatMap fun t => (items t.1).zipIdx.map (Completion.mk t)) i =
      (ts.filter fun t => t.2 = i).flatMap fun t => (items t.1).zipIdx := by
  induction ts with
  | nil => rfl
  | cons t ts ih =>
      have hblock : itemsOf ((items t.1).zipIdx.map (Completion.mk t)) i =
          if t.2 = i then (items t.1).zipIdx else [] := by
        unfold itemsOf
        rw [List.filter_map, List.map_map]
        split <;> simp_all [Function.comp_def]
      have happend : ∀ as bs : List (Completion T I),
          itemsOf (as ++ bs) i = itemsOf as i ++ itemsOf bs i := by
        intro as bs
        rw [itemsOf, List.filter_append, List.map_append]
        rfl
      rw [List.flatMap_cons, happend, ih, hblock]
      by_cases hi : t.2 = i <;> simp [hi]

/-- One task stands at a position. -/
theorem filter_zipIdx_of_mem {t : T × ℕ} (ht : t ∈ tasks.zipIdx) :
    (tasks.zipIdx.filter fun u => u.2 = t.2) = [t] := by
  have hmem : t ∈ tasks.zipIdx.filter fun u => u.2 = t.2 :=
    List.mem_filter.mpr ⟨ht, decide_eq_true rfl⟩
  have hposition : ∀ u ∈ tasks.zipIdx.filter fun u => u.2 = t.2, u.2 = t.2 :=
    fun u hu => of_decide_eq_true (List.mem_filter.mp hu).2
  have hpairwise := (pairwise_zipIdx tasks).filter fun u => decide (u.2 = t.2)
  generalize tasks.zipIdx.filter (fun u => u.2 = t.2) = us at hmem hposition hpairwise ⊢
  cases us with
  | nil => cases hmem
  | cons u us =>
      cases us with
      | nil => rw [List.mem_singleton.mp hmem]
      | cons v us =>
          have hlt := List.rel_of_pairwise_cons hpairwise List.mem_cons_self
          rw [hposition u List.mem_cons_self,
            hposition v (List.mem_cons_of_mem _ List.mem_cons_self)] at hlt
          exact absurd hlt (lt_irrefl _)

theorem itemsOf_completions {t : T × ℕ} (ht : t ∈ tasks.zipIdx) :
    itemsOf (completions items tasks) t.2 = (items t.1).zipIdx := by
  rw [completions, itemsOf_flatMap, filter_zipIdx_of_mem ht, List.flatMap_singleton]

theorem task_mem_of_mem {c : Completion T I} (hc : c ∈ completions items tasks) :
    c.task ∈ tasks.zipIdx := by
  obtain ⟨t, ht, hc⟩ := List.mem_flatMap.mp hc
  obtain ⟨i, _, rfl⟩ := List.mem_map.mp hc
  exact ht

theorem item_mem_of_mem {c : Completion T I} (hc : c ∈ completions items tasks) :
    c.item.1 ∈ items c.task.1 := by
  obtain ⟨t, _, hc⟩ := List.mem_flatMap.mp hc
  obtain ⟨i, hi, rfl⟩ := List.mem_map.mp hc
  exact List.fst_mem_of_mem_zipIdx hi

/-- All items are pushed. -/
theorem itemsOf_perm (hcs : cs.Perm (completions items tasks)) {t : T × ℕ}
    (ht : t ∈ tasks.zipIdx) : (itemsOf cs t.2).Perm (items t.1).zipIdx := by
  rw [← itemsOf_completions ht]
  exact (hcs.filter _).map _

/-- The last items, one for each task that has items. -/
theorem map_task_filter_isLast (items : T → List I) (tasks : List T) :
    ((completions items tasks).filter (isLast items)).map Completion.task =
      tasks.zipIdx.filter fun t => !(items t.1).isEmpty := by
  have hblock : ∀ t : T × ℕ, (((items t.1).zipIdx.map (Completion.mk t)).filter (isLast items)).map
      Completion.task = if (items t.1).isEmpty then [] else [t] := by
    intro t
    have hlast : isLast items ∘ Completion.mk t =
        fun x : I × ℕ => decide (x.2 + 1 = (items t.1).length) := rfl
    rw [List.filter_map, List.map_map, hlast]
    cases items t.1 using List.reverseRecOn with
    | nil => rfl
    | append_singleton xs x =>
        have hbefore : (xs.zipIdx.filter fun y => decide (y.2 + 1 = (xs ++ [x]).length)) = [] := by
          refine List.filter_eq_nil_iff.mpr fun y hy => ?_
          have hy := List.snd_lt_of_mem_zipIdx hy
          simp
          omega
        rw [List.zipIdx_append, List.filter_append, hbefore]
        simp
  unfold completions
  generalize tasks.zipIdx = ts
  induction ts with
  | nil => rfl
  | cons t ts ih =>
      rw [List.flatMap_cons, List.filter_append, List.map_append, ih, hblock]
      by_cases ht : (items t.1).isEmpty = true <;> simp [ht]

/-- The completions of a task come in the order of its items. -/
def ItemsInOrder (cs : List (Completion T I)) : Prop :=
  cs.Pairwise fun c d => c.task.2 = d.task.2 → c.item.2 < d.item.2

/-- The items of every task are pushed in order exactly if they complete in order. -/
theorem itemsInOrder_iff (hcs : cs.Perm (completions items tasks)) :
    (∀ t ∈ tasks.zipIdx, itemsOf cs t.2 = (items t.1).zipIdx) ↔ ItemsInOrder cs := by
  constructor
  · intro h
    refine List.pairwise_iff_forall_sublist.mpr fun {c d} hcd heq => ?_
    have hc : c ∈ cs := hcd.subset List.mem_cons_self
    have hpushed : [c.item, d.item].Sublist (itemsOf cs c.task.2) := by
      have hfilter := (hcd.filter fun e => decide (e.task.2 = c.task.2)).map Completion.item
      simpa [itemsOf, heq] using hfilter
    rw [h c.task (task_mem_of_mem (hcs.mem_iff.mp hc))] at hpushed
    exact List.pairwise_iff_forall_sublist.mp (pairwise_zipIdx _) hpushed
  · intro h t ht
    refine (eq_zipIdx_iff (itemsOf_perm hcs ht)).mpr (List.pairwise_map.mpr ?_)
    refine (h.filter fun c => decide (c.task.2 = t.2)).imp_of_mem fun hc hd hlt => ?_
    have hc := of_decide_eq_true (List.mem_filter.mp hc).2
    have hd := of_decide_eq_true (List.mem_filter.mp hd).2
    exact hlt (hc.trans hd.symm)

theorem ItemsInOrder.consecutive (h : ItemsInOrder cs)
    (hcs : cs.Perm (completions items tasks)) : Consecutive cs := by
  intro i
  by_cases hi : ∃ t ∈ tasks.zipIdx, t.2 = i
  · obtain ⟨t, ht, rfl⟩ := hi
    rw [(itemsInOrder_iff hcs).mpr h t ht, map_snd_zipIdx, List.length_zipIdx]
  · have hnone : itemsOf cs i = [] := by
      refine List.map_eq_nil_iff.mpr (List.filter_eq_nil_iff.mpr fun c hc hci => hi ?_)
      exact ⟨c.task, task_mem_of_mem (hcs.mem_iff.mp hc), of_decide_eq_true hci⟩
    rw [hnone]
    rfl

end Permutation

/-! ## Tasks that wait for nothing -/

section Stages
variable {items} {tasks : List T} {cs : List (Completion T I)} {stage : T → ℕ} {stages : ℕ}

/-- The tasks that are pushed before any completion: one stage after the other. -/
def settled (stage : T → ℕ) (stages : ℕ) (tasks : List T) : List (T × ℕ) :=
  (List.range stages).flatMap fun n => tasks.zipIdx.filter fun t => stage t.1 = n

/-- Earlier stages come first, and within a stage the order is that of the input. -/
def Before (stage : T → ℕ) (t u : T × ℕ) : Prop :=
  stage t.1 < stage u.1 ∨ (stage t.1 = stage u.1 ∧ t.2 < u.2)

theorem mem_settled {t : T × ℕ} :
    t ∈ settled stage stages tasks ↔ t ∈ tasks.zipIdx ∧ stage t.1 < stages := by
  simp only [settled, List.mem_flatMap, List.mem_range, List.mem_filter, decide_eq_true_eq]
  constructor
  · rintro ⟨n, hn, ht, rfl⟩
    exact ⟨ht, hn⟩
  · rintro ⟨ht, hstage⟩
    exact ⟨_, hstage, ht, rfl⟩

theorem pairwise_settled : (settled stage stages tasks).Pairwise (Before stage) := by
  refine List.pairwise_flatMap.mpr ⟨fun n _ => ?_, ?_⟩
  · refine ((pairwise_zipIdx tasks).filter _).imp_of_mem fun ht hu hlt => ?_
    have ht := of_decide_eq_true (List.mem_filter.mp ht).2
    have hu := of_decide_eq_true (List.mem_filter.mp hu).2
    exact .inr ⟨ht.trans hu.symm, hlt⟩
  · refine List.pairwise_lt_range.imp fun {m n} hlt t ht u hu => ?_
    have ht := of_decide_eq_true (List.mem_filter.mp ht).2
    have hu := of_decide_eq_true (List.mem_filter.mp hu).2
    exact .inl (by omega)

theorem nodup_zipIdx (tasks : List T) : tasks.zipIdx.Nodup :=
  (pairwise_zipIdx tasks).imp fun {t u} hlt heq => absurd hlt (by rw [heq]; exact lt_irrefl _)

/-- The settled tasks are those of the given number of stages. -/
theorem settled_perm : (settled stage stages tasks).Perm
    (tasks.zipIdx.filter fun t => stage t.1 < stages) := by
  have hnodup : (settled stage stages tasks).Nodup := by
    refine pairwise_settled.imp fun {t u} hbefore heq => ?_
    subst u
    rcases hbefore with hlt | ⟨-, hlt⟩
    · exact lt_irrefl _ hlt
    · exact lt_irrefl _ hlt
  refine (List.perm_ext_iff_of_nodup hnodup ((nodup_zipIdx tasks).filter _)).mpr fun t => ?_
  rw [mem_settled, List.mem_filter, decide_eq_true_eq]

theorem pairwise_before_zipIdx :
    tasks.zipIdx.Pairwise (Before stage) ↔ tasks.Pairwise fun t u => stage t ≤ stage u := by
  have hmap : (tasks.Pairwise fun t u => stage t ≤ stage u) ↔
      tasks.zipIdx.Pairwise fun t u => stage t.1 ≤ stage u.1 := by
    rw [← List.pairwise_map (f := Prod.fst) (R := fun t u => stage t ≤ stage u),
      List.zipIdx_map_fst]
  rw [hmap]
  constructor
  · refine List.Pairwise.imp fun {t u} hbefore => ?_
    rcases hbefore with hlt | ⟨heq, -⟩
    · exact hlt.le
    · exact heq.le
  · intro hle
    refine (hle.and (pairwise_zipIdx tasks)).imp fun {t u} h => ?_
    rcases Nat.lt_or_eq_of_le h.1 with hlt | heq
    · exact .inl hlt
    · exact .inr ⟨heq, h.2⟩

/-- The last items complete in the order of their tasks. -/
def TasksInOrder (items : T → List I) (cs : List (Completion T I)) : Prop :=
  (cs.filter (isLast items)).Pairwise fun c d => c.task.2 < d.task.2

/-- The tasks are pushed in order exactly if no task comes before one of an earlier
stage, and the last items complete in the order of their tasks. -/
theorem tasksInOrder_iff (hcs : cs.Perm (completions items tasks)) (hitems : ItemsInOrder cs)
    (hle : ∀ t, stage t ≤ stages) (hwaits : ∀ t, items t = [] ↔ stage t < stages) :
    (run items (settled stage stages tasks) cs).tasks = tasks.zipIdx ↔
      (tasks.Pairwise fun t u => stage t ≤ stage u) ∧ TasksInOrder items cs := by
  have hlasts : ((cs.filter (isLast items)).map Completion.task).Perm
      (tasks.zipIdx.filter fun t => !decide (stage t.1 < stages)) := by
    have hempty : ∀ t : T × ℕ, (items t.1).isEmpty = decide (stage t.1 < stages) := by
      intro t
      rw [Bool.eq_iff_iff, List.isEmpty_iff, hwaits, decide_eq_true_eq]
    have hall := map_task_filter_isLast items tasks
    simp only [hempty] at hall
    rw [← hall]
    exact (hcs.filter _).map _
  have hperm : (settled stage stages tasks ++ (cs.filter (isLast items)).map
      Completion.task).Perm tasks.zipIdx :=
    (settled_perm.append hlasts).trans (List.filter_append_perm _ _)
  have hlast : ∀ t ∈ (cs.filter (isLast items)).map Completion.task, stage t.1 = stages := by
    intro t ht
    have ht := (List.mem_filter.mp (hlasts.mem_iff.mp ht)).2
    simp only [Bool.not_eq_true', decide_eq_false_iff_not, not_lt] at ht
    exact le_antisymm (hle _) ht
  have htasks : TasksInOrder items cs ↔
      ((cs.filter (isLast items)).map Completion.task).Pairwise fun t u => t.2 < u.2 := by
    rw [TasksInOrder, List.pairwise_map]
  have hbefore : ((cs.filter (isLast items)).map Completion.task).Pairwise (fun t u => t.2 < u.2) →
      (settled stage stages tasks ++ (cs.filter (isLast items)).map Completion.task).Pairwise
        (Before stage) := by
    intro hpairwise
    refine List.pairwise_append.mpr ⟨pairwise_settled, ?_, fun t ht u hu => .inl ?_⟩
    · refine hpairwise.imp_of_mem fun ht hu hlt => .inr ⟨?_, hlt⟩
      rw [hlast _ ht, hlast _ hu]
    · rw [hlast u hu]
      exact (mem_settled.mp ht).2
  rw [tasks_run (hitems.consecutive hcs), ← pairwise_before_zipIdx, htasks]
  constructor
  · intro heq
    have hpairwise := (pairwise_zipIdx tasks).sublist (heq ▸ List.sublist_append_right _ _)
    refine ⟨?_, hpairwise⟩
    rw [← heq]
    exact hbefore hpairwise
  · rintro ⟨hstages, hpairwise⟩
    refine hperm.eq_of_pairwise (fun t u _ _ htu hut => ?_) (hbefore hpairwise) hstages
    unfold Before at htu hut
    omega

end Stages

/-! ## Every task is pushed once -/

section Once
variable {items} {tasks : List T} {cs : List (Completion T I)}

theorem tasks_run_settled (ts : List (T × ℕ)) (cs : List (Completion T I)) :
    (run items ts cs).tasks = ts ++ (run items [] cs).tasks := by
  induction cs using List.reverseRecOn with
  | nil => exact (List.append_nil _).symm
  | append_singleton cs c ih =>
      rw [run_append_singleton, run_append_singleton, complete, complete, items_run, items_run, ih]
      dsimp only
      split <;> simp

theorem eq_of_position_eq {t u : T × ℕ} (ht : t ∈ tasks.zipIdx) (hu : u ∈ tasks.zipIdx)
    (h : t.2 = u.2) : t = u := by
  have hmem : t ∈ tasks.zipIdx.filter fun v => v.2 = u.2 :=
    List.mem_filter.mpr ⟨ht, decide_eq_true h⟩
  rwa [filter_zipIdx_of_mem hu, List.mem_singleton] at hmem

theorem length_items_pos {c : Completion T I} (hc : c ∈ completions items tasks) :
    0 < (items c.task.1).length := List.length_pos_of_mem (item_mem_of_mem hc)

theorem task_mem_of_mem_run (hcs : ∀ c ∈ cs, c ∈ completions items tasks) {t : T × ℕ}
    (ht : t ∈ (run items [] cs).tasks) : t ∈ tasks.zipIdx := by
  induction cs using List.reverseRecOn with
  | nil => cases ht
  | append_singleton cs c ih =>
      obtain ⟨hbefore, hlast⟩ := List.forall_mem_append.mp hcs
      rw [run_append_singleton, complete] at ht
      dsimp only at ht
      split at ht
      · rcases List.mem_append.mp ht with ht | ht
        · exact ih hbefore ht
        · obtain rfl := List.mem_singleton.mp ht
          exact task_mem_of_mem (hlast c (List.mem_singleton_self c))
      · exact ih hbefore ht

/-- The tasks pushed so far are those with all of their items. -/
theorem mem_tasks_run (hcs : ∀ c ∈ cs, c ∈ completions items tasks) :
    (run items [] cs).tasks.Nodup ∧ ∀ t ∈ tasks.zipIdx, t ∈ (run items [] cs).tasks ↔
      itemsOf cs t.2 ≠ [] ∧ (items t.1).length ≤ (itemsOf cs t.2).length := by
  induction cs using List.reverseRecOn with
  | nil => exact ⟨List.nodup_nil, fun t _ => by simp [run, itemsOf]⟩
  | append_singleton cs c ih =>
      obtain ⟨hbefore, hlast⟩ := List.forall_mem_append.mp hcs
      have hc := hlast c (List.mem_singleton_self c)
      have htask := task_mem_of_mem hc
      have hpos := length_items_pos hc
      obtain ⟨hnodup, hmem⟩ := ih hbefore
      have hpushed := hmem c.task htask
      rw [run_append_singleton, complete, items_run]
      dsimp only
      rw [List.length_append, List.length_singleton]
      constructor
      · split
        · next hfull =>
            refine List.nodup_append.mpr ⟨hnodup, List.nodup_singleton _, fun t ht u hu heq => ?_⟩
            obtain rfl := List.mem_singleton.mp hu
            subst t
            have hle := (hpushed.mp ht).2
            omega
        · exact hnodup
      · intro t ht
        rw [itemsOf_append_singleton]
        by_cases hposition : c.task.2 = t.2
        · obtain rfl := eq_of_position_eq htask ht hposition
          rw [if_pos rfl, List.length_append, List.length_singleton]
          split
          · next hfull => simp [hfull]
          · next hmore =>
              rw [hpushed, ← List.length_pos_iff, ← List.length_pos_iff, List.length_append,
                List.length_singleton]
              omega
        · have hne : t ≠ c.task := fun heq => hposition (heq ▸ rfl)
          rw [if_neg hposition, List.append_nil, ← hmem t ht]
          split <;> simp [hne]

/-- Whatever the order of the completions, every task is pushed once. -/
theorem tasks_run_perm {stage : T → ℕ} {stages : ℕ} (hcs : cs.Perm (completions items tasks))
    (hwaits : ∀ t, items t = [] ↔ stage t < stages) :
    (run items (settled stage stages tasks) cs).tasks.Perm tasks.zipIdx := by
  have hall : ∀ c ∈ cs, c ∈ completions items tasks := fun c hc => hcs.mem_iff.mp hc
  obtain ⟨hnodup, hmem⟩ := mem_tasks_run hall
  have hdone : (run items [] cs).tasks.Perm
      (tasks.zipIdx.filter fun t => !decide (stage t.1 < stages)) := by
    refine (List.perm_ext_iff_of_nodup hnodup ((nodup_zipIdx tasks).filter _)).mpr fun t => ?_
    have hdone : t ∈ tasks.zipIdx →
        (t ∈ (run items [] cs).tasks ↔ ¬ stage t.1 < stages) := by
      intro ht
      have hperm := itemsOf_perm hcs ht
      rw [hmem t ht, hperm.length_eq, List.length_zipIdx, ← hwaits, Ne, ← List.length_eq_zero_iff,
        hperm.length_eq, List.length_zipIdx, List.length_eq_zero_iff]
      exact and_iff_left le_rfl
    simp only [List.mem_filter, Bool.not_eq_true', decide_eq_false_iff_not]
    exact ⟨fun ht => ⟨task_mem_of_mem_run hall ht, (hdone (task_mem_of_mem_run hall ht)).mp ht⟩,
      fun ht => (hdone ht.1).mpr ht.2⟩
  rw [tasks_run_settled]
  exact (settled_perm.append hdone).trans (List.filter_append_perm _ _)

end Once

end Gather

end ContentPublishing
