import Mathlib.Data.List.Induction

/-!
# Runs of a guarded transition function

A transition system is a function `step : σ → α → Option σ` that answers `none`
when the action is not enabled. A run is the finite list of actions taken, so a
concrete schedule can be evaluated and an arbitrary one can be quantified over.
-/
namespace ContentPublishing.Transition

variable {σ τ α : Type*} {step : σ → α → Option σ}

/-- The state reached by a schedule, if every action was enabled in its turn. -/
def run (step : σ → α → Option σ) : σ → List α → Option σ
  | s, [] => some s
  | s, a :: as =>
      match step s a with
      | none => none
      | some t => run step t as

@[simp] theorem run_nil (s : σ) : run step s [] = some s := rfl

theorem run_cons (s : σ) (a : α) (as : List α) :
    run step s (a :: as) = (step s a).bind (fun t => run step t as) := by
  cases h : step s a <;> simp [run, h]

theorem run_cons_of {s t : σ} {a : α} (h : step s a = some t) (as : List α) :
    run step s (a :: as) = run step t as := by
  rw [run_cons, h, Option.bind_some]

theorem run_append (s : σ) (as bs : List α) :
    run step s (as ++ bs) = (run step s as).bind (fun t => run step t bs) := by
  induction as generalizing s with
  | nil => rfl
  | cons a as ih =>
      rw [List.cons_append, run_cons, run_cons, Option.bind_assoc]
      exact congrArg _ (funext fun t => ih t)

theorem run_concat (s : σ) (as : List α) (a : α) :
    run step s (as ++ [a]) = (run step s as).bind (fun t => step t a) := by
  rw [run_append]
  refine congrArg _ (funext fun t => ?_)
  cases h : step t a <;> simp [run, h]

/-- Every action of the schedule meets `C` in the state it is taken in. -/
def EachStep (step : σ → α → Option σ) (C : σ → α → Prop) (s : σ) (as : List α) : Prop :=
  ∀ bs a t, bs ++ [a] <+: as → run step s bs = some t → C t a

theorem EachStep.take {C : σ → α → Prop} {s : σ} {as bs : List α}
    (h : EachStep step C s as) (hp : bs <+: as) : EachStep step C s bs :=
  fun cs a t hc => h cs a t (hc.trans hp)

theorem EachStep.mono {C D : σ → α → Prop} {s : σ} {as : List α}
    (h : EachStep step C s as) (hCD : ∀ t a, C t a → D t a) : EachStep step D s as :=
  fun bs a t hp hr => hCD t a (h bs a t hp hr)

theorem EachStep.and {C D : σ → α → Prop} {s : σ} {as : List α} (hC : EachStep step C s as)
    (hD : EachStep step D s as) : EachStep step (fun t a => C t a ∧ D t a) s as :=
  fun bs a t hp hr => ⟨hC bs a t hp hr, hD bs a t hp hr⟩

theorem eachStep_of_mem {as : List α} (s : σ) : EachStep step (fun _ a => a ∈ as) s as :=
  fun _ a _ hp _ => hp.subset (List.mem_append_right _ (List.mem_singleton_self a))

theorem eachStep_of_forall_mem {C : σ → α → Prop} {as : List α} (h : ∀ a ∈ as, ∀ s, C s a)
    (s : σ) : EachStep step C s as :=
  (eachStep_of_mem s).mono fun t a ha => h a ha t

theorem eachStep_nil (C : σ → α → Prop) (s : σ) : EachStep step C s [] :=
  fun bs a _ hp => absurd (List.prefix_nil.mp hp)
    (List.append_ne_nil_of_right_ne_nil bs (List.cons_ne_nil a []))

theorem eachStep_cons {C : σ → α → Prop} {s : σ} {a : α} {as : List α} :
    EachStep step C s (a :: as) ↔ C s a ∧ ∀ t, step s a = some t → EachStep step C t as := by
  constructor
  · refine fun h => ⟨h [] a s (List.prefix_append [a] as) rfl, fun t ht bs b u hp hr => ?_⟩
    refine h (a :: bs) b u (List.cons_prefix_cons.mpr ⟨rfl, hp⟩) ?_
    rw [run_cons, ht, Option.bind_some, hr]
  · rintro ⟨ha, h⟩ bs b u hp hr
    cases bs with
    | nil =>
        rw [run_nil, Option.some.injEq] at hr
        rw [List.nil_append, List.cons_prefix_cons] at hp
        exact hr ▸ hp.1 ▸ ha
    | cons c bs =>
        rw [List.cons_append, List.cons_prefix_cons] at hp
        rw [run_cons] at hr
        obtain ⟨t, ht, hr⟩ := Option.bind_eq_some_iff.mp hr
        exact h t (hp.1 ▸ ht) bs b u hp.2 hr

/-- Whether a schedule meets a condition is found by running it. -/
instance decidableEachStep (C : σ → α → Prop) [∀ s a, Decidable (C s a)] :
    ∀ (s : σ) (as : List α), Decidable (EachStep step C s as)
  | s, [] => isTrue (eachStep_nil C s)
  | s, a :: as =>
      match h : step s a with
      | none => decidable_of_iff (C s a) (by simp [eachStep_cons, h])
      | some t =>
          have := decidableEachStep C t as
          decidable_of_iff (C s a ∧ EachStep step C t as) (by simp [eachStep_cons, h])

theorem exists_of_run_any {P : σ → Prop} [DecidablePred P] {s : σ} {as : List α}
    (h : (run step s as).any (fun t => decide (P t))) : ∃ t, run step s as = some t ∧ P t := by
  cases hr : run step s as with
  | none => rw [hr] at h; cases h
  | some t => exact ⟨t, rfl, of_decide_eq_true (by rwa [hr] at h)⟩

/-- Induction along a run. The invariant may mention the schedule taken so far
and the condition the last action met. -/
theorem run_induction {C : σ → α → Prop} {I : List α → σ → Prop} {s t : σ} {as : List α}
    (init : I [] s)
    (next : ∀ as t a u, run step s as = some t → I as t → C t a → step t a = some u →
      I (as ++ [a]) u)
    (cond : EachStep step C s as) (hrun : run step s as = some t) : I as t := by
  induction as using List.reverseRecOn generalizing t with
  | nil =>
      rw [run_nil, Option.some.injEq] at hrun
      exact hrun ▸ init
  | append_singleton as a ih =>
      rw [run_concat] at hrun
      obtain ⟨u, hu, ha⟩ := Option.bind_eq_some_iff.mp hrun
      have hI := ih (cond.take (List.prefix_append as [a])) hu
      exact next as u a t hu hI (cond as a u (List.prefix_refl _) hu) ha

/-- The plain invariant rule: initially true and kept by every allowed step. -/
theorem invariant {C : σ → α → Prop} {I : σ → Prop} {s t : σ} {as : List α}
    (init : I s) (next : ∀ t a u, I t → C t a → step t a = some u → I u)
    (cond : EachStep step C s as) (hrun : run step s as = some t) : I t :=
  run_induction (I := fun _ => I) init (fun _ t a u _ => next t a u) cond hrun

/-- The rule for what every step keeps. -/
theorem invariant_of_step {I : σ → Prop} {s t : σ} {as : List α} (init : I s)
    (next : ∀ t a u, I t → step t a = some u → I u) (hrun : run step s as = some t) : I t :=
  invariant (C := fun _ _ => True) init (fun t a u h _ => next t a u h)
    (fun _ _ _ _ _ => trivial) hrun

section Simulation
variable {step' : τ → α → Option τ} {f : σ → τ}

/-- A map that commutes with single steps commutes with runs. -/
theorem run_map (h : ∀ s a, step' (f s) a = (step s a).map f) (s : σ) (as : List α) :
    run step' (f s) as = (run step s as).map f := by
  induction as generalizing s with
  | nil => rfl
  | cons a as ih =>
      rw [run_cons, run_cons, h]
      cases step s a with
      | none => rfl
      | some t => exact ih t

theorem EachStep.of_map (h : ∀ s a, step' (f s) a = (step s a).map f)
    {C : τ → α → Prop} {s : σ} {as : List α} (hC : EachStep step' C (f s) as) :
    EachStep step (fun t a => C (f t) a) s as := by
  intro bs a t hp hr
  exact hC bs a (f t) hp (by rw [run_map h, hr, Option.map_some])

/-- A run of a component is one of the system that it is put into, if the system lets the
component take each of the steps. -/
theorem run_lift {β : Type*} {step' : τ → β → Option τ} {g : τ → σ} {lift : β → α}
    {C : β → Prop} (h : ∀ t b u, C b → step' t b = some u → step (g t) (lift b) = some (g u))
    {t u : τ} {bs : List β} (hrun : run step' t bs = some u) (hC : ∀ b ∈ bs, C b) :
    run step (g t) (bs.map lift) = some (g u) := by
  induction bs generalizing t with
  | nil =>
      cases hrun
      rfl
  | cons b bs ih =>
      rw [run_cons] at hrun
      obtain ⟨v, hv, hrun⟩ := Option.bind_eq_some_iff.mp hrun
      rw [List.map_cons, run_cons_of (h t b v (hC b List.mem_cons_self) hv)]
      exact ih hrun fun c hc => hC c (List.mem_cons_of_mem b hc)

end Simulation

section Projection
variable {β : Type*} {step' : τ → β → Option τ} {f : σ → τ} {part : α → Option β}

/-- A component of a system makes a run of its own: it takes the steps that are meant
for it and stays as it is in the others. -/
theorem run_filterMap
    (hon : ∀ s a t b, step s a = some t → part a = some b → step' (f s) b = some (f t))
    (hoff : ∀ s a t, step s a = some t → part a = none → f t = f s) {s t : σ} {as : List α}
    (hrun : run step s as = some t) : run step' (f s) (as.filterMap part) = some (f t) := by
  induction as generalizing s with
  | nil =>
      rw [run_nil, Option.some.injEq] at hrun
      rw [hrun, List.filterMap_nil, run_nil]
  | cons a as ih =>
      rw [run_cons] at hrun
      obtain ⟨u, hu, hrun⟩ := Option.bind_eq_some_iff.mp hrun
      cases hpart : part a with
      | none =>
          rw [List.filterMap_cons_none hpart, ← hoff s a u hu hpart]
          exact ih hrun
      | some b =>
          rw [List.filterMap_cons_some hpart, run_cons_of (hon s a u b hu hpart)]
          exact ih hrun

end Projection

end ContentPublishing.Transition
