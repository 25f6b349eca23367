import ContentPublishing.Publisher.Publishing

/-!
# When the publish queue is paused

The check that finds no capacity pauses the queue. The check that finds capacity
again clears the timer and the flag, and the queue stays paused.
-/
namespace ContentPublishing.Publisher
open Effects

section Pausing
variable {capacityLimit : ICapacityLimit} {env : Env} {s : PublisherState}

theorem queuePaused_handleCapacityExhausted (h : env.fails .pause = none) :
    (exec (handleCapacityExhausted env) s).2.queuePaused = true := by
  rw [exec_handleCapacityExhausted h]
  exact keeps_scheduleCheck (P := fun t => t.queuePaused = true) (fun _ _ _ _ h => h) _ rfl

theorem queuePaused_handleCapacityRefilled :
    (exec handleCapacityRefilled s).2.queuePaused = s.queuePaused :=
  keeps_handleCapacityRefilled (P := fun t => t.queuePaused = s.queuePaused)
    (fun _ _ _ _ _ h => h) s rfl

/-- A check whose verdict is that capacity is exhausted. -/
def Exhausted (capacityLimit : ICapacityLimit) (env : Env) : Prop :=
  verdict capacityLimit env = .ok true

/-- After a check the queue is paused if it was before, or if capacity is exhausted. -/
theorem queuePaused_checkCapacity (h : env.fails .pause = none) :
    (exec (checkCapacity capacityLimit env) s).2.queuePaused = true ↔
      s.queuePaused = true ∨ Exhausted capacityLimit env := by
  unfold Exhausted
  cases hv : verdict capacityLimit env with
  | error e =>
      rw [exec_checkCapacity_error hv]
      simp
  | ok outOfCapacity =>
      rw [exec_checkCapacity hv]
      cases outOfCapacity with
      | true =>
          rw [exec_raise, if_pos rfl, queuePaused_handleCapacityExhausted h]
          simp
      | false =>
          rw [exec_raise, if_neg Bool.false_ne_true, queuePaused_handleCapacityRefilled]
          simp

/-- The checks of the service, one after another. -/
def runChecks (capacityLimit : ICapacityLimit) (checks : List Env) (s : PublisherState) :
    PublisherState :=
  checks.foldl (fun s env => (exec (checkCapacity capacityLimit env) s).2) s

theorem runChecks_append (checks : List Env) (env : Env) :
    runChecks capacityLimit (checks ++ [env]) s =
      (exec (checkCapacity capacityLimit env) (runChecks capacityLimit checks s)).2 := by
  rw [runChecks, List.foldl_append]
  rfl

/-- A queue that was paused once stays paused. -/
theorem queuePaused_runChecks {checks : List Env} (h : ∀ env ∈ checks, env.fails .pause = none) :
    (runChecks capacityLimit checks s).queuePaused = true ↔
      s.queuePaused = true ∨ ∃ env ∈ checks, Exhausted capacityLimit env := by
  induction checks using List.reverseRecOn with
  | nil => simp [runChecks]
  | append_singleton checks env ih =>
      rw [runChecks_append, queuePaused_checkCapacity (h env (by simp)),
        ih fun env' henv' => h env' (by simp [henv'])]
      simp [or_assoc, or_and_right, exists_or]

/-- After every check that comes to a verdict, the queue is paused if and only if
the verdict was that capacity is exhausted. -/
def PausedExactly (capacityLimit : ICapacityLimit) (checks : List Env) (s : PublisherState) :
    Prop :=
  ∀ before env, before ++ [env] <+: checks → ∀ outOfCapacity,
    verdict capacityLimit env = .ok outOfCapacity →
      (runChecks capacityLimit (before ++ [env]) s).queuePaused = outOfCapacity

/-- No check finds capacity after one that found none. -/
def NeverRefilled (capacityLimit : ICapacityLimit) (checks : List Env) : Prop :=
  checks.Pairwise fun earlier later => Exhausted capacityLimit earlier →
    verdict capacityLimit later ≠ .ok false

/-- A relation between earlier and later elements can be checked prefix by prefix. -/
theorem pairwise_iff_before {α : Type} {R : α → α → Prop} {l : List α} :
    l.Pairwise R ↔ ∀ before a, before ++ [a] <+: l → ∀ b ∈ before, R b a := by
  induction l using List.reverseRecOn with
  | nil => simp
  | append_singleton l c ih =>
      rw [List.pairwise_append, ih]
      constructor
      · rintro ⟨hl, -, hc⟩ before a hp b hb
        rcases List.prefix_concat_iff.mp hp with heq | hp
        · obtain ⟨rfl, hac⟩ := List.append_inj' heq rfl
          rw [List.singleton_inj.mp hac]
          exact hc b hb c (List.mem_singleton_self c)
        · exact hl before a hp b hb
      · refine fun h => ⟨fun before a hp => h before a (hp.trans (List.prefix_append _ _)),
          List.pairwise_singleton R c, fun b hb a ha => ?_⟩
        rw [List.mem_singleton.mp ha]
        exact h l c (List.prefix_refl _) b hb

/-- Exactly when the queue is paused as it should be. -/
theorem pausedExactly_iff {checks : List Env} (hpause : ∀ env ∈ checks, env.fails .pause = none)
    (hs : s.queuePaused = false) :
    PausedExactly capacityLimit checks s ↔ NeverRefilled capacityLimit checks := by
  have hstate : ∀ before env, before ++ [env] <+: checks →
      ((runChecks capacityLimit (before ++ [env]) s).queuePaused = true ↔
        (∃ e ∈ before, Exhausted capacityLimit e) ∨ Exhausted capacityLimit env) := by
    intro before env hp
    rw [queuePaused_runChecks fun e he => hpause e (hp.subset he), hs]
    simp [or_and_right, exists_or]
  unfold NeverRefilled
  rw [pairwise_iff_before]
  constructor
  · intro h before env hp earlier hmem hexhausted hrefilled
    have hpaused := (hstate before env hp).mpr (.inl ⟨earlier, hmem, hexhausted⟩)
    rw [h before env hp false hrefilled] at hpaused
    cases hpaused
  · intro h before env hp outOfCapacity hv
    cases outOfCapacity with
    | true => exact (hstate before env hp).mpr (.inr hv)
    | false =>
        rw [← Bool.not_eq_true, hstate before env hp]
        rintro (⟨earlier, hmem, hexhausted⟩ | hexhausted)
        · exact h before env hp earlier hmem hexhausted hv
        · cases hv.symm.trans hexhausted

/-- Two checks that find capacity, and one that finds none. -/
theorem pausedExactly_sample :
    PausedExactly .sample [.sample 500, .sample 400, .sample 0] .start := by
  refine (pausedExactly_iff (fun env henv => ?_) rfl).mpr ?_
  · simp only [List.mem_cons, List.not_mem_nil, or_false] at henv
    rcases henv with rfl | rfl | rfl <;> rfl
  · unfold NeverRefilled Exhausted
    decide

/-- The second check finds capacity again. -/
theorem not_pausedExactly_refilled :
    ¬ PausedExactly .sample [.sample 0, .sample 500] .start := by
  intro h
  have hrunning := h [.sample 0] (.sample 500) (List.prefix_refl _) false rfl
  revert hrunning
  decide

end Pausing

end ContentPublishing.Publisher
