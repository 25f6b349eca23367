import ContentPublishing.Lib.Effects
import Mathlib.Data.Nat.Basic

/-!
# Jobs that are tried several times

A worker tries a job until an attempt returns, throws an error marked as final,
or is the last one allowed. While an attempt runs, `attemptsMade` is the number
of failed attempts before it; after an ordinary error the job is tried again if
and only if `attemptsMade + 1 < attempts`.
-/
namespace ContentPublishing.Attempts
open Effects

variable {ε σ α : Type}

/-- Tries `process` for `made`, `made + 1`, …, at most `left` more times. -/
def tryFrom (final : ε → Bool) (process : ℕ → EStateM ε σ α) : ℕ → ℕ → EStateM ε σ α
  | 0, made => process made
  | left + 1, made =>
      tryCatch (process made) fun e =>
        if final e then throw e else tryFrom final process left (made + 1)

/-- The whole life of a job that allows this many attempts, at least one. -/
def runAttempts (final : ε → Bool) (process : ℕ → EStateM ε σ α) (attempts : ℕ) :
    EStateM ε σ α :=
  tryFrom final process (attempts - 1) 0

variable {final : ε → Bool} {process : ℕ → EStateM ε σ α} {s t : σ}

theorem exec_tryFrom_ok {a : α} {made : ℕ} (left : ℕ)
    (h : exec (process made) s = (.ok a, t)) :
    exec (tryFrom final process left made) s = (.ok a, t) := by
  cases left with
  | zero => exact h
  | succ left => exact exec_tryCatch _ h

theorem exec_tryFrom_retry {e : ε} {left made : ℕ} (h : exec (process made) s = (.error e, t))
    (he : final e = false) :
    exec (tryFrom final process (left + 1) made) s =
      exec (tryFrom final process left (made + 1)) t := by
  rw [tryFrom, exec_tryCatch_error _ h, if_neg (by simp [he])]

/-- A job whose every attempt fails for an ordinary reason fails for the last one. -/
theorem exec_tryFrom_fails {error : ℕ → ε} {left made : ℕ}
    (h : ∀ m, made ≤ m → m ≤ made + left → exec (process m) s = (.error (error m), s))
    (he : ∀ m, final (error m) = false) :
    exec (tryFrom final process left made) s = (.error (error (made + left)), s) := by
  induction left generalizing made with
  | zero => exact h made le_rfl le_rfl
  | succ left ih =>
      rw [exec_tryFrom_retry (h made le_rfl (Nat.le_add_right ..)) (he made), ih]
      · rw [Nat.add_right_comm, Nat.add_assoc]
      · exact fun m hm hle => h m (by omega) (by omega)

/-! ## What several attempts leave behind -/

/-- The attempts from `made` on lead to attempt `j`. -/
def Reaches (C : ℕ → Prop) (made j : ℕ) : Prop := made ≤ j ∧ ∀ m, made ≤ m → m < j → C m

theorem reaches_self (C : ℕ → Prop) (made : ℕ) : Reaches C made made := ⟨le_rfl, by omega⟩

theorem reaches_of_lt {C : ℕ → Prop} {made j : ℕ} (h : made < j) :
    Reaches C made j ↔ C made ∧ Reaches C (made + 1) j := by
  constructor
  · exact fun hj => ⟨hj.2 made le_rfl h, h, fun m hm => hj.2 m (by omega)⟩
  · rintro ⟨hC, hj⟩
    refine ⟨Nat.le_of_lt h, fun m hm hlt => ?_⟩
    rcases Nat.eq_or_lt_of_le hm with rfl | hm
    · exact hC
    · exact hj.2 m hm hlt

section History
variable {η : Type} {R : η → η → Prop} {new : ℕ → List η} {C : ℕ → Prop} [DecidablePred C]

/-- What the attempts add to a history, if attempt `m` adds `new m` and throws if `C m`. -/
def history (new : ℕ → List η) (C : ℕ → Prop) [DecidablePred C] : ℕ → ℕ → List η
  | 0, made => new made
  | left + 1, made => new made ++ if C made then history new C left (made + 1) else []

theorem mem_history {left made : ℕ} {a : η} :
    a ∈ history new C left made ↔ ∃ j ≤ made + left, Reaches C made j ∧ a ∈ new j := by
  induction left generalizing made with
  | zero =>
      refine ⟨fun h => ⟨made, le_rfl, reaches_self C made, h⟩, ?_⟩
      rintro ⟨j, hle, hj, ha⟩
      rwa [show j = made from Nat.le_antisymm hle hj.1] at ha
  | succ left ih =>
      rw [history, List.mem_append]
      constructor
      · rintro (h | h)
        · exact ⟨made, by omega, reaches_self C made, h⟩
        · split at h
          · next hC =>
              obtain ⟨j, hle, hj, ha⟩ := ih.mp h
              exact ⟨j, by omega, (reaches_of_lt hj.1).mpr ⟨hC, hj⟩, ha⟩
          · exact absurd h List.not_mem_nil
      · rintro ⟨j, hle, hj, ha⟩
        rcases Nat.eq_or_lt_of_le hj.1 with rfl | hlt
        · exact .inl ha
        · obtain ⟨hC, hj⟩ := (reaches_of_lt hlt).mp hj
          rw [if_pos hC]
          exact .inr (ih.mpr ⟨j, by omega, hj, ha⟩)

/-- A relation holds along the history if it holds within the attempts and between them. -/
theorem pairwise_history (hnew : ∀ m, (new m).Pairwise R) {left made : ℕ} :
    (history new C left made).Pairwise R ↔ ∀ i j, made ≤ i → i < j → j ≤ made + left →
      Reaches C made j → ∀ a ∈ new i, ∀ b ∈ new j, R a b := by
  induction left generalizing made with
  | zero => exact iff_of_true (hnew made) (by omega)
  | succ left ih =>
      rw [history, List.pairwise_append]
      constructor
      · rintro ⟨-, hrest, hcross⟩ i j hi hij hle hj a ha b hb
        obtain ⟨hC, hj⟩ := (reaches_of_lt (by omega)).mp hj
        rw [if_pos hC] at hrest hcross
        rcases Nat.eq_or_lt_of_le hi with rfl | hlt
        · exact hcross a ha b (mem_history.mpr ⟨j, by omega, hj, hb⟩)
        · exact ih.mp hrest i j hlt hij (by omega) hj a ha b hb
      · intro h
        refine ⟨hnew made, ?_, fun a ha b hb => ?_⟩
        · split
          · next hC =>
              exact ih.mpr fun i j hi hij hle hj =>
                h i j (by omega) hij (by omega) ((reaches_of_lt (by omega)).mpr ⟨hC, hj⟩)
          · exact List.Pairwise.nil
        · split at hb
          · next hC =>
              obtain ⟨j, hle, hj, hb⟩ := mem_history.mp hb
              exact h made j le_rfl hj.1 (by omega) ((reaches_of_lt hj.1).mpr ⟨hC, hj⟩) a ha b hb
          · exact absurd hb List.not_mem_nil

/-- The attempts leave behind what each of them does. -/
theorem log_tryFrom (log : σ → List η) (hlog : ∀ m s, log (exec (process m) s).2 = log s ++ new m)
    (hC : ∀ m s, Throws (process m) s ↔ C m) (hfinal : ∀ e, final e = false) (left made : ℕ)
    (s : σ) :
    log (exec (tryFrom final process left made) s).2 = log s ++ history new C left made := by
  induction left generalizing made s with
  | zero => exact hlog made s
  | succ left ih =>
      have hnew := hlog made s
      have hthrows := hC made s
      unfold Throws at hthrows
      cases h : exec (process made) s with
      | mk r t =>
          rw [h] at hnew hthrows
          cases r with
          | ok a =>
              rw [exec_tryFrom_ok _ h, history, if_neg (hthrows.not.mp (not_failed_ok a)), hnew,
                List.append_nil]
          | error e =>
              rw [exec_tryFrom_retry h (hfinal e), ih, hnew, history,
                if_pos (hthrows.mp (failed_error e)), List.append_assoc]

end History

end ContentPublishing.Attempts
