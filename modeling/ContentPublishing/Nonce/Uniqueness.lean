import ContentPublishing.Lib.Transition
import ContentPublishing.Nonce.Service

/-!
# Nonces handed out at nearly the same time

Workers read the chain nonce and run the script at separate moments, so a call
may work from a nonce the chain has left behind. A key that one call reserved is
not reserved again within its lifetime. A call that finds its whole window
reserved gives up: it reserves nothing and answers the nonce after the window.
-/
namespace ContentPublishing.Nonce
open Transition Expiring

def nonceKeyExpireMs : ℕ := nonceKeyExpireSeconds * 1000

/-- One call of `getNextNonce` whose script has run: when, from which chain
nonce, and with which reply. -/
structure Issued where
  time : ℕ
  nonce : ℕ
  reply : ℤ
  deriving DecidableEq, Repr

namespace Issued

def value (x : Issued) : ℤ := nextNonce x.nonce x.reply

/-- The key that the call reserved, none if the window was full. -/
def key? (x : Issued) : Option String :=
  if x.reply = -1 then none else (getNextPossibleKeys x.nonce)[(x.reply - 1).toNat]?

theorem value_full (time nonce : ℕ) :
    (⟨time, nonce, -1⟩ : Issued).value = nonce + numberOfNonceKeysToCheck := by
  simp [value, nextNonce]

theorem key?_full (time nonce : ℕ) : (⟨time, nonce, -1⟩ : Issued).key? = none := if_pos rfl

theorem value_reserved (time nonce i : ℕ) :
    (⟨time, nonce, ((i + 1 : ℕ) : ℤ)⟩ : Issued).value = nonce + i := by
  have hne : ((i + 1 : ℕ) : ℤ) ≠ -1 := by omega
  simp only [value, nextNonce, if_neg hne]
  omega

theorem key?_reserved (time nonce : ℕ) {i : ℕ} (hi : i < numberOfNonceKeysToCheck) :
    (⟨time, nonce, ((i + 1 : ℕ) : ℤ)⟩ : Issued).key? = some (windowKey nonce i) := by
  have hne : ((i + 1 : ℕ) : ℤ) ≠ -1 := by omega
  have hindex : (((i + 1 : ℕ) : ℤ) - 1).toNat = i := by omega
  simp only [key?, if_neg hne, hindex]
  exact getElem?_getNextPossibleKeys nonce hi

/-- The call reserved the key of its own position in the window, or found the
window full and answered the nonce after it. -/
def Allocated (x : Issued) : Prop :=
  (x.key? = none ∧ x.value = x.nonce + numberOfNonceKeysToCheck) ∨
    ∃ i < numberOfNonceKeysToCheck, x.key? = some (windowKey x.nonce i) ∧ x.value = x.nonce + i

/-- Within the lifetime of a key no other call reserves it, and calls from the same
chain nonce return different nonces unless both found the window full. -/
def Apart (x y : Issued) : Prop :=
  y.time < x.time + nonceKeyExpireMs →
    (∀ key, x.key? = some key → y.key? ≠ some key) ∧
      (x.nonce = y.nonce → x.value = y.value → x.key? = none ∧ y.key? = none)

/-- Calls that reserve different keys are apart. -/
theorem apart_of_keys {x y : Issued} (hx : x.Allocated) (hy : y.Allocated)
    (h : y.time < x.time + nonceKeyExpireMs → ∀ key, x.key? = some key → y.key? ≠ some key) :
    Apart x y := by
  intro htime
  refine ⟨h htime, fun hnonce hvalue => ?_⟩
  rcases hx with ⟨hxkey, hxvalue⟩ | ⟨i, hi, hxkey, hxvalue⟩
  · rcases hy with ⟨hykey, _⟩ | ⟨j, hj, _, hyvalue⟩
    · exact ⟨hxkey, hykey⟩
    · rw [hxvalue, hyvalue, hnonce] at hvalue
      omega
  · rcases hy with ⟨_, hyvalue⟩ | ⟨j, hj, hykey, hyvalue⟩
    · rw [hxvalue, hyvalue, hnonce] at hvalue
      omega
    · have hij : i = j := by
        rw [hxvalue, hyvalue, hnonce] at hvalue
        omega
      subst j
      rw [← hnonce] at hykey
      exact absurd hykey (h htime _ hxkey)

end Issued

abbrev CallId := ℕ

/-- An in-flight call holds the chain nonce it was answered. `issued` is the
history of the script. -/
structure State where
  redis : Keyspace String ℕ
  chainNonce : ℕ
  calls : CallId → Option ℕ
  clock : ℕ
  issued : List Issued

/-- Nothing reserved, and any nonce on the chain. -/
def start (chainNonce : ℕ) : State := ⟨fun _ => none, chainNonce, fun _ => none, 0, []⟩

inductive Action where
  | tick (ms : ℕ)
  | advance (transactions : ℕ)
  | getNonce (i : CallId)
  | incrementNonce (i : CallId)
  | throw (i : CallId)
  deriving DecidableEq, Repr

/-- The end of a call, with the reply of its script. -/
def State.issue (s : State) (i : CallId) (nonce : ℕ) (reply : ℤ) (r : Keyspace String ℕ) : State :=
  { s with
    redis := r
    calls := Function.update s.calls i none
    issued := s.issued ++ [⟨s.clock, nonce, reply⟩] }

@[simp] theorem State.calls_issue (s : State) (i : CallId) (nonce : ℕ) (reply : ℤ)
    (r : Keyspace String ℕ) : (s.issue i nonce reply r).calls i = none :=
  Function.update_self ..

/-- One atomic step: time passes, the account's transactions are included, one
call is answered by the chain, its script runs, or it fails. -/
def step (s : State) : Action → Option State
  | .tick ms => some { s with clock := s.clock + ms }
  | .advance transactions => some { s with chainNonce := s.chainNonce + transactions }
  | .getNonce i =>
      if (s.calls i).isSome then none
      else some { s with calls := Function.update s.calls i (some s.chainNonce) }
  | .incrementNonce i =>
      match s.calls i with
      | some nonce =>
          some (s.issue i nonce (reserve s.clock nonce s.redis).1
            (reserve s.clock nonce s.redis).2)
      | none => none
  | .throw i =>
      if (s.calls i).isSome then some { s with calls := Function.update s.calls i none } else none

/-- No two calls whose scripts run within the lifetime of a key return the same
nonce. -/
def Unique (s : State) : Prop :=
  s.issued.Pairwise fun x y => y.time < x.time + nonceKeyExpireMs → x.value ≠ y.value

instance (s : State) : Decidable (Unique s) := inferInstanceAs (Decidable (List.Pairwise _ _))

/-- Every reservation is remembered by its key for the key's lifetime. -/
structure Reserved (s : State) : Prop where
  past : ∀ x ∈ s.issued, x.time ≤ s.clock
  allocated : ∀ x ∈ s.issued, x.Allocated
  kept : ∀ x ∈ s.issued, ∀ key, x.key? = some key →
    live s.redis (x.time + nonceKeyExpireMs) key = true
  apart : s.issued.Pairwise Issued.Apart

namespace Reserved
variable {s : State}

theorem initial (chainNonce : ℕ) : Reserved (start chainNonce) :=
  ⟨fun _ hx => (by cases hx), fun _ hx => (by cases hx), fun _ hx => (by cases hx),
    List.Pairwise.nil⟩

/-- A call that found the window full leaves every key as it is. -/
theorem issue_full (h : Reserved s) (i : CallId) (nonce : ℕ) :
    Reserved (s.issue i nonce (-1) s.redis) := by
  have hfull : (⟨s.clock, nonce, -1⟩ : Issued).Allocated :=
    .inl ⟨Issued.key?_full .., Issued.value_full ..⟩
  refine ⟨?_, ?_, ?_, ?_⟩
  · exact List.forall_mem_append.mpr ⟨h.past, by simp [State.issue]⟩
  · exact List.forall_mem_append.mpr ⟨h.allocated, by simpa using hfull⟩
  · refine List.forall_mem_append.mpr ⟨h.kept, fun x hx key hkey => ?_⟩
    rw [List.mem_singleton] at hx
    subst x
    rw [Issued.key?_full] at hkey
    cases hkey
  · refine List.pairwise_append.mpr ⟨h.apart, List.pairwise_singleton .., fun x hx y hy => ?_⟩
    rw [List.mem_singleton] at hy
    subst y
    apply Issued.apart_of_keys (h.allocated x hx) hfull
    intro _ key _
    rw [Issued.key?_full]
    exact fun hkey => (by cases hkey)

/-- A reserved key was not live, so no call reserved it within its lifetime. -/
theorem issue_reserved (h : Reserved s) (i : CallId) (nonce : ℕ) {k : ℕ}
    (hk : k < numberOfNonceKeysToCheck) (hfree : live s.redis s.clock (windowKey nonce k) = false) :
    Reserved (s.issue i nonce ((k + 1 : ℕ) : ℤ)
      (setex s.redis s.clock (windowKey nonce k) nonceKeyExpireSeconds 1)) := by
  have hkey := Issued.key?_reserved s.clock nonce hk
  have hnew : (⟨s.clock, nonce, ((k + 1 : ℕ) : ℤ)⟩ : Issued).Allocated :=
    .inr ⟨k, hk, hkey, Issued.value_reserved ..⟩
  refine ⟨?_, ?_, ?_, ?_⟩
  · exact List.forall_mem_append.mpr ⟨h.past, by simp [State.issue]⟩
  · exact List.forall_mem_append.mpr ⟨h.allocated, by simpa using hnew⟩
  · refine List.forall_mem_append.mpr ⟨fun x hx key hxkey => ?_, fun x hx key hxkey => ?_⟩
    · have hlater : x.time + nonceKeyExpireMs ≤ s.clock + nonceKeyExpireSeconds * 1000 :=
        Nat.add_le_add_right (h.past x hx) _
      exact live_setex (h.kept x hx key hxkey) _ _ hlater
    · rw [List.mem_singleton] at hx
      subst x
      rw [hkey, Option.some.injEq] at hxkey
      subst key
      have hlater : s.clock + nonceKeyExpireMs ≤ s.clock + nonceKeyExpireSeconds * 1000 := le_rfl
      exact live_setex_self _ _ _ _ _ hlater
  · refine List.pairwise_append.mpr ⟨h.apart, List.pairwise_singleton .., fun x hx y hy => ?_⟩
    rw [List.mem_singleton] at hy
    subst y
    apply Issued.apart_of_keys (h.allocated x hx) hnew
    intro htime key hxkey hsame
    rw [hkey, Option.some.injEq] at hsame
    subst key
    have hlive := live_of_le (h.kept x hx _ hxkey) (Nat.le_of_lt htime)
    rw [hfree] at hlive
    cases hlive

theorem step (h : Reserved s) {a : Action} {t : State} (hst : Nonce.step s a = some t) :
    Reserved t := by
  cases a with
  | tick ms =>
      have ht := Option.some.inj hst
      subst t
      exact ⟨fun x hx => (h.past x hx).trans (Nat.le_add_right ..), h.allocated, h.kept, h.apart⟩
  | advance transactions =>
      have ht := Option.some.inj hst
      subst t
      exact ⟨h.past, h.allocated, h.kept, h.apart⟩
  | getNonce i =>
      simp only [Nonce.step, Option.ite_none_left_eq_some, Option.some.injEq] at hst
      obtain ⟨_, rfl⟩ := hst
      exact ⟨h.past, h.allocated, h.kept, h.apart⟩
  | incrementNonce i =>
      simp only [Nonce.step] at hst
      split at hst
      · next nonce _ =>
          have ht := Option.some.inj hst
          subst t
          rcases reserve_cases s.clock nonce s.redis with ⟨_, heq⟩ | ⟨k, hk, hfree, _, heq⟩
          · rw [heq]
            exact h.issue_full i nonce
          · rw [heq]
            exact h.issue_reserved i nonce hk hfree
      · cases hst
  | throw i =>
      simp only [Nonce.step, Option.ite_none_right_eq_some, Option.some.injEq] at hst
      obtain ⟨_, rfl⟩ := hst
      exact ⟨h.past, h.allocated, h.kept, h.apart⟩

end Reserved

theorem reserved_of_run {chainNonce : ℕ} {as : List Action} {s : State}
    (hrun : run step (start chainNonce) as = some s) : Reserved s :=
  invariant_of_step (Reserved.initial chainNonce) (fun _ _ _ h hs => h.step hs) hrun

/-- From two chain nonces the same nonce has two keys, and apart is all they are:
the nonce 6 is reserved once as the second of 5 and once as the first of 6. -/
example : ∃ s, run step (start 5) [.getNonce 0, .incrementNonce 0, .getNonce 0, .incrementNonce 0,
      .advance 1, .getNonce 0, .incrementNonce 0] = some s ∧
    s.issued.map Issued.value = [5, 6, 6] ∧ s.issued.map Issued.key? =
      [some "chain:nonce:50", some "chain:nonce:51", some "chain:nonce:60"] :=
  exists_of_run_any (by decide +kernel)

/-! ## A full window -/

/-- That many complete calls, one after the other. -/
def fill : ℕ → List Action
  | 0 => []
  | k + 1 => fill k ++ [.getNonce 0, .incrementNonce 0]

theorem run_call {s : State} (hidle : s.calls 0 = none) :
    run step s [.getNonce 0, .incrementNonce 0] =
      some (s.issue 0 s.chainNonce (reserve s.clock s.chainNonce s.redis).1
        (reserve s.clock s.chainNonce s.redis).2) := by
  simp [run, step, hidle, State.issue]

/-- After `k` calls at one moment the first `k` positions of the window are live. -/
theorem run_fill (n : ℕ) {k : ℕ} (hk : k ≤ numberOfNonceKeysToCheck) :
    ∃ s, run step (start n) (fill k) = some s ∧ s.calls 0 = none ∧ s.chainNonce = n ∧
      s.clock = 0 ∧ ∀ i < k, live s.redis 0 (windowKey n i) = true := by
  induction k with
  | zero => exact ⟨start n, rfl, rfl, rfl, rfl, fun i hi => absurd hi (Nat.not_lt_zero i)⟩
  | succ k ih =>
      obtain ⟨s, hrun, hidle, hnonce, hclock, hlive⟩ := ih (Nat.le_of_succ_le hk)
      have hcall := run_call hidle
      rw [hnonce, hclock] at hcall
      refine ⟨s.issue 0 n (reserve 0 n s.redis).1 (reserve 0 n s.redis).2, ?_,
        State.calls_issue .., hnonce, hclock, fun i hi => ?_⟩
      · rw [fill, run_append, hrun, Option.bind_some, hcall]
      rcases reserve_cases 0 n s.redis with ⟨hall, heq⟩ | ⟨j, hj, hfree, hbefore, heq⟩
      · simp only [State.issue, heq]
        exact hall i (hi.trans_le hk)
      · simp only [State.issue, heq]
        have hkj : k ≤ j := by
          by_contra hlt
          rw [hlive j (not_le.mp hlt)] at hfree
          cases hfree
        by_cases hij : i = j
        · subst i
          exact live_setex_self _ _ _ _ _ (Nat.zero_le _)
        · exact live_setex (hbefore i (by omega)) _ _ (Nat.zero_le _)

/-- Once the window is full, every further call returns the nonce after it. -/
theorem not_unique_full : ∃ as s, run step (start 0) as = some s ∧ ¬ Unique s := by
  obtain ⟨s, hrun, hidle, hnonce, hclock, hlive⟩ := run_fill 0 le_rfl
  have hfull : reserve 0 0 s.redis = (-1, s.redis) := by
    rcases reserve_cases 0 0 s.redis with ⟨_, heq⟩ | ⟨i, hi, hfree, _⟩
    · exact heq
    · rw [hlive i hi] at hfree
      cases hfree
  have hfirst := run_call hidle
  rw [hnonce, hclock, hfull] at hfirst
  have hsecond := run_call (s := s.issue 0 0 (-1) s.redis) (State.calls_issue ..)
  have hstate : (s.issue 0 0 (-1) s.redis).chainNonce = 0 ∧
      (s.issue 0 0 (-1) s.redis).clock = 0 ∧ (s.issue 0 0 (-1) s.redis).redis = s.redis :=
    ⟨hnonce, hclock, rfl⟩
  rw [hstate.1, hstate.2.1, hstate.2.2, hfull] at hsecond
  refine ⟨fill numberOfNonceKeysToCheck ++ ([.getNonce 0, .incrementNonce 0] ++
    [.getNonce 0, .incrementNonce 0]), (s.issue 0 0 (-1) s.redis).issue 0 0 (-1) s.redis, ?_,
    fun hunique => ?_⟩
  · rw [run_append, hrun, Option.bind_some, run_append, hfirst, Option.bind_some]
    exact hsecond
  · have hlater : s.clock < s.clock + nonceKeyExpireMs := Nat.lt_add_of_pos_right (by decide)
    have hpair := (List.pairwise_append.mp hunique).2.2 ⟨s.clock, 0, -1⟩
      (List.mem_append_right _ (List.mem_singleton_self _)) _ (List.mem_singleton_self _)
    exact hpair hlater rfl

end ContentPublishing.Nonce
