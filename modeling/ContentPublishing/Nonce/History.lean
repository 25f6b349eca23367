import ContentPublishing.Nonce.Uniqueness

/-!
# The calls of the last two seconds

A key is live exactly as long as a call reserved it within its lifetime, so the script
needs no memory but the history of the calls. What a call returns can be told from the
chain nonce it was answered and from the reservations of the last two seconds: the least
nonce whose key none of them holds. A nonce that was skipped, because the transaction
was not sent after all, is handed out again as soon as its reservation has run out.
-/
namespace ContentPublishing.Nonce
open Transition Expiring

/-- One of the calls reserved the key, and its lifetime is not over. -/
def Held (calls : List Issued) (now : ℕ) (key : String) : Prop :=
  ∃ y ∈ calls, y.key? = some key ∧ now ≤ y.time + nonceKeyExpireMs

instance (calls : List Issued) (now : ℕ) (key : String) : Decidable (Held calls now key) :=
  inferInstanceAs (Decidable (∃ _ ∈ _, _))

theorem held_concat {calls : List Issued} {x : Issued} {now : ℕ} {key : String} :
    Held (calls ++ [x]) now key ↔
      Held calls now key ∨ (x.key? = some key ∧ now ≤ x.time + nonceKeyExpireMs) := by
  simp [Held, or_and_right, exists_or]

/-- The call returned the least nonce that is not held, or the one after a window that is
held throughout. -/
def LeastUnheld (before : List Issued) (x : Issued) : Prop :=
  (∃ k < numberOfNonceKeysToCheck, x.value = x.nonce + k ∧
      ¬ Held before x.time (windowKey x.nonce k) ∧
      ∀ i < k, Held before x.time (windowKey x.nonce i)) ∨
    (x.value = x.nonce + numberOfNonceKeysToCheck ∧
      ∀ i < numberOfNonceKeysToCheck, Held before x.time (windowKey x.nonce i))

/-- Redis remembers what the history says, and each call did as the history before it says. -/
structure Told (s : State) : Prop where
  past : ∀ x ∈ s.issued, x.time ≤ s.clock
  live_iff : ∀ key later, s.clock ≤ later →
    (live s.redis later key = true ↔ Held s.issued later key)
  least : ∀ before x, before ++ [x] <+: s.issued → LeastUnheld before x

namespace Told
variable {s t : State}

theorem initial (chainNonce : ℕ) : Told (start chainNonce) where
  past _ hx := by cases hx
  live_iff key later _ := by simp [live, Held, start]
  least before x h := by simp [start] at h

theorem tick (h : Told s) (ms : ℕ) : Told { s with clock := s.clock + ms } where
  past x hx := (h.past x hx).trans (Nat.le_add_right ..)
  live_iff key later hlater := h.live_iff key later ((Nat.le_add_right ..).trans hlater)
  least := h.least

/-- The history grows by a call that did as it says. -/
theorem issue (h : Told s) (i : CallId) (nonce : ℕ) (reply : ℤ) (r : Keyspace String ℕ)
    (hlive : ∀ key later, s.clock ≤ later → (live r later key = true ↔
      Held (s.issued ++ [⟨s.clock, nonce, reply⟩]) later key))
    (hleast : LeastUnheld s.issued ⟨s.clock, nonce, reply⟩) : Told (s.issue i nonce reply r) where
  past := List.forall_mem_append.mpr ⟨h.past, by simp [State.issue]⟩
  live_iff := hlive
  least before x hprefix := by
    rcases List.prefix_concat_iff.mp hprefix with heq | hprefix
    · obtain ⟨hbefore, hx⟩ := List.append_inj' heq rfl
      cases hx
      exact hbefore ▸ hleast
    · exact h.least before x hprefix

/-- The whole window is live, so it is held. -/
theorem issue_full (h : Told s) (i : CallId) (nonce : ℕ)
    (hall : ∀ k < numberOfNonceKeysToCheck, live s.redis s.clock (windowKey nonce k) = true) :
    Told (s.issue i nonce (-1) s.redis) := by
  refine h.issue i nonce (-1) s.redis (fun key later hlater => ?_) ?_
  · rw [h.live_iff key later hlater, held_concat, Issued.key?_full]
    simp
  · exact .inr ⟨Issued.value_full .., fun k hk => (h.live_iff _ _ le_rfl).mp (hall k hk)⟩

/-- The key of the least position that is not held becomes live, and stays so for its
lifetime. -/
theorem issue_reserved (h : Told s) (i : CallId) (nonce : ℕ) {k : ℕ}
    (hk : k < numberOfNonceKeysToCheck)
    (hfree : live s.redis s.clock (windowKey nonce k) = false)
    (hbefore : ∀ j < k, live s.redis s.clock (windowKey nonce j) = true) :
    Told (s.issue i nonce ((k + 1 : ℕ) : ℤ)
      (setex s.redis s.clock (windowKey nonce k) nonceKeyExpireSeconds 1)) := by
  refine h.issue i nonce _ _ (fun key later hlater => ?_) (.inl ⟨k, hk, ?_, ?_, ?_⟩)
  · rw [held_concat, Issued.key?_reserved s.clock nonce hk]
    by_cases hkey : key = windowKey nonce k
    · subst key
      rw [Expiring.live_iff, setex_self]
      constructor
      · rintro ⟨e, ⟨⟩, hlater⟩
        exact .inr ⟨rfl, hlater⟩
      · rintro (⟨y, hy, _, hlater⟩ | ⟨-, hlater⟩)
        · exact ⟨_, rfl, hlater.trans (Nat.add_le_add_right (h.past y hy) _)⟩
        · exact ⟨_, rfl, hlater⟩
    · rw [live_setex_of_ne _ _ _ _ hkey, h.live_iff key later hlater, Option.some.injEq]
      simp [Ne.symm hkey]
  · exact Issued.value_reserved ..
  · rw [← h.live_iff _ _ le_rfl, hfree]
    exact Bool.false_ne_true
  · exact fun j hj => (h.live_iff _ _ le_rfl).mp (hbefore j hj)

theorem step (h : Told s) {a : Action} (hstep : Nonce.step s a = some t) : Told t := by
  cases a with
  | tick ms =>
      cases hstep
      exact h.tick ms
  | advance transactions =>
      cases hstep
      exact ⟨h.past, h.live_iff, h.least⟩
  | getNonce i =>
      simp only [Nonce.step, Option.ite_none_left_eq_some, Option.some.injEq] at hstep
      obtain ⟨-, rfl⟩ := hstep
      exact ⟨h.past, h.live_iff, h.least⟩
  | incrementNonce i =>
      simp only [Nonce.step] at hstep
      split at hstep
      · next nonce _ =>
          cases hstep
          rcases reserve_cases s.clock nonce s.redis with
            ⟨hall, heq⟩ | ⟨k, hk, hfree, hbefore, heq⟩
          · rw [heq]
            exact h.issue_full i nonce hall
          · rw [heq]
            exact h.issue_reserved i nonce hk hfree hbefore
      · cases hstep
  | throw i =>
      simp only [Nonce.step, Option.ite_none_right_eq_some, Option.some.injEq] at hstep
      obtain ⟨-, rfl⟩ := hstep
      exact ⟨h.past, h.live_iff, h.least⟩

end Told

theorem told_of_run {chainNonce : ℕ} {as : List Action} {s : State}
    (hrun : run step (start chainNonce) as = some s) : Told s :=
  invariant_of_step (Told.initial chainNonce) (fun _ _ _ h hs => h.step hs) hrun

/-- Every call returns the least nonce, from the one it was answered on, whose key no call
of the last two seconds reserved. -/
theorem leastUnheld_of_run {chainNonce : ℕ} {as : List Action} {s : State}
    (h : run step (start chainNonce) as = some s) {before : List Issued} {x : Issued}
    (hx : before ++ [x] <+: s.issued) : LeastUnheld before x :=
  (told_of_run h).least before x hx

/-- The nonce 7 is skipped. It is not handed out to the next call, and again two seconds
later. -/
theorem leastUnheld_skipped : ∃ s x y z, run step (start 7) [.getNonce 0, .incrementNonce 0,
      .getNonce 0, .incrementNonce 0, .tick 2001, .getNonce 0, .incrementNonce 0] = some s ∧
    s.issued = [x, y, z] ∧ z.value = 7 ∧ LeastUnheld [x, y] z := by
  obtain ⟨s, hs, hissued⟩ : ∃ s, run step (start 7) [.getNonce 0, .incrementNonce 0,
      .getNonce 0, .incrementNonce 0, .tick 2001, .getNonce 0, .incrementNonce 0] = some s ∧
      s.issued = [⟨0, 7, 1⟩, ⟨0, 7, 2⟩, ⟨2001, 7, 1⟩] := exists_of_run_any (by decide +kernel)
  exact ⟨s, _, _, _, hs, hissued, rfl, leastUnheld_of_run hs (hissued ▸ List.prefix_refl _)⟩

/-! ## What keeps the calls apart -/

/-- The call reserved the key of a position of its window that was not held and answered
with that nonce, or found its whole window held, reserved nothing and answered with the
nonce after it. -/
def ReservesUnheld (before : List Issued) (x : Issued) : Prop :=
  (∃ i < numberOfNonceKeysToCheck, ¬ Held before x.time (windowKey x.nonce i) ∧
      x.key? = some (windowKey x.nonce i) ∧ x.value = x.nonce + i) ∨
    ((∀ i < numberOfNonceKeysToCheck, Held before x.time (windowKey x.nonce i)) ∧
      x.key? = none ∧ x.value = x.nonce + numberOfNonceKeysToCheck)

theorem reservesUnheld_of_leastUnheld {before : List Issued} {x : Issued} (hx : x.Allocated)
    (h : LeastUnheld before x) : ReservesUnheld before x := by
  rcases h with ⟨k, hk, hvalue, hunheld, -⟩ | ⟨hvalue, hheld⟩
  · rcases hx with ⟨-, hfull⟩ | ⟨i, hi, hkey, hreserved⟩
    · omega
    · obtain rfl : i = k := by omega
      exact .inl ⟨i, hi, hunheld, hkey, hvalue⟩
  · rcases hx with ⟨hkey, -⟩ | ⟨i, hi, -, hreserved⟩
    · exact .inr ⟨hheld, hkey, hvalue⟩
    · omega

/-- Whatever the chain answers and however the calls interleave: each call reserves a free
key of its window or meets a full window, the keys in Redis are those that were reserved
within their lifetime, and no key is reserved twice within its lifetime. -/
theorem apart_of_run (chainNonce : ℕ) (as : List Action) (s : State)
    (hrun : run step (start chainNonce) as = some s) :
    (∀ before x, before ++ [x] <+: s.issued → ReservesUnheld before x) ∧
      (∀ key later, s.clock ≤ later →
        (live s.redis later key = true ↔ Held s.issued later key)) ∧
      s.issued.Pairwise Issued.Apart := by
  have hreserved := reserved_of_run hrun
  have htold := told_of_run hrun
  refine ⟨fun before x hprefix => ?_, htold.live_iff, hreserved.apart⟩
  have hmem : x ∈ s.issued :=
    hprefix.subset (List.mem_append_right _ (List.mem_singleton_self x))
  exact reservesUnheld_of_leastUnheld (hreserved.allocated x hmem) (htold.least before x hprefix)

/-- Two overlapping calls from the same chain nonce. -/
theorem apart_two_calls : ∃ s, run step (start 7)
      [.getNonce 0, .getNonce 1, .advance 1, .incrementNonce 1, .incrementNonce 0] = some s ∧
    (∀ before x, before ++ [x] <+: s.issued → ReservesUnheld before x) ∧
    (∀ key later, s.clock ≤ later →
      (live s.redis later key = true ↔ Held s.issued later key)) ∧
    s.issued.Pairwise Issued.Apart := by
  obtain ⟨s, hs⟩ := Option.isSome_iff_exists.mp
    (by decide +kernel : (run step (start 7)
      [.getNonce 0, .getNonce 1, .advance 1, .incrementNonce 1, .incrementNonce 0]).isSome)
  exact ⟨s, hs, apart_of_run 7 _ s hs⟩

end ContentPublishing.Nonce
