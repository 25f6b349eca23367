import Mathlib.Data.Nat.Notation
import Mathlib.Logic.Function.Basic

/-!
# Redis strings with an expiry

A key is present from the moment it is written until its expiry time has passed,
in milliseconds. The clock is an argument of every command.
-/
namespace ContentPublishing.Expiring

structure Entry (V : Type) where
  value : V
  expiresAt : ℕ
  deriving DecidableEq, Repr

/-- Entries stay in the keyspace after their expiry; commands no longer see them. -/
abbrev Keyspace (K V : Type) := K → Option (Entry V)

variable {K V : Type}

/-- `EXISTS key` at the given time. -/
def live (r : Keyspace K V) (now : ℕ) (key : K) : Bool :=
  (r key).any fun e => now ≤ e.expiresAt

theorem live_iff {r : Keyspace K V} {now : ℕ} {key : K} :
    live r now key = true ↔ ∃ e, r key = some e ∧ now ≤ e.expiresAt := by
  simp [live, Option.any_eq_true]

/-- What has not expired later has not expired now. -/
theorem live_of_le {r : Keyspace K V} {now later : ℕ} {key : K}
    (h : live r later key = true) (hle : now ≤ later) : live r now key = true := by
  obtain ⟨e, he, hlive⟩ := live_iff.mp h
  exact live_iff.mpr ⟨e, he, Nat.le_trans hle hlive⟩

/-- `GET key`. -/
def get (r : Keyspace K V) (now : ℕ) (key : K) : Option V :=
  ((r key).filter fun e => now ≤ e.expiresAt).map Entry.value

theorem of_get {r : Keyspace K V} {now : ℕ} {key : K} {value : V}
    (h : get r now key = some value) : ∃ e, r key = some e ∧ e.value = value := by
  obtain ⟨e, he, rfl⟩ := Option.map_eq_some_iff.mp h
  exact ⟨e, (Option.filter_eq_some_iff.mp he).1, rfl⟩

theorem get_of_expired {r : Keyspace K V} {now : ℕ} {key : K}
    (h : ∀ e, r key = some e → e.expiresAt < now) : get r now key = none := by
  rw [get, Option.map_eq_none_iff, Option.filter_eq_none_iff]
  exact fun e he => by simpa using h e he

/-- `PTTL key`: what remains of the lifetime, and nothing where there is no key. -/
def ttl (r : Keyspace K V) (now : ℕ) (key : K) : ℕ := (r key).elim 0 fun e => e.expiresAt - now

theorem ttl_of_some {r : Keyspace K V} {key : K} {e : Entry V} (h : r key = some e) (now : ℕ) :
    ttl r now key = e.expiresAt - now := by
  rw [ttl, h, Option.elim_some]

theorem ttl_of_none {r : Keyspace K V} {key : K} (h : r key = none) (now : ℕ) :
    ttl r now key = 0 := by
  rw [ttl, h, Option.elim_none]

theorem ttl_congr {r r' : Keyspace K V} {key : K} (h : r key = r' key) (now : ℕ) :
    ttl r now key = ttl r' now key := by
  rw [ttl, ttl, h]

/-- Lifetimes run down. -/
theorem ttl_anti (r : Keyspace K V) (key : K) {now later : ℕ} (h : now ≤ later) :
    ttl r later key ≤ ttl r now key := by
  cases hkey : r key with
  | none => exact Nat.le_of_eq ((ttl_of_none hkey later).trans (ttl_of_none hkey now).symm)
  | some e =>
      rw [ttl_of_some hkey, ttl_of_some hkey]
      exact Nat.sub_le_sub_left h e.expiresAt

variable [DecidableEq K]

/-- `SETEX key seconds value`. -/
def setex (r : Keyspace K V) (now : ℕ) (key : K) (seconds : ℕ) (value : V) : Keyspace K V :=
  Function.update r key (some ⟨value, now + seconds * 1000⟩)

theorem setex_self (r : Keyspace K V) (now : ℕ) (key : K) (seconds : ℕ) (value : V) :
    setex r now key seconds value key = some ⟨value, now + seconds * 1000⟩ :=
  Function.update_self ..

theorem setex_of_ne (r : Keyspace K V) (now : ℕ) {key other : K} (seconds : ℕ) (value : V)
    (h : other ≠ key) : setex r now key seconds value other = r other :=
  Function.update_of_ne h ..

theorem live_setex_self (r : Keyspace K V) (now : ℕ) (key : K) (seconds : ℕ) (value : V)
    {later : ℕ} (h : later ≤ now + seconds * 1000) :
    live (setex r now key seconds value) later key = true :=
  live_iff.mpr ⟨_, Function.update_self .., h⟩

theorem live_setex_of_ne (r : Keyspace K V) (now : ℕ) {key other : K} (seconds : ℕ) (value : V)
    (h : other ≠ key) (later : ℕ) :
    live (setex r now key seconds value) later other = live r later other := by
  rw [live, live, setex, Function.update_of_ne h]

/-- A key that is live at some later time stays so when it, or another key, is
written with an expiry past that time. -/
theorem live_setex {r : Keyspace K V} {now : ℕ} {other : K} {later seconds : ℕ}
    (h : live r later other = true) (key : K) (value : V) (hlater : later ≤ now + seconds * 1000) :
    live (setex r now key seconds value) later other = true := by
  by_cases hk : other = key
  · subst other
    exact live_setex_self r now key seconds value hlater
  · rw [live_setex_of_ne r now seconds value hk]
    exact h

/-! ## Transactions and shortened lifetimes -/

/-- A transaction of `SETEX` commands. -/
def setexAll (r : Keyspace K V) (now seconds : ℕ) (writes : List (K × V)) : Keyspace K V :=
  writes.foldl (fun r write => setex r now write.1 seconds write.2) r

theorem setexAll_of_not_mem {writes : List (K × V)} {key : K} (h : key ∉ writes.map Prod.fst)
    (r : Keyspace K V) (now seconds : ℕ) : setexAll r now seconds writes key = r key := by
  induction writes generalizing r with
  | nil => rfl
  | cons write writes ih =>
      rw [List.map_cons, List.mem_cons, not_or] at h
      exact (ih h.2 _).trans (Function.update_of_ne h.1 ..)

/-- An entry is there after the transaction if it was there before or was written. -/
theorem of_setexAll {r : Keyspace K V} {now seconds : ℕ} {writes : List (K × V)} {key : K}
    {e : Entry V} (h : setexAll r now seconds writes key = some e) :
    (key, e.value) ∈ writes ∨ r key = some e := by
  induction writes generalizing r with
  | nil => exact .inr h
  | cons write writes ih =>
      rcases ih h with hmem | hset
      · exact .inl (List.mem_cons_of_mem _ hmem)
      · dsimp only at hset
        by_cases hkey : key = write.1
        · subst key
          rw [setex_self, Option.some.injEq] at hset
          subst e
          exact .inl List.mem_cons_self
        · rw [setex_of_ne r now seconds write.2 hkey] at hset
          exact .inr hset

theorem ttl_setexAll_le {r : Keyspace K V} {now seconds n : ℕ} {key : K}
    (h : ttl r now key ≤ n) (hseconds : seconds * 1000 ≤ n) (writes : List (K × V)) :
    ttl (setexAll r now seconds writes) now key ≤ n := by
  induction writes generalizing r with
  | nil => exact h
  | cons write writes ih =>
      refine ih ?_
      by_cases hkey : key = write.1
      · have hset : setex r now write.1 seconds write.2 key =
            some ⟨write.2, now + seconds * 1000⟩ := hkey ▸ Function.update_self ..
        rw [ttl_of_some hset, Nat.add_sub_cancel_left]
        exact hseconds
      · have hset : setex r now write.1 seconds write.2 key = r key :=
          Function.update_of_ne hkey ..
        exact Nat.le_trans (Nat.le_of_eq (ttl_congr hset now)) h

/-- `EXPIRE key seconds LT`: a lifetime is only lowered, and a key whose lifetime is
lowered to nothing is deleted. -/
def expireLT (r : Keyspace K V) (now : ℕ) (key : K) (seconds : ℕ) : Keyspace K V :=
  match r key with
  | none => r
  | some e =>
      if now ≤ e.expiresAt ∧ now + seconds * 1000 < e.expiresAt then
        Function.update r key
          (if seconds = 0 then none else some { e with expiresAt := now + seconds * 1000 })
      else r

theorem expireLT_of_ne (r : Keyspace K V) (now : ℕ) {key other : K} (seconds : ℕ)
    (h : other ≠ key) : expireLT r now key seconds other = r other := by
  unfold expireLT
  cases r key with
  | none => rfl
  | some e =>
      dsimp only
      by_cases hlower : now ≤ e.expiresAt ∧ now + seconds * 1000 < e.expiresAt
      · rw [if_pos hlower, Function.update_of_ne h]
      · rw [if_neg hlower]

/-- A lowered lifetime leaves the value. -/
theorem of_expireLT {r : Keyspace K V} {now : ℕ} {key other : K} {seconds : ℕ} {e : Entry V}
    (h : expireLT r now key seconds other = some e) : ∃ old, r other = some old ∧
      old.value = e.value := by
  by_cases hkey : other = key
  · subst other
    unfold expireLT at h
    cases hold : r key with
    | none =>
        rw [hold] at h
        exact absurd (hold.symm.trans h) (by simp)
    | some old =>
        rw [hold] at h
        dsimp only at h
        by_cases hlower : now ≤ old.expiresAt ∧ now + seconds * 1000 < old.expiresAt
        · rw [if_pos hlower, Function.update_self] at h
          by_cases hzero : seconds = 0
          · rw [if_pos hzero] at h
            cases h
          · rw [if_neg hzero, Option.some.injEq] at h
            exact ⟨old, rfl, h ▸ rfl⟩
        · rw [if_neg hlower] at h
          exact ⟨e, hold.symm.trans h, rfl⟩
  · exact ⟨e, (expireLT_of_ne r now seconds hkey).symm.trans h, rfl⟩

theorem ttl_expireLT_self (r : Keyspace K V) (now : ℕ) (key : K) (seconds : ℕ) :
    ttl (expireLT r now key seconds) now key = min (ttl r now key) (seconds * 1000) := by
  unfold expireLT
  cases hkey : r key with
  | none => rw [ttl_of_none hkey, Nat.zero_min]
  | some e =>
      rw [ttl_of_some hkey]
      dsimp only
      by_cases hlower : now ≤ e.expiresAt ∧ now + seconds * 1000 < e.expiresAt
      · rw [if_pos hlower]
        by_cases hzero : seconds = 0
        · rw [if_pos hzero, ttl_of_none (Function.update_self ..)]
          omega
        · rw [if_neg hzero, ttl_of_some (Function.update_self ..)]
          dsimp only
          omega
      · rw [if_neg hlower, ttl_of_some hkey]
        omega

theorem ttl_expireLT_le (r : Keyspace K V) (now : ℕ) (key other : K) (seconds : ℕ) :
    ttl (expireLT r now key seconds) now other ≤ ttl r now other := by
  by_cases h : other = key
  · subst other
    rw [ttl_expireLT_self]
    exact Nat.min_le_left ..
  · exact Nat.le_of_eq (ttl_congr (expireLT_of_ne r now seconds h) now)

end ContentPublishing.Expiring
