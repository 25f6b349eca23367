import ContentPublishing.Lib.Expiring
import Mathlib.Algebra.Order.Ring.Int

/-!
# Nonces handed out by the workers

`getNextNonce` reads the nonce of the account from the chain and then runs one
atomic script, which reserves the first key of the window that is not live. The
chain nonce is an unsigned integer codec: `+` with a number concatenates their
decimal texts, while `Number` gives its value. Both are kept as they are.
-/
namespace ContentPublishing.Nonce
open Expiring

/-- How many keys are looked into before giving up. -/
def numberOfNonceKeysToCheck : ℕ := 50

/-- Nonce keys expire shortly, so that a skipped nonce can be submitted later. -/
def nonceKeyExpireSeconds : ℕ := 2

def chainNonceKey : String := "chain:nonce"

def getNonceKey (suffix : String) : String := chainNonceKey ++ ":" ++ suffix

/-- The key of one position of the window; `currentNonce + i` is a text. -/
def windowKey (currentNonce i : ℕ) : String :=
  getNonceKey (toString currentNonce ++ toString i)

def getNextPossibleKeys (currentNonce : ℕ) : List String :=
  (List.range numberOfNonceKeysToCheck).map (windowKey currentNonce)

@[simp] theorem length_getNextPossibleKeys (n : ℕ) :
    (getNextPossibleKeys n).length = numberOfNonceKeysToCheck := by
  simp [getNextPossibleKeys]

theorem getElem?_getNextPossibleKeys (n : ℕ) {i : ℕ} (hi : i < numberOfNonceKeysToCheck) :
    (getNextPossibleKeys n)[i]? = some (windowKey n i) := by
  simp [getNextPossibleKeys, List.getElem?_range hi]

section Script
variable {K : Type} [DecidableEq K]

/-- `lua/incrementNonce.lua` from the `i`-th key on. -/
def incrementNonce (now expireInSeconds : ℕ) : ℕ → List K → Keyspace K ℕ → ℤ × Keyspace K ℕ
  | _, [], r => (-1, r)
  | i, nextKey :: keys, r =>
      if live r now nextKey then incrementNonce now expireInSeconds (i + 1) keys r
      else (i, setex r now nextKey expireInSeconds 1)

/-- Either every key is live and nothing is written, or the first key that is not
live is reserved and its index answered. -/
theorem incrementNonce_cases (now expireInSeconds i : ℕ) (keys : List K) (r : Keyspace K ℕ) :
    ((∀ key ∈ keys, live r now key = true) ∧
        incrementNonce now expireInSeconds i keys r = (-1, r)) ∨
      ∃ j key, keys[j]? = some key ∧ live r now key = false ∧
        (∀ before ∈ keys.take j, live r now before = true) ∧
        incrementNonce now expireInSeconds i keys r =
          (((i + j : ℕ) : ℤ), setex r now key expireInSeconds 1) := by
  induction keys generalizing i with
  | nil => exact .inl ⟨fun _ hk => (by cases hk), rfl⟩
  | cons nextKey keys ih =>
      by_cases hlive : live r now nextKey = true
      · have hnext : incrementNonce now expireInSeconds i (nextKey :: keys) r =
            incrementNonce now expireInSeconds (i + 1) keys r := if_pos hlive
        rw [hnext]
        rcases ih (i + 1) with ⟨hall, heq⟩ | ⟨j, key, hkey, hfree, hbefore, heq⟩
        · exact .inl ⟨List.forall_mem_cons.mpr ⟨hlive, hall⟩, heq⟩
        · refine .inr ⟨j + 1, key, hkey, hfree, ?_, ?_⟩
          · rw [List.take_succ_cons]
            exact List.forall_mem_cons.mpr ⟨hlive, hbefore⟩
          · rw [heq]
            have hindex : i + 1 + j = i + (j + 1) := by omega
            rw [hindex]
      · refine .inr ⟨0, nextKey, rfl, by simpa using hlive, fun _ hb => (by cases hb), ?_⟩
        exact if_neg hlive

end Script

/-- The nonce that `getNextNonce` returns for a reply of the script. -/
def nextNonce (nonce : ℕ) (nextNonceIndex : ℤ) : ℤ :=
  if nextNonceIndex = -1 then nonce + numberOfNonceKeysToCheck else nonce + nextNonceIndex - 1

/-- `getNextNonce` after the chain has answered, without the log. -/
def reserve (now nonce : ℕ) (r : Keyspace String ℕ) : ℤ × Keyspace String ℕ :=
  incrementNonce now nonceKeyExpireSeconds 1 (getNextPossibleKeys nonce) r

/-- Either the whole window is live and nothing is reserved, or the first position
that is not live is reserved for two seconds. -/
theorem reserve_cases (now nonce : ℕ) (r : Keyspace String ℕ) :
    ((∀ i < numberOfNonceKeysToCheck, live r now (windowKey nonce i) = true) ∧
        reserve now nonce r = (-1, r)) ∨
      ∃ i < numberOfNonceKeysToCheck, live r now (windowKey nonce i) = false ∧
        (∀ k < i, live r now (windowKey nonce k) = true) ∧
        reserve now nonce r =
          (((i + 1 : ℕ) : ℤ), setex r now (windowKey nonce i) nonceKeyExpireSeconds 1) := by
  rcases incrementNonce_cases now nonceKeyExpireSeconds 1 (getNextPossibleKeys nonce) r with
    ⟨hall, heq⟩ | ⟨i, key, hkey, hfree, hbefore, heq⟩
  · refine .inl ⟨fun i hi => ?_, heq⟩
    exact hall _ (List.mem_of_getElem? (getElem?_getNextPossibleKeys nonce hi))
  · obtain ⟨hi, _⟩ := List.getElem?_eq_some_iff.mp hkey
    rw [length_getNextPossibleKeys] at hi
    rw [getElem?_getNextPossibleKeys nonce hi, Option.some.injEq] at hkey
    subst key
    refine .inr ⟨i, hi, hfree, fun k hk => ?_, ?_⟩
    · apply hbefore
      have hkey := getElem?_getNextPossibleKeys nonce (hk.trans hi)
      rw [← List.getElem?_take_of_lt hk] at hkey
      exact List.mem_of_getElem? hkey
    · have hindex : 1 + i = i + 1 := Nat.add_comm 1 i
      rw [reserve, heq, hindex]

end ContentPublishing.Nonce
