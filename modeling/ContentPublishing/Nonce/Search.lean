import ContentPublishing.Nonce.Service

/-!
# The search for a free nonce

One call of `getNextNonce` with nothing in between. The script walks the window by
an index counted from one and tests after each turn whether to go on; the service
counts from zero. Together they answer the first position whose key is not live.
-/
namespace ContentPublishing.Nonce
open Expiring

section Script
variable {K : Type} [DecidableEq K]

/-- The loop of `lua/incrementNonce.lua` from index `i` on. `EXISTS` of a missing
key argument ends the script with an error. -/
def repeatUntil (now : ℕ) (keys : List K) (keysSize expireInSeconds i : ℕ) (r : Keyspace K ℕ) :
    Option (ℤ × Keyspace K ℕ) :=
  match keys[i - 1]? with
  | none => none
  | some nextKey =>
      if live r now nextKey then
        if i + 1 > keysSize then some (-1, r)
        else repeatUntil now keys keysSize expireInSeconds (i + 1) r
      else some (i, setex r now nextKey expireInSeconds 1)
termination_by keysSize - i

/-- The loop does what the walk over the remaining keys does. -/
theorem repeatUntil_eq (now expireInSeconds : ℕ) (keys : List K) (r : Keyspace K ℕ) {i : ℕ}
    (hpos : 1 ≤ i) (hi : i ≤ keys.length) :
    repeatUntil now keys keys.length expireInSeconds i r =
      some (incrementNonce now expireInSeconds i (keys.drop (i - 1)) r) := by
  have hlt : i - 1 < keys.length := by omega
  have hget : keys[i - 1]? = some keys[i - 1] := List.getElem?_eq_getElem hlt
  have hdrop : keys.drop (i - 1) = keys[i - 1] :: keys.drop i := by
    rw [List.drop_eq_getElem_cons hlt, Nat.sub_add_cancel hpos]
  rw [repeatUntil, hget, hdrop, incrementNonce]
  dsimp only
  by_cases hlive : live r now keys[i - 1] = true
  · rw [if_pos hlive, if_pos hlive]
    by_cases hlast : i + 1 > keys.length
    · have hempty : keys.drop i = [] := List.drop_eq_nil_of_le (by omega)
      rw [if_pos hlast, hempty]
      rfl
    · rw [if_neg hlast, repeatUntil_eq now expireInSeconds keys r (Nat.le_add_left 1 i) (by omega)]
      rfl
  · rw [if_neg hlive, if_neg hlive]
termination_by keys.length - i

end Script

/-- `getNextNonce` with the nonce that the chain answers, without the log. -/
def getNextNonce (now nonce : ℕ) (r : Keyspace String ℕ) : Option (ℤ × Keyspace String ℕ) := do
  let keys := getNextPossibleKeys nonce
  let (nextNonceIndex, r) ← repeatUntil now keys keys.length nonceKeyExpireSeconds 1 r
  return (nextNonce nonce nextNonceIndex, r)

theorem getNextNonce_eq (now nonce : ℕ) (r : Keyspace String ℕ) :
    getNextNonce now nonce r =
      some (nextNonce nonce (reserve now nonce r).1, (reserve now nonce r).2) := by
  have hloop := repeatUntil_eq now nonceKeyExpireSeconds (getNextPossibleKeys nonce) r le_rfl
    (by rw [length_getNextPossibleKeys]; decide)
  unfold getNextNonce
  dsimp only
  rw [hloop]
  rfl

/-- The key has become live with the expiry of a reservation, and no other key has
changed. -/
def Reserves (now : ℕ) (key : String) (r r' : Keyspace String ℕ) : Prop :=
  live r now key = false ∧ r' key = some ⟨1, now + nonceKeyExpireSeconds * 1000⟩ ∧
    live r' now key = true ∧ ∀ other ≠ key, r' other = r other

/-- The nonce is that of the first position of the window that is not live, which is
then reserved, or the one after a window that is live throughout. -/
def LeastFree (now nonce : ℕ) (r : Keyspace String ℕ) (value : ℤ) (r' : Keyspace String ℕ) :
    Prop :=
  (∀ i : ℕ, (nonce + i : ℤ) < value → live r now (windowKey nonce i) = true) ∧
    ((∃ k < numberOfNonceKeysToCheck, value = nonce + k ∧
        Reserves now (windowKey nonce k) r r') ∨
      (value = nonce + numberOfNonceKeysToCheck ∧ r' = r))

/-- `getNextNonce` returns, with the least nonce of its window that is free. -/
theorem getNextNonce_leastFree (now nonce : ℕ) (r : Keyspace String ℕ) :
    ∃ value r', getNextNonce now nonce r = some (value, r') ∧
      LeastFree now nonce r value r' := by
  refine ⟨_, _, getNextNonce_eq now nonce r, ?_⟩
  rcases reserve_cases now nonce r with ⟨hall, heq⟩ | ⟨k, hk, hfree, hbefore, heq⟩
  · have hvalue : nextNonce nonce (-1) = nonce + numberOfNonceKeysToCheck := if_pos rfl
    rw [heq, hvalue]
    refine ⟨fun i hi => hall i (by omega), .inr ⟨rfl, rfl⟩⟩
  · have hne : ((k + 1 : ℕ) : ℤ) ≠ -1 := by omega
    have hvalue : nextNonce nonce ((k + 1 : ℕ) : ℤ) = nonce + k := by
      rw [nextNonce, if_neg hne]
      omega
    rw [heq, hvalue]
    refine ⟨fun i hi => hbefore i (by omega), .inl ⟨k, hk, rfl, hfree, ?_, ?_, ?_⟩⟩
    · exact Function.update_self ..
    · exact live_setex_self _ _ _ _ _ (Nat.le_add_right now _)
    · exact fun other hother => Function.update_of_ne hother ..

/-- With the first two positions of the window reserved the third is handed out. -/
example : (getNextNonce 0 7 (fun key =>
    if key = "chain:nonce:70" ∨ key = "chain:nonce:71" then some ⟨1, 900⟩ else none)).map
      Prod.fst = some 9 := by
  rw [getNextNonce_eq]
  decide +kernel

end ContentPublishing.Nonce
