import ContentPublishing.Lib.Effects
import Mathlib.Logic.Function.Basic

/-!
# A Redis keyspace and atomic scripts over it

Keys hold strings or hashes. A script is a sequence of commands run without
interleaving; a failing command ends the script and, as in Redis, what was
written before it stays written. Redis leaves the order of the fields of a larger
hash open; in this model it is the order of insertion.
-/
namespace ContentPublishing.Redis
open Effects

inductive Entry (S : Type) where
  | string (value : S)
  | hash (fields : List (S × S))
  deriving DecidableEq, Repr

/-- A key is absent exactly when it maps to `none`. -/
abbrev Store (K S : Type) := K → Option (Entry S)

inductive Error where
  | noSuchKey
  | wrongType
  | script (message : String)
  deriving DecidableEq, Repr

abbrev Script (K S : Type) := EStateM Error (Store K S)

/-- The reply of `HGETALL` is one flat list of alternating fields and values. -/
def flatten {S : Type} : List (S × S) → List S
  | [] => []
  | (field, value) :: rest => field :: value :: flatten rest

/-- Regroups a flat `HGETALL` reply. -/
def pairs {S : Type} : List S → List (S × S)
  | field :: value :: rest => (field, value) :: pairs rest
  | _ => []

@[simp] theorem pairs_flatten {S : Type} (fields : List (S × S)) :
    pairs (flatten fields) = fields := by
  induction fields with
  | nil => rfl
  | cons p fields ih => simp only [flatten, pairs, ih]

variable {K S : Type}

def get (key : K) : Script K S (Option S) := fun store =>
  match store key with
  | none => .ok none store
  | some (.string value) => .ok (some value) store
  | some (.hash _) => .error .wrongType store

def hgetall (key : K) : Script K S (List S) := fun store =>
  match store key with
  | none => .ok [] store
  | some (.hash fields) => .ok (flatten fields) store
  | some (.string _) => .error .wrongType store

/-- What a client reads back from a string key and from a hash key. -/
def stringAt (store : Store K S) (key : K) : Option S :=
  match store key with
  | some (.string value) => some value
  | _ => none

def fieldsAt (store : Store K S) (key : K) : List (S × S) :=
  match store key with
  | some (.hash fields) => fields
  | _ => []

section Writes
variable [DecidableEq K]

def set (key : K) (value : S) : Script K S Unit := fun store =>
  .ok () (Function.update store key (some (.string value)))

def del (key : K) : Script K S Unit := fun store =>
  .ok () (Function.update store key none)

/-- Overwrites the destination; a missing source is an error. -/
def rename (source destination : K) : Script K S Unit := fun store =>
  match store source with
  | none => .error .noSuchKey store
  | some entry =>
      .ok () (Function.update (Function.update store source none) destination (some entry))

/-- Sets a field of a hash only when the field is absent. -/
def hsetnx [DecidableEq S] (key : K) (field value : S) : Script K S Bool := fun store =>
  match store key with
  | none => .ok true (Function.update store key (some (.hash [(field, value)])))
  | some (.hash fields) =>
      if field ∈ fields.map Prod.fst then .ok false store
      else .ok true (Function.update store key (some (.hash (fields ++ [(field, value)]))))
  | some (.string _) => .error .wrongType store

end Writes

/-! The outcome of one command, to be used with the rules for `exec`. -/

section Execution
variable {store : Store K S} {key : K}

theorem exec_get_none (h : store key = none) :
    exec (get key) store = (.ok none, store) := by simp only [exec, get, h]

theorem exec_get_string (value : S) (h : store key = some (.string value)) :
    exec (get key) store = (.ok (some value), store) := by simp only [exec, get, h]

theorem exec_hgetall (fields : List (S × S)) (h : store key = some (.hash fields)) :
    exec (hgetall key) store = (.ok (flatten fields), store) := by
  simp only [exec, hgetall, h]

variable [DecidableEq K]

theorem exec_set (key : K) (value : S) (store : Store K S) :
    exec (set key value) store =
      (.ok (), Function.update store key (some (.string value))) := rfl

theorem exec_rename {source destination : K} (entry : Entry S)
    (h : store source = some entry) :
    exec (rename source destination) store =
      (.ok (), Function.update (Function.update store source none) destination
        (some entry)) := by
  simp only [exec, rename, h]

theorem exec_hsetnx_none [DecidableEq S] (field value : S) (h : store key = none) :
    exec (hsetnx key field value) store =
      (.ok true, Function.update store key (some (.hash [(field, value)]))) := by
  simp only [exec, hsetnx, h]

theorem exec_hsetnx_hash [DecidableEq S] (fields : List (S × S)) (field value : S)
    (h : store key = some (.hash fields)) :
    exec (hsetnx key field value) store =
      if field ∈ fields.map Prod.fst then (.ok false, store)
      else (.ok true, Function.update store key
        (some (.hash (fields ++ [(field, value)])))) := by
  by_cases hf : field ∈ fields.map Prod.fst
  · simp only [exec, hsetnx, h, if_pos hf]
  · simp only [exec, hsetnx, h, if_neg hf]

end Execution

end ContentPublishing.Redis
