import ContentPublishing.Lib.Redis
import Mathlib.Data.List.Basic

/-!
# One computation on two representations of its state

A computation tracks another one at a state if it does to the image of the state what the
other does to the state. The commands of Redis track themselves when the values of a
keyspace are represented otherwise.
-/
namespace ContentPublishing

namespace Effects
variable {ε σ τ α α' β β' : Type}

/-- Run on the image of `s`, `y` gives the image of what `x` gives. -/
def Tracks (f : σ → τ) (g : α → α') (s : σ) (x : EStateM ε σ α) (y : EStateM ε τ α') : Prop :=
  exec y (f s) = Prod.map (Except.map g) f (exec x s)

variable {f : σ → τ} {g : α → α'} {h : β → β'} {s : σ} {x : EStateM ε σ α} {y : EStateM ε τ α'}

theorem tracks_pure {a : α} {a' : α'} (ha : g a = a') :
    Tracks f g s (pure a : EStateM ε σ α) (pure a') :=
  congrArg (fun a' => (Except.ok a', f s)) ha.symm

theorem tracks_throw (e : ε) :
    Tracks f g s (throw e : EStateM ε σ α) (throw e : EStateM ε τ α') := rfl

/-- What follows has to be tracked from where the first computation returns. -/
theorem Tracks.bind {k : α → EStateM ε σ β} {k' : α' → EStateM ε τ β'} (hx : Tracks f g s x y)
    (hk : ∀ a t, exec x s = (.ok a, t) → Tracks f h t (k a) (k' (g a))) :
    Tracks f h s (x >>= k) (y >>= k') := by
  unfold Tracks at hx ⊢
  cases hr : exec x s with
  | mk r t =>
      rw [hr] at hx
      cases r with
      | ok a =>
          rw [exec_bind k' hx, exec_bind k hr]
          exact hk a t hr
      | error e =>
          rw [exec_bind_error k' hx, exec_bind_error k hr]
          rfl

end Effects

namespace Redis
open Effects
variable {K S T : Type}

section Translation
variable (string name value : S → T)

/-- An entry with its strings, and the names and values of its fields, represented
otherwise. -/
def Entry.translate : Entry S → Entry T
  | .string v => .string (string v)
  | .hash fields => .hash (fields.map (Prod.map name value))

def translate (store : Store K S) : Store K T :=
  fun key => (store key).map (Entry.translate string name value)

/-- The reply of `HGETALL`, represented otherwise. -/
def translateReply (flat : List S) : List T :=
  flatten ((pairs flat).map (Prod.map name value))

end Translation

variable {string name value : S → T} {store : Store K S}

theorem translate_of_none {key : K} (h : store key = none) :
    translate string name value store key = none := congrArg _ h

theorem translate_of_some {key : K} {entry : Entry S} (h : store key = some entry) :
    translate string name value store key = some (entry.translate string name value) :=
  congrArg _ h

theorem stringAt_translate (key : K) :
    stringAt (translate string name value store) key = (stringAt store key).map string := by
  unfold stringAt
  cases h : store key with
  | none => rw [translate_of_none h]; rfl
  | some entry => rw [translate_of_some h]; cases entry <;> rfl

theorem tracks_get (key : K) :
    Tracks (translate string name value) (Option.map string) store (get key) (get key) := by
  unfold Tracks
  cases h : store key with
  | none => rw [exec_get_none h, exec_get_none (translate_of_none h)]; rfl
  | some entry =>
      have h' : translate string name value store key = _ := translate_of_some h
      cases entry with
      | string v => rw [exec_get_string v h, exec_get_string (string v) h']; rfl
      | hash fields => simp only [exec, get, h, h']; rfl

theorem tracks_hgetall (key : K) :
    Tracks (translate string name value) (translateReply name value) store (hgetall key)
      (hgetall key) := by
  unfold Tracks
  cases h : store key with
  | none => simp only [exec, hgetall, h, translate_of_none h]; rfl
  | some entry =>
      have h' : translate string name value store key = _ := translate_of_some h
      cases entry with
      | string v => simp only [exec, hgetall, h, h']; rfl
      | hash fields =>
          rw [exec_hgetall fields h, exec_hgetall _ h', Prod.map_apply, Except.map,
            translateReply, pairs_flatten]

/-! What a command tells about the keyspace when it returns. -/

theorem of_exec_get {key : K} {v : Option S} {t : Store K S}
    (h : exec (get key) store = (.ok v, t)) : v = stringAt store key ∧ t = store := by
  unfold stringAt
  cases hkey : store key with
  | none => rw [exec_get_none hkey] at h; cases h; exact ⟨rfl, rfl⟩
  | some entry =>
      cases entry with
      | string v => rw [exec_get_string v hkey] at h; cases h; exact ⟨rfl, rfl⟩
      | hash fields => simp [exec, get, hkey] at h

section Writes
variable [DecidableEq K]

theorem of_exec_rename {source destination : K} {u : Unit} {t : Store K S}
    (h : exec (rename source destination) store = (.ok u, t)) :
    ∃ entry, store source = some entry ∧
      t = Function.update (Function.update store source none) destination (some entry) := by
  cases hsource : store source with
  | none => simp [exec, rename, hsource] at h
  | some entry => rw [exec_rename entry hsource] at h; cases h; exact ⟨entry, rfl, rfl⟩

theorem translate_update (key : K) (entry : Option (Entry S)) :
    translate string name value (Function.update store key entry) =
      Function.update (translate string name value store) key
        (entry.map (Entry.translate string name value)) :=
  funext fun k => Function.apply_update (fun _ => Option.map _) store key entry k

theorem tracks_set (key : K) {v : S} {v' : T} (hv : string v = v') :
    Tracks (translate string name value) id store (set key v) (set key v') := by
  subst v'
  exact congrArg (Prod.mk _) (translate_update key (some (.string v))).symm

theorem tracks_rename (source destination : K) :
    Tracks (translate string name value) id store (rename source destination)
      (rename source destination) := by
  unfold Tracks
  cases h : store source with
  | none => simp only [exec, rename, h, translate_of_none h]; rfl
  | some entry =>
      rw [exec_rename entry h, exec_rename _ (translate_of_some h), Prod.map_apply,
        translate_update, translate_update]
      rfl

variable [DecidableEq S] [DecidableEq T]

theorem tracks_hsetnx (hname : Function.Injective name) (key : K) {field v : S} {field' v' : T}
    (hfield : name field = field') (hv : value v = v') :
    Tracks (translate string name value) id store (hsetnx key field v)
      (hsetnx key field' v') := by
  subst field' v'
  unfold Tracks
  cases h : store key with
  | none =>
      rw [exec_hsetnx_none field v h, exec_hsetnx_none _ _ (translate_of_none h),
        Prod.map_apply, translate_update]
      rfl
  | some entry =>
      have h' : translate string name value store key = _ := translate_of_some h
      cases entry with
      | string old => simp only [exec, hsetnx, h, h']; rfl
      | hash fields =>
          have hmem : name field ∈ (fields.map (Prod.map name value)).map Prod.fst ↔
              field ∈ fields.map Prod.fst := by
            have hnames : (fields.map (Prod.map name value)).map Prod.fst =
                (fields.map Prod.fst).map name := by
              rw [List.map_map, List.map_map]
              rfl
            rw [hnames]
            exact List.mem_map_of_injective hname
          rw [exec_hsetnx_hash fields field v h, exec_hsetnx_hash _ _ _ h']
          by_cases hf : field ∈ fields.map Prod.fst
          · rw [if_pos hf, if_pos (hmem.mpr hf)]
            rfl
          · rw [if_neg hf, if_neg (fun hn => hf (hmem.mp hn)), Prod.map_apply, translate_update]
            simp [Entry.translate]

end Writes

end Redis

end ContentPublishing
