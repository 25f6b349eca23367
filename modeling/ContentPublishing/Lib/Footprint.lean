import ContentPublishing.Lib.Redis

/-!
# Scripts that stay on their keys

A script is called with the list of the keys that it uses. One that reads and writes no
other key answers the same and does the same whatever else the store holds, so a part of
the store can be looked at alone.
-/
namespace ContentPublishing.Redis
open Effects

variable {K S α β : Type}

/-- The two stores have the same under these keys. -/
def Agree (keys : List K) (store store' : Store K S) : Prop := ∀ k ∈ keys, store k = store' k

theorem Agree.update [DecidableEq K] {keys : List K} {store store' : Store K S}
    (h : Agree keys store store') (key : K) (entry : Option (Entry S)) :
    Agree keys (Function.update store key entry) (Function.update store' key entry) := by
  intro k hk
  by_cases heq : k = key
  · subst k
    simp only [Function.update_self]
  · simp only [Function.update_of_ne heq]
    exact h k hk

/-- The script reads and writes these keys only. -/
structure Within (keys : List K) (x : Script K S α) : Prop where
  frame : ∀ store, ∀ k ∉ keys, (exec x store).2 k = store k
  reply : ∀ store store', Agree keys store store' → (exec x store).1 = (exec x store').1
  effect : ∀ store store', Agree keys store store' →
    Agree keys (exec x store).2 (exec x store').2

namespace Within
variable {keys : List K} {x : Script K S α}

theorem pure (a : α) : Within keys (pure a : Script K S α) where
  frame _ _ _ := rfl
  reply _ _ _ := rfl
  effect _ _ h := h

theorem throw (e : Error) : Within keys (throw e : Script K S α) where
  frame _ _ _ := rfl
  reply _ _ _ := rfl
  effect _ _ h := h

theorem exec_bind_cases (f : α → Script K S β) (store : Store K S) :
    (∃ a t, exec x store = (.ok a, t) ∧ exec (x >>= f) store = exec (f a) t) ∨
      ∃ e t, exec x store = (.error e, t) ∧ exec (x >>= f) store = (.error e, t) := by
  cases hx : exec x store with
  | mk r t =>
      cases r with
      | ok a => exact .inl ⟨a, t, rfl, exec_bind f hx⟩
      | error e => exact .inr ⟨e, t, rfl, exec_bind_error f hx⟩

theorem bind {f : α → Script K S β} (hx : Within keys x) (hf : ∀ a, Within keys (f a)) :
    Within keys (x >>= f) where
  frame store k hk := by
    have hframe := hx.frame store k hk
    obtain ⟨a, t, h, hbind⟩ | ⟨e, t, h, hbind⟩ := exec_bind_cases (x := x) f store
    · rw [h] at hframe
      rw [hbind, (hf a).frame t k hk]
      exact hframe
    · rw [h] at hframe
      rw [hbind]
      exact hframe
  reply store store' hagree := by
    have hreply := hx.reply store store' hagree
    have heffect := hx.effect store store' hagree
    obtain ⟨a, t, h, hbind⟩ | ⟨e, t, h, hbind⟩ := exec_bind_cases (x := x) f store <;>
      obtain ⟨a', t', h', hbind'⟩ | ⟨e', t', h', hbind'⟩ := exec_bind_cases (x := x) f store' <;>
      rw [h, h'] at hreply heffect <;> cases hreply
    · rw [hbind, hbind', (hf a).reply t t' heffect]
    · rw [hbind, hbind']
  effect store store' hagree := by
    have hreply := hx.reply store store' hagree
    have heffect := hx.effect store store' hagree
    obtain ⟨a, t, h, hbind⟩ | ⟨e, t, h, hbind⟩ := exec_bind_cases (x := x) f store <;>
      obtain ⟨a', t', h', hbind'⟩ | ⟨e', t', h', hbind'⟩ := exec_bind_cases (x := x) f store' <;>
      rw [h, h'] at hreply heffect <;> cases hreply
    · rw [hbind, hbind']
      exact (hf a).effect t t' heffect
    · rw [hbind, hbind']
      exact heffect

/-! ## Commands -/

section Commands
variable [DecidableEq K] {key : K}

/-- A command that would do the same if its key were all that the store holds. -/
theorem of_key (hkey : key ∈ keys) (h : ∀ store, exec x store =
    ((exec x fun _ => store key).1,
      Function.update store key ((exec x fun _ => store key).2 key))) : Within keys x where
  frame store k hk := by
    have hne : k ≠ key := fun heq => hk (heq ▸ hkey)
    rw [h]
    exact Function.update_of_ne hne ..
  reply store store' hagree := by rw [h, h store', hagree key hkey]
  effect store store' hagree := by
    rw [h, h store', hagree key hkey]
    exact hagree.update key _

theorem get (hkey : key ∈ keys) : Within keys (get key : Script K S (Option S)) := by
  refine of_key hkey fun store => ?_
  simp only [exec, Redis.get]
  cases hentry : store key with
  | none => simp [← hentry]
  | some entry => cases entry <;> simp [← hentry]

theorem hgetall (hkey : key ∈ keys) : Within keys (hgetall key : Script K S (List S)) := by
  refine of_key hkey fun store => ?_
  simp only [exec, Redis.hgetall]
  cases hentry : store key with
  | none => simp [← hentry]
  | some entry => cases entry <;> simp [← hentry]

theorem set (hkey : key ∈ keys) (value : S) : Within keys (set key value) := by
  refine of_key hkey fun store => ?_
  simp [exec, Redis.set]

theorem del (hkey : key ∈ keys) : Within keys (del key : Script K S Unit) := by
  refine of_key hkey fun store => ?_
  simp [exec, Redis.del]

theorem hsetnx [DecidableEq S] (hkey : key ∈ keys) (field value : S) :
    Within keys (hsetnx key field value) := by
  refine of_key hkey fun store => ?_
  simp only [exec, Redis.hsetnx]
  cases hentry : store key with
  | none => simp
  | some entry =>
      cases entry with
      | string value => simp [← hentry]
      | hash fields =>
          by_cases hfield : field ∈ fields.map Prod.fst
          · simp [if_pos hfield, ← hentry]
          · simp [if_neg hfield]

/-- The destination gets what the source had. -/
theorem rename {source destination : K} (hsource : source ∈ keys)
    (hdestination : destination ∈ keys) :
    Within keys (rename source destination : Script K S Unit) := by
  have hexec : ∀ store : Store K S, exec (Redis.rename source destination) store =
      (store source).elim (.error .noSuchKey, store) fun entry => (.ok (),
        Function.update (Function.update store source none) destination (some entry)) := by
    intro store
    simp only [exec, Redis.rename]
    cases store source <;> rfl
  constructor
  · intro store k hk
    have hks : k ≠ source := fun heq => hk (heq ▸ hsource)
    have hkd : k ≠ destination := fun heq => hk (heq ▸ hdestination)
    rw [hexec]
    cases store source with
    | none => rfl
    | some entry => exact (Function.update_of_ne hkd ..).trans (Function.update_of_ne hks ..)
  · intro store store' hagree
    rw [hexec, hexec, hagree source hsource]
    cases store' source <;> rfl
  · intro store store' hagree
    rw [hexec, hexec, hagree source hsource]
    cases store' source with
    | none => exact hagree
    | some entry => exact (hagree.update source none).update destination (some entry)

end Commands

end Within

/-! ## A part of the store -/

section Restrict
variable [DecidableEq K] {keys : List K}

/-- The store without any other key. -/
def restrict (keys : List K) (store : Store K S) : Store K S := fun k =>
  if k ∈ keys then store k else none

theorem agree_restrict (store : Store K S) : Agree keys (restrict keys store) store :=
  fun _ hk => if_pos hk

theorem stringAt_restrict {key : K} (hkey : key ∈ keys) (store : Store K S) :
    stringAt (restrict keys store) key = stringAt store key := by
  rw [stringAt, agree_restrict store key hkey, stringAt]

theorem fieldsAt_restrict {key : K} (hkey : key ∈ keys) (store : Store K S) :
    fieldsAt (restrict keys store) key = fieldsAt store key := by
  rw [fieldsAt, agree_restrict store key hkey, fieldsAt]

/-- The part is all that the script needs, and all that it changes. -/
theorem Within.exec_restrict {x : Script K S α} (h : Within keys x) (store : Store K S) :
    exec x (restrict keys store) = Prod.map id (restrict keys) (exec x store) := by
  refine Prod.ext (h.reply _ _ (agree_restrict store)) (funext fun k => ?_)
  by_cases hk : k ∈ keys
  · rw [h.effect _ _ (agree_restrict store) k hk]
    exact (if_pos hk).symm
  · rw [h.frame _ k hk]
    exact (if_neg hk).trans (if_neg hk).symm

theorem restrict_eq_of_frame {store store' : Store K S}
    (h : ∀ k ∈ keys, store' k = store k) : restrict keys store' = restrict keys store := by
  funext k
  by_cases hk : k ∈ keys
  · simp only [restrict, if_pos hk, h k hk]
  · simp only [restrict, if_neg hk]

end Restrict

end ContentPublishing.Redis
