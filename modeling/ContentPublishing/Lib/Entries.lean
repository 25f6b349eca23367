import Mathlib.Algebra.BigOperators.Group.List.Basic
import Mathlib.Algebra.GroupWithZero.Nat
import Mathlib.Logic.Function.Basic

/-!
# Lists in which one entry changes

Calls in flight are kept in a list, and a step of one of them replaces its entry, or
removes it and appends others. These rules say what becomes of statements about all
entries, about some entry, and of sums over them. The last one is about entries that are
kept under identifiers.
-/
namespace ContentPublishing.Entries

variable {α β : Type*} {l : List α} {i : ℕ} {a : α}

theorem getElem?_set_of_some (h : l[i]? = some a) (b : α) (j : ℕ) :
    (l.set i b)[j]? = if i = j then some b else l[j]? := by
  have hlt : i < l.length := (List.getElem?_eq_some_iff.mp h).1
  rw [List.getElem?_set, if_pos hlt]

theorem forall_mem_set {P : α → Prop} {b : α} (h : ∀ x ∈ l, P x) (hb : P b) :
    ∀ x ∈ l.set i b, P x := by
  intro x hx
  rcases List.mem_or_eq_of_mem_set hx with hx | heq
  · exact h x hx
  · exact heq ▸ hb

/-- The entry that changes keeps what it may be the only one to have. -/
theorem exists_mem_set {P : α → Prop} {b : α} (hi : l[i]? = some a) (hP : P a → P b)
    (h : ∃ x ∈ l, P x) : ∃ x ∈ l.set i b, P x := by
  obtain ⟨x, hx, hPx⟩ := h
  obtain ⟨j, hj⟩ := List.getElem?_of_mem hx
  have hset := getElem?_set_of_some hi b j
  by_cases hij : i = j
  · subst j
    rw [if_pos rfl] at hset
    rw [hi] at hj
    exact ⟨b, List.mem_of_getElem? hset, hP (Option.some.inj hj ▸ hPx)⟩
  · rw [if_neg hij] at hset
    exact ⟨x, List.mem_of_getElem? (hset.trans hj), hPx⟩

theorem perm_cons_eraseIdx (h : l[i]? = some a) : (a :: l.eraseIdx i).Perm l := by
  obtain ⟨hlt, rfl⟩ := List.getElem?_eq_some_iff.mp h
  exact List.getElem_cons_eraseIdx_perm hlt

/-- The entry that is replaced leaves behind what it may be the only one to have. -/
theorem exists_mem_replace {P : α → Prop} {bs : List α} (hi : l[i]? = some a)
    (hP : P a → ∃ b ∈ bs, P b) (h : ∃ x ∈ l, P x) : ∃ x ∈ l.eraseIdx i ++ bs, P x := by
  obtain ⟨x, hx, hPx⟩ := h
  rcases List.mem_cons.mp ((perm_cons_eraseIdx hi).mem_iff.mpr hx) with rfl | hx
  · obtain ⟨b, hb, hPb⟩ := hP hPx
    exact ⟨b, List.mem_append_right _ hb, hPb⟩
  · exact ⟨x, List.mem_append_left _ hx, hPx⟩

theorem forall_mem_replace {P : α → Prop} {bs : List α} (h : ∀ x ∈ l, P x)
    (hbs : ∀ b ∈ bs, P b) : ∀ x ∈ l.eraseIdx i ++ bs, P x := by
  intro x hx
  rcases List.mem_append.mp hx with hx | hx
  · exact h x (List.mem_of_mem_eraseIdx hx)
  · exact hbs x hx

/-- What the step does not change is the same for the whole list. -/
theorem map_set_of_eq {f : α → β} {b : α} (hi : l[i]? = some a) (h : f b = f a) :
    (l.set i b).map f = l.map f := by
  have hf : (l.map f)[i]? = some (f b) := by
    rw [List.getElem?_map, hi, Option.map_some, h]
  obtain ⟨hlt, hget⟩ := List.getElem?_eq_some_iff.mp hf
  rw [List.map_set]
  exact hget ▸ List.set_getElem_self hlt

/-- A sum changes by the difference of the two entries. -/
theorem sum_map_set (f : α → ℕ) (b : α) (h : l[i]? = some a) :
    ((l.set i b).map f).sum + f a = (l.map f).sum + f b := by
  induction l generalizing i with
  | nil => cases h
  | cons c l ih =>
      cases i with
      | zero =>
          have hc : c = a := Option.some.inj h
          subst c
          simp only [List.set_cons_zero, List.map_cons, List.sum_cons]
          omega
      | succ i =>
          have hl : ((l.set i b).map f).sum + f a = (l.map f).sum + f b := ih h
          simp only [List.set_cons_succ, List.map_cons, List.sum_cons]
          omega

/-- An entry is written or deleted. -/
theorem forall_update {ι : Type*} [DecidableEq ι] {f : ι → Option α} {P : ι → α → Prop}
    (h : ∀ k d, f k = some d → P k d) {i : ι} {x : Option α} (hx : ∀ c, x = some c → P i c)
    (k : ι) (d : α) (hd : Function.update f i x k = some d) : P k d := by
  by_cases hk : k = i
  · subst k
    rw [Function.update_self] at hd
    exact hx d hd
  · rw [Function.update_of_ne hk] at hd
    exact h k d hd

end ContentPublishing.Entries
