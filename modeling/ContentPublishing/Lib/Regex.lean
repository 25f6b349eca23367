import Mathlib.Computability.Language

/-!
# Regular expressions that backtrack

All ways in which an expression matches the beginning of a text, in the order in which
a backtracking matcher tries them: a quantifier takes another turn before it stops, and
once it has taken enough turns none that matches the empty text. The first way that
takes the whole text gives the groups. Whether there is one is a matter of the
language of the expression alone.
-/
namespace ContentPublishing

inductive Regex (α : Type) where
  | empty
  | one (p : α → Bool)
  | seq (r s : Regex α)
  | opt (r : Regex α)
  | star (r : Regex α)
  | plus (r : Regex α)
  | group (name : String) (r : Regex α)

namespace Regex
open scoped Computability
variable {α : Type}

/-- A text, and what it leaves of the input. -/
structure Match (α : Type) where
  consumed : List α
  rest : List α
  groups : List (String × List α)
  deriving DecidableEq

namespace Match

def nothing (xs : List α) : Match α := ⟨[], xs, []⟩

/-- One match after the other. -/
def andThen (m n : Match α) : Match α :=
  ⟨m.consumed ++ n.consumed, n.rest, m.groups ++ n.groups⟩

def capture (name : String) (m : Match α) : Match α :=
  { m with groups := (name, m.consumed) :: m.groups }

/-- The match is one of this input. -/
def Of (m : Match α) (xs : List α) : Prop := m.consumed ++ m.rest = xs

end Match

/-- Turns of a loop, as many as there can be first. Every turn takes something, so the
length of the input bounds their number. -/
def turns (step : List α → List (Match α)) : ℕ → List α → List (Match α)
  | 0, xs => [.nothing xs]
  | n + 1, xs =>
      ((step xs).filter fun m => !m.consumed.isEmpty).flatMap
        (fun m => (turns step n m.rest).map m.andThen) ++ [.nothing xs]

/-- The matches of a beginning of the input, the preferred ones first. -/
def run : Regex α → List α → List (Match α)
  | empty, xs => [.nothing xs]
  | one _, [] => []
  | one p, x :: xs => if p x then [⟨[x], xs, []⟩] else []
  | seq r s, xs => (run r xs).flatMap fun m => (run s m.rest).map m.andThen
  | opt r, xs => ((run r xs).filter fun m => !m.consumed.isEmpty) ++ [.nothing xs]
  | star r, xs => turns (run r) xs.length xs
  | plus r, xs =>
      (run r xs).flatMap fun m => (turns (run r) m.rest.length m.rest).map m.andThen
  | group name r, xs => (run r xs).map (Match.capture name)

/-- The groups of the first match of the whole input, as for an expression between
`^` and `$`. -/
def exec (r : Regex α) (xs : List α) : Option (List (String × List α)) :=
  ((run r xs).find? fun m => m.rest.isEmpty).map Match.groups

def test (r : Regex α) (xs : List α) : Bool := (exec r xs).isSome

def literal [DecidableEq α] : List α → Regex α
  | [] => empty
  | x :: xs => seq (one (· == x)) (literal xs)

/-- What `.` matches: everything but a line terminator. -/
def isDot (c : Char) : Bool := c.toNat ∉ [0x0a, 0x0d, 0x2028, 0x2029]

/-- What `\d` and `[0-9]` match. -/
def isDigit (c : Char) : Bool := '0' ≤ c && c ≤ '9'

/-! ## The language of an expression -/

def language : Regex α → Language α
  | empty => 1
  | one p => {w : List α | ∃ x, p x = true ∧ w = [x]}
  | seq r s => language r * language s
  | opt r => 1 + language r
  | star r => (language r)∗
  | plus r => language r * (language r)∗
  | group _ r => language r

section Spelling
variable {X Y : Type}

/-- The language is that of the texts of values of a type. -/
def Spells (r : Regex α) (text : X → List α) : Prop := ∀ w, w ∈ r.language ↔ ∃ x, text x = w

namespace Spells
variable {r s : Regex α} {text : X → List α} {text' : Y → List α}

theorem opt (h : Spells r text) : Spells (opt r) fun o : Option X => o.elim [] text := by
  intro w
  constructor
  · rintro (hempty | hw)
    · exact ⟨none, ((Language.mem_one w).mp hempty).symm⟩
    · obtain ⟨x, rfl⟩ := (h w).mp hw
      exact ⟨some x, rfl⟩
  · rintro ⟨o, rfl⟩
    cases o with
    | none => exact .inl Language.nil_mem_one
    | some x => exact .inr ((h _).mpr ⟨x, rfl⟩)

theorem seq (h : Spells r text) (h' : Spells s text') :
    Spells (seq r s) fun p : X × Y => text p.1 ++ text' p.2 := by
  intro w
  constructor
  · intro hw
    obtain ⟨u, hu, v, hv, rfl⟩ := Language.mem_mul.mp hw
    obtain ⟨x, rfl⟩ := (h u).mp hu
    obtain ⟨y, rfl⟩ := (h' v).mp hv
    exact ⟨(x, y), rfl⟩
  · rintro ⟨⟨x, y⟩, rfl⟩
    exact Language.append_mem_mul ((h _).mpr ⟨x, rfl⟩) ((h' _).mpr ⟨y, rfl⟩)

theorem plus (h : Spells r text) :
    Spells (plus r) fun p : X × List X => text p.1 ++ (p.2.map text).flatten := by
  intro w
  constructor
  · intro hw
    obtain ⟨u, hu, v, hv, rfl⟩ := Language.mem_mul.mp hw
    obtain ⟨x, rfl⟩ := (h u).mp hu
    obtain ⟨pieces, rfl, hpieces⟩ := Language.mem_kstar.mp hv
    have hvalues : pieces ∈ Set.range (List.map text) := by
      rw [Set.range_list_map]
      exact fun piece hpiece => (h piece).mp (hpieces piece hpiece)
    obtain ⟨xs, rfl⟩ := hvalues
    exact ⟨(x, xs), rfl⟩
  · rintro ⟨⟨x, xs⟩, rfl⟩
    refine Language.append_mem_mul ((h _).mpr ⟨x, rfl⟩) (Language.mem_kstar.mpr ⟨_, rfl, ?_⟩)
    intro piece hpiece
    obtain ⟨y, _, rfl⟩ := List.mem_map.mp hpiece
    exact (h _).mpr ⟨y, rfl⟩

/-- The values may be written in another way. -/
theorem ofSurjective (h : Spells r text) {f : Y → X} (hf : f.Surjective) :
    Spells r fun y => text (f y) := by
  intro w
  rw [h w]
  exact hf.exists

end Spells

theorem spells_one (p : α → Bool) : Spells (one p) fun x : {x // p x = true} => [x.1] := by
  intro w
  constructor
  · rintro ⟨x, hp, rfl⟩
    exact ⟨⟨x, hp⟩, rfl⟩
  · rintro ⟨⟨x, hp⟩, rfl⟩
    exact ⟨x, hp, rfl⟩

theorem spells_literal [DecidableEq α] (l : List α) : Spells (literal l) fun _ : Unit => l := by
  induction l with
  | nil =>
      intro w
      exact (Language.mem_one w).trans (by simp [eq_comm])
  | cons x l ih =>
      intro w
      refine ((spells_one (· == x)).seq ih w).trans ?_
      simp

/-- A repeated character. -/
theorem mem_language_plus_one {p : α → Bool} {w : List α} :
    w ∈ (plus (one p)).language ↔ w ≠ [] ∧ ∀ x ∈ w, p x = true := by
  have hflatten : ∀ xs : List {x // p x = true}, (xs.map fun x => [x.1]).flatten =
      xs.map Subtype.val := fun xs => List.map_eq_flatMap.symm
  refine ((spells_one p).plus w).trans ?_
  simp only [hflatten, List.singleton_append]
  constructor
  · rintro ⟨⟨x, xs⟩, rfl⟩
    refine ⟨List.cons_ne_nil _ _, List.forall_mem_cons.mpr ⟨x.2, fun y hy => ?_⟩⟩
    obtain ⟨z, _, rfl⟩ := List.mem_map.mp hy
    exact z.2
  · rintro ⟨hne, hall⟩
    obtain ⟨x, v, rfl⟩ := List.exists_cons_of_ne_nil hne
    obtain ⟨hx, hv⟩ := List.forall_mem_cons.mp hall
    refine ⟨(⟨x, hx⟩, v.attach.map fun y => ⟨y.1, hv y.1 y.2⟩), congrArg (x :: ·) ?_⟩
    rw [List.map_map]
    exact List.attach_map_subtype_val v

end Spelling

section Soundness

/-- Matches of the input whose text is in the language. -/
def Sound (l : Language α) (ms : List (Match α)) (xs : List α) : Prop :=
  ∀ m ∈ ms, m.consumed ∈ l ∧ m.Of xs

variable {l l' : Language α} {step : List α → List (Match α)} {ms : List (Match α)} {xs : List α}

theorem sound_nothing (h : [] ∈ l) (xs : List α) : Sound l [.nothing xs] xs := by
  intro m hm
  obtain rfl := List.mem_singleton.mp hm
  exact ⟨h, rfl⟩

theorem Sound.append {ns : List (Match α)} (h : Sound l ms xs) (h' : Sound l ns xs) :
    Sound l (ms ++ ns) xs :=
  List.forall_mem_append.mpr ⟨h, h'⟩

theorem Sound.filter (h : Sound l ms xs) (p : Match α → Bool) : Sound l (ms.filter p) xs :=
  fun m hm => h m (List.mem_of_mem_filter hm)

theorem Sound.mono (h : Sound l ms xs) (hle : ∀ w ∈ l, w ∈ l') : Sound l' ms xs :=
  fun m hm => ⟨hle _ (h m hm).1, (h m hm).2⟩

/-- Matches of what earlier matches left. -/
theorem Sound.flatMap (h : Sound l ms xs) (hstep : ∀ ys, Sound l' (step ys) ys) :
    Sound (l * l') (ms.flatMap fun m => (step m.rest).map m.andThen) xs := by
  intro m hm
  obtain ⟨first, hfirst, hm⟩ := List.mem_flatMap.mp hm
  obtain ⟨second, hsecond, rfl⟩ := List.mem_map.mp hm
  obtain ⟨hl, hof⟩ := h first hfirst
  obtain ⟨hl', hof'⟩ := hstep first.rest second hsecond
  refine ⟨Language.append_mem_mul hl hl', ?_⟩
  calc first.consumed ++ second.consumed ++ second.rest
      = first.consumed ++ (second.consumed ++ second.rest) := List.append_assoc ..
    _ = first.consumed ++ first.rest := congrArg _ hof'
    _ = xs := hof

theorem sound_turns (hstep : ∀ ys, Sound l (step ys) ys) (n : ℕ) (xs : List α) :
    Sound l∗ (turns step n xs) xs := by
  induction n generalizing xs with
  | zero => exact sound_nothing (Language.nil_mem_kstar l) xs
  | succ n ih =>
      have hle : l * l∗ ≤ l∗ := mul_kstar_le_kstar
      have hturn : ∀ w ∈ l * l∗, w ∈ l∗ := fun _ hw => hle hw
      have hmore := (((hstep xs).filter fun m => !m.consumed.isEmpty).flatMap ih).mono hturn
      exact hmore.append (sound_nothing (Language.nil_mem_kstar l) xs)

theorem sound_run (r : Regex α) (xs : List α) : Sound r.language (run r xs) xs := by
  induction r generalizing xs with
  | empty => exact sound_nothing (Language.nil_mem_one) xs
  | one p =>
      cases xs with
      | nil => exact fun m hm => (by cases hm)
      | cons x xs =>
          intro m hm
          simp only [run] at hm
          split at hm
          · next hp =>
              obtain rfl := List.mem_singleton.mp hm
              exact ⟨⟨x, hp, rfl⟩, rfl⟩
          · cases hm
  | seq r s ihr ihs => exact (ihr xs).flatMap ihs
  | opt r ih =>
      have hsome : Sound (1 + language r) _ xs :=
        ((ih xs).filter fun m => !m.consumed.isEmpty).mono fun _ hw => .inr hw
      exact hsome.append (sound_nothing (.inl Language.nil_mem_one) xs)
  | star r ih => exact sound_turns ih xs.length xs
  | plus r ih => exact (ih xs).flatMap fun ys => sound_turns ih ys.length ys
  | group name r ih =>
      intro m hm
      obtain ⟨n, hn, rfl⟩ := List.mem_map.mp hm
      exact ih xs n hn

end Soundness

section Completeness

/-- Every beginning of the input that is in the language is matched. -/
def Complete (l : Language α) (step : List α → List (Match α)) : Prop :=
  ∀ w ∈ l, ∀ ys, ∃ groups, ⟨w, ys, groups⟩ ∈ step (w ++ ys)

variable {l l' : Language α} {step step' : List α → List (Match α)}

theorem Complete.flatMap (h : Complete l step) (h' : Complete l' step') :
    Complete (l * l') fun xs => (step xs).flatMap fun m => (step' m.rest).map m.andThen := by
  intro w hw ys
  obtain ⟨u, hu, v, hv, rfl⟩ := Language.mem_mul.mp hw
  obtain ⟨first, hfirst⟩ := h u hu (v ++ ys)
  obtain ⟨second, hsecond⟩ := h' v hv ys
  refine ⟨first ++ second, List.mem_flatMap.mpr ⟨⟨u, v ++ ys, first⟩, ?_, ?_⟩⟩
  · rw [List.append_assoc]
    exact hfirst
  · exact List.mem_map.mpr ⟨⟨v, ys, second⟩, hsecond, rfl⟩

/-- With enough turns left every text made of non-empty pieces is matched. -/
theorem complete_turns_of_pieces (hstep : Complete l step) {pieces : List (List α)}
    (hpieces : ∀ w ∈ pieces, w ∈ l ∧ w ≠ []) {n : ℕ} (hn : pieces.length ≤ n) (ys : List α) :
    ∃ groups, ⟨pieces.flatten, ys, groups⟩ ∈ turns step n (pieces.flatten ++ ys) := by
  induction pieces generalizing n with
  | nil =>
      refine ⟨[], ?_⟩
      cases n with
      | zero => exact List.mem_singleton_self _
      | succ n => exact List.mem_append_right _ (List.mem_singleton_self _)
  | cons w pieces ih =>
      cases n with
      | zero => exact absurd hn (Nat.not_succ_le_zero _)
      | succ n =>
          obtain ⟨⟨hw, hne⟩, hrest⟩ := List.forall_mem_cons.mp hpieces
          obtain ⟨second, hsecond⟩ := ih hrest (Nat.le_of_succ_le_succ hn)
          obtain ⟨first, hfirst⟩ := hstep w hw (pieces.flatten ++ ys)
          refine ⟨first ++ second, List.mem_append_left _ (List.mem_flatMap.mpr
            ⟨⟨w, pieces.flatten ++ ys, first⟩, List.mem_filter.mpr ⟨?_, ?_⟩, ?_⟩)⟩
          · rw [List.flatten_cons, List.append_assoc]
            exact hfirst
          · simpa using hne
          · exact List.mem_map.mpr ⟨⟨pieces.flatten, ys, second⟩, hsecond, rfl⟩

theorem length_le_length_flatten {pieces : List (List α)} (h : ∀ w ∈ pieces, w ≠ []) :
    pieces.length ≤ pieces.flatten.length := by
  induction pieces with
  | nil => exact le_rfl
  | cons w pieces ih =>
      obtain ⟨hw, hrest⟩ := List.forall_mem_cons.mp h
      have hlength := List.length_pos_iff.mpr hw
      have htail := ih hrest
      rw [List.flatten_cons, List.length_append, List.length_cons]
      omega

theorem complete_turns (hstep : Complete l step) :
    Complete l∗ fun xs => turns step xs.length xs := by
  intro w hw ys
  rw [Language.kstar_def_nonempty] at hw
  obtain ⟨pieces, rfl, hpieces⟩ := hw
  have hlength := length_le_length_flatten fun w hw => (hpieces w hw).2
  apply complete_turns_of_pieces hstep hpieces
  rw [List.length_append]
  omega

theorem complete_run (r : Regex α) : Complete r.language (run r) := by
  induction r with
  | empty =>
      intro w hw ys
      obtain rfl := (Language.mem_one w).mp hw
      exact ⟨[], List.mem_singleton_self _⟩
  | one p =>
      rintro _ ⟨x, hp, rfl⟩ ys
      refine ⟨[], ?_⟩
      rw [List.singleton_append, run, if_pos hp]
      exact List.mem_singleton_self _
  | seq r s ihr ihs => exact ihr.flatMap ihs
  | opt r ih =>
      intro w hw ys
      by_cases hempty : w = []
      · subst w
        exact ⟨[], List.mem_append_right _ (List.mem_singleton_self _)⟩
      · obtain ⟨groups, hmem⟩ := ih w (hw.resolve_left hempty) ys
        refine ⟨groups, List.mem_append_left _ (List.mem_filter.mpr ⟨hmem, ?_⟩)⟩
        simpa using hempty
  | star r ih => exact complete_turns ih
  | plus r ih => exact ih.flatMap (complete_turns ih)
  | group name r ih =>
      intro w hw ys
      obtain ⟨groups, hmem⟩ := ih w hw ys
      exact ⟨(name, w) :: groups, List.mem_map.mpr ⟨_, hmem, rfl⟩⟩

end Completeness

/-- An expression accepts the texts of its language. -/
theorem test_iff (r : Regex α) (xs : List α) : test r xs = true ↔ xs ∈ r.language := by
  rw [test, exec, Option.isSome_map, List.find?_isSome]
  constructor
  · rintro ⟨m, hm, hrest⟩
    obtain ⟨hl, hof⟩ := sound_run r xs m hm
    rw [Match.Of, List.isEmpty_iff.mp hrest, List.append_nil] at hof
    exact hof ▸ hl
  · intro hl
    obtain ⟨groups, hm⟩ := complete_run r xs hl []
    rw [List.append_nil] at hm
    exact ⟨_, hm, rfl⟩

/-! ## Groups of a repeated character -/

/-- The ways to cut a beginning of characters of a kind off, the longest first. -/
def splits (p : α → Bool) : List α → List (List α × List α)
  | [] => [([], [])]
  | x :: xs =>
      if p x then (splits p xs).map (Prod.map (x :: ·) id) ++ [([], x :: xs)]
      else [([], x :: xs)]

theorem mem_splits {p : α → Bool} {xs w ys : List α} :
    (w, ys) ∈ splits p xs ↔ w ++ ys = xs ∧ ∀ x ∈ w, p x = true := by
  induction xs generalizing w with
  | nil => cases w <;> simp [splits]
  | cons x xs ih =>
      by_cases hp : p x = true
      · rw [splits, if_pos hp, List.mem_append, List.mem_map, List.mem_singleton]
        constructor
        · rintro (⟨⟨v, zs⟩, hmem, heq⟩ | heq)
          · cases heq
            obtain ⟨rfl, hall⟩ := ih.mp hmem
            exact ⟨rfl, List.forall_mem_cons.mpr ⟨hp, hall⟩⟩
          · cases heq
            exact ⟨rfl, fun _ hx => (by cases hx)⟩
        · rintro ⟨heq, hall⟩
          cases w with
          | nil => exact .inr (congrArg (Prod.mk []) heq)
          | cons y v =>
              obtain ⟨rfl, hrest⟩ := List.cons.inj heq
              exact .inl ⟨(v, ys), ih.mpr ⟨hrest, (List.forall_mem_cons.mp hall).2⟩, rfl⟩
      · rw [splits, if_neg hp, List.mem_singleton]
        constructor
        · intro heq
          cases heq
          exact ⟨rfl, fun _ hx => (by cases hx)⟩
        · rintro ⟨heq, hall⟩
          cases w with
          | nil => exact congrArg (Prod.mk []) heq
          | cons y v =>
              obtain ⟨rfl, _⟩ := List.cons.inj heq
              exact absurd (hall y List.mem_cons_self) hp

/-- Longer cuts come first. -/
theorem pairwise_splits (p : α → Bool) (xs : List α) :
    (splits p xs).Pairwise fun s t => t.1.length < s.1.length := by
  induction xs with
  | nil => exact List.pairwise_singleton ..
  | cons x xs ih =>
      unfold splits
      split
      · refine List.pairwise_append.mpr ⟨?_, List.pairwise_singleton .., fun s hs t ht => ?_⟩
        · exact List.pairwise_map.mpr (ih.imp fun h => Nat.succ_lt_succ h)
        · obtain ⟨u, _, rfl⟩ := List.mem_map.mp hs
          obtain rfl := List.mem_singleton.mp ht
          exact Nat.succ_pos _
      · exact List.pairwise_singleton ..

/-- What a matcher finds first is found at the longest cut at which there is
something to find. -/
theorem findSome?_splits_eq_some {β : Type} {p : α → Bool} {xs : List α}
    {f : List α × List α → Option β} {b : β} (h : (splits p xs).findSome? f = some b) :
    ∃ w ys, w ++ ys = xs ∧ (∀ x ∈ w, p x = true) ∧ f (w, ys) = some b ∧
      ∀ v zs, v ++ zs = xs → (∀ x ∈ v, p x = true) → w.length < v.length → f (v, zs) = none := by
  obtain ⟨before, ⟨w, ys⟩, after, hsplits, hfound, hbefore⟩ := List.findSome?_eq_some_iff.mp h
  have hmem : (w, ys) ∈ splits p xs := by simp [hsplits]
  obtain ⟨hxs, hall⟩ := mem_splits.mp hmem
  refine ⟨w, ys, hxs, hall, hfound, fun v zs hv hvall hlonger => ?_⟩
  have hpairwise := pairwise_splits p xs
  rw [hsplits] at hpairwise
  have hv : (v, zs) ∈ before ++ (w, ys) :: after := hsplits ▸ mem_splits.mpr ⟨hv, hvall⟩
  rcases List.mem_append.mp hv with hv | hv
  · exact hbefore _ hv
  · have hshorter : v.length ≤ w.length := by
      rcases List.mem_cons.mp hv with heq | hv
      · cases heq
        exact le_rfl
      · have htail := (List.pairwise_append.mp hpairwise).2.1
        exact (List.rel_of_pairwise_cons htail hv).le
    exact absurd hlonger (not_lt.mpr hshorter)

/-- A cut at which something is found is the one that a matcher finds, if nothing is
found at a longer one. -/
theorem findSome?_splits_of_longest {β : Type} {p : α → Bool} {xs w ys : List α}
    {f : List α × List α → Option β} {b : β} (hxs : w ++ ys = xs) (hall : ∀ x ∈ w, p x = true)
    (hfound : f (w, ys) = some b)
    (hlonger : ∀ v zs, v ++ zs = xs → (∀ x ∈ v, p x = true) → w.length < v.length →
      f (v, zs) = none) : (splits p xs).findSome? f = some b := by
  cases hfirst : (splits p xs).findSome? f with
  | none =>
      have hnone := List.findSome?_eq_none_iff.mp hfirst _ (mem_splits.mpr ⟨hxs, hall⟩)
      rw [hfound] at hnone
      cases hnone
  | some c =>
      obtain ⟨v, zs, hv, hvall, hvfound, hvlonger⟩ := findSome?_splits_eq_some hfirst
      have hlength : v.length = w.length := by
        rcases Nat.lt_trichotomy v.length w.length with hlt | heq | hlt
        · rw [hvlonger w ys hxs hall hlt] at hfound
          cases hfound
        · exact heq
        · rw [hlonger v zs hv hvall hlt] at hvfound
          cases hvfound
      obtain ⟨rfl, rfl⟩ := List.append_inj (hv.trans hxs.symm) hlength
      exact hvfound.symm.trans hfound

theorem turns_one (p : α → Bool) {n : ℕ} {xs : List α} (hn : xs.length ≤ n) :
    turns (run (one p)) n xs = (splits p xs).map fun s => ⟨s.1, s.2, []⟩ := by
  induction xs generalizing n with
  | nil => cases n <;> rfl
  | cons x xs ih =>
      cases n with
      | zero => exact absurd hn (Nat.not_succ_le_zero _)
      | succ n =>
          have hrest := ih (Nat.le_of_succ_le_succ hn)
          by_cases hp : p x = true
          · simp only [turns, run, splits, if_pos hp]
            simp [hrest, Match.andThen, Match.nothing]
          · simp [turns, run, splits, hp, Match.nothing]

theorem run_star_one (p : α → Bool) (xs : List α) :
    run (star (one p)) xs = (splits p xs).map fun s => ⟨s.1, s.2, []⟩ :=
  turns_one p le_rfl

/-! ## Sequences, from the left -/

theorem exec_seq (r s : Regex α) (xs : List α) : exec (seq r s) xs =
    (run r xs).findSome? fun m => (exec s m.rest).map (m.groups ++ ·) := by
  simp only [exec, run, List.find?_flatMap, List.map_findSome?]
  congr 1
  funext m
  rw [Function.comp_apply, List.find?_map, Option.map_map, Option.map_map]
  rfl

theorem exec_empty_seq (r : Regex α) (xs : List α) : exec (seq empty r) xs = exec r xs := by
  rw [exec_seq]
  simp [run, Match.nothing]

theorem exec_one_seq (p : α → Bool) (r : Regex α) (x : α) (xs : List α) :
    exec (seq (one p) r) (x :: xs) = if p x then exec r xs else none := by
  rw [exec_seq, run]
  split <;> simp

theorem exec_one_seq_nil (p : α → Bool) (r : Regex α) : exec (seq (one p) r) [] = none := rfl

theorem run_seq_assoc (r s t : Regex α) (xs : List α) :
    run (seq (seq r s) t) xs = run (seq r (seq s t)) xs := by
  simp only [run, List.flatMap_assoc, List.flatMap_map, List.map_flatMap, List.map_map]
  congr 1
  funext m
  congr 1
  funext n
  congr 1
  funext k
  simp only [Function.comp_apply, Match.andThen, List.append_assoc]

theorem exec_seq_assoc (r s t : Regex α) (xs : List α) :
    exec (seq (seq r s) t) xs = exec (seq r (seq s t)) xs := by
  rw [exec, exec, run_seq_assoc]

theorem run_seq_empty (r : Regex α) (xs : List α) : run (seq r empty) xs = run r xs := by
  have hnothing : ∀ m : Match α, m.andThen (.nothing m.rest) = m := by
    intro m
    simp [Match.andThen, Match.nothing]
  simp only [run, List.map_cons, List.map_nil, hnothing, List.flatMap_singleton']

theorem exec_empty (xs : List α) : exec empty xs = if xs = [] then some [] else none := by
  cases xs <;> rfl

/-- A literal is a prefix of what it matches. -/
theorem exec_literal_seq [DecidableEq α] (l : List α) (r : Regex α) (xs : List α) :
    exec (seq (literal l) r) xs = if l <+: xs then exec r (xs.drop l.length) else none := by
  induction l generalizing xs with
  | nil => simp [literal, exec_empty_seq]
  | cons y l ih =>
      rw [literal, exec_seq_assoc]
      cases xs with
      | nil => simp [exec_one_seq_nil]
      | cons x xs =>
          rw [exec_one_seq, ih]
          by_cases hx : x = y
          · simp [hx]
          · have hne : ¬ y :: l <+: x :: xs := fun h => hx (List.cons_prefix_cons.mp h).1.symm
            simp [hx, hne]

/-- A group of repeated characters tries its cuts one after the other. -/
theorem exec_group_star_seq (name : String) (p : α → Bool) (r : Regex α) (xs : List α) :
    exec (seq (group name (star (one p))) r) xs =
      (splits p xs).findSome? fun s => (exec r s.2).map ((name, s.1) :: ·) := by
  rw [exec_seq, run, run_star_one, List.map_map, List.findSome?_map]
  rfl

/-- Such a group takes as much as the rest of the expression allows: the rest matches
no later part of what the group leaves. -/
theorem exec_group_star_seq_iff {name : String} {p : α → Bool} {r : Regex α} {xs : List α}
    {groups : List (String × List α)} :
    exec (seq (group name (star (one p))) r) xs = some groups ↔
      ∃ w ys tail, w ++ ys = xs ∧ (∀ x ∈ w, p x = true) ∧ exec r ys = some tail ∧
        groups = (name, w) :: tail ∧
        ∀ u zs, u ≠ [] → u ++ zs = ys → (∀ x ∈ u, p x = true) → exec r zs = none := by
  rw [exec_group_star_seq]
  constructor
  · intro hfirst
    obtain ⟨w, ys, hxs, hall, hfound, hlonger⟩ := findSome?_splits_eq_some hfirst
    obtain ⟨tail, htail, rfl⟩ := Option.map_eq_some_iff.mp hfound
    refine ⟨w, ys, tail, hxs, hall, htail, rfl, fun u zs hu huzs huall => ?_⟩
    refine Option.map_eq_none_iff.mp (hlonger (w ++ u) zs ?_ ?_ ?_)
    · rw [List.append_assoc, huzs, hxs]
    · exact List.forall_mem_append.mpr ⟨hall, huall⟩
    · rw [List.length_append]
      exact Nat.lt_add_of_pos_right (List.length_pos_iff.mpr hu)
  · rintro ⟨w, ys, tail, hxs, hall, htail, rfl, hlonger⟩
    refine findSome?_splits_of_longest hxs hall (Option.map_eq_some_iff.mpr ⟨tail, htail, rfl⟩)
      fun v zs hv hvall hlength => Option.map_eq_none_iff.mpr ?_
    obtain ⟨u, rfl⟩ := List.prefix_of_prefix_length_le ⟨ys, hxs⟩ ⟨zs, hv⟩ hlength.le
    have hu : u ≠ [] := by
      rintro rfl
      simp at hlength
    refine hlonger u zs hu ?_ (List.forall_mem_append.mp hvall).2
    rw [← hxs, List.append_assoc] at hv
    exact List.append_cancel_left hv

/-- At the end such a group takes all that is left. -/
theorem exec_group_star (name : String) (p : α → Bool) (xs : List α) :
    exec (group name (star (one p))) xs =
      if ∀ x ∈ xs, p x = true then some [(name, xs)] else none := by
  have hseq : exec (group name (star (one p))) xs =
      (splits p xs).findSome? fun s => (exec empty s.2).map ((name, s.1) :: ·) := by
    rw [← exec_group_star_seq, exec, exec, run_seq_empty]
  rw [hseq]
  split
  · next hall =>
      refine findSome?_splits_of_longest (List.append_nil xs) hall rfl fun v zs hv _ hlonger => ?_
      rw [← hv, List.length_append] at hlonger
      omega
  · next hall =>
      refine List.findSome?_eq_none_iff.mpr fun s hs => ?_
      obtain ⟨hxs, hprefix⟩ := mem_splits.mp hs
      have hrest : s.2 ≠ [] := by
        intro hnil
        rw [hnil, List.append_nil] at hxs
        exact hall (hxs ▸ hprefix)
      rw [exec_empty, if_neg hrest]
      rfl

/-- What a literal leaves of its input. -/
theorem exec_literal_seq_iff [DecidableEq α] {l : List α} {r : Regex α} {xs : List α}
    {groups : List (String × List α)} : exec (seq (literal l) r) xs = some groups ↔
      ∃ ys, xs = l ++ ys ∧ exec r ys = some groups := by
  rw [exec_literal_seq]
  constructor
  · intro hexec
    split at hexec
    · next hprefix =>
        obtain ⟨ys, rfl⟩ := hprefix
        rw [List.drop_left] at hexec
        exact ⟨ys, rfl, hexec⟩
    · cases hexec
  · rintro ⟨ys, rfl, hexec⟩
    rw [if_pos (List.prefix_append _ _), List.drop_left, hexec]

theorem exec_group_star_iff {name : String} {p : α → Bool} {xs : List α}
    {groups : List (String × List α)} : exec (group name (star (one p))) xs = some groups ↔
      (∀ x ∈ xs, p x = true) ∧ groups = [(name, xs)] := by
  rw [exec_group_star]
  split
  · next hall =>
      rw [Option.some.injEq, eq_comm]
      exact (and_iff_right hall).symm
  · next hall => exact iff_of_false (by simp) fun h => hall h.1

end Regex

end ContentPublishing
