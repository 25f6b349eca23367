import Mathlib.Logic.Basic

/-!
# Imperative code with exceptions

A computation reads and writes a state and may throw. What was written before an
exception stays written, inside and outside of `try`. `exec` gives the outcome of
a computation together with the state it leaves behind; the rules below follow
the code command by command, carry a property of the state through all of it, or
say when it ends with an exception.
-/
namespace ContentPublishing.Effects

variable {ε σ α β : Type}

/-- Outcome and final state of a computation. -/
def exec (x : EStateM ε σ α) (s : σ) : Except ε α × σ :=
  match x s with
  | .ok a t => (.ok a, t)
  | .error e t => (.error e, t)

section Outcome
variable {x : EStateM ε σ α} {s t : σ}

@[simp] theorem exec_pure (a : α) (s : σ) : exec (pure a : EStateM ε σ α) s = (.ok a, s) := rfl

@[simp] theorem exec_throw (e : ε) (s : σ) :
    exec (throw e : EStateM ε σ α) s = (.error e, s) := rfl

@[simp] theorem exec_modify (f : σ → σ) (s : σ) :
    exec (modify f : EStateM ε σ PUnit) s = (.ok ⟨⟩, f s) := rfl

@[simp] theorem exec_get (s : σ) : exec (get : EStateM ε σ σ) s = (.ok s, s) := rfl

/-- Moves past a command that succeeded. -/
theorem exec_bind {a : α} (f : α → EStateM ε σ β) (h : exec x s = (.ok a, t)) :
    exec (x >>= f) s = exec (f a) t := by
  unfold exec at h
  split at h
  · next heq =>
      cases h
      simp only [exec, bind, EStateM.bind, heq]
  · cases h

/-- A command that throws ends the computation. -/
theorem exec_bind_error {e : ε} (f : α → EStateM ε σ β) (h : exec x s = (.error e, t)) :
    exec (x >>= f) s = (.error e, t) := by
  unfold exec at h
  split at h
  · cases h
  · next heq =>
      cases h
      simp only [exec, bind, EStateM.bind, heq]

/-- If a sequence of commands returns, so did the first of them. -/
theorem of_exec_bind {f : α → EStateM ε σ β} {b : β} (h : exec (x >>= f) s = (.ok b, t)) :
    ∃ a u, exec x s = (.ok a, u) ∧ exec (f a) u = (.ok b, t) := by
  cases hx : exec x s with
  | mk r u =>
      cases r with
      | ok a => exact ⟨a, u, rfl, (exec_bind f hx).symm.trans h⟩
      | error e =>
          rw [exec_bind_error f hx] at h
          cases h

/-- What a computation returns that ends by returning something of a kind. -/
theorem of_exec_bind_pure {f : α → β} {b : β}
    (h : exec (x >>= fun a => pure (f a)) s = (.ok b, t)) : ∃ a, b = f a := by
  obtain ⟨a, u, -, hreturn⟩ := of_exec_bind h
  exact ⟨a, (Except.ok.inj (Prod.mk.inj hreturn).1).symm⟩

theorem exec_tryCatch {a : α} (f : ε → EStateM ε σ α) (h : exec x s = (.ok a, t)) :
    exec (tryCatch x f) s = (.ok a, t) := by
  unfold exec at h
  split at h
  · next heq =>
      cases h
      simp only [exec, tryCatch, tryCatchThe, MonadExceptOf.tryCatch]
      delta EStateM.tryCatch
      simp only [heq]
  · cases h

theorem exec_tryCatch_error {e : ε} (f : ε → EStateM ε σ α) (h : exec x s = (.error e, t)) :
    exec (tryCatch x f) s = exec (f e) t := by
  unfold exec at h
  split at h
  · cases h
  · next heq =>
      cases h
      simp only [exec, tryCatch, tryCatchThe, MonadExceptOf.tryCatch]
      delta EStateM.tryCatch
      simp only [heq]
      rfl

/-- A computation whose exceptions are all dropped. -/
theorem exec_tryCatch_pure (x : EStateM ε σ Unit) (s : σ) :
    exec (tryCatch x fun _ => pure ()) s = (.ok (), (exec x s).2) := by
  cases h : exec x s with
  | mk r t =>
      cases r with
      | ok a => rw [exec_tryCatch _ h]
      | error e => rw [exec_tryCatch_error _ h, exec_pure]

/-- After a `finally` that returns, the outcome is the one before it. -/
theorem exec_tryFinally {f : EStateM ε σ β} {r : Except ε α} {b : β} {u : σ}
    (h : exec x s = (r, t)) (hf : exec f t = (.ok b, u)) :
    exec (tryFinally x f) s = (r, u) := by
  unfold exec at h hf
  split at hf
  · next hft =>
      cases hf
      split at h <;> next hxs =>
        cases h
        simp only [exec, tryFinally, tryFinally', Functor.map, EStateM.map, hxs, hft]
  · cases hf

/-- A `finally` that throws decides the outcome. -/
theorem exec_tryFinally_error {f : EStateM ε σ β} {r : Except ε α} {e : ε} {u : σ}
    (h : exec x s = (r, t)) (hf : exec f t = (.error e, u)) :
    exec (tryFinally x f) s = (.error e, u) := by
  unfold exec at h hf
  split at hf
  · cases hf
  · next hft =>
      cases hf
      split at h <;> next hxs =>
        cases h
        simp only [exec, tryFinally, tryFinally', Functor.map, EStateM.map, hxs, hft]

/-- The state after a `finally`, whatever threw. -/
theorem exec_tryFinally_state (x : EStateM ε σ α) (f : EStateM ε σ β) (s : σ) :
    (exec (tryFinally x f) s).2 = (exec f (exec x s).2).2 := by
  cases hx : exec x s with
  | mk r t =>
      cases hf : exec f t with
      | mk q u =>
          cases q with
          | ok b => rw [exec_tryFinally hx hf]
          | error e => rw [exec_tryFinally_error hx hf]

end Outcome

/-- Uses an answer that was received, or throws what was received instead of it. -/
def ask : Except ε α → EStateM ε σ α
  | .ok answer => pure answer
  | .error e => throw e

@[simp] theorem exec_ask (x : Except ε α) (s : σ) : exec (ask x) s = (x, s) := by
  cases x <;> rfl

/-! ## Two computations -/

/-- Where both return, they return the same and leave the same state. -/
def Agree (x y : EStateM ε σ α) : Prop :=
  ∀ s a b t u, exec x s = (.ok a, t) → exec y s = (.ok b, u) → a = b ∧ t = u

theorem Agree.refl (x : EStateM ε σ α) : Agree x x := by
  intro s a b t u h h'
  obtain ⟨heq, ht⟩ := Prod.mk.inj (h.symm.trans h')
  exact ⟨Except.ok.inj heq, ht⟩

theorem Agree.ask {x y : Except ε α} (h : ∀ a b, x = .ok a → y = .ok b → a = b) :
    Agree (ask x : EStateM ε σ α) (ask y) := by
  intro s a b t u hx hy
  rw [exec_ask] at hx hy
  obtain ⟨hxa, hst⟩ := Prod.mk.inj hx
  obtain ⟨hyb, hsu⟩ := Prod.mk.inj hy
  exact ⟨h a b hxa hyb, hst.symm.trans hsu⟩

theorem Agree.bind {x y : EStateM ε σ α} {f g : α → EStateM ε σ β} (h : Agree x y)
    (hfg : ∀ a, Agree (f a) (g a)) : Agree (x >>= f) (y >>= g) := by
  intro s a b t u hx hy
  obtain ⟨c, s', hc, hf⟩ := of_exec_bind hx
  obtain ⟨d, u', hd, hg⟩ := of_exec_bind hy
  obtain ⟨rfl, rfl⟩ := h s c d s' u' hc hd
  exact hfg c s' a b t u hf hg

/-- What follows may be the same on both sides. -/
theorem Agree.andThen {x y : EStateM ε σ α} (h : Agree x y) (f : α → EStateM ε σ β) :
    Agree (x >>= f) (y >>= f) :=
  h.bind fun a => Agree.refl (f a)

/-- Whatever its outcome, the computation keeps a property of the state. -/
def Keeps (P : σ → Prop) (x : EStateM ε σ α) : Prop := ∀ s, P s → P (exec x s).2

section Keeps
variable {P : σ → Prop}

theorem keeps_pure (a : α) : Keeps P (pure a : EStateM ε σ α) := fun _ h => h

theorem keeps_throw (e : ε) : Keeps P (throw e : EStateM ε σ α) := fun _ h => h

theorem keeps_modify {f : σ → σ} (h : ∀ s, P s → P (f s)) :
    Keeps P (modify f : EStateM ε σ PUnit) := h

theorem keeps_ask (x : Except ε α) : Keeps P (ask x) := by
  intro s h
  rw [exec_ask]
  exact h

theorem keeps_get : Keeps P (get : EStateM ε σ σ) := fun _ h => h

/-- What is known of the state may be used of the value read. -/
theorem keeps_get_bind {f : σ → EStateM ε σ β} (h : ∀ s, P s → Keeps P (f s)) :
    Keeps P (get >>= f) := by
  intro s hs
  rw [exec_bind f (exec_get s)]
  exact h s hs s hs

theorem keeps_bind {x : EStateM ε σ α} {f : α → EStateM ε σ β} (hx : Keeps P x)
    (hf : ∀ a, Keeps P (f a)) : Keeps P (x >>= f) := by
  intro s hs
  have ht := hx s hs
  cases h : exec x s with
  | mk r t =>
      rw [h] at ht
      cases r with
      | ok a => rw [exec_bind f h]; exact hf a t ht
      | error e => rw [exec_bind_error f h]; exact ht

/-- What holds where the exception is caught, and is kept by the handler. -/
theorem holds_tryCatch {x : EStateM ε σ α} {f : ε → EStateM ε σ α} {s : σ}
    (hx : P (exec x s).2) (hf : ∀ e, Keeps P (f e)) : P (exec (tryCatch x f) s).2 := by
  cases h : exec x s with
  | mk r t =>
      rw [h] at hx
      cases r with
      | ok a => rw [exec_tryCatch f h]; exact hx
      | error e => rw [exec_tryCatch_error f h]; exact hf e t hx

theorem keeps_tryCatch {x : EStateM ε σ α} {f : ε → EStateM ε σ α} (hx : Keeps P x)
    (hf : ∀ e, Keeps P (f e)) : Keeps P (tryCatch x f) :=
  fun s hs => holds_tryCatch (hx s hs) hf

theorem holds_tryFinally {x : EStateM ε σ α} {f : EStateM ε σ β} {s : σ}
    (hx : P (exec x s).2) (hf : Keeps P f) : P (exec (tryFinally x f) s).2 := by
  cases h : exec x s with
  | mk r t =>
      rw [h] at hx
      have hu := hf t hx
      cases h' : exec f t with
      | mk q u =>
          rw [h'] at hu
          cases q with
          | ok b => rw [exec_tryFinally h h']; exact hu
          | error e => rw [exec_tryFinally_error h h']; exact hu

end Keeps

theorem of_bind_ok {x : Except ε α} {f : α → Except ε β} {b : β} (h : (x >>= f) = .ok b) :
    ∃ a, x = .ok a ∧ f a = .ok b := by
  cases x with
  | error e => cases h
  | ok a => exact ⟨a, rfl, h⟩

theorem mapM_congr {f g : α → Except ε β} {l : List α} (h : ∀ a ∈ l, f a = g a) :
    l.mapM f = l.mapM g := by
  induction l with
  | nil => rfl
  | cons a l ih =>
      obtain ⟨ha, hl⟩ := List.forall_mem_cons.mp h
      rw [List.mapM_cons, List.mapM_cons, ha, ih hl]

theorem mapM_eq_ok {f : α → Except ε β} {g : α → β} {l : List α}
    (h : ∀ a ∈ l, f a = .ok (g a)) : l.mapM f = .ok (l.map g) :=
  (mapM_congr h).trans List.mapM_pure

/-- A sequence of reads that is answered had each of its reads answered. -/
theorem exists_of_mapM_ok {f : α → Except ε β} {l : List α} {bs : List β}
    (h : l.mapM f = .ok bs) : ∀ a ∈ l, ∃ b ∈ bs, f a = .ok b := by
  induction l generalizing bs with
  | nil => exact fun a ha => (by cases ha)
  | cons a l ih =>
      rw [List.mapM_cons] at h
      obtain ⟨first, hfirst, h⟩ := of_bind_ok h
      obtain ⟨rest, hrest, h⟩ := of_bind_ok h
      obtain rfl : first :: rest = bs := Except.ok.inj h
      refine List.forall_mem_cons.mpr ⟨⟨first, List.mem_cons_self, hfirst⟩, fun c hc => ?_⟩
      obtain ⟨b, hb, hf⟩ := ih hrest c hc
      exact ⟨b, List.mem_cons_of_mem _ hb, hf⟩

/-- Each of the answers is that of one of the reads. -/
theorem of_mem_mapM_ok {f : α → Except ε β} {l : List α} {bs : List β} {b : β}
    (h : l.mapM f = .ok bs) (hb : b ∈ bs) : ∃ a ∈ l, f a = .ok b := by
  induction l generalizing bs with
  | nil =>
      cases h
      cases hb
  | cons a l ih =>
      rw [List.mapM_cons] at h
      obtain ⟨first, hfirst, h⟩ := of_bind_ok h
      obtain ⟨rest, hrest, h⟩ := of_bind_ok h
      obtain rfl : first :: rest = bs := Except.ok.inj h
      rcases List.mem_cons.mp hb with rfl | hb
      · exact ⟨a, List.mem_cons_self, hfirst⟩
      · exact (ih hrest hb).imp fun c hc => ⟨List.mem_cons_of_mem _ hc.1, hc.2⟩

/-- An answer that is an exception. -/
def Failed (x : Except ε α) : Prop := ∃ e, x = .error e

theorem failed_error (e : ε) : Failed (.error e : Except ε α) := ⟨e, rfl⟩

theorem not_failed_ok (a : α) : ¬ Failed (.ok a : Except ε α) := by
  rintro ⟨e, he⟩
  cases he

theorem exists_of_not_failed {x : Except ε α} (h : ¬ Failed x) : ∃ a, x = .ok a := by
  cases x with
  | ok a => exact ⟨a, rfl⟩
  | error e => exact (h (failed_error e)).elim

instance decidableFailed : (x : Except ε α) → Decidable (Failed x)
  | .ok a => isFalse (not_failed_ok a)
  | .error e => isTrue (failed_error e)

/-- The computation ends with an exception. -/
def Throws (x : EStateM ε σ α) (s : σ) : Prop := Failed (exec x s).1

section Throws
variable {A B : Prop}

theorem throws_ask (x : Except ε α) (s : σ) : Throws (ask x) s ↔ Failed x := by
  rw [Throws, exec_ask]

theorem not_throws_pure (a : α) (s : σ) : ¬ Throws (pure a : EStateM ε σ α) s := not_failed_ok a

theorem not_throws_tryCatch_pure (x : EStateM ε σ Unit) (s : σ) :
    ¬ Throws (tryCatch x fun _ => pure ()) s := by
  rw [Throws, exec_tryCatch_pure]
  exact not_failed_ok ()

/-- For a sequence of commands whose exceptions do not depend on the state. -/
theorem throws_bind {x : EStateM ε σ α} {f : α → EStateM ε σ β} (hx : ∀ s, Throws x s ↔ A)
    (hf : ∀ a s, Throws (f a) s ↔ B) (s : σ) : Throws (x >>= f) s ↔ A ∨ B := by
  rw [← hx s]
  unfold Throws
  cases h : exec x s with
  | mk r t =>
      cases r with
      | ok a =>
          rw [exec_bind f h, ← Throws, hf]
          exact (or_iff_right (not_failed_ok a)).symm
      | error e =>
          rw [exec_bind_error f h]
          exact iff_of_true (failed_error e) (.inl (failed_error e))

/-- What follows does not throw. -/
theorem throws_bind_left {x : EStateM ε σ α} {f : α → EStateM ε σ β} (hx : ∀ s, Throws x s ↔ A)
    (hf : ∀ a s, ¬ Throws (f a) s) (s : σ) : Throws (x >>= f) s ↔ A := by
  rw [throws_bind hx (fun a s => iff_false_intro (hf a s)), or_false]

theorem throws_bind_modify {g : σ → σ} {f : PUnit → EStateM ε σ β}
    (hf : ∀ a s, Throws (f a) s ↔ B) (s : σ) : Throws (modify g >>= f) s ↔ B := by
  rw [Throws, exec_bind f (exec_modify g s)]
  exact hf _ _

/-- A handler that throws again hides nothing. -/
theorem throws_tryCatch {x : EStateM ε σ α} {f : ε → EStateM ε σ α} (hf : ∀ e s, Throws (f e) s)
    (s : σ) : Throws (tryCatch x f) s ↔ Throws x s := by
  unfold Throws
  cases h : exec x s with
  | mk r t =>
      cases r with
      | ok a => rw [exec_tryCatch f h]
      | error e =>
          rw [exec_tryCatch_error f h]
          exact iff_of_true (hf e t) (failed_error e)

theorem throws_tryFinally {x : EStateM ε σ α} {f : EStateM ε σ β} (hx : ∀ s, Throws x s ↔ A)
    (hf : ∀ s, Throws f s ↔ B) (s : σ) : Throws (tryFinally x f) s ↔ A ∨ B := by
  cases h : exec x s with
  | mk r t =>
      have hA : Failed r ↔ A := by rw [← hx s, Throws, h]
      cases h' : exec f t with
      | mk q u =>
          have hB : Failed q ↔ B := by rw [← hf t, Throws, h']
          cases q with
          | ok b =>
              rw [Throws, exec_tryFinally h h', hA]
              exact (or_iff_left (hB.not.mp (not_failed_ok b))).symm
          | error e =>
              rw [Throws, exec_tryFinally_error h h']
              exact iff_of_true (failed_error e) (.inr (hB.mp (failed_error e)))

end Throws

end ContentPublishing.Effects
