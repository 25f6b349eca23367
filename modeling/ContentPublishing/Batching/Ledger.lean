import ContentPublishing.Batching.Step

/-!
# The life of a batch identifier

A ledger assigns to every batch identifier the stage of its life: drawn by a
`process` call, naming the open batch, naming a closed batch with fixed
contents, or spent because the row joined another batch. `Ledger L s` says that
all parts of the state agree with the ledger. It holds in every reachable state,
faults included, and identifiers only move forward (`Evolves`). The results on
loss, duplication, recovery and timing start from it.
-/
namespace ContentPublishing.Batching
open Transition
variable {A : Type}

inductive Life (A : Type) where
  | unused
  | minted (i : CallId)
  | opened
  | closed (o : OpenBatch A)
  | spare

/-- The identifier names a batch. -/
def Life.IsBatch (x : Life A) : Prop := x = .opened ∨ ∃ o, x = .closed o

/-- The identifier has been through `addToBatch`. -/
def Life.Settled (x : Life A) : Prop := x.IsBatch ∨ x = .spare

theorem Life.not_settled_unused : ¬ (Life.unused : Life A).Settled := by
  simp [Life.Settled, Life.IsBatch]

theorem Life.not_settled_minted (i : CallId) : ¬ (Life.minted i : Life A).Settled := by
  simp [Life.Settled, Life.IsBatch]

/-- An identifier minted for one call is not touched when another one moves on. -/
theorem Life.update_minted {L : BatchId → Life A} {b c : BatchId} {k : CallId} {x : Life A}
    (hb : L b ≠ .minted k) (hc : L c = .minted k) : Function.update L b x c = .minted k := by
  have hne : c ≠ b := by
    rintro rfl
    exact hb hc
  rw [Function.update_of_ne hne, hc]

/-- An in-flight call mentions only identifiers at the right stage, and keeps
in memory exactly the contents of a closed batch. -/
def CallOk (L : BatchId → Life A) (i : CallId) : Call A → Prop
  | .adding _ _ b _ => L b = .minted i
  | .added _ _ b n joined => (L b).Settled ∧ (L joined).IsBatch ∧ (n = 1 → joined = b)
  | .setup _ m => ∀ metadata, m = some metadata → (L metadata.batchId).IsBatch
  | .closing _ b _ raisedFor stage => (L b).Settled ∧ (L raisedFor).IsBatch ∧
      ∀ snapshot, stage.snapshot? = some snapshot →
        ∃ o, L snapshot.batchId = .closed o ∧ snapshot = o.snapshot snapshot.status

/-- The contents that an identifier stands for. -/
def Holds (L : BatchId → Life A) (current : Option (OpenBatch A)) (b : BatchId)
    (o : OpenBatch A) : Prop :=
  L b = .closed o ∨ (current = some o ∧ o.batchId = b)

structure Ledger (L : BatchId → Life A) (s : BatchState A) : Prop where
  issued : ∀ b, b ∉ s.issued → L b = .unused
  calls : ∀ i c, s.calls i = some c → CallOk L i c
  timeouts : ∀ w b t, s.timeouts w b = some t → (L b).IsBatch
  current : ∀ b, L b = .opened ↔ ∃ o, s.redis.current = some o ∧ o.batchId = b
  locked : ∀ l, s.redis.locked = some l → L l.batchId = .closed l.toOpenBatch
  queue : ∀ b job, (b, job) ∈ s.batchQueue.jobs →
    ∃ o, L b = .closed o ∧ job.announcements = o.rows.map Prod.snd
  accepted : ∀ x ∈ s.accepted, ∃ o, Holds L s.redis.current x.batchId o ∧
    x.jobId ∈ o.rows.map Prod.fst
  origin : ∀ b o, Holds L s.redis.current b o →
    o.batchId = b ∧ ∀ r ∈ o.rows, ⟨r.1, r.2, b⟩ ∈ s.accepted

/-- Identifiers move forward only; spent and closed ones stay as they are. -/
structure Evolves (L L' : BatchId → Life A) : Prop where
  settled : ∀ b, (L b).Settled → (L' b).Settled
  batch : ∀ b, (L b).IsBatch → (L' b).IsBatch
  final : ∀ b, (L b).Settled → L b ≠ .opened → L' b = L b

namespace Evolves
variable {L : BatchId → Life A} {b : BatchId}

theorem refl (L : BatchId → Life A) : Evolves L L :=
  ⟨fun _ h => h, fun _ h => h, fun _ _ _ => rfl⟩

theorem of_not_settled (x : Life A) (h : ¬ (L b).Settled) :
    Evolves L (Function.update L b x) where
  settled c hc := by
    have hne : c ≠ b := fun e => h (e ▸ hc)
    rwa [Function.update_of_ne hne]
  batch c hc := by
    have hne : c ≠ b := fun e => h (e ▸ .inl hc)
    rwa [Function.update_of_ne hne]
  final c hc _ := by
    have hne : c ≠ b := fun e => h (e ▸ hc)
    rw [Function.update_of_ne hne]

theorem close (o : OpenBatch A) (h : L b = .opened) :
    Evolves L (Function.update L b (.closed o)) where
  settled c hc := by
    by_cases hcb : c = b
    · subst c; rw [Function.update_self]; exact .inl (.inr ⟨o, rfl⟩)
    · rwa [Function.update_of_ne hcb]
  batch c hc := by
    by_cases hcb : c = b
    · subst c; rw [Function.update_self]; exact .inr ⟨o, rfl⟩
    · rwa [Function.update_of_ne hcb]
  final c _ hc := by
    have hne : c ≠ b := fun e => hc (e ▸ h)
    rw [Function.update_of_ne hne]

variable {L' : BatchId → Life A}

theorem closed (hE : Evolves L L') {o : OpenBatch A} (h : L b = .closed o) :
    L' b = .closed o := by
  rw [hE.final b (by rw [h]; exact .inl (.inr ⟨o, rfl⟩)) (fun e => by rw [h] at e; cases e), h]

/-- A call that is not waiting for `addToBatch` stays in order. -/
theorem callOk (hE : Evolves L L') {i : CallId} {c : Call A}
    (hm : ∀ b, L b = .minted i → L' b = .minted i) (h : CallOk L i c) : CallOk L' i c := by
  cases c with
  | adding w job b t => exact hm b h
  | added w job b n joined => exact ⟨hE.settled b h.1, hE.batch joined h.2.1, h.2.2⟩
  | setup w m => exact fun metadata hmd => hE.batch _ (h metadata hmd)
  | closing w b timeout raisedFor stage =>
      refine ⟨hE.settled b h.1, hE.batch raisedFor h.2.1, fun snapshot hs => ?_⟩
      obtain ⟨o, ho, hsnap⟩ := h.2.2 snapshot hs
      exact ⟨o, hE.closed ho, hsnap⟩

end Evolves

namespace Ledger
variable {L : BatchId → Life A} {s : BatchState A}

/-- An identifier stands for one batch only. -/
theorem holds_unique (h : Ledger L s) {b : BatchId} {o p : OpenBatch A}
    (ho : Holds L s.redis.current b o) (hp : Holds L s.redis.current b p) : o = p := by
  have open_not_closed : ∀ {o p : OpenBatch A}, L b = .closed o →
      ¬ (s.redis.current = some p ∧ p.batchId = b) := by
    rintro o p hc ⟨hcur, rfl⟩
    have hopen := (h.current p.batchId).mpr ⟨p, hcur, rfl⟩
    rw [hopen] at hc
    cases hc
  rcases ho with ho | ho <;> rcases hp with hp | hp
  · exact Life.closed.inj (ho.symm.trans hp)
  · exact (open_not_closed ho hp).elim
  · exact (open_not_closed hp ho).elim
  · exact Option.some.inj (ho.1.symm.trans hp.1)

/-! The parts of the state that steps replace one at a time. -/

theorem setCall (h : Ledger L s) {i : CallId} {c : Call A} (hc : CallOk L i c) :
    Ledger L (s.setCall i c) :=
  { h with calls := State.forall_setCall h.calls hc }

theorem endCall (h : Ledger L s) (i : CallId) : Ledger L (s.endCall i) :=
  { h with calls := State.forall_endCall h.calls i }

theorem setTimeout (h : Ledger L s) (w : WorkerId) {b : BatchId} {t : Option Timeout}
    (hb : t = none ∨ (L b).IsBatch) : Ledger L (s.setTimeout w b t) := by
  refine { h with timeouts := fun v c u hu => ?_ }
  rcases State.of_timeouts_setTimeout hu with ⟨rfl, rfl, ht⟩ | ⟨_, hu⟩
  · exact hb.resolve_left (by rw [ht]; exact Option.some_ne_none u)
  · exact h.timeouts v c u hu

theorem addBatchTimeout (h : Ledger L s) (w : WorkerId) {b : BatchId} (ms : ℚ)
    (hb : (L b).IsBatch) : Ledger L (s.addBatchTimeout w b ms) :=
  h.setTimeout w (.inr hb)

theorem closeBatch (h : Ledger L s) {i : CallId} {w : WorkerId} {b : BatchId} {timeout : Bool}
    {raisedFor : BatchId} (hb : (L b).Settled) (hr : (L raisedFor).IsBatch) :
    Ledger L (s.closeBatch i w b timeout raisedFor) :=
  h.setCall ⟨hb, hr, fun _ hs => by cases hs⟩

theorem finish (h : Ledger L s) {i : CallId} {w : WorkerId} {b : BatchId} {timeout : Bool}
    {raisedFor : BatchId} (status : LockStatus) (hb : (L b).Settled) (hr : (L raisedFor).IsBatch) :
    Ledger L (s.finish i w b timeout raisedFor status) := by
  cases status with
  | leftover => exact h.closeBatch hb hr
  | locked => exact h.endCall i

/-! The steps that move an identifier forward. -/

/-- The identifier of a waiting `process` call names nothing yet. -/
theorem unsettled (h : Ledger L s) {i : CallId} {w : WorkerId} {job : Job A} {b : BatchId} {t : ℕ}
    (call : s.calls i = some (.adding w job b t)) : ¬ (L b).Settled := by
  have hb : L b = .minted i := h.calls i _ call
  rw [hb]
  exact Life.not_settled_minted i

/-- Other calls keep their standing when one call is replaced. -/
theorem calls_evolve (h : Ledger L s) {L' : BatchId → Life A} (hE : Evolves L L') {i : CallId}
    {c : Call A} (hm : ∀ b k, k ≠ i → L b = .minted k → L' b = .minted k) (hc : CallOk L' i c)
    (k : CallId) (d : Call A) (hd : Function.update s.calls i (some c) k = some d) :
    CallOk L' k d := by
  by_cases hk : k = i
  · subst k
    rw [Function.update_self, Option.some.injEq] at hd
    exact hd ▸ hc
  · rw [Function.update_of_ne hk] at hd
    exact hE.callOk (fun b => hm b k hk) (h.calls k d hd)

/-- A change of the ledger that concerns no batch leaves the contents in order. -/
theorem transport (h : Ledger L s) {L' : BatchId → Life A} {calls : CallId → Option (Call A)}
    {issued : List BatchId} (ho : ∀ b, L' b = .opened ↔ L b = .opened)
    (hcl : ∀ b o, L' b = .closed o ↔ L b = .closed o) (hi : ∀ b, b ∉ issued → L' b = .unused)
    (hc : ∀ i c, calls i = some c → CallOk L' i c) :
    Ledger L' { s with calls := calls, issued := issued } where
  issued := hi
  calls := hc
  timeouts w b t ht := by
    refine (h.timeouts w b t ht).imp (ho b).mpr ?_
    rintro ⟨o, hb⟩
    exact ⟨o, (hcl b o).mpr hb⟩
  current b := (ho b).trans (h.current b)
  locked l hl := (hcl _ _).mpr (h.locked l hl)
  queue b job hj := by
    obtain ⟨o, hb, hja⟩ := h.queue b job hj
    exact ⟨o, (hcl b o).mpr hb, hja⟩
  accepted x hx := by
    obtain ⟨o, hb, hj⟩ := h.accepted x hx
    exact ⟨o, hb.imp (hcl _ o).mpr id, hj⟩
  origin b o hb := h.origin b o (hb.imp (hcl b o).mp id)

/-- Writing a stage that names no batch over one that names nothing. -/
theorem respend (h : Ledger L s) {b : BatchId} {x : Life A} (hb : ¬ (L b).Settled)
    (hx : ¬ x.IsBatch) {calls : CallId → Option (Call A)} {issued : List BatchId}
    (hi : ∀ c, c ∉ issued → c ∉ s.issued ∧ c ≠ b)
    (hc : ∀ i c, calls i = some c → CallOk (Function.update L b x) i c) :
    Ledger (Function.update L b x) { s with calls := calls, issued := issued } := by
  refine h.transport (fun c => ?_) (fun c o => ?_) (fun c hc => ?_) hc
  · by_cases hcb : c = b
    · subst c
      rw [Function.update_self]
      exact ⟨fun e => (hx (.inl e)).elim, fun e => (hb (.inl (.inl e))).elim⟩
    · rw [Function.update_of_ne hcb]
  · by_cases hcb : c = b
    · subst c
      rw [Function.update_self]
      exact ⟨fun e => (hx (.inr ⟨o, e⟩)).elim, fun e => (hb (.inl (.inr ⟨o, e⟩))).elim⟩
    · rw [Function.update_of_ne hcb]
  · obtain ⟨hs, hne⟩ := hi c hc
    rw [Function.update_of_ne hne]
    exact h.issued c hs

/-- A row joins the open batch. -/
theorem grow (h : Ledger L s) {o : OpenBatch A} (current : s.redis.current = some o)
    (row : Row A) :
    Ledger L { s with
      redis := ⟨some (o.addRow row), s.redis.locked⟩
      accepted := s.accepted ++ [⟨row.1, row.2, o.batchId⟩] } := by
  refine { h with current := fun b => ?_, accepted := fun x hx => ?_, origin := fun b p hp => ?_ }
  · rw [h.current b, current]
    simp [OpenBatch.addRow]
  · rcases List.mem_append.mp hx with hx | hx
    · obtain ⟨p, hp, hj⟩ := h.accepted x hx
      rcases hp with hp | ⟨hp, hid⟩
      · exact ⟨p, .inl hp, hj⟩
      · rw [current, Option.some.injEq] at hp
        subst p
        exact ⟨o.addRow row, .inr ⟨rfl, hid⟩,
          List.map_subset _ (OpenBatch.subset_insert o.rows row) hj⟩
    · rw [List.mem_singleton] at hx
      subst x
      exact ⟨o.addRow row, .inr ⟨rfl, rfl⟩, (o.mem_addRow row).1⟩
  · rcases hp with hp | ⟨hp, hid⟩
    · obtain ⟨hb, hrows⟩ := h.origin b p (.inl hp)
      exact ⟨hb, fun r hr => List.mem_append_left _ (hrows r hr)⟩
    · rw [Option.some.injEq] at hp
      subst p
      refine ⟨hid, fun r hr => ?_⟩
      rcases OpenBatch.of_mem_addRow hr with hr | rfl
      · exact List.mem_append_left _ ((h.origin b o (.inr ⟨current, hid⟩)).2 r hr)
      · exact List.mem_append_right _ (List.mem_singleton.mpr (hid ▸ rfl))

/-- A row opens a batch under the identifier of its own call. -/
theorem openBatch (h : Ledger L s) {b : BatchId} (hb : ¬ (L b).Settled)
    (hissued : b ∈ s.issued) (current : s.redis.current = none) (t : ℕ) (row : Row A)
    {calls : CallId → Option (Call A)}
    (hc : ∀ i c, calls i = some c → CallOk (Function.update L b .opened) i c) :
    Ledger (Function.update L b .opened) { s with
      redis := ⟨some (.single b t row), s.redis.locked⟩
      calls := calls
      accepted := s.accepted ++ [⟨row.1, row.2, b⟩] } := by
  have hE := Evolves.of_not_settled .opened hb
  have hclosed : ∀ c o, Function.update L b .opened c = .closed o ↔ L c = .closed o := by
    intro c o
    by_cases hcb : c = b
    · subst c
      rw [Function.update_self]
      exact ⟨fun e => (by cases e), fun e => (hb (.inl (.inr ⟨o, e⟩))).elim⟩
    · rw [Function.update_of_ne hcb]
  refine ⟨fun c hcs => ?_, hc, fun w c u hu => hE.batch c (h.timeouts w c u hu), fun c => ?_,
    fun l hl => (hclosed _ _).mpr (h.locked l hl), fun c job hj => ?_, fun x hx => ?_,
    fun c o ho => ?_⟩
  · have hne : c ≠ b := fun e => hcs (e ▸ hissued)
    rw [Function.update_of_ne hne]
    exact h.issued c hcs
  · by_cases hcb : c = b
    · subst c
      simp [OpenBatch.single]
    · rw [Function.update_of_ne hcb, h.current c, current]
      simp [OpenBatch.single, Ne.symm hcb]
  · obtain ⟨o, ho, hja⟩ := h.queue c job hj
    exact ⟨o, (hclosed c o).mpr ho, hja⟩
  · rcases List.mem_append.mp hx with hx | hx
    · obtain ⟨o, ho, hj⟩ := h.accepted x hx
      rcases ho with ho | ⟨ho, _⟩
      · exact ⟨o, .inl ((hclosed _ _).mpr ho), hj⟩
      · rw [current] at ho
        cases ho
    · rw [List.mem_singleton] at hx
      subst x
      exact ⟨.single b t row, .inr ⟨rfl, rfl⟩, by simp [OpenBatch.single]⟩
  · rcases ho with ho | ⟨ho, hid⟩
    · obtain ⟨hcb, hrows⟩ := h.origin c o (.inl ((hclosed c o).mp ho))
      exact ⟨hcb, fun r hr => List.mem_append_left _ (hrows r hr)⟩
    · rw [Option.some.injEq] at ho
      subst o
      refine ⟨hid, fun r hr => List.mem_append_right _ ?_⟩
      have hrow : r = row := List.mem_singleton.mp hr
      have hbc : b = c := hid
      rw [hrow, hbc]
      exact List.mem_singleton_self _

/-- The open batch is renamed to the locked keys and its contents become final. -/
theorem lockBatch (h : Ledger L s) {o : OpenBatch A} (current : s.redis.current = some o)
    (now : ℕ) {calls : CallId → Option (Call A)}
    (hc : ∀ i c, calls i = some c → CallOk (Function.update L o.batchId (.closed o)) i c) :
    Ledger (Function.update L o.batchId (.closed o)) { s with
      redis := ⟨none, some (o.lock now)⟩
      calls := calls } := by
  have hopen : L o.batchId = .opened := (h.current _).mpr ⟨o, current, rfl⟩
  have hE := Evolves.close o hopen
  have hholds : ∀ c p, Holds (Function.update L o.batchId (.closed o)) none c p ↔
      Holds L s.redis.current c p := by
    intro c p
    unfold Holds
    rw [current]
    by_cases hcb : c = o.batchId
    · subst c
      rw [Function.update_self, hopen]
      constructor
      · rintro (e | ⟨e, _⟩)
        · cases e
          exact .inr ⟨rfl, rfl⟩
        · cases e
      · rintro (e | ⟨e, _⟩)
        · cases e
        · cases e
          exact .inl rfl
    · rw [Function.update_of_ne hcb]
      constructor
      · rintro (e | ⟨e, _⟩)
        · exact .inl e
        · cases e
      · rintro (e | ⟨e, hid⟩)
        · exact .inl e
        · cases e
          exact absurd hid.symm hcb
  refine ⟨fun c hcs => ?_, hc, fun w c u hu => hE.batch c (h.timeouts w c u hu), fun c => ?_,
    fun l hl => ?_, fun c job hj => ?_, fun x hx => ?_,
    fun c p hp => h.origin c p ((hholds c p).mp hp)⟩
  · have hne : c ≠ o.batchId := by
      rintro rfl
      rw [h.issued _ hcs] at hopen
      cases hopen
    rw [Function.update_of_ne hne]
    exact h.issued c hcs
  · by_cases hcb : c = o.batchId
    · subst c
      simp
    · rw [Function.update_of_ne hcb, h.current c, current]
      simp [Ne.symm hcb]
  · have hl' : o.lock now = l := Option.some.inj hl
    subst l
    exact Function.update_self ..
  · obtain ⟨p, hp, hja⟩ := h.queue c job hj
    exact ⟨p, hE.closed hp, hja⟩
  · obtain ⟨p, hp, hj⟩ := h.accepted x hx
    exact ⟨p, (hholds _ _).mpr hp, hj⟩

/-- A received batch enters the output queue with its final contents. -/
theorem enqueue (h : Ledger L s) (cfg : Config) {o : OpenBatch A} {snapshot : Snapshot A}
    (ho : L snapshot.batchId = .closed o) (hs : snapshot = o.snapshot snapshot.status) :
    Ledger L { s with
      batchQueue := s.batchQueue.add snapshot.batchId (cfg.batchJob snapshot) } := by
  refine { h with queue := fun b job hj => ?_ }
  rcases JobQueue.mem_jobs_add hj with hj | ⟨rfl, rfl⟩
  · exact h.queue b job hj
  · exact ⟨o, ho, congrArg Snapshot.announcements hs⟩

theorem clear (h : Ledger L s) : Ledger L { s with redis := s.redis.clear } :=
  { h with locked := fun _ hl => by cases hl }

/-- One step keeps the books, moving identifiers forward. -/
theorem step (h : Ledger L s) {cfg : Config} {a : Action A} {t : BatchState A}
    (hst : Step cfg s a t) : ∃ L', Evolves L L' ∧ Ledger L' t := by
  have stay : ∀ {t : BatchState A}, Ledger L t → ∃ L', Evolves L L' ∧ Ledger L' t :=
    fun ht => ⟨L, .refl L, ht⟩
  cases hst with
  | tick ms => exact stay { h with }
  | process w i job b free fresh =>
      have hb : L b = .unused := h.issued b fresh
      have hE := Evolves.of_not_settled (.minted i) (hb ▸ Life.not_settled_unused)
      refine ⟨_, hE, h.respend (hb ▸ Life.not_settled_unused) ?_ (fun c hc => ?_) ?_⟩
      · exact fun e => Life.not_settled_minted i (.inl e)
      · rw [List.mem_cons, not_or] at hc
        exact ⟨hc.2, hc.1⟩
      · refine h.calls_evolve hE (fun c k _ hc => Life.update_minted (fun e => ?_) hc)
          (Function.update_self ..)
        rw [hb] at e
        cases e
  | addNew i w job b t call current =>
      have hb : L b = .minted i := h.calls i _ call
      have hns := h.unsettled call
      have hissued : b ∈ s.issued := by
        by_contra hn
        rw [h.issued b hn] at hb
        cases hb
      have hE := Evolves.of_not_settled .opened hns
      refine ⟨_, hE, h.openBatch hns hissued current t (job.id, job.data) ?_⟩
      refine h.calls_evolve hE (fun c k hk hc => Life.update_minted (fun e => ?_) hc) ?_
      · rw [hb] at e
        exact hk (Life.minted.inj e).symm
      · have hop : Function.update L b .opened b = .opened := Function.update_self ..
        exact ⟨.inl (.inl hop), .inl hop, fun _ => rfl⟩
  | addRow i w job b t o call current =>
      have hb : L b = .minted i := h.calls i _ call
      have hns := h.unsettled call
      have hE := Evolves.of_not_settled .spare hns
      have hopen : (L o.batchId).IsBatch := .inl ((h.current _).mpr ⟨o, current, rfl⟩)
      have hspent : Ledger (Function.update L b .spare)
          (s.setCall i (.added w job b ((o.rowCount + 1 : ℕ) : ℤ) o.batchId)) := by
        refine h.respend hns (by simp [Life.IsBatch]) (fun c hc => ⟨hc, ?_⟩) ?_
        · rintro rfl
          rw [h.issued _ hc] at hb
          cases hb
        · refine h.calls_evolve hE (fun c k hk hc => Life.update_minted (fun e => ?_) hc) ?_
          · rw [hb] at e
            exact hk (Life.minted.inj e).symm
          · refine ⟨.inr (Function.update_self ..), hE.batch _ hopen, fun h1 => ?_⟩
            have := o.rowCount_pos
            omega
      exact ⟨_, hE, hspent.grow current (job.id, job.data)⟩
  | addReply i w job b n joined call =>
      obtain ⟨hb, hj, hn⟩ := h.calls i _ call
      unfold State.processReply
      split_ifs with h1 h2
      · exact stay ((h.addBatchTimeout w _ (hn h1 ▸ hj)).endCall i)
      · exact stay (h.closeBatch hb hj)
      · exact stay (h.endCall i)
  | setup w i free =>
      refine stay (h.setCall fun m hm => ?_)
      obtain ⟨o, ho, rfl⟩ := Option.map_eq_some_iff.mp hm
      exact .inl ((h.current _).mpr ⟨o, ho, rfl⟩)
  | setupReply i w m call =>
      have hm := h.calls i _ call
      cases m with
      | none => exact stay (h.endCall i)
      | some m =>
          dsimp only [State.setupReply]
          split_ifs
          · exact stay (h.closeBatch (.inl (hm m rfl)) (hm m rfl))
          · exact stay ((h.addBatchTimeout w _ (hm m rfl)).endCall i)
  | fire w b i t free timer unfired due =>
      have hb := h.timeouts w b t timer
      exact stay ((h.setTimeout w (.inr hb)).closeBatch (.inl hb) hb)
  | lockNone i w b timeout raisedFor now call current => exact stay (h.endCall i)
  | lockHeld i w b timeout raisedFor now o l call current locked live => exact stay (h.endCall i)
  | lockLeftover i w b timeout raisedFor now o l call current locked expired =>
      obtain ⟨hb, hr, _⟩ := h.calls i _ call
      refine stay (h.setCall ⟨hb, hr, fun snapshot hs => ?_⟩)
      cases hs
      exact ⟨l.toOpenBatch, h.locked l locked, rfl⟩
  | lockOpen i w b timeout raisedFor now o call current locked =>
      obtain ⟨hb, hr, _⟩ := h.calls i _ call
      have hopen : L o.batchId = .opened := (h.current _).mpr ⟨o, current, rfl⟩
      have hE := Evolves.close o hopen
      refine ⟨_, hE, h.lockBatch current now ?_⟩
      refine h.calls_evolve hE (fun c k _ hc => Life.update_minted (fun e => ?_) hc)
        ⟨hE.settled b hb, hE.batch _ hr, ?_⟩
      · rw [hopen] at e
        cases e
      · rintro snapshot ⟨⟩
        exact ⟨o, Function.update_self .., rfl⟩
  | add i w b timeout raisedFor snapshot call =>
      obtain ⟨hb, hr, hs⟩ := h.calls i _ call
      obtain ⟨o, ho, hso⟩ := hs snapshot rfl
      exact stay ((h.enqueue cfg ho hso).setCall ⟨hb, hr, fun snap e => by
        cases e
        exact ⟨o, ho, hso⟩⟩)
  | del i w b timeout raisedFor snapshot call =>
      obtain ⟨hb, hr, hs⟩ := h.calls i _ call
      exact stay (h.clear.setCall ⟨hb, hr, hs⟩)
  | delReply i w b timeout raisedFor snapshot call =>
      obtain ⟨hb, hr, _⟩ := h.calls i _ call
      exact stay ((h.setTimeout w (.inl rfl)).finish _ hb hr)
  | delFail i w b timeout raisedFor snapshot call =>
      have hc : (L b).Settled ∧ (L raisedFor).IsBatch := by
        rcases call with call | call
        · exact ⟨(h.calls i _ call).1, (h.calls i _ call).2.1⟩
        · exact ⟨(h.calls i _ call).1, (h.calls i _ call).2.1⟩
      exact stay (h.finish _ hc.1 hc.2)
  | throw i c call => exact stay (h.endCall i)
  | crash w =>
      refine stay { h with calls := fun i c hc => ?_, timeouts := fun v b t ht => ?_ }
      · exact State.forall_filter h.calls _ i c hc
      · dsimp only at ht
        by_cases hv : v = w
        · subst v
          rw [Function.update_self] at ht
          cases ht
        · rw [Function.update_of_ne hv] at ht
          exact h.timeouts v b t ht

theorem initial : Ledger (fun _ => .unused) (initial (Batches.empty (A := A))) where
  issued _ _ := rfl
  calls _ _ h := by cases h
  timeouts _ _ _ h := by cases h
  current b := by simp [Batching.initial, Batches.empty]
  locked _ h := by cases h
  queue _ _ h := by cases h
  accepted _ h := by cases h
  origin b o h := by rcases h with h | ⟨h, _⟩ <;> cases h

/-- Every reachable state has a ledger, whatever failed on the way. -/
theorem of_run {cfg : Config} {as : List (Action A)} {t : BatchState A}
    (hrun : run (Batching.step Batches.store cfg) (Batching.initial .empty) as = some t) :
    ∃ L, Ledger L t :=
  invariant (C := fun _ _ => True) (I := fun t => ∃ L, Ledger L t) ⟨_, initial⟩
    (fun _ _ _ ⟨_, h⟩ _ hs => (h.step (step_cases hs)).imp fun _ h => h.2)
    (fun _ _ _ _ _ => trivial) hrun

theorem issued_of_isBatch (h : Ledger L s) {b : BatchId} (hb : (L b).IsBatch) : b ∈ s.issued := by
  by_contra hn
  rw [h.issued b hn] at hb
  rcases hb with hb | ⟨o, hb⟩ <;> cases hb

end Ledger

section Support
variable [DecidableEq A] {cfg : Config} {as : List (Action A)}
  {s : State A (Redis.Store String (Value A))} (h : run (batchingStep cfg) start as = some s)
include h

/-- Where to look for the calls and timers of a reachable state. -/
theorem support_of_run : (∀ i c, s.calls i = some c → i ∈ as.filterMap Action.call?) ∧
    ∀ w b t, s.timeouts w b = some t → w ∈ as.filterMap Action.worker? ∧ b ∈ s.issued := by
  obtain ⟨t, ht, rfl⟩ := exists_of_run h
  obtain ⟨L, hL⟩ := Ledger.of_run ht
  have hf := Footprint.of_run ht
  exact ⟨fun i c hc => (hf.calls i c hc).1, fun w b u hu =>
    ⟨hf.timeouts w b u hu, hL.issued_of_isBatch (hL.timeouts w b u hu)⟩⟩

theorem quiet_of_run (hcalls : ∀ i ∈ as.filterMap Action.call?, s.calls i = none)
    (htimers : ∀ w ∈ as.filterMap Action.worker?, ∀ b ∈ s.issued, ∀ t ∈ s.timeouts w b,
      t.fired = true) : s.Quiet := by
  obtain ⟨hci, hti⟩ := support_of_run h
  refine ⟨fun i => ?_, fun w b t ht => htimers w (hti w b t ht).1 b (hti w b t ht).2 t ht⟩
  by_contra hne
  obtain ⟨c, hc⟩ := Option.ne_none_iff_exists'.mp hne
  exact hne (hcalls i (hci i c hc))

theorem down_of_run (hcalls : ∀ i ∈ as.filterMap Action.call?, s.calls i = none)
    (htimers : ∀ w ∈ as.filterMap Action.worker?, ∀ b ∈ s.issued, s.timeouts w b = none) :
    s.Down := by
  have hquiet := quiet_of_run h hcalls fun w hw b hb t ht => by
    rw [htimers w hw b hb] at ht
    cases ht
  refine ⟨hquiet.1, fun w b => ?_⟩
  by_contra hne
  obtain ⟨t, ht⟩ := Option.ne_none_iff_exists'.mp hne
  obtain ⟨hw, hb⟩ := (support_of_run h).2 w b t ht
  exact hne (htimers w hw b hb)

end Support

end ContentPublishing.Batching
