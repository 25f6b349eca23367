import ContentPublishing.Batching.Provenance
import ContentPublishing.Batching.Texts

/-!
# Runs on texts

As long as no number grows to more digits than `cjson` writes, the system on texts makes
the same runs as the system on the values that the texts stand for.
-/
namespace ContentPublishing.Batching
open Announcements (Announcement)
open Effects Redis Transition

/-! ## How large the numbers get -/

section Stamps
variable {A : Type}

/-- The time that passes in an action. -/
def Action.elapsed : Action A → ℕ
  | .tick ms => ms
  | _ => 0

/-- The times that a call has read lie in the past. -/
def Call.ReadBefore (clock : ℕ) : Call A → Prop
  | .adding _ _ _ startTimestamp => startTimestamp ≤ clock
  | .closing _ _ _ _ (.lock now) => now ≤ clock
  | _ => True

theorem Call.ReadBefore.mono {clock later : ℕ} {c : Call A} (h : c.ReadBefore clock)
    (hle : clock ≤ later) : c.ReadBefore later := by
  unfold ReadBefore at *
  split <;> first | exact h.trans hle | trivial

/-- The clock shows `time`, and the open batch counts at most `rows`. -/
structure Stamped (time rows : ℕ) (s : BatchState A) : Prop where
  clock : s.clock = time
  calls : ∀ i c, s.calls i = some c → c.ReadBefore s.clock
  opened : ∀ o, s.redis.current = some o → o.startTimestamp ≤ s.clock ∧ o.rowCount ≤ rows

namespace Stamped
variable {time rows : ℕ} {s t : BatchState A} {cfg : Config}

theorem mono (h : Stamped time rows s) : Stamped time (rows + 1) s :=
  { h with opened := fun o ho => ⟨(h.opened o ho).1, (h.opened o ho).2.trans (Nat.le_succ _)⟩ }

theorem of_eq (h : Stamped time rows s) (hclock : t.clock = s.clock) (hcalls : t.calls = s.calls)
    (hcurrent : t.redis.current = s.redis.current) : Stamped time rows t where
  clock := hclock.trans h.clock
  calls := hclock ▸ hcalls ▸ h.calls
  opened := hclock ▸ hcurrent ▸ h.opened

/-- Another batch is open, or none. -/
theorem setRedis (h : Stamped time rows s) {redis : Batches A}
    (hopened : ∀ o, redis.current = some o → o.startTimestamp ≤ s.clock ∧ o.rowCount ≤ rows)
    (accepted : List (Accepted A)) :
    Stamped time rows { s with redis := redis, accepted := accepted } where
  clock := h.clock
  calls := h.calls
  opened := hopened

theorem setCall (h : Stamped time rows s) {i : CallId} {c : Call A}
    (hc : c.ReadBefore s.clock) : Stamped time rows (s.setCall i c) :=
  { h with calls := State.forall_setCall h.calls hc }

theorem endCall (h : Stamped time rows s) (i : CallId) : Stamped time rows (s.endCall i) :=
  { h with calls := State.forall_endCall h.calls i }

theorem closeBatch (h : Stamped time rows s) (i : CallId) (w : WorkerId) (b : BatchId)
    (timeout : Bool) (raisedFor : BatchId) :
    Stamped time rows (s.closeBatch i w b timeout raisedFor) :=
  h.setCall le_rfl

theorem finish (h : Stamped time rows s) (i : CallId) (w : WorkerId) (b : BatchId)
    (timeout : Bool) (raisedFor : BatchId) (status : LockStatus) :
    Stamped time rows (s.finish i w b timeout raisedFor status) := by
  cases status with
  | leftover => exact h.closeBatch i w b timeout raisedFor
  | locked => exact h.endCall i

theorem step (h : Stamped time rows s) {a : Action A} (hst : Step cfg s a t) :
    Stamped (time + a.elapsed) (rows + 1) t := by
  have hrows := h.mono
  cases hst with
  | tick ms =>
      have hle : s.clock ≤ s.clock + ms := Nat.le_add_right _ ms
      exact ⟨congrArg (· + ms) h.clock, fun i c hc => (h.calls i c hc).mono hle,
        fun o ho => ⟨(hrows.opened o ho).1.trans hle, (hrows.opened o ho).2⟩⟩
  | process w i job b free fresh =>
      exact (hrows.of_eq (t := { s with issued := b :: s.issued }) rfl rfl rfl).setCall le_rfl
  | addNew i w job b u call current =>
      refine (hrows.setRedis (fun o ho => ?_) _).setCall trivial
      cases ho
      exact ⟨h.calls i _ call, Nat.le_add_left 1 rows⟩
  | addRow i w job b u o call current =>
      refine (hrows.setRedis (fun o ho => ?_) _).setCall trivial
      cases ho
      exact ⟨(h.opened o current).1, Nat.succ_le_succ (h.opened o current).2⟩
  | addReply i w job b n joined call =>
      unfold State.processReply
      split_ifs
      · exact (hrows.of_eq (t := s.addBatchTimeout w b cfg.batchTimeoutMs) rfl rfl rfl).endCall i
      · exact hrows.closeBatch i w b false joined
      · exact hrows.endCall i
  | setup w i free => exact hrows.setCall trivial
  | setupReply i w m call =>
      cases m with
      | none => exact hrows.endCall i
      | some m =>
          dsimp only [State.setupReply]
          split_ifs
          · exact hrows.closeBatch i w m.batchId false m.batchId
          · exact (hrows.of_eq (t := s.addBatchTimeout w m.batchId _) rfl rfl rfl).endCall i
  | fire w b i u free timer unfired due =>
      exact (hrows.of_eq (t := s.setTimeout w b _) rfl rfl rfl).closeBatch i w b true b
  | lockNone i w b timeout raisedFor now call current => exact hrows.endCall i
  | lockHeld i w b timeout raisedFor now o l call current locked live => exact hrows.endCall i
  | lockLeftover i w b timeout raisedFor now o l call current locked expired =>
      exact hrows.setCall trivial
  | lockOpen i w b timeout raisedFor now o call current locked =>
      exact (hrows.setRedis (fun _ h => by cases h) s.accepted).setCall trivial
  | add i w b timeout raisedFor snapshot call =>
      have hqueue := hrows.of_eq (t := { s with
        batchQueue := s.batchQueue.add snapshot.batchId (cfg.batchJob snapshot) }) rfl rfl rfl
      exact hqueue.setCall trivial
  | del i w b timeout raisedFor snapshot call =>
      exact (hrows.of_eq (t := { s with redis := s.redis.clear }) rfl rfl rfl).setCall trivial
  | delReply i w b timeout raisedFor snapshot call =>
      exact (hrows.of_eq (t := s.deleteTimeout w b) rfl rfl rfl).finish i w b timeout raisedFor _
  | delFail i w b timeout raisedFor snapshot call => exact hrows.finish i w b timeout raisedFor _
  | throw i c call => exact hrows.endCall i
  | crash w => exact { hrows with calls := State.forall_filter h.calls _ }

theorem of_run {as : List (Action A)}
    (h : run (Batching.step Batches.store cfg) (Batching.initial .empty) as = some t) :
    Stamped (as.map Action.elapsed).sum as.length t := by
  refine run_induction (C := fun _ _ => True)
    (I := fun as t => Stamped (as.map Action.elapsed).sum as.length t) ?_
    (fun as s a u _ hs _ hst => ?_) (fun _ _ _ _ _ => trivial) h
  · exact ⟨rfl, fun _ _ h => (by cases h), fun _ h => (by cases h)⟩
  · have hnext := hs.step (step_cases hst)
    simpa using hnext

end Stamped

end Stamps

/-! ## The system on texts -/

namespace Encoding
variable (encoding : Encoding)

section Store
variable {K : Type} [DecidableEq K]

/-- The scripts on the texts under the four keys of a queue. What they reply is read by
the service. -/
def texts (keys : BatchKeys K) : BatchStore Announcement (Store K String) where
  addToBatch batchId startTimestamp row :=
    exec (encoding.addToBatch keys.metadata keys.data (newMetadata batchId startTimestamp) row.1
      (newData row.2))
  lockBatch now interval r :=
    (exec (encoding.lockBatch keys.metadata keys.data keys.lockedMetadata keys.lockedData now
      interval) r).map (Except.map encoding.reply) id
  delLocked r :=
    Function.update (Function.update r keys.lockedMetadata none) keys.lockedData none
  metadata r := (stringAt r keys.metadata).bind encoding.metadata?
  rows r := translateReply .jobId encoding.rowValue (flatten (fieldsAt r keys.data))
  lockedMetadata r := (stringAt r keys.lockedMetadata).bind encoding.metadata?
  lockedRows r := translateReply .jobId encoding.rowValue (flatten (fieldsAt r keys.lockedData))

variable {encoding} (keys : BatchKeys K) {r : Store K String}

theorem metadata_read :
    (scripts keys).metadata (encoding.read r) = (encoding.texts keys).metadata r := by
  dsimp only [scripts, texts]
  rw [read, stringAt_translate, Option.bind_map]
  exact congrArg _ (funext encoding.metadata?_value)

theorem delLocked_read :
    (scripts keys).delLocked (encoding.read r) =
      encoding.read ((encoding.texts keys).delLocked r) := by
  dsimp only [scripts, texts, read]
  rw [translate_update, translate_update]
  rfl

theorem addToBatch_read {batchId : BatchId} {startTimestamp : ℕ} {row : Row Announcement}
    (hstart : startTimestamp < exactLimit) (hrow : row.2.Below exactLimit)
    (hcount : ∀ m ∈ (encoding.texts keys).metadata r, ∀ n ∈ m.rowCount,
      BatchMetadata.Exact { m with rowCount := some (n + 1) }) :
    (scripts keys).addToBatch batchId startTimestamp row (encoding.read r) =
      Prod.map id encoding.read
        ((encoding.texts keys).addToBatch batchId startTimestamp row r) := by
  have hnew := encoding.value_of_metadata? (encoding.metadata?_newMetadata batchId hstart)
  have hdata := encoding.rowValue_newData hrow
  have htracks := tracks_addToBatch keys.metadata keys.data row.1 hnew hdata hcount
  rwa [Tracks, Except.map_id] at htracks

theorem lockBatch_read {now interval : ℕ}
    (hlock : ∀ m ∈ (encoding.texts keys).metadata r,
      BatchMetadata.Exact { m with lockTimestamp := some now }) :
    (scripts keys).lockBatch now interval (encoding.read r) =
      Prod.map id encoding.read ((encoding.texts keys).lockBatch now interval r) :=
  tracks_lockBatch keys hlock

end Store

/-- The system as deployed, on texts. -/
def textStep (cfg : Config) (s : State Announcement (Store String String))
    (a : Action Announcement) : Option (State Announcement (Store String String)) :=
  step (encoding.texts (batchKeys cfg.queueName.text)) cfg s a

end Encoding

def textStart : State Announcement (Store String String) := initial fun _ => none

/-- A run in which no number gets more digits than are written. -/
structure ExactRun (as : List (Action Announcement)) : Prop where
  elapsed : (as.map Action.elapsed).sum < exactLimit
  length : as.length < exactLimit
  below : ∀ w i job b, .process w i job b ∈ as → job.data.Below exactLimit

section Runs
variable {encoding : Encoding} {cfg : Config} {as : List (Action Announcement)}
  {a : Action Announcement} {s : State Announcement (Store String String)}
  {t : BatchState Announcement}

theorem ExactRun.of_concat (h : ExactRun (as ++ [a])) : ExactRun as where
  elapsed := by
    have := h.elapsed
    rw [List.map_append, List.sum_append] at this
    exact Nat.lt_of_le_of_lt (Nat.le_add_right _ _) this
  length := by
    have := h.length
    rw [List.length_append] at this
    exact Nat.lt_of_le_of_lt (Nat.le_add_right _ _) this
  below w i job b hmem := h.below w i job b (List.mem_append_left _ hmem)

/-- The text of the open batch tells what the open batch is. -/
theorem exists_of_metadata (hread : s.mapRedis encoding.read = t.encode cfg) {m : BatchMetadata}
    (hm : m ∈ (encoding.texts (batchKeys cfg.queueName.text)).metadata s.redis) :
    ∃ o, t.redis.current = some o ∧ m = o.metadata := by
  have hredis : encoding.read s.redis = (t.encode cfg).redis := congrArg State.redis hread
  rw [← Encoding.metadata_read, hredis] at hm
  obtain ⟨o, ho, rfl⟩ := Option.map_eq_some_iff.mp ((metadata_encode cfg t).symm.trans hm)
  exact ⟨o, ho, rfl⟩

/-- A step on texts is a step on values, where the run stays within the limit. -/
theorem batchingStep_read (h : ExactRun (as ++ [a]))
    (ht : run (step Batches.store cfg) (initial .empty) as = some t)
    (hread : s.mapRedis encoding.read = t.encode cfg) :
    batchingStep cfg (s.mapRedis encoding.read) a =
      (encoding.textStep cfg s a).map (State.mapRedis encoding.read) := by
  have hstamped := Stamped.of_run ht
  have hcalls : s.calls = t.calls := congrArg State.calls hread
  have hclock : t.clock < exactLimit := hstamped.clock ▸ h.of_concat.elapsed
  have hlength : as.length + 1 < exactLimit := by simpa using h.length
  refine step_mapRedis_of (fun i w job b u ha hcall => ?_) (fun i w b _ _ now ha hcall => ?_)
    (Encoding.delLocked_read _) fun _ => Encoding.metadata_read _
  · rw [hcalls] at hcall
    have hprocessed := (Traced.of_run ht).calls i _ hcall w job b u rfl
    have hbelow := h.of_concat.below w i job b hprocessed
    have hstart : u < exactLimit := (hstamped.calls i _ hcall).trans_lt hclock
    refine Encoding.addToBatch_read _ hstart hbelow fun m hm n hn => ?_
    obtain ⟨o, ho, rfl⟩ := exists_of_metadata hread hm
    obtain ⟨hopened, hcount⟩ := hstamped.opened o ho
    cases hn
    refine ⟨hopened.trans_lt hclock, ?_, fun _ h => by cases h⟩
    rintro _ ⟨⟩
    exact (Nat.succ_le_succ hcount).trans_lt hlength
  · rw [hcalls] at hcall
    have hnow : now < exactLimit := (hstamped.calls i _ hcall).trans_lt hclock
    refine Encoding.lockBatch_read _ fun m hm => ?_
    obtain ⟨o, ho, rfl⟩ := exists_of_metadata hread hm
    obtain ⟨hopened, hcount⟩ := hstamped.opened o ho
    refine ⟨hopened.trans_lt hclock, ?_, ?_⟩
    · rintro _ ⟨⟩
      exact (hcount.trans (Nat.le_succ _)).trans_lt hlength
    · rintro _ ⟨⟩
      exact hnow

/-- Whatever the services and the scripts do on texts, they do on the values that the
texts stand for, and the other way round. -/
theorem run_texts (encoding : Encoding) (cfg : Config) {as : List (Action Announcement)}
    (h : ExactRun as) :
    run (batchingStep cfg) start as =
      (run (encoding.textStep cfg) textStart as).map (State.mapRedis encoding.read) := by
  induction as using List.reverseRecOn with
  | nil => rfl
  | append_singleton as a ih =>
      have ih := ih h.of_concat
      rw [run_concat, run_concat, ih]
      cases hs : run (encoding.textStep cfg) textStart as with
      | none => rfl
      | some s =>
          rw [hs, Option.map_some] at ih
          obtain ⟨t, ht, hread⟩ := exists_of_run ih
          exact batchingStep_read h ht hread.symm

end Runs

/-! ## Two reactions -/

/-- A table of metadata with its keys in alphabetical order. -/
def sampleEncode (m : BatchMetadata) : String :=
  Json.stringify <| .object [("batchId", some (.str m.batchId)),
    ("lockTimestamp", m.lockTimestamp.map .natural), ("rowCount", m.rowCount.map .natural),
    ("startTimestamp", some (.natural m.startTimestamp))]

theorem ofJson?_sampleEncode (m : BatchMetadata) :
    (Json.parse id (sampleEncode m)).bind BatchMetadata.ofJson? = some m := by
  have hnatural : ∀ n, (Json.natural n).canonical id = true := fun _ =>
    Json.canonical_natural rfl
  rw [sampleEncode, Json.parse_stringify, Option.bind_some]
  · obtain ⟨batchId, startTimestamp, rowCount, lockTimestamp⟩ := m
    cases rowCount <;> cases lockTimestamp <;>
      simp [BatchMetadata.ofJson?, Json.object, Announcements.text?, Announcements.number?,
        List.lookup_cons]
  · refine Json.canonical_object (rfl : _ = ["batchId", "lockTimestamp", "rowCount",
      "startTimestamp"]) (by decide +kernel) ?_
    simp [Json.canonical, hnatural]

def Encoding.sample : Encoding :=
  ⟨id, sampleEncode, fun _ _ => rfl, fun m _ => ofJson?_sampleEncode m⟩

/-- Two reactions fill a batch, which is closed. -/
def twoReactions : List (Action Announcement) :=
  [.process 0 0 ⟨"j1", Announcements.createReaction "1" "x" "dsnp://2/0x1" 1⟩ "b1",
    .addToBatch 0, .addReply 0, .tick 10,
    .process 0 1 ⟨"j2", Announcements.createReaction "3" "\"" "dsnp://2/0x1" 0⟩ "b2",
    .addToBatch 1, .addReply 1, .lockBatch 1, .add 1, .del 1, .delReply 1]

theorem run_texts_twoReactions :
    (run (batchingStep .sample) start twoReactions).any (fun s => s.batchQueue.ids = ["b1"]) ∧
      run (batchingStep .sample) start twoReactions =
        (run (Encoding.sample.textStep .sample) textStart twoReactions).map
          (State.mapRedis Encoding.sample.read) := by
  refine ⟨by decide +kernel, run_texts .sample .sample ⟨by decide, by decide, ?_⟩⟩
  intro w i job b hmem
  simp only [twoReactions, List.mem_cons, Action.process.injEq, reduceCtorEq, List.not_mem_nil,
    or_false, false_or] at hmem
  obtain ⟨-, -, rfl, -⟩ | ⟨-, -, rfl, -⟩ := hmem
  · exact (by decide : 1 < exactLimit)
  · exact (by decide : 0 < exactLimit)

end ContentPublishing.Batching
