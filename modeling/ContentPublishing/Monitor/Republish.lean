import ContentPublishing.Monitor.Outcome

/-!
# When a batch is published again because its transaction was not found

The job gives up after a number of attempts, and each attempt looks at the blocks
that exist by then, at most as many as a transaction may live. The attempts are
not tied to the height of the chain: a job whose attempts are used up publishes the
batch again, also while blocks of the window are still to come.
-/
namespace ContentPublishing.Monitor
open Blockchain Effects

/-- The first block that a receipt job looks at. -/
def firstBlock (env : Env) (job : ReceiptJob) : ℕ :=
  (env.chain.block job.data.lastFinalizedBlockHash).number

/-- The crawl found nothing, and the job went on to `retryPublishJob` instead of
throwing to be tried again. -/
def RepublishesUnfound (env : Env) (job : ReceiptJob) (s : MonitorState) : Prop :=
  locateTx env job = .ok none ∧
    (exec (process env job) s).1 ≠ .error (.txNotFound job.attemptsMade)

/-- All blocks in which the transaction may still be included exist. -/
def WindowComplete (env : Env) (job : ReceiptJob) : Prop :=
  firstBlock env job + numberBlocksToCrawl - 1 ≤ env.bestNumber

section Crawled
variable {env : Env} {job : ReceiptJob} {s : MonitorState}

theorem mem_blocksFrom {current left i n : ℕ} :
    n ∈ blocksFrom current left i ↔ i ≤ n ∧ n < i + left ∧ n ≤ current := by
  induction left generalizing i with
  | zero =>
      have hnone : ¬ (i ≤ n ∧ n < i + 0 ∧ n ≤ current) := by omega
      simpa [blocksFrom] using hnone
  | succ left ih =>
      by_cases hi : i ≤ current
      · rw [blocksFrom, if_pos hi, List.mem_cons, ih]
        omega
      · rw [blocksFrom, if_neg hi]
        have hnone : ¬ (i ≤ n ∧ n < i + (left + 1) ∧ n ≤ current) := by omega
        simpa using hnone

theorem of_call_ok {α : Type} {node : Node} {c : RpcCall} {a b : α}
    (h : node.call c a = .ok b) : b = a := by
  unfold Node.call at h
  split at h
  · cases h
  · exact (Except.ok.inj h).symm

theorem blockList_of_ok {ns : List ℕ} (h : blockList env job = .ok ns) :
    ns = blocksFrom env.bestNumber numberBlocksToCrawl (firstBlock env job) := by
  obtain ⟨previous, hprevious, h⟩ := of_bind_ok h
  obtain ⟨current, hcurrent, h⟩ := of_bind_ok h
  rw [of_call_ok hprevious, of_call_ok hcurrent] at h
  exact (Except.ok.inj h).symm

theorem forall_none_of_mapM {ε β : Type} {f : ℕ → Except ε (Option β)} {ns : List ℕ}
    {found : List (Option β)} (h : ns.mapM f = .ok found) (hnone : found.findSome? id = none) :
    ∀ n ∈ ns, f n = .ok none := by
  intro n hn
  obtain ⟨loc, hloc, hf⟩ := exists_of_mapM_ok h n hn
  have hnil : loc = none := List.findSome?_eq_none_iff.mp hnone loc hloc
  rw [hf, hnil]

/-- A crawl that finds nothing has read every block of its list. -/
theorem forall_none_of_locate {node : Node} {txHash : Hash} {ns : List ℕ}
    (h : locate node txHash ns = .ok none) : ∀ n ∈ ns, findTx node txHash n = .ok none := by
  obtain ⟨found, hfound, hnone⟩ := of_bind_ok h
  exact forall_none_of_mapM hfound (Except.ok.inj hnone)

/-- A block that was read without finding the transaction does not hold it. -/
theorem not_mem_of_findTx {node : Node} {txHash : Hash} {n : ℕ}
    (h : findTx node txHash n = .ok none) :
    txHash ∉ (node.chain.block (node.chain.blockHash n)).extrinsics := by
  obtain ⟨hash, hhash, h⟩ := of_bind_ok h
  obtain ⟨block, hblock, h⟩ := of_bind_ok h
  rw [of_call_ok hblock, of_call_ok hhash] at h
  split at h
  · next hidx =>
      intro hmem
      have hne := List.findIdx?_eq_none_iff.mp hidx txHash hmem
      rw [beq_self_eq_true] at hne
      cases hne
  · obtain ⟨_, _, h⟩ := of_bind_ok h
    obtain ⟨_, _, h⟩ := of_bind_ok h
    cases h

/-- The blocks that existed were read, and the transaction was in none of them. -/
theorem findTx_of_locateTx (h : locateTx env job = .ok none) {n : ℕ}
    (hfirst : firstBlock env job ≤ n) (hlast : n < firstBlock env job + numberBlocksToCrawl)
    (hbest : n ≤ env.bestNumber) : findTx env.toNode job.data.txHash n = .ok none := by
  obtain ⟨ns, hns, h⟩ := of_bind_ok h
  apply forall_none_of_locate h
  rw [blockList_of_ok hns, mem_blocksFrom]
  exact ⟨hfirst, hlast, hbest⟩

/-- A job that gives up has used up its attempts, and has looked for the transaction
in all blocks of the window that existed by then. -/
theorem crawled_of_republishesUnfound (env : Env) (job : ReceiptJob) (s : MonitorState)
    (h : RepublishesUnfound env job s) :
    job.attempts.getD 3 ≤ job.attemptsMade ∧
      ∀ n, firstBlock env job ≤ n → n < firstBlock env job + numberBlocksToCrawl →
        n ≤ env.bestNumber →
          findTx env.toNode job.data.txHash n = .ok none ∧
            job.data.txHash ∉ (env.chain.block (env.chain.blockHash n)).extrinsics := by
  obtain ⟨hnone, hgoes⟩ := h
  refine ⟨?_, fun n hfirst hlast hbest => ?_⟩
  · by_contra hleft
    apply hgoes
    have hthrow : exec (handleNotFound env job) s = (.error (.txNotFound job.attemptsMade), s) := by
      rw [handleNotFound, if_pos (not_le.mp hleft), exec_throw]
    rw [exec_process_none hnone, exec_bind_error _ hthrow]
  · have hread := findTx_of_locateTx hnone hfirst hlast hbest
    exact ⟨hread, not_mem_of_findTx hread⟩

/-- A job whose attempts are used up, while only the first block exists. -/
theorem crawled_usedUp :
    RepublishesUnfound (.sample (.sample "other" [])) ⟨.sample "tx", some 4, 4⟩ .start ∧
      4 ≤ 4 ∧ "tx" ∉ ["other"] := by
  have h : RepublishesUnfound (.sample (.sample "other" [])) ⟨.sample "tx", some 4, 4⟩ .start := by
    unfold RepublishesUnfound
    decide +kernel
  have hcrawled := crawled_of_republishesUnfound _ _ _ h
  exact ⟨h, hcrawled.1, (hcrawled.2 1 (by decide) (by decide) (by decide)).2⟩

theorem not_windowComplete_usedUp :
    RepublishesUnfound (.sample (.sample "other" [])) ⟨.sample "tx", some 4, 4⟩ .start ∧
      ¬ WindowComplete (.sample (.sample "other" [])) ⟨.sample "tx", some 4, 4⟩ := by
  unfold RepublishesUnfound WindowComplete
  decide +kernel

end Crawled

end ContentPublishing.Monitor
