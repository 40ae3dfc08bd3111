import VehicleTerminal.Queue.LzmQueueRefinement

/-! Backup and recovery of the ring queue's parameters. The bytes stay in the array, so a
recovery is right as long as nothing was written over the window that was saved. -/
namespace VehicleTerminal.LzmQueue
open MachineInt CircularBuffer BoundedFifo PartialRun

/-- The data pointer of the backup is not assigned. -/
def lzmQueueBackUpParam (src bak : StQueue) : StQueue :=
  { bak with
    datalen := src.datalen
    count := src.count
    front := src.front
    rear := src.rear }

def lzmQueueRecoveryParam (des bak : StQueue) : StQueue :=
  { des with
    datalen := bak.datalen
    count := bak.count
    front := bak.front
    rear := bak.rear }

def IsBatch : Operation → Prop
  | .dataBatchInsert _ => True
  | .dataBatchDelete _ => True
  | _ => False

/-- The number of bytes that an answered operation put into the queue. -/
def accepted : Reply → ℕ
  | .batchInserted count => count
  | _ => 0

/-- The queue `pq` as it would be if none of the bytes queued in `saved` or inserted since, `w`,
had been deleted. -/
def undeleted (saved pq : StQueue) (w : List UInt8) : StQueue :=
  { pq with front := saved.front, count := saved.count + w.length }

section Runs

variable {n size : ℕ} {saved pq pq' : StQueue} {q q₀ w : List UInt8}

theorem IsBatch.insideEnd {op : Operation} (h : IsBatch op) (pq : StQueue) : InsideEnd pq op := by
  cases op <;> trivial

theorem undeleted_self (pq : StQueue) : undeleted pq pq [] = pq := rfl

/-- What a batch insertion that accepts `k` bytes leaves of the array and the rear. -/
theorem dataBatchInsert_writes (h : Coupled n size pq q) (hn : n < 65536) {dest : List UInt8}
    {k : ℕ} (hrun : lzmQueueDataBatchInsert pq dest dest.length = some (pq', k)) :
    (dest.take k).length = k ∧
      pq' = ⟨n, pq.front, if pq.rear + k > n then k - (n - pq.rear) else pq.rear + k,
        pq.count + k, wrapWrite pq.data n pq.rear (dest.take k)⟩ := by
  obtain ⟨datalen, front, rear, count, data⟩ := pq
  obtain rfl : datalen = n := h.datalen
  have hcount : count = q.length := h.count
  have hroom := h.room
  have hrear : rear ≤ datalen := h.rear_le
  by_cases hfull : count = datalen
  · subst hfull
    rw [lzmQueueDataBatchInsert_full] at hrun
    cases hrun
    simp [wrapWrite, hrear]
  · rw [lzmQueueDataBatchInsert_eq rfl hn h.allocates (by omega) hrear] at hrun
    cases hrun
    refine ⟨?_, rfl⟩
    rw [List.length_take]
    omega

/-- An insertion that still fits behind the saved bytes leaves them in place. -/
theorem undeleted_insert (h : Coupled n size pq q) (hn : n < 65536)
    (hs : Coupled n size (undeleted saved pq w) (q₀ ++ w)) {dest : List UInt8} {k : ℕ}
    (hrun : lzmQueueDataBatchInsert pq dest dest.length = some (pq', k))
    (hfits : (q₀ ++ w).length + k ≤ n) :
    Coupled n size (undeleted saved pq' (w ++ dest.take k)) (q₀ ++ (w ++ dest.take k)) := by
  obtain ⟨hk, rfl⟩ := dataBatchInsert_writes h hn hrun
  have hdatalen : pq.datalen = n := h.datalen
  have hshape : undeleted saved pq w =
      ⟨n, saved.front, pq.rear, saved.count + w.length, pq.data⟩ := by
    rw [← hdatalen]
    rfl
  rw [hshape] at hs
  have hroom : (q₀ ++ w).length + (dest.take k).length ≤ n := by rwa [hk]
  have happend := hs.append hroom (batch_advance h.rear_le (by omega))
  rw [hk] at happend
  simpa [undeleted, List.append_assoc, Nat.add_assoc, hk] using happend

/-- A deletion moves the front and the count, which the saved window does not use. -/
theorem undeleted_delete (h : Coupled n size pq q) (hn : n < 65536) {maxcount count : ℕ}
    {dest : List UInt8}
    (hrun : lzmQueueDataBatchDelete pq maxcount = some (pq', count, dest)) :
    undeleted saved pq' w = undeleted saved pq w := by
  obtain ⟨datalen, front, rear, stored, data⟩ := pq
  obtain rfl : datalen = n := h.datalen
  have hcount : stored = q.length := h.count
  have hroom := h.room
  cases hq : q with
  | nil =>
    obtain rfl : stored = 0 := by rw [hcount, hq, List.length_nil]
    rw [lzmQueueDataBatchDelete_empty] at hrun
    cases hrun
    rfl
  | cons byte rest =>
    have hpos : 0 < q.length := by simp [hq]
    rw [lzmQueueDataBatchDelete_eq rfl hn h.allocates (by omega) (by omega) h.front_le] at hrun
    cases hrun
    rfl

/-- One batch operation that keeps within the room that was free at the backup. -/
theorem undeleted_step (h : Coupled n size pq q) (hn : n < 65536)
    (hs : Coupled n size (undeleted saved pq w) (q₀ ++ w)) {op : Operation} {reply : Reply}
    (hop : IsBatch op) (hstep : step pq op = some (pq', reply))
    (hfits : (q₀ ++ w).length + accepted reply ≤ n) :
    ∃ w', (q₀ ++ w').length = (q₀ ++ w).length + accepted reply ∧
      Coupled n size (undeleted saved pq' w') (q₀ ++ w') := by
  cases op with
  | insert qdata => exact hop.elim
  | delete => exact hop.elim
  | clear => exact hop.elim
  | dataBatchInsert dest =>
    simp only [step, Option.map_eq_some_iff] at hstep
    obtain ⟨⟨t, k⟩, hrun, heq⟩ := hstep
    cases heq
    refine ⟨w ++ dest.bytes.take k, ?_, undeleted_insert h hn hs hrun hfits⟩
    rw [← List.append_assoc, List.length_append, (dataBatchInsert_writes h hn hrun).1, accepted]
  | dataBatchDelete maxcount =>
    simp only [step, Option.map_eq_some_iff] at hstep
    obtain ⟨⟨t, count, dest⟩, hrun, heq⟩ := hstep
    cases heq
    exact ⟨w, rfl, by rwa [undeleted_delete h hn hrun]⟩

/-- A run of batch operations, by induction on it: what is queued and what would be queued
without the deletions are both described by the array. -/
theorem undeleted_run {ops : List Operation} {replies : List Reply} (h : Coupled n size pq q)
    (hn : n < 65536) (hs : Coupled n size (undeleted saved pq w) (q₀ ++ w))
    (hops : ∀ op ∈ ops, IsBatch op) (hrun : run step pq ops = some (pq', replies))
    (hfits : (q₀ ++ w).length + (replies.map accepted).sum ≤ n) :
    ∃ w', Coupled n size (undeleted saved pq' w') (q₀ ++ w') := by
  induction ops generalizing pq q w replies with
  | nil =>
    cases hrun
    exact ⟨w, hs⟩
  | cons op ops ih =>
    obtain ⟨t, reply, replies', hstep, hrest, rfl⟩ := run_cons_eq_some hrun
    have hop := hops op List.mem_cons_self
    rw [List.map_cons, List.sum_cons] at hfits
    obtain ⟨w', hlength, hs'⟩ := undeleted_step h hn hs hop hstep (by omega)
    obtain ⟨t', o, b, hstep', -, hc⟩ := step_refines hn pq q op h (hop.insideEnd pq)
    rw [hstep] at hstep'
    cases hstep'
    exact ih hc hs' (fun op' hop' => hops op' (List.mem_cons_of_mem _ hop')) hrest (by omega)

/-- The recovered parameters find the saved bytes in the front of the undeleted ones. -/
theorem recovery_coupled (h : Coupled n size saved q₀)
    (hs : Coupled n size (undeleted saved pq w) (q₀ ++ w)) (bak : StQueue) :
    Coupled n size (lzmQueueRecoveryParam pq (lzmQueueBackUpParam saved bak)) q₀ where
  room := h.room
  datalen := h.datalen
  count := h.count
  front_le := h.front_le
  rear_le := h.rear_le
  rear := h.rear
  allocated := hs.allocated
  covers := h.covers
  content := hs.content.take_left

end Runs

/-- Batch operations from the initial queue follow the abstract queue `q`, and a recovery brings
`q` back after further batch operations that accept no more than was free at the backup. -/
theorem recovery_restores {n : ℕ} {data : List UInt8} (hn : n < 65536) (hd : n ≤ data.length)
    (before : List Operation) (hbefore : ∀ op ∈ before, IsBatch op) :
    ∃ pq replies q, run step (lzmQueueDataInit data n) before = some (pq, replies) ∧
      Allowed (Follows n) [] before replies q ∧ queued pq = q ∧
      ∀ (bak : StQueue) (after : List Operation), (∀ op ∈ after, IsBatch op) →
        ∃ pq' replies', run step pq after = some (pq', replies') ∧
          ((replies'.map accepted).sum ≤ lzmQueueDataFreeSpace pq →
            queued (lzmQueueRecoveryParam pq' (lzmQueueBackUpParam pq bak)) = q) := by
  have hguarded : Guarded step InsideEnd (lzmQueueDataInit data n) before :=
    guarded_of_forall_mem (fun op hop pq => (hbefore op hop).insideEnd pq) _
  obtain ⟨pq, replies, q, hrun, hallowed, hc⟩ :=
    (step_refines hn).run (init_coupled hn rfl hd) hguarded
  refine ⟨pq, replies, q, hrun, hallowed, hc.queued_eq, fun bak after hafter => ?_⟩
  have hguarded' : Guarded step InsideEnd pq after :=
    guarded_of_forall_mem (fun op hop pq => (hafter op hop).insideEnd pq) _
  obtain ⟨pq', replies', -, hrun', -, -⟩ := (step_refines hn).run hc hguarded'
  refine ⟨pq', replies', hrun', fun htotal => ?_⟩
  rw [hc.freeSpace_eq hn] at htotal
  have hroom := hc.room
  obtain ⟨w, hs⟩ := undeleted_run (w := []) hc hn (by rwa [undeleted_self, List.append_nil])
    hafter hrun' (by rw [List.append_nil]; omega)
  exact (recovery_coupled hc hs bak).queued_eq

/-- One byte is queued before the backup. -/
theorem recovery_restores_one : 2 < 65536 ∧ 2 ≤ [(0 : UInt8), 0].length ∧
    (∀ op ∈ [Operation.dataBatchInsert ⟨[7], by decide⟩], IsBatch op) ∧
    ∃ pq replies q,
      run step (lzmQueueDataInit [0, 0] 2) [.dataBatchInsert ⟨[7], by decide⟩] =
        some (pq, replies) ∧
      Allowed (Follows 2) [] [.dataBatchInsert ⟨[7], by decide⟩] replies q ∧ queued pq = q ∧
      ∀ (bak : StQueue) (after : List Operation), (∀ op ∈ after, IsBatch op) →
        ∃ pq' replies', run step pq after = some (pq', replies') ∧
          ((replies'.map accepted).sum ≤ lzmQueueDataFreeSpace pq →
            queued (lzmQueueRecoveryParam pq' (lzmQueueBackUpParam pq bak)) = q) := by
  have hbatch : ∀ op ∈ [Operation.dataBatchInsert ⟨[7], by decide⟩], IsBatch op := by
    simp [IsBatch]
  exact ⟨by decide, by decide, hbatch, recovery_restores (by decide) (by decide) _ hbatch⟩

end VehicleTerminal.LzmQueue
