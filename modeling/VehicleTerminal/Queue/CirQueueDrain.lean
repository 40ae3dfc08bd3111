import VehicleTerminal.Queue.CirQueueRefinement

/-! Draining the circular queue at once against the general bulk dequeue. The two split the
copy by different comparisons and agree on everything except the returned count. -/
namespace VehicleTerminal.Queue
open MachineInt BlockMemory PartialRun

/-- Both calls return, with the same queue, count and bytes. -/
def DrainsAlike (c : CirQueue) : Prop :=
  ∃ result, bufferDeCirQueue c.iQueueLenth c = some result ∧ allBufferDeCirQueue c = some result

/-- A block that ends at the physical end is copied the same with and without an empty
second copy. -/
theorem copyFromHead_exact (c : CirQueue) (length : ℤ) :
    copyFromHead c length length true = copyFromHead c length length false := by
  have hnothing : memcpyOut c.pQueue 0 (int32 (length - length)) = some [] := by
    rw [sub_self]
    simp [memcpyOut, int32, sizeT, copyOut, slice]
  simp only [copyFromHead, if_true, hnothing, Option.map_some, List.append_nil,
    Option.bind_fun_some, Bool.false_eq_true, if_false]

/-- The strict and the non-strict test for the second copy give the same block. -/
theorem copyFromHead_strict (c : CirQueue) (preZeroLen length : ℤ) :
    copyFromHead c preZeroLen length (!decide (preZeroLen > length)) =
      copyFromHead c preZeroLen length (!decide (preZeroLen ≥ length)) := by
  rcases lt_trichotomy preZeroLen length with hlt | heq | hgt
  · rw [decide_eq_false (not_lt.mpr hlt.le), decide_eq_false (not_le.mpr hlt)]
  · subst heq
    rw [decide_eq_false (lt_irrefl preZeroLen), decide_eq_true (le_refl preZeroLen)]
    exact copyFromHead_exact c preZeroLen
  · rw [decide_eq_true hgt, decide_eq_true (le_of_lt hgt)]

/-- The drain is the bulk dequeue of the whole length with the returned count replaced by 0. -/
theorem allBufferDeCirQueue_eq (c : CirQueue) : allBufferDeCirQueue c =
    (bufferDeCirQueue c.iQueueLenth c).map fun result => (result.1, 0, result.2.2) := by
  by_cases hempty : c.iQueueLenth = 0
  · simp [allBufferDeCirQueue, bufferDeCirQueue, isCirQueueEmpty, hempty]
  · have hcleared : int32 (c.iQueueLenth - c.iQueueLenth) = 0 := by
      rw [sub_self]
      rfl
    simp only [allBufferDeCirQueue, bufferDeCirQueue, isCirQueueEmpty, hempty, if_false,
      reduceCtorEq, ite_self, hcleared, Option.map_map]
    rw [copyFromHead_strict]
    rfl

/-- A bulk dequeue that returns hands out the number of bytes it was asked for, up to the
length of the queue. -/
theorem bufferDeCirQueue_count {c : CirQueue} {result : CirQueue × ℤ × List UInt8}
    (h : bufferDeCirQueue c.iQueueLenth c = some result) : result.2.1 = c.iQueueLenth := by
  by_cases hempty : c.iQueueLenth = 0
  · simp only [bufferDeCirQueue, isCirQueueEmpty, hempty, if_true] at h
    cases h
    exact hempty.symm
  · simp only [bufferDeCirQueue, isCirQueueEmpty, hempty, if_false, reduceCtorEq, ite_self,
      Option.map_eq_some_iff] at h
    obtain ⟨pBuffer, -, rfl⟩ := h
    rfl

/-- The two calls differ in the returned count alone, and there in every state with a byte
in the queue. -/
theorem drainsAlike_iff_isCirQueueEmpty (c : CirQueue) :
    (DrainsAlike c ↔ isCirQueueEmpty c = .success) ∧
      allBufferDeCirQueue c =
        (bufferDeCirQueue c.iQueueLenth c).map fun result => (result.1, 0, result.2.2) := by
  refine ⟨?_, allBufferDeCirQueue_eq c⟩
  constructor
  · rintro ⟨result, hbuffer, hall⟩
    rw [allBufferDeCirQueue_eq, hbuffer, Option.map_some] at hall
    have hzero : result.2.1 = 0 := by
      have heq := congrArg (fun r : CirQueue × ℤ × List UInt8 => r.2.1) (Option.some.inj hall)
      exact heq.symm
    rw [isCirQueueEmpty, if_pos (hzero ▸ bufferDeCirQueue_count hbuffer).symm]
  · intro hempty
    refine ⟨(c, 0, []), ?_, ?_⟩
    · rw [bufferDeCirQueue]
      simp only [hempty, if_true]
    · rw [allBufferDeCirQueue]
      simp only [hempty, if_true]

/-- On a queue of at most `2 ^ 30` bytes both calls empty the queue and hand out all of its
bytes in order, and only the general one counts them. -/
theorem drains_of_coupled {n : ℕ} {c : CirQueue} {q : List UInt8} (hn : n ≤ 2 ^ 30)
    (h : Coupled n c q) :
    ∃ c', bufferDeCirQueue c.iQueueLenth c = some (c', (q.length : ℤ), q) ∧
      allBufferDeCirQueue c = some (c', 0, q) ∧ Coupled n c' [] := by
  obtain ⟨head, hh, hc, hcontent⟩ := h.exists_ofNat
  obtain ⟨c', hbuffer, hcoupled⟩ :=
    bufferDe_refines q.length hn hh h.allocated h.room hcontent
  rw [← hc, ← h.lenth, min_self, List.take_length] at hbuffer
  rw [List.drop_length] at hcoupled
  refine ⟨c', hbuffer, ?_, hcoupled⟩
  rw [allBufferDeCirQueue_eq, hbuffer, Option.map_some]

/-- Every run of a new queue of at most `2 ^ 30` bytes ends where both calls drain what the
operations have left in it. -/
theorem drains_of_run {n : ℕ} (hmin : minQueueSize ≤ n) (hmax : n ≤ 2 ^ 30)
    (ops : List Operation) :
    ∃ created c replies q c', xCirQueueGenericCreate n = some created ∧
      run step created ops = some (c, replies) ∧ Allowed (Follows n) [] ops replies q ∧
      bufferDeCirQueue c.iQueueLenth c = some (c', (q.length : ℤ), q) ∧
      allBufferDeCirQueue c = some (c', 0, q) := by
  have hpos : 0 < n := lt_of_lt_of_le (by decide) hmin
  have hcreated : Coupled n ⟨0, 0, 0, int32 n, List.replicate n 0⟩ [] :=
    created_coupled (by omega) hpos List.length_replicate
  obtain ⟨c, replies, q, hrun, hallowed, hcoupled⟩ :=
    refinesFifo_of_coupled hpos hmax hcreated ops
  obtain ⟨c', hbuffer, hall, -⟩ := drains_of_coupled hmax hcoupled
  exact ⟨_, c, replies, q, c', if_neg (Nat.not_lt.mpr hmin), hrun, hallowed, hbuffer, hall⟩

/-- One byte in a queue of ten is drained and counted as none. -/
theorem not_drainsAlike_of_create : ¬ ∀ n c ops replies c',
    xCirQueueGenericCreate n = some c → run step c ops = some (c', replies) → DrainsAlike c' := by
  intro h
  have hstuck := h 10 _ [.enCirQueue 1] _ _ rfl rfl
  obtain ⟨result, hbuffer, hall⟩ := hstuck
  rw [← hbuffer] at hall
  exact absurd hall (by decide)

end VehicleTerminal.Queue
