import VehicleTerminal.Library.Ring
import VehicleTerminal.Library.Fifo
import VehicleTerminal.Queue.CirQueue

/-! The circular byte queue refines a bounded first-in first-out queue as long as the sum
of a position and a length stays below the `int` range, that is up to `2 ^ 30` bytes. -/
namespace VehicleTerminal.Queue
open MachineInt BlockMemory CircularBuffer BoundedFifo PartialRun

/-- What an operation is for, on the list of queued bytes. The number that
`AllBufferDeCirQueue` returns is left open. -/
def Follows (n : ℕ) (q : List UInt8) : Operation → Reply → List UInt8 → Prop
  | .enCirQueue element, reply, q' =>
    if q.length < n then reply = .state .success ∧ q' = q ++ [element]
    else reply = .state .failed ∧ q' = q
  | .bufferEnCirQueue pBuffer, reply, q' =>
    reply = .lens (fitting n q pBuffer.bytes).length ∧ q' = q ++ fitting n q pBuffer.bytes
  | .deCirQueue, reply, q' =>
    match q with
    | [] => reply = .element .failed none ∧ q' = []
    | element :: rest => reply = .element .success (some element) ∧ q' = rest
  | .bufferDeCirQueue bufferLen, reply, q' =>
    reply = .buffer (min bufferLen.value q.length : ℕ) (q.take bufferLen.value) ∧
      q' = q.drop bufferLen.value
  | .allBufferDeCirQueue, reply, q' => (∃ returned, reply = .buffer returned q) ∧ q' = []
  | .vCirQueueGenericClear, reply, q' => reply = .unit ∧ q' = []

/-- The fields of `c` describe the abstract queue `q` in a buffer of `n` bytes. -/
structure Coupled (n : ℕ) (c : CirQueue) (q : List UInt8) : Prop where
  room : q.length ≤ n
  lenth : c.iQueueLenth = q.length
  head_nonneg : 0 ≤ c.iHead
  head_lt : c.iHead < n
  tail : c.iTail = (c.iHead + q.length) % n
  capacity : c.iQueueCapacity = n
  allocated : c.pQueue.length = n
  content : Holds c.pQueue n c.iHead.toNat q

/-- Every finite sequence of operations runs inside the buffer and follows the abstract
queue, starting from the empty one. -/
def RefinesFifo (n : ℕ) (c : CirQueue) : Prop :=
  ∀ ops, ∃ c' replies q, run step c ops = some (c', replies) ∧
    Allowed (Follows n) [] ops replies q ∧ Coupled n c' q

/-- A queue whose fields are natural numbers. -/
def ofNat (head tail lenth n : ℕ) (mem : List UInt8) : CirQueue := ⟨head, tail, lenth, n, mem⟩

section Execution

variable {n head tail lenth : ℕ} {mem : List UInt8}

theorem enCirQueue_ofNat (element : UInt8) (hn : n ≤ 2 ^ 30) (hm : mem.length = n)
    (ht : tail < n) (hl : lenth < n) :
    enCirQueue element (ofNat head tail lenth n mem) =
      some (ofNat head ((tail + 1) % n) (lenth + 1) n (wrapWrite mem n tail [element]),
        .success) := by
  have hfull : ¬ (lenth : ℤ) = n := by omega
  have hfits : tail + [element].length ≤ n := by simpa using ht
  have htail : int32 ((tail : ℤ) + 1) = ((tail + 1 : ℕ) : ℤ) :=
    int32_natCast_add (b := 1) (by omega)
  have hlenth : int32 ((lenth : ℤ) + 1) = ((lenth + 1 : ℕ) : ℤ) :=
    int32_natCast_add (b := 1) (by omega)
  simp only [enCirQueue, isCirQueueFull, ofNat, hfull, if_false, reduceCtorEq,
    storeAt_natCast element (hm.symm ▸ ht), Option.map_some, htail, hlenth, natCast_tmod,
    wrapWrite, if_pos hfits]

theorem enCirQueue_full (element : UInt8) (hl : lenth = n) :
    enCirQueue element (ofNat head tail lenth n mem) =
      some (ofNat head tail lenth n mem, .failed) := by
  simp [enCirQueue, isCirQueueFull, ofNat, hl]

theorem bufferEnCirQueue_zero (pBuffer : List UInt8) (c : CirQueue) :
    bufferEnCirQueue pBuffer 0 c = some (c, 0) := by
  simp [bufferEnCirQueue]

theorem bufferEnCirQueue_ofNat {pBuffer : List UInt8} {count : ℕ} (hb : pBuffer.length ≠ 0)
    (hcount : count = min pBuffer.length (n - lenth)) (hn : n < 2147483648)
    (hm : mem.length = n) (ht : tail < n) (hl : lenth ≤ n) (hsum : tail + count < 2147483648) :
    bufferEnCirQueue pBuffer pBuffer.length (ofNat head tail lenth n mem) =
      some (ofNat head ((tail + count) % n) (lenth + count) n
        (wrapWrite mem n tail (pBuffer.take count)), (count : ℤ)) := by
  have hresidue : int32 ((n : ℤ) - lenth) = ((n - lenth : ℕ) : ℤ) := int32_natCast_sub hl hn
  have hpre : int32 ((n : ℤ) - tail) = ((n - tail : ℕ) : ℤ) := int32_natCast_sub ht.le hn
  have hnonzero : ¬ (pBuffer.length : ℤ) = 0 := by omega
  have hincrease : (if (pBuffer.length : ℤ) > ((n - lenth : ℕ) : ℤ) then ((n - lenth : ℕ) : ℤ)
      else (pBuffer.length : ℤ)) = (count : ℤ) := by
    split_ifs <;> omega
  have htaken : (pBuffer.take count).length = count := by
    rw [List.length_take]
    omega
  have hcopied : (if ((n - tail : ℕ) : ℤ) ≥ (count : ℤ) then
        memcpyIn mem (tail : ℤ) pBuffer 0 (count : ℤ)
      else (memcpyIn mem (tail : ℤ) pBuffer 0 ((n - tail : ℕ) : ℤ)).bind fun pQueue =>
        memcpyIn pQueue 0 pBuffer ((n - tail : ℕ) : ℤ) (int32 ((count : ℤ) - (n - tail : ℕ)))) =
      some (wrapWrite mem n tail (pBuffer.take count)) := by
    unfold wrapWrite
    rw [htaken]
    split_ifs with hfit hfit' hfit'
    · exact memcpyIn_natCast (o := 0) (by omega) (by omega) (by omega)
    · omega
    · omega
    · have hrest : int32 ((count : ℤ) - (n - tail : ℕ)) = ((count - (n - tail) : ℕ) : ℤ) :=
        int32_natCast_sub (by omega) (by omega)
      have hfirst : memcpyIn mem (tail : ℤ) pBuffer 0 ((n - tail : ℕ) : ℤ) =
          some (blit mem tail (pBuffer.take (n - tail))) :=
        memcpyIn_natCast (o := 0) (by omega) (by omega) (by omega)
      have hlength : (blit mem tail (pBuffer.take (n - tail))).length = n := by
        rw [blit_length _ _ _ (by rw [List.length_take]; omega), hm]
      rw [hfirst, Option.bind_some, hrest, List.take_take, List.drop_take,
        Nat.min_eq_left (by omega)]
      exact memcpyIn_natCast (p := 0) (by omega) (by omega) (by omega)
  simp only [bufferEnCirQueue, ofNat, hresidue, hpre, hnonzero, if_false, hincrease]
  simp only [hcopied, Option.map_some, int32_natCast_add hsum,
    int32_natCast_add (show lenth + count < 2147483648 by omega), natCast_tmod]

theorem deCirQueue_empty : deCirQueue (ofNat head tail 0 n mem) =
    some (ofNat head tail 0 n mem, .failed, none) := by
  simp [deCirQueue, isCirQueueEmpty, ofNat]

theorem deCirQueue_ofNat {element : UInt8} (hn : n ≤ 2 ^ 30) (hh : head < n)
    (hl : 0 < lenth) (hle : lenth ≤ n) (he : mem[head]? = some element) :
    deCirQueue (ofNat head tail lenth n mem) =
      some (ofNat ((head + 1) % n) tail (lenth - 1) n mem, .success, some element) := by
  have hempty : ¬ (lenth : ℤ) = 0 := by omega
  have hhead : int32 ((head : ℤ) + 1) = ((head + 1 : ℕ) : ℤ) :=
    int32_natCast_add (b := 1) (by omega)
  have hlenth : int32 ((lenth : ℤ) - 1) = ((lenth - 1 : ℕ) : ℤ) :=
    int32_natCast_sub (b := 1) (by omega) (by omega)
  simp only [deCirQueue, isCirQueueEmpty, ofNat, hempty, if_false, reduceCtorEq,
    loadAt_natCast, he, Option.map_some, hhead, hlenth, natCast_tmod]

/-- Both tests for the second copy agree with a wrapped read: where the block ends exactly
at the physical end, the second copy is empty. -/
theorem copyFromHead_ofNat {count : ℕ} {split : Bool} (hn : n < 2147483648)
    (hm : mem.length = n) (hh : head < n) (hk : count ≤ n)
    (hsplit : split = false → head + count ≤ n) (hwhole : split = true → n ≤ head + count) :
    copyFromHead (ofNat head tail lenth n mem) ((n - head : ℕ) : ℤ) count split =
      some (wrapRead mem n head count) := by
  cases split with
  | false =>
    have hfit : head + count ≤ n := hsplit rfl
    have hout : memcpyOut mem (head : ℤ) (count : ℤ) = some (slice mem head count) :=
      memcpyOut_natCast (by omega) (by omega)
    simp [copyFromHead, ofNat, hout, wrapRead, hfit]
  | true =>
    have hend : n ≤ head + count := hwhole rfl
    have hrest : int32 ((count : ℤ) - (n - head : ℕ)) = ((count - (n - head) : ℕ) : ℤ) :=
      int32_natCast_sub (by omega) (by omega)
    have hout : memcpyOut mem (head : ℤ) ((n - head : ℕ) : ℤ) =
        some (slice mem head (n - head)) := memcpyOut_natCast (by omega) (by omega)
    have hwrap : memcpyOut mem 0 ((count - (n - head) : ℕ) : ℤ) =
        some (slice mem 0 (count - (n - head))) :=
      memcpyOut_natCast (p := 0) (by omega) (by omega)
    simp only [copyFromHead, ofNat, if_true, hrest, hout, hwrap, Option.bind_some,
      Option.map_some, wrapRead]
    split_ifs with hfit
    · have hcount : count = n - head := by omega
      simp [hcount, slice]
    · rfl

theorem bufferDeCirQueue_nothing {len : ℕ} (h : lenth = 0 ∨ len = 0) :
    bufferDeCirQueue len (ofNat head tail lenth n mem) =
      some (ofNat head tail lenth n mem, 0, []) := by
  rcases h with rfl | rfl <;> simp [bufferDeCirQueue, isCirQueueEmpty, ofNat]

theorem bufferDeCirQueue_ofNat {len count : ℕ} (hlen : len ≠ 0) (hlenth : lenth ≠ 0)
    (hcount : count = min len lenth) (hn : n < 2147483648) (hm : mem.length = n) (hh : head < n)
    (hl : lenth ≤ n) (hsum : head + count < 2147483648) :
    bufferDeCirQueue len (ofNat head tail lenth n mem) =
      some (ofNat ((head + count) % n) tail (lenth - count) n mem, (count : ℤ),
        wrapRead mem n head count) := by
  have hpre : int32 ((n : ℤ) - head) = ((n - head : ℕ) : ℤ) :=
    int32_natCast_sub hh.le (by omega)
  have hcopy : copyFromHead (ofNat head tail lenth n mem) ((n - head : ℕ) : ℤ) count
      (!decide (((n - head : ℕ) : ℤ) ≥ (count : ℤ))) = some (wrapRead mem n head count) := by
    apply copyFromHead_ofNat (by omega) hm hh (by omega)
    · intro hs
      have := of_decide_eq_true (by simpa using hs : decide (((n - head : ℕ) : ℤ) ≥ count) = true)
      omega
    · intro hs
      have := of_decide_eq_false (by simpa using hs : decide (((n - head : ℕ) : ℤ) ≥ count) = false)
      omega
  have hempty : ¬ (lenth : ℤ) = 0 := by omega
  have hlen' : ¬ (len : ℤ) = 0 := by omega
  simp only [ofNat] at hcopy
  simp only [bufferDeCirQueue, isCirQueueEmpty, ofNat, hempty, hlen', if_false, reduceCtorEq, hpre]
  have hhead : int32 ((head : ℤ) + count) = ((head + count : ℕ) : ℤ) :=
    int32_natCast_add (by omega)
  have hleft : int32 ((lenth : ℤ) - count) = ((lenth - count : ℕ) : ℤ) :=
    int32_natCast_sub (by omega) (by omega)
  by_cases hmore : (len : ℤ) > lenth
  · obtain rfl : count = lenth := by omega
    simp only [hmore, if_true, hcopy, Option.map_some, hhead, hleft, natCast_tmod]
  · obtain rfl : count = len := by omega
    simp only [hmore, if_false, hcopy, Option.map_some, hhead, hleft, natCast_tmod]

theorem allBufferDeCirQueue_empty : allBufferDeCirQueue (ofNat head tail 0 n mem) =
    some (ofNat head tail 0 n mem, 0, []) := by
  simp [allBufferDeCirQueue, isCirQueueEmpty, ofNat]

theorem allBufferDeCirQueue_ofNat (hlenth : lenth ≠ 0) (hn : n ≤ 2 ^ 30)
    (hm : mem.length = n) (hh : head < n) (hl : lenth ≤ n) :
    allBufferDeCirQueue (ofNat head tail lenth n mem) =
      some (ofNat ((head + lenth) % n) tail 0 n mem, 0, wrapRead mem n head lenth) := by
  have hpre : int32 ((n : ℤ) - head) = ((n - head : ℕ) : ℤ) :=
    int32_natCast_sub hh.le (by omega)
  have hcopy : copyFromHead (ofNat head tail lenth n mem) ((n - head : ℕ) : ℤ) lenth
      (!decide (((n - head : ℕ) : ℤ) > (lenth : ℤ))) = some (wrapRead mem n head lenth) := by
    apply copyFromHead_ofNat (by omega) hm hh hl
    · intro hs
      have := of_decide_eq_true (by simpa using hs : decide (((n - head : ℕ) : ℤ) > lenth) = true)
      omega
    · intro hs
      have := of_decide_eq_false (by simpa using hs : decide (((n - head : ℕ) : ℤ) > lenth) = false)
      omega
  have hempty : ¬ (lenth : ℤ) = 0 := by omega
  simp only [ofNat] at hcopy
  simp only [allBufferDeCirQueue, isCirQueueEmpty, ofNat, hempty, if_false, reduceCtorEq, hpre,
    hcopy, Option.map_some, natCast_tmod, Nat.cast_zero,
    int32_natCast_add (show head + lenth < 2147483648 by omega)]

end Execution

section Coupling

variable {n : ℕ} {c : CirQueue} {q : List UInt8}

theorem coupled_ofNat {head tail lenth : ℕ} {mem : List UInt8} (hh : head < n)
    (hm : mem.length = n) (hq : q.length ≤ n) (hl : lenth = q.length)
    (ht : tail = (head + q.length) % n) (hc : Holds mem n head q) :
    Coupled n (ofNat head tail lenth n mem) q where
  room := hq
  lenth := by rw [ofNat, hl]
  head_nonneg := Int.natCast_nonneg head
  head_lt := Int.ofNat_lt.mpr hh
  tail := by
    rw [ofNat, ht]
    push_cast
    rfl
  capacity := rfl
  allocated := hm
  content := hc

theorem Coupled.exists_ofNat (h : Coupled n c q) :
    ∃ head, head < n ∧ c = ofNat head ((head + q.length) % n) q.length n c.pQueue ∧
      Holds c.pQueue n head q := by
  obtain ⟨head, hhead⟩ := Int.eq_ofNat_of_zero_le h.head_nonneg
  have hcontent := h.content
  have htail := h.tail
  have hlt := h.head_lt
  rw [hhead] at hcontent htail hlt
  refine ⟨head, Int.ofNat_lt.mp hlt, ?_, hcontent⟩
  cases c with
  | mk iHead iTail iQueueLenth iQueueCapacity pQueue =>
    have hlenth := h.lenth
    have hcapacity := h.capacity
    simp only at hhead htail hlenth hcapacity
    rw [ofNat, hhead, htail, hlenth, hcapacity]
    push_cast
    rfl

variable {head tail : ℕ} {mem : List UInt8}

theorem en_refines (element : UInt8) (hn : n ≤ 2 ^ 30) (hh : head < n) (hm : mem.length = n)
    (hq : q.length < n) (hc : Holds mem n head q) :
    ∃ c', enCirQueue element (ofNat head ((head + q.length) % n) q.length n mem) =
      some (c', .success) ∧ Coupled n c' (q ++ [element]) := by
  have ht : (head + q.length) % n < n := Nat.mod_lt _ (by omega)
  refine ⟨_, enCirQueue_ofNat element hn hm ht hq, ?_⟩
  refine coupled_ofNat hh ((wrapWrite_length hm.ge ht.le (by simp; omega)).trans hm)
    (by simpa using hq) (by simp) ?_ (hc.append hm.ge ht.le (Nat.mod_mod _ _) (by simpa using hq))
  rw [Nat.mod_add_mod, List.length_append, List.length_singleton, Nat.add_assoc]

theorem bufferEn_refines (pBuffer : IntBlock) (hn : n < 2147483648) (hh : head < n)
    (hm : mem.length = n) (hq : q.length ≤ n) (hc : Holds mem n head q)
    (hsum : (head + q.length) % n + (fitting n q pBuffer.bytes).length < 2147483648) :
    ∃ c', bufferEnCirQueue pBuffer.bytes pBuffer.bytes.length
        (ofNat head ((head + q.length) % n) q.length n mem) =
      some (c', ((fitting n q pBuffer.bytes).length : ℤ)) ∧
      Coupled n c' (q ++ fitting n q pBuffer.bytes) := by
  by_cases hb : pBuffer.bytes.length = 0
  · have hfit : fitting n q pBuffer.bytes = [] := by
      simp [fitting, List.length_eq_zero_iff.mp hb]
    rw [hfit, hb, List.append_nil]
    exact ⟨_, bufferEnCirQueue_zero _ _, coupled_ofNat hh hm hq rfl rfl hc⟩
  · have ht : (head + q.length) % n < n := Nat.mod_lt _ (by omega)
    have hcount : (fitting n q pBuffer.bytes).length = min pBuffer.bytes.length (n - q.length) :=
      fitting_length n q pBuffer.bytes
    refine ⟨_, bufferEnCirQueue_ofNat hb hcount hn hm ht hq hsum, ?_⟩
    rw [take_fitting_length]
    refine coupled_ofNat hh ((wrapWrite_length hm.ge ht.le (by omega)).trans hm)
      (append_fitting_length hq _) (List.length_append).symm ?_
      (hc.append hm.ge ht.le (Nat.mod_mod _ _) (by omega))
    rw [Nat.mod_add_mod, List.length_append, Nat.add_assoc]

theorem de_refines {element : UInt8} {rest : List UInt8} (hn : n ≤ 2 ^ 30) (hh : head < n)
    (hm : mem.length = n) (hq : (element :: rest).length ≤ n)
    (hc : Holds mem n head (element :: rest)) :
    ∃ c', deCirQueue (ofNat head ((head + (element :: rest).length) % n)
        (element :: rest).length n mem) = some (c', .success, some element) ∧
      Coupled n c' rest := by
  have hfirst : mem[head]? = some element := by
    have h0 := hc 0 (by simp)
    rwa [Nat.add_zero, Nat.mod_eq_of_lt hh] at h0
  refine ⟨_, deCirQueue_ofNat hn hh (by simp) hq hfirst, ?_⟩
  have hrest : Holds mem n ((head + 1) % n) rest := hc.drop (k := 1) (Nat.mod_mod _ _)
  refine coupled_ofNat (Nat.mod_lt _ (by omega)) hm (by simp at hq; omega) (by simp) ?_ hrest
  rw [Nat.mod_add_mod, List.length_cons]
  congr 1
  omega

theorem bufferDe_refines (len : ℕ) (hn : n ≤ 2 ^ 30) (hh : head < n)
    (hm : mem.length = n) (hq : q.length ≤ n) (hc : Holds mem n head q) :
    ∃ c', bufferDeCirQueue len (ofNat head ((head + q.length) % n) q.length n mem) =
      some (c', ((min len q.length : ℕ) : ℤ), q.take len) ∧ Coupled n c' (q.drop len) := by
  by_cases hnothing : q.length = 0 ∨ len = 0
  · have hsame : q.take len = [] ∧ q.drop len = q ∧ min len q.length = 0 := by
      rcases hnothing with h | h
      · simp [List.length_eq_zero_iff.mp h]
      · simp [h]
    rw [hsame.1, hsame.2.1, hsame.2.2]
    exact ⟨_, bufferDeCirQueue_nothing hnothing, coupled_ofNat hh hm hq rfl rfl hc⟩
  · have hlen : len ≠ 0 := fun h => hnothing (.inr h)
    have hlenth : q.length ≠ 0 := fun h => hnothing (.inl h)
    have hread : wrapRead mem n head (min len q.length) = q.take len := by
      rw [hc.read hm.ge hh.le (Nat.min_le_right _ _) hq, List.take_eq_take_iff]
      omega
    refine ⟨_, by
      rw [bufferDeCirQueue_ofNat hlen hlenth rfl (by omega) hm hh hq (by omega), hread], ?_⟩
    have hdrop : Holds mem n ((head + min len q.length) % n) (q.drop len) := by
      rw [show q.drop len = q.drop (min len q.length) by rw [List.drop_eq_drop_min]]
      exact hc.drop (Nat.mod_mod _ _)
    refine coupled_ofNat (Nat.mod_lt _ (by omega)) hm (by rw [List.length_drop]; omega)
      (by rw [List.length_drop]; omega) ?_ hdrop
    rw [Nat.mod_add_mod, List.length_drop]
    congr 1
    omega

theorem allBufferDe_refines (hn : n ≤ 2 ^ 30) (hh : head < n)
    (hm : mem.length = n) (hq : q.length ≤ n) (hc : Holds mem n head q) :
    ∃ c', allBufferDeCirQueue (ofNat head ((head + q.length) % n) q.length n mem) =
      some (c', 0, q) ∧ Coupled n c' [] := by
  by_cases hlenth : q.length = 0
  · obtain rfl : q = [] := List.length_eq_zero_iff.mp hlenth
    exact ⟨_, allBufferDeCirQueue_empty, coupled_ofNat hh hm hq rfl rfl hc⟩
  · have hread : wrapRead mem n head q.length = q := by
      rw [hc.read hm.ge hh.le le_rfl hq, List.take_length]
    refine ⟨_, by rw [allBufferDeCirQueue_ofNat hlenth hn hm hh hq, hread], ?_⟩
    refine coupled_ofNat (Nat.mod_lt _ (by omega)) hm (Nat.zero_le _) rfl ?_ (holds_nil _ _ _)
    simp

theorem clear_coupled (h : Coupled n c q) (hn : 0 < n) :
    Coupled n (vCirQueueGenericClear c) [] := by
  have hc : vCirQueueGenericClear c = ofNat 0 0 0 n c.pQueue := by
    simp [vCirQueueGenericClear, ofNat, h.capacity]
  rw [hc]
  exact coupled_ofNat hn h.allocated (Nat.zero_le _) rfl (by simp) (holds_nil _ _ _)

/-- One operation at a coupled state, by cases on the operation. -/
theorem step_refines (hpos : 0 < n) (hn : n ≤ 2 ^ 30) :
    StepRefines step (Follows n) (Coupled n) (fun _ _ => True) := by
  intro c q op h _
  obtain ⟨head, hh, hc, hcontent⟩ := h.exists_ofNat
  cases op with
  | enCirQueue element =>
    by_cases hq : q.length < n
    · obtain ⟨c', hrun, hc'⟩ := en_refines element hn hh h.allocated hq hcontent
      rw [← hc] at hrun
      exact ⟨c', _, _, by rw [step, hrun, Option.map_some], by simp [Follows, hq], hc'⟩
    · have hfull : q.length = n := Nat.le_antisymm h.room (by omega)
      refine ⟨c, .state .failed, q, ?_, by simp [Follows, hq], h⟩
      rw [hc, step, enCirQueue_full element hfull, Option.map_some]
  | bufferEnCirQueue pBuffer =>
    have htail : (head + q.length) % n < n := Nat.mod_lt _ hpos
    have hfits := append_fitting_length h.room pBuffer.bytes
    rw [List.length_append] at hfits
    obtain ⟨c', hrun, hc'⟩ :=
      bufferEn_refines pBuffer (by omega) hh h.allocated h.room hcontent (by omega)
    rw [← hc] at hrun
    exact ⟨c', _, _, by rw [step, hrun, Option.map_some], ⟨rfl, rfl⟩, hc'⟩
  | deCirQueue =>
    cases q with
    | nil =>
      refine ⟨c, .element .failed none, [], ?_, ⟨rfl, rfl⟩, h⟩
      rw [hc, step, List.length_nil, deCirQueue_empty, Option.map_some]
    | cons element rest =>
      obtain ⟨c', hrun, hc'⟩ := de_refines hn hh h.allocated h.room hcontent
      rw [← hc] at hrun
      exact ⟨c', _, _, by rw [step, hrun, Option.map_some], ⟨rfl, rfl⟩, hc'⟩
  | bufferDeCirQueue bufferLen =>
    obtain ⟨c', hrun, hc'⟩ := bufferDe_refines bufferLen.value hn hh h.allocated h.room hcontent
    rw [← hc] at hrun
    exact ⟨c', _, _, by rw [step, hrun, Option.map_some], ⟨rfl, rfl⟩, hc'⟩
  | allBufferDeCirQueue =>
    obtain ⟨c', hrun, hc'⟩ := allBufferDe_refines hn hh h.allocated h.room hcontent
    rw [← hc] at hrun
    exact ⟨c', _, _, by rw [step, hrun, Option.map_some], ⟨⟨_, rfl⟩, rfl⟩, hc'⟩
  | vCirQueueGenericClear =>
    exact ⟨_, .unit, [], rfl, ⟨rfl, rfl⟩, clear_coupled h hpos⟩

theorem created_coupled {mem : List UInt8} (hn : n < 2147483648) (hpos : 0 < n)
    (hm : mem.length = n) : Coupled n ⟨0, 0, 0, int32 n, mem⟩ [] := by
  rw [int32_natCast hn]
  have hempty : Coupled n (ofNat 0 0 0 n mem) [] :=
    coupled_ofNat hpos hm (Nat.zero_le _) rfl (by simp) (holds_nil _ _ _)
  exact hempty

theorem refinesFifo_of_coupled (hpos : 0 < n) (hn : n ≤ 2 ^ 30) (h : Coupled n c []) :
    RefinesFifo n c := fun _ =>
  (step_refines hpos hn).run h (guarded_of_forall (fun _ _ => trivial) _ _)

end Coupling

/-- Both ways to make a queue of `n` bytes make one that follows the abstract queue. -/
def CreatesFifo (n : ℕ) : Prop :=
  (∃ c, xCirQueueGenericCreate n = some c ∧ RefinesFifo n c) ∧
    ∀ pxQueueBuffer, ∃ c, xCirQueueGenericStaticCreate n pxQueueBuffer = some c ∧ RefinesFifo n c

/-- Up to `2 ^ 30` bytes the queue is a bounded first-in first-out queue over every run. -/
theorem createsFifo_of_le {n : ℕ} (hmin : minQueueSize ≤ n) (hmax : n ≤ 2 ^ 30) :
    CreatesFifo n := by
  have hpos : 0 < n := lt_of_lt_of_le (by decide) hmin
  refine ⟨⟨_, if_neg (Nat.not_lt.mpr hmin), ?_⟩, fun pxQueueBuffer =>
    ⟨_, if_neg (Nat.not_lt.mpr hmin), ?_⟩⟩
  · exact refinesFifo_of_coupled hpos hmax
      (created_coupled (by omega) hpos List.length_replicate)
  · exact refinesFifo_of_coupled hpos hmax
      (created_coupled (by omega) hpos (by rw [List.length_map, pxQueueBuffer.property]))

theorem createsFifo_ten : minQueueSize ≤ 10 ∧ 10 ≤ 2 ^ 30 ∧ CreatesFifo 10 :=
  ⟨by decide, by decide, createsFifo_of_le (by decide) (by decide)⟩

section Overflow

/-- The tail of any bulk enqueue is the wrapped sum, whatever its sign. -/
theorem bufferEnCirQueue_iTail {pBuffer : List UInt8} {bufferLen lens : ℤ} {c c' : CirQueue}
    (h : bufferEnCirQueue pBuffer bufferLen c = some (c', lens)) (hlen : bufferLen ≠ 0) :
    c'.iTail = Int.tmod (int32 (c.iTail + lens)) c.iQueueCapacity ∧
      lens = if bufferLen > int32 (c.iQueueCapacity - c.iQueueLenth)
        then int32 (c.iQueueCapacity - c.iQueueLenth) else bufferLen := by
  simp only [bufferEnCirQueue, hlen, if_false, Option.map_eq_some_iff] at h
  obtain ⟨pQueue, -, heq⟩ := h
  cases heq
  exact ⟨rfl, rfl⟩

/-- A tail past the middle of a buffer of more than `2 ^ 30` bytes plus a block as long as
the buffer leaves the `int` range. -/
theorem wrapped_tail_neg {n : ℕ} (hlo : 2 ^ 30 < n) (hhi : n < 2147483648) :
    Int.tmod (int32 ((n - 1 : ℕ) + (n : ℤ))) n < 0 := by
  have hwrap : int32 ((n - 1 : ℕ) + (n : ℤ)) = -(4294967297 - 2 * n : ℕ) := by
    unfold int32
    omega
  rw [hwrap, Int.neg_tmod, natCast_tmod]
  have hpos : 0 < (4294967297 - 2 * n) % n := by
    by_cases h : 4294967297 - 2 * n < n
    · rw [Nat.mod_eq_of_lt h]
      omega
    · rw [Nat.mod_eq_sub_mod (by omega), Nat.mod_eq_of_lt (by omega)]
      omega
  omega

/-- A block of zeros. -/
def zeros (n : ℕ) (h : n < 2147483648) : IntBlock :=
  ⟨List.replicate n 0, by rwa [List.length_replicate]⟩

/-- Fill all but one byte, empty the queue, and fill it again from the last position. -/
def overflowingRun (n : ℕ) (h : n < 2147483648) : List Operation :=
  [.bufferEnCirQueue (zeros (n - 1) (by omega)), .bufferDeCirQueue ⟨n - 1, by omega⟩,
    .bufferEnCirQueue (zeros n h)]

theorem fill_step {n : ℕ} {mem : List UInt8} (hpos : 1 < n) (hhi : n < 2147483648)
    (hm : mem.length = n) : ∃ mem' reply, mem'.length = n ∧
      step (ofNat 0 0 0 n mem) (.bufferEnCirQueue (zeros (n - 1) (by omega))) =
        some (ofNat 0 (n - 1) (n - 1) n mem', reply) := by
  have hlen : (zeros (n - 1) (by omega)).bytes.length = n - 1 := List.length_replicate
  have hfill : bufferEnCirQueue (zeros (n - 1) (by omega)).bytes
      (zeros (n - 1) (by omega)).bytes.length (ofNat 0 0 0 n mem) =
        some (ofNat 0 ((0 + (n - 1)) % n) (0 + (n - 1)) n
          (wrapWrite mem n 0 ((zeros (n - 1) (by omega)).bytes.take (n - 1))),
          ((n - 1 : ℕ) : ℤ)) :=
    bufferEnCirQueue_ofNat (by omega) (by omega) hhi hm (by omega) (by omega) (by omega)
  rw [Nat.zero_add, Nat.mod_eq_of_lt (by omega)] at hfill
  refine ⟨_, _, ?_, by rw [step, hfill, Option.map_some]⟩
  rw [wrapWrite_length hm.ge (Nat.zero_le n) ((List.length_take_le _ _).trans (by omega)), hm]

theorem drain_step {n : ℕ} {mem : List UInt8} (hpos : 1 < n) (hhi : n < 2147483648)
    (hm : mem.length = n) : ∃ reply,
      step (ofNat 0 (n - 1) (n - 1) n mem) (.bufferDeCirQueue ⟨n - 1, by omega⟩) =
        some (ofNat (n - 1) (n - 1) 0 n mem, reply) := by
  have hdrain : bufferDeCirQueue (n - 1 : ℕ) (ofNat 0 (n - 1) (n - 1) n mem) =
      some (ofNat ((0 + (n - 1)) % n) (n - 1) (n - 1 - (n - 1)) n mem, ((n - 1 : ℕ) : ℤ),
        wrapRead mem n 0 (n - 1)) :=
    bufferDeCirQueue_ofNat (by omega) (by omega) (Nat.min_self _).symm hhi hm (by omega)
      (by omega) (by omega)
  rw [Nat.zero_add, Nat.mod_eq_of_lt (by omega), Nat.sub_self] at hdrain
  exact ⟨_, by rw [step, hdrain, Option.map_some]⟩

/-- With more than `2 ^ 30` bytes there is a run whose tail ends below zero. -/
theorem not_refinesFifo {n : ℕ} {mem : List UInt8} (hlo : 2 ^ 30 < n) (hhi : n < 2147483648)
    (hm : mem.length = n) : ¬ RefinesFifo n ⟨0, 0, 0, int32 n, mem⟩ := by
  intro hrefines
  obtain ⟨c, replies, q, hrun, -, hcoupled⟩ := hrefines (overflowingRun n hhi)
  have hstart : (⟨0, 0, 0, int32 n, mem⟩ : CirQueue) = ofNat 0 0 0 n mem := by
    rw [int32_natCast hhi, ofNat, Nat.cast_zero]
  obtain ⟨mem₁, _, hm₁, hfill⟩ := fill_step (by omega) hhi hm
  obtain ⟨_, hdrain⟩ := drain_step (by omega) hhi hm₁
  rw [hstart] at hrun
  obtain ⟨c₁, _, _, hstep₁, hrun, -⟩ := run_cons_eq_some hrun
  rw [hfill] at hstep₁
  cases hstep₁
  obtain ⟨c₂, _, _, hstep₂, hrun, -⟩ := run_cons_eq_some hrun
  rw [hdrain] at hstep₂
  cases hstep₂
  obtain ⟨c₃, _, _, hstep₃, hrun, -⟩ := run_cons_eq_some hrun
  obtain ⟨⟨c₄, lens⟩, hlast, heq⟩ := Option.map_eq_some_iff.mp hstep₃
  have hend : c = c₄ := by
    cases heq
    cases hrun
    rfl
  have hlen : (zeros n hhi).bytes.length = n := List.length_replicate
  rw [hlen] at hlast
  obtain ⟨htail, hlens⟩ := bufferEnCirQueue_iTail hlast (by omega)
  have hresidue : int32 ((n : ℤ) - (0 : ℕ)) = n := int32_natCast_sub (Nat.zero_le n) hhi
  have hall : lens = n := by
    rw [hlens]
    simp only [ofNat, hresidue, gt_iff_lt, lt_irrefl, if_false]
  rw [hall] at htail
  have hneg := wrapped_tail_neg hlo hhi
  have hnonneg : 0 ≤ c₄.iTail := by
    rw [← hend, hcoupled.tail]
    exact Int.emod_nonneg _ (by omega)
  simp only [ofNat] at htail
  omega

end Overflow

/-- A capacity of one byte more than `2 ^ 30` is accepted and does not work. -/
theorem not_createsFifo_large :
    ¬ ∀ n, minQueueSize ≤ n → n < 2 ^ 32 → CreatesFifo n := by
  intro h
  have hmin : minQueueSize ≤ 1073741825 := by decide
  obtain ⟨c, hc, hrefines⟩ := (h 1073741825 hmin (by decide)).1
  rw [xCirQueueGenericCreate, if_neg (Nat.not_lt.mpr hmin)] at hc
  cases hc
  exact not_refinesFifo (by decide) (by decide) List.length_replicate hrefines

end VehicleTerminal.Queue
