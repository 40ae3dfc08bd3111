import VehicleTerminal.Queue.CirQueueRefinement
import VehicleTerminal.Queue.NodeQueue

/-! The node queue hands out every block as it was accepted, as long as it is cleared only while
it is empty and the lengths and positions stay within their types. -/
namespace VehicleTerminal.Queue
open MachineInt BlockMemory CircularBuffer BoundedFifo PartialRun

section Specification

/-- What the operations are for, on the blocks that were accepted and are neither handed out nor
cleared. An enqueue that accepts nothing leaves no block. -/
def KeepsBlocks (q : List (List UInt8)) : NodeOperation → Reply → List (List UInt8) → Prop
  | .bufferNodeEnCirQueue pBuffer, reply, q' =>
    ∃ count ≤ pBuffer.bytes.length, reply = .lens count ∧
      q' = if count = 0 then q else q ++ [pBuffer.bytes.take count]
  | .bufferNodeDeCirQueue, reply, q' =>
    (reply = .buffer 0 [] ∧ q' = q) ∨
      ∃ block, reply = .buffer (block.length : ℕ) block ∧ q = block :: q'
  | .vCirQueueGenericClear, reply, q' => reply = .unit ∧ q' = []

/-- The lengths in the `m_iNodeNum` pending nodes. -/
def pendingLens (c : NodeQueue) : List ℕ :=
  (List.range c.iNodeNum.toNat).map fun i =>
    c.pNode.getD ((c.iNodeHead.toNat + i) % c.iMaxNodeNum.toNat) 0

/-- The two rings agree, and every index is in its range. -/
structure InStep (n m : ℕ) (c : NodeQueue) : Prop where
  sum : ((pendingLens c).sum : ℤ) = c.iQueueLenth
  lenth : c.iQueueLenth ≤ n
  head : 0 ≤ c.iHead ∧ c.iHead < n
  tail : 0 ≤ c.iTail ∧ c.iTail < n
  nodeHead : 0 ≤ c.iNodeHead ∧ c.iNodeHead < m
  nodeTail : 0 ≤ c.iNodeTail ∧ c.iNodeTail < m
  nodeNum : 0 ≤ c.iNodeNum ∧ c.iNodeNum < m

/-- The blocks come out as they went in, and the rings agree at the end of the operations. -/
def KeepsBoundaries (n m : ℕ) (c : NodeQueue) (ops : List NodeOperation) : Prop :=
  ∃ c' replies q, run nodeStep c ops = some (c', replies) ∧
    Allowed KeepsBlocks [] ops replies q ∧ InStep n m c'

/-- A clear finds an empty queue. The bytes that an enqueue accepts are counted by a `u16`, and
end at a position that an `int` can hold. -/
def Harmless (c : NodeQueue) : NodeOperation → Prop
  | .bufferNodeEnCirQueue pBuffer =>
    c.iNodeNum + 1 < c.iMaxNodeNum →
      min (pBuffer.bytes.length : ℤ) (c.iQueueCapacity - c.iQueueLenth) < 65536 ∧
        c.iTail + min (pBuffer.bytes.length : ℤ) (c.iQueueCapacity - c.iQueueLenth) < 2147483648
  | .bufferNodeDeCirQueue => True
  | .vCirQueueGenericClear => c.iQueueLenth = 0

instance (c : NodeQueue) : ∀ op, Decidable (Harmless c op)
  | .bufferNodeEnCirQueue _ => inferInstanceAs (Decidable (_ → _ ∧ _))
  | .bufferNodeDeCirQueue => inferInstanceAs (Decidable True)
  | .vCirQueueGenericClear => inferInstanceAs (Decidable (_ = _))

end Specification

section Coupling

variable {n m : ℕ} {c : NodeQueue} {q : List (List UInt8)} {head nodeHead : ℕ} {lens : List ℕ}

/-- Every pending block ends at a position that an `int` can hold. -/
def Counted (n : ℕ) : ℕ → List ℕ → Prop
  | _, [] => True
  | head, l :: lens => head + l < 2147483648 ∧ Counted n ((head + l) % n) lens

/-- The nodes hold the lengths of the blocks, with nodes of length 0 between them. -/
structure NodesHold (m : ℕ) (c : NodeQueue) (lens : List ℕ) : Prop where
  room : lens.length < m
  head_nonneg : 0 ≤ c.iNodeHead
  head_lt : c.iNodeHead < m
  tail : c.iNodeTail = (c.iNodeHead + lens.length) % m
  num : c.iNodeNum = lens.length
  max : c.iMaxNodeNum = m
  allocated : c.pNode.length = m
  content : Holds c.pNode m c.iNodeHead.toNat lens

structure NodeCoupled (n m : ℕ) (c : NodeQueue) (q : List (List UInt8)) (lens : List ℕ) :
    Prop where
  bytes : Coupled n c.toCirQueue q.flatten
  nodes : NodesHold m c lens
  lengths : lens.filter (· ≠ 0) = q.map List.length
  nonempty : ∀ block ∈ q, block ≠ []
  counted : Counted n c.iHead.toNat lens

theorem sum_filter_ne_zero (lens : List ℕ) : (lens.filter (· ≠ 0)).sum = lens.sum := by
  induction lens with
  | nil => rfl
  | cons l lens ih =>
    by_cases hl : l = 0
    · rw [List.filter_cons_of_neg (by simpa using hl), List.sum_cons, hl, Nat.zero_add, ih]
    · rw [List.filter_cons_of_pos (by simpa using hl), List.sum_cons, List.sum_cons, ih]

theorem NodeCoupled.sum_lens (h : NodeCoupled n m c q lens) : lens.sum = q.flatten.length := by
  rw [← sum_filter_ne_zero, h.lengths, List.length_flatten]

theorem NodesHold.pendingLens (h : NodesHold m c lens) : pendingLens c = lens := by
  rw [VehicleTerminal.Queue.pendingLens, h.num, h.max, Int.toNat_natCast, Int.toNat_natCast]
  apply List.ext_getElem
  · rw [List.length_map, List.length_range]
  · intro i hi hi'
    rw [List.getElem_map, List.getElem_range, List.getD_eq_getElem?_getD, h.content i hi',
      List.getElem?_eq_getElem hi', Option.getD_some]

theorem NodeCoupled.inStep (h : NodeCoupled n m c q lens) : InStep n m c := by
  have hnonneg := h.bytes.head_nonneg
  have hhead := h.bytes.head_lt
  have hnode := h.nodes.head_lt
  have hroom := h.nodes.room
  constructor
  · rw [h.nodes.pendingLens, h.sum_lens, h.bytes.lenth]
  · rw [h.bytes.lenth]
    exact Int.ofNat_le.mpr h.bytes.room
  · exact ⟨h.bytes.head_nonneg, hhead⟩
  · rw [h.bytes.tail]
    exact ⟨Int.emod_nonneg _ (by omega), Int.emod_lt_of_pos _ (by omega)⟩
  · exact ⟨h.nodes.head_nonneg, hnode⟩
  · rw [h.nodes.tail]
    exact ⟨Int.emod_nonneg _ (by omega), Int.emod_lt_of_pos _ (by omega)⟩
  · rw [h.nodes.num]
    omega

theorem counted_append (hpos : 0 < n) {l : ℕ} (hh : head < n) :
    Counted n head (lens ++ [l]) ↔
      Counted n head lens ∧ (head + lens.sum) % n + l < 2147483648 := by
  induction lens generalizing head with
  | nil => simp [Counted, Nat.mod_eq_of_lt hh]
  | cons k lens ih =>
    rw [List.cons_append, Counted, ih (Nat.mod_lt _ hpos), Counted, List.sum_cons,
      Nat.mod_add_mod, Nat.add_assoc, and_assoc]

/-- A queue without bytes has only nodes of length 0, and these end where they start. -/
theorem counted_zero (hpos : 0 < n) (hsum : lens.sum = 0) : Counted n 0 lens := by
  induction lens with
  | nil => trivial
  | cons l lens ih =>
    rw [List.sum_cons, Nat.add_eq_zero_iff] at hsum
    obtain ⟨rfl, hrest⟩ := hsum
    refine ⟨by decide, ?_⟩
    rw [Nat.add_zero, Nat.mod_eq_of_lt hpos]
    exact ih hrest

theorem bufferEnCirQueue_iHead {pBuffer : List UInt8} {bufferLen increaseLens : ℤ}
    {c c' : CirQueue} (h : bufferEnCirQueue pBuffer bufferLen c = some (c', increaseLens)) :
    c'.iHead = c.iHead := by
  by_cases hlen : bufferLen = 0
  · rw [bufferEnCirQueue, if_pos hlen] at h
    cases h
    rfl
  · simp only [bufferEnCirQueue, hlen, if_false, Option.map_eq_some_iff] at h
    obtain ⟨pQueue, -, heq⟩ := h
    cases heq
    rfl

/-- The first node is one of length 0, or it is the node of the first block. -/
theorem first_node {l : ℕ} (h : (l :: lens).filter (· ≠ 0) = q.map List.length) :
    (l = 0 ∧ lens.filter (· ≠ 0) = q.map List.length) ∨
      ∃ block rest, q = block :: rest ∧ l = block.length ∧
        lens.filter (· ≠ 0) = rest.map List.length := by
  by_cases hl : l = 0
  · rw [List.filter_cons_of_neg (by simpa using hl)] at h
    exact .inl ⟨hl, h⟩
  · rw [List.filter_cons_of_pos (by simpa using hl)] at h
    cases q with
    | nil => exact absurd h (List.cons_ne_nil _ _)
    | cons block rest =>
      rw [List.map_cons, List.cons_eq_cons] at h
      exact .inr ⟨block, rest, rfl, h.1, h.2⟩

/-- The place behind a node, around the ring. -/
theorem NodesHold.next (h : NodesHold m c lens) (hmax : m < 2147483648) {i : ℕ} (hi : i < m) :
    Int.tmod (int32 ((i : ℤ) + 1)) c.iMaxNodeNum = (((i + 1) % m : ℕ) : ℤ) := by
  have hone : int32 ((i : ℤ) + 1) = ((i + 1 : ℕ) : ℤ) := int32_natCast_add (b := 1) (by omega)
  rw [h.max, hone, natCast_tmod]

/-- A node that is appended. -/
theorem NodesHold.append (h : NodesHold m c lens) (hmax : m < 2147483648)
    (hroom : lens.length + 1 < m) (l : ℕ) (cq : CirQueue) :
    ∃ pNode, storeAt c.pNode c.iNodeTail l = some pNode ∧
      NodesHold m { c with
        toCirQueue := cq
        pNode := pNode
        iNodeTail := Int.tmod (int32 (c.iNodeTail + 1)) c.iMaxNodeNum
        iNodeNum := int32 (c.iNodeNum + 1) } (lens ++ [l]) := by
  obtain ⟨nodeHead, hnode⟩ := Int.eq_ofNat_of_zero_le h.head_nonneg
  have hcontent := h.content
  have htail := h.tail
  have hlt := h.head_lt
  rw [hnode] at hcontent htail hlt
  rw [Int.toNat_natCast] at hcontent
  have htailNat : c.iNodeTail = (((nodeHead + lens.length) % m : ℕ) : ℤ) := by
    rw [htail]
    push_cast
    rfl
  have hbound : (nodeHead + lens.length) % m < m := Nat.mod_lt _ (by omega)
  have hfits : (nodeHead + lens.length) % m + [l].length ≤ m := by simpa using hbound
  refine ⟨wrapWrite c.pNode m ((nodeHead + lens.length) % m) [l], ?_, ?_⟩
  · rw [htailNat, storeAt_natCast l (by rw [h.allocated]; exact hbound), wrapWrite, if_pos hfits]
  · have hnum : int32 ((lens.length : ℤ) + 1) = ((lens.length + 1 : ℕ) : ℤ) :=
      int32_natCast_add (b := 1) (by omega)
    constructor
    · rwa [List.length_append, List.length_singleton]
    · exact h.head_nonneg
    · exact h.head_lt
    · dsimp only
      rw [htailNat, h.next hmax hbound, Nat.mod_add_mod, hnode, List.length_append,
        List.length_singleton]
      push_cast
      rw [Int.add_assoc]
    · dsimp only
      rw [h.num, hnum, List.length_append, List.length_singleton]
    · exact h.max
    · exact (wrapWrite_length h.allocated.ge hbound.le (by simp; omega)).trans h.allocated
    · dsimp only
      rw [hnode, Int.toNat_natCast]
      exact hcontent.append h.allocated.ge hbound.le (Nat.mod_mod _ _) (by simp; omega)

/-- The first node, read and set to 0. -/
theorem NodesHold.drop {l : ℕ} (h : NodesHold m c (l :: lens)) (hmax : m < 2147483648)
    (cq : CirQueue) :
    loadAt c.pNode c.iNodeHead = some l ∧
      ∃ pNode, storeAt c.pNode c.iNodeHead 0 = some pNode ∧
        NodesHold m { c with
          toCirQueue := cq
          iNodeHead := Int.tmod (int32 (c.iNodeHead + 1)) c.iMaxNodeNum
          iNodeNum := int32 (c.iNodeNum - 1)
          pNode := pNode } lens := by
  obtain ⟨nodeHead, hnode⟩ := Int.eq_ofNat_of_zero_le h.head_nonneg
  have hcontent := h.content
  have htail := h.tail
  have hlt := h.head_lt
  have hroom := h.room
  rw [hnode] at hcontent htail hlt
  rw [Int.toNat_natCast] at hcontent
  rw [List.length_cons] at hroom htail
  have hbound : nodeHead < m := Int.ofNat_lt.mp hlt
  have hfits : nodeHead + [0].length ≤ m := hbound
  have hfirst : c.pNode[nodeHead]? = some l := by
    have h0 := hcontent 0 (by simp)
    rwa [Nat.add_zero, Nat.mod_eq_of_lt hbound] at h0
  refine ⟨by rw [hnode, loadAt_natCast, hfirst], wrapWrite c.pNode m nodeHead [0], ?_, ?_⟩
  · rw [hnode, storeAt_natCast 0 (by rw [h.allocated]; exact hbound), wrapWrite, if_pos hfits]
  · have hnum : int32 (((lens.length + 1 : ℕ) : ℤ) - 1) = ((lens.length : ℕ) : ℤ) :=
      int32_natCast_sub (b := 1) (by omega) (by omega)
    have hnext := h.next hmax hbound
    constructor
    · omega
    · dsimp only
      rw [hnode, hnext]
      exact Int.natCast_nonneg _
    · dsimp only
      rw [hnode, hnext]
      exact Int.ofNat_lt.mpr (Nat.mod_lt _ (by omega))
    · dsimp only
      rw [hnode, hnext, htail]
      push_cast
      rw [Int.emod_add_emod, Int.add_assoc, Int.add_comm 1]
    · dsimp only
      rw [h.num, List.length_cons, hnum]
    · exact h.max
    · exact (wrapWrite_length h.allocated.ge hbound.le (by simp; omega)).trans h.allocated
    · dsimp only
      rw [hnode, hnext, Int.toNat_natCast]
      exact hcontent.overwrite [0] h.allocated.ge hbound.le (by simp; omega) (by simp)
        (Nat.mod_mod _ _)

/-- The bytes of the first `l` places, taken from the byte ring. -/
theorem copyFromHead_coupled {cq : CirQueue} {bytes : List UInt8} {l : ℕ}
    (h : Coupled n cq bytes) (hn : n < 2147483648) (hl : l ≤ bytes.length)
    (hsum : cq.iHead.toNat + l < 2147483648) :
    copyFromHead cq (int32 (cq.iQueueCapacity - cq.iHead)) l
        (!decide (int32 (cq.iQueueCapacity - cq.iHead) ≥ l)) = some (bytes.take l) ∧
      Coupled n { cq with
        iHead := Int.tmod (int32 (cq.iHead + l)) cq.iQueueCapacity
        iQueueLenth := int32 (cq.iQueueLenth - l) } (bytes.drop l) ∧
      Int.tmod (int32 (cq.iHead + l)) cq.iQueueCapacity = ((cq.iHead.toNat + l) % n : ℕ) := by
  obtain ⟨head, hh, hc, hcontent⟩ := h.exists_ofNat
  have hroom := h.room
  have hmem := h.allocated
  generalize cq.pQueue = mem at hc hcontent hmem
  subst hc
  have hpre : int32 ((n : ℤ) - head) = ((n - head : ℕ) : ℤ) := int32_natCast_sub hh.le hn
  have hhead : int32 ((head : ℤ) + l) = ((head + l : ℕ) : ℤ) := int32_natCast_add hsum
  have hleft : int32 ((bytes.length : ℤ) - l) = ((bytes.length - l : ℕ) : ℤ) :=
    int32_natCast_sub hl (by omega)
  refine ⟨?_, ?_, ?_⟩
  · have hcopy : copyFromHead (ofNat head ((head + bytes.length) % n) bytes.length n mem)
        ((n - head : ℕ) : ℤ) l (!decide (((n - head : ℕ) : ℤ) ≥ (l : ℤ))) =
          some (wrapRead mem n head l) := by
      apply copyFromHead_ofNat hn hmem hh (by omega)
      · intro hs
        have := of_decide_eq_true (by simpa using hs : decide (((n - head : ℕ) : ℤ) ≥ l) = true)
        omega
      · intro hs
        have := of_decide_eq_false (by simpa using hs : decide (((n - head : ℕ) : ℤ) ≥ l) = false)
        omega
    rw [hcontent.read hmem.ge hh.le hl hroom, ← hpre] at hcopy
    exact hcopy
  · have hdrop : Holds mem n ((head + l) % n) (bytes.drop l) := hcontent.drop (Nat.mod_mod _ _)
    have hcoupled : Coupled n (ofNat ((head + l) % n) ((head + bytes.length) % n)
        (bytes.length - l) n mem) (bytes.drop l) := by
      refine coupled_ofNat (Nat.mod_lt _ (by omega)) hmem (by rw [List.length_drop]; omega)
        (by rw [List.length_drop]) ?_ hdrop
      rw [Nat.mod_add_mod, List.length_drop, Nat.add_assoc, Nat.add_sub_cancel' hl]
    dsimp only [ofNat] at hcoupled ⊢
    rwa [hhead, hleft, natCast_tmod]
  · dsimp only [ofNat]
    rw [hhead, natCast_tmod, Int.toNat_natCast]

theorem NodesHold.int32_num (h : NodesHold m c lens) (hmax : m < 2147483648) :
    int32 (c.iNodeNum + 1) = ((lens.length + 1 : ℕ) : ℤ) := by
  have hroom := h.room
  rw [h.num]
  exact int32_natCast_add (b := 1) (by omega)

/-- An enqueue that accepts no block. -/
theorem bufferNodeEnCirQueue_none (h : NodesHold m c lens) (hmax : m < 2147483648)
    {pBuffer : List UInt8} (hnone : pBuffer.length = 0 ∨ ¬ lens.length + 1 < m) :
    bufferNodeEnCirQueue pBuffer pBuffer.length c = some (c, 0) := by
  rw [bufferNodeEnCirQueue, h.int32_num hmax, h.max]
  rcases hnone with hzero | hfull
  · rw [hzero, if_pos (by rfl)]
  · have hge : ((lens.length + 1 : ℕ) : ℤ) ≥ m := by omega
    rw [if_pos hge, ite_self]

/-- What the guard of an enqueue says of the bytes it accepts. -/
theorem NodeCoupled.fitting_lt (h : NodeCoupled n m c q lens) {pBuffer : IntBlock}
    (hguard : Harmless c (.bufferNodeEnCirQueue pBuffer)) (hroom : lens.length + 1 < m) :
    (fitting n q.flatten pBuffer.bytes).length < 65536 ∧
      (c.iHead.toNat + q.flatten.length) % n + (fitting n q.flatten pBuffer.bytes).length <
        2147483648 := by
  have hnum := h.nodes.num
  have hmax := h.nodes.max
  have hfull := h.bytes.room
  obtain ⟨hcount, hsum⟩ := hguard (by omega)
  rw [h.bytes.capacity, h.bytes.lenth] at hcount hsum
  have htail : c.iTail = (((c.iHead.toNat + q.flatten.length) % n : ℕ) : ℤ) := by
    rw [h.bytes.tail]
    push_cast
    rw [Int.toNat_of_nonneg h.bytes.head_nonneg]
  rw [htail] at hsum
  rw [fitting_length]
  omega

theorem flatten_append_block (q : List (List UInt8)) (block : List UInt8) :
    (if block.length = 0 then q else q ++ [block]).flatten = q.flatten ++ block := by
  split_ifs with hempty
  · rw [List.length_eq_zero_iff.mp hempty, List.append_nil]
  · rw [List.flatten_append, List.flatten_singleton]

theorem filter_append_block (h : lens.filter (· ≠ 0) = q.map List.length) (block : List UInt8) :
    (lens ++ [block.length]).filter (· ≠ 0) =
      (if block.length = 0 then q else q ++ [block]).map List.length := by
  rw [List.filter_append, h]
  split_ifs with hempty
  · rw [List.filter_cons_of_neg (by simpa using hempty), List.filter_nil, List.append_nil]
  · rw [List.filter_cons_of_pos (by simpa using hempty), List.filter_nil, List.map_append,
      List.map_singleton]

theorem nodeEn_refines (h : NodeCoupled n m c q lens) (hn : n < 2147483648)
    (hmax : m < 2147483648) (pBuffer : IntBlock)
    (hguard : Harmless c (.bufferNodeEnCirQueue pBuffer)) :
    ∃ c' reply q' lens', nodeStep c (.bufferNodeEnCirQueue pBuffer) = some (c', reply) ∧
      KeepsBlocks q (.bufferNodeEnCirQueue pBuffer) reply q' ∧ NodeCoupled n m c' q' lens' := by
  by_cases hnone : pBuffer.bytes.length = 0 ∨ ¬ lens.length + 1 < m
  · refine ⟨c, .lens 0, q, lens, ?_, ⟨0, Nat.zero_le _, rfl, rfl⟩, h⟩
    rw [nodeStep, bufferNodeEnCirQueue_none h.nodes hmax hnone, Option.map_some]
  · obtain ⟨hlength, hfew⟩ := not_or.mp hnone
    have hroom := not_not.mp hfew
    obtain ⟨hcount, hsum⟩ := h.fitting_lt hguard hroom
    obtain ⟨head, hh, hc, hcontent⟩ := h.bytes.exists_ofNat
    have hhead : c.iHead = head := congrArg CirQueue.iHead hc
    rw [hhead, Int.toNat_natCast] at hsum
    obtain ⟨cq, hrun, hcq⟩ :=
      bufferEn_refines pBuffer hn hh h.bytes.allocated h.bytes.room hcontent hsum
    rw [← hc] at hrun
    have hsame := bufferEnCirQueue_iHead hrun
    generalize hacc : fitting n q.flatten pBuffer.bytes = accepted at *
    obtain ⟨pNode, hstore, hnodes⟩ := h.nodes.append hmax hroom accepted.length cq
    refine ⟨_, .lens accepted.length, if accepted.length = 0 then q else q ++ [accepted],
      lens ++ [accepted.length], ?_, ⟨accepted.length, ?_, rfl, ?_⟩, ?_, hnodes, ?_, ?_, ?_⟩
    · have hnonzero : ¬ (pBuffer.bytes.length : ℤ) = 0 := by omega
      have hlt : ¬ ((lens.length + 1 : ℕ) : ℤ) ≥ m := by omega
      rw [nodeStep, bufferNodeEnCirQueue, if_neg hnonzero, h.nodes.int32_num hmax, h.nodes.max,
        if_neg hlt, hrun, Option.bind_some]
      dsimp only
      rw [uint16_natCast hcount, hstore]
      rfl
    · rw [← hacc, fitting_length]
      exact Nat.min_le_left _ _
    · rw [← hacc, take_fitting_length]
    · rw [flatten_append_block]
      exact hcq
    · exact filter_append_block h.lengths accepted
    · intro block hblock
      split_ifs at hblock with hempty
      · exact h.nonempty block hblock
      · rcases List.mem_append.mp hblock with hold | hnew
        · exact h.nonempty block hold
        · rw [List.mem_singleton.mp hnew]
          exact fun hnil => hempty (List.length_eq_zero_iff.mpr hnil)
    · dsimp only
      rw [hsame, hhead, Int.toNat_natCast, counted_append (by omega) hh, h.sum_lens]
      have hcounted := h.counted
      rw [hhead, Int.toNat_natCast] at hcounted
      exact ⟨hcounted, hsum⟩

theorem nodeDe_refines (h : NodeCoupled n m c q lens) (hn : n < 2147483648)
    (hmax : m < 2147483648) :
    ∃ c' reply q' lens', nodeStep c .bufferNodeDeCirQueue = some (c', reply) ∧
      KeepsBlocks q .bufferNodeDeCirQueue reply q' ∧ NodeCoupled n m c' q' lens' := by
  by_cases hempty : c.iQueueLenth = 0
  · refine ⟨c, .buffer 0 [], q, lens, ?_, .inl ⟨rfl, rfl⟩, h⟩
    rw [nodeStep, bufferNodeDeCirQueue, isCirQueueEmpty, if_pos hempty]
    rfl
  · cases lens with
    | nil =>
      have hsum := h.sum_lens
      rw [List.sum_nil] at hsum
      exact absurd (by rw [h.bytes.lenth, ← hsum]; rfl) hempty
    | cons l lens =>
      have hnum := h.nodes.num
      have hsum := h.sum_lens
      rw [List.sum_cons] at hsum
      obtain ⟨hcopy, hcoupled, hhead⟩ :=
        copyFromHead_coupled h.bytes hn (by omega) h.counted.1
      obtain ⟨hload, pNode, hstore, hnodes⟩ := h.nodes.drop hmax { c.toCirQueue with
        iHead := Int.tmod (int32 (c.iHead + l)) c.iQueueCapacity
        iQueueLenth := int32 (c.iQueueLenth - l) }
      have hstep : nodeStep c .bufferNodeDeCirQueue = some ({ c with
          iHead := Int.tmod (int32 (c.iHead + l)) c.iQueueCapacity
          iQueueLenth := int32 (c.iQueueLenth - l)
          iNodeHead := Int.tmod (int32 (c.iNodeHead + 1)) c.iMaxNodeNum
          iNodeNum := int32 (c.iNodeNum - 1)
          pNode := pNode }, .buffer l (q.flatten.take l)) := by
        have hpending : ¬ 0 = c.iNodeNum := by
          rw [hnum, List.length_cons]
          omega
        rw [nodeStep, bufferNodeDeCirQueue, isCirQueueEmpty, if_neg hempty, if_neg hpending, hload]
        dsimp only [Option.bind_some]
        rw [hcopy]
        dsimp only [Option.bind_some]
        rw [hstore]
        rfl
      have hcounted : Counted n (Int.tmod (int32 (c.iHead + l)) c.iQueueCapacity).toNat lens := by
        rw [hhead, Int.toNat_natCast]
        exact h.counted.2
      rcases first_node h.lengths with ⟨rfl, hrest⟩ | ⟨block, rest, rfl, rfl, hrest⟩
      · rw [List.take_zero] at hstep
        rw [List.drop_zero] at hcoupled
        exact ⟨_, _, q, lens, hstep, .inl ⟨rfl, rfl⟩, hcoupled, hnodes, hrest, h.nonempty, hcounted⟩
      · rw [List.flatten_cons, List.take_left] at hstep
        rw [List.flatten_cons, List.drop_left] at hcoupled
        exact ⟨_, _, rest, lens, hstep, .inr ⟨block, rfl, rfl⟩, hcoupled, hnodes, hrest,
          fun b hb => h.nonempty b (List.mem_cons_of_mem _ hb), hcounted⟩

theorem nodeClear_refines (h : NodeCoupled n m c q lens) (hpos : 0 < n)
    (hempty : c.iQueueLenth = 0) : NodeCoupled n m c.vCirQueueGenericClear [] lens := by
  have hflatten : q.flatten.length = 0 := by
    have hlenth := h.bytes.lenth
    omega
  have hq : q = [] := by
    refine List.eq_nil_iff_forall_not_mem.mpr fun block hblock => h.nonempty block hblock ?_
    exact List.flatten_eq_nil_iff.mp (List.length_eq_zero_iff.mp hflatten) block hblock
  subst hq
  exact ⟨clear_coupled h.bytes hpos, ⟨h.nodes.room, h.nodes.head_nonneg, h.nodes.head_lt,
    h.nodes.tail, h.nodes.num, h.nodes.max, h.nodes.allocated, h.nodes.content⟩, h.lengths,
    h.nonempty, counted_zero hpos h.sum_lens⟩

/-- One operation, by cases. -/
theorem nodeStep_refines (hpos : 0 < n) (hn : n < 2147483648) (hmax : m < 2147483648) :
    StepRefines nodeStep KeepsBlocks (fun c q => ∃ lens, NodeCoupled n m c q lens) Harmless := by
  rintro c q op ⟨lens, h⟩ hguard
  cases op with
  | bufferNodeEnCirQueue pBuffer =>
    obtain ⟨c', reply, q', lens', hstep, hkeeps, hc'⟩ := nodeEn_refines h hn hmax pBuffer hguard
    exact ⟨c', reply, q', hstep, hkeeps, lens', hc'⟩
  | bufferNodeDeCirQueue =>
    obtain ⟨c', reply, q', lens', hstep, hkeeps, hc'⟩ := nodeDe_refines h hn hmax
    exact ⟨c', reply, q', hstep, hkeeps, lens', hc'⟩
  | vCirQueueGenericClear =>
    exact ⟨_, .unit, [], rfl, ⟨rfl, rfl⟩, lens, nodeClear_refines h hpos hguard⟩

end Coupling

section Runs

variable {n m : ℕ}

/-- The queue that the buffers of the caller become. -/
theorem create_coupled (hmin : minQueueSize ≤ n) (hm : 2 ≤ m)
    (pQBuffer : QueueBuffer n) (pNodeBuffer : NodeBuffer m) :
    ∃ c, eCirQueueGenericStaticCreate n m pQBuffer.val pNodeBuffer.val = some c ∧
      NodeCoupled n m c [] [] := by
  have hsize : ¬ (n : ℤ) < minQueueSize := by omega
  have hpos : 0 < n := lt_of_lt_of_le (by decide) hmin
  have hmpos : (0 : ℤ) < m := by omega
  have hallocated := pNodeBuffer.property
  have hstore : storeAt pNodeBuffer.val 0 0 = some (blit pNodeBuffer.val 0 [0]) :=
    storeAt_natCast (i := 0) 0 (by omega)
  rw [eCirQueueGenericStaticCreate, if_neg hsize, hstore]
  refine ⟨_, rfl, ?_, ?_, rfl, fun _ hblock => absurd hblock List.not_mem_nil, trivial⟩
  · exact coupled_ofNat hpos pQBuffer.property (Nat.zero_le _) rfl (by simp) (holds_nil _ _ _)
  · refine ⟨by rw [List.length_nil]; omega, le_rfl, hmpos, ?_, rfl, rfl, ?_, holds_nil _ _ _⟩
    · simp
    · rw [blit_length _ _ _ (by simp; omega), hallocated]

/-- Over every run of harmless operations the node queue keeps the boundaries of the blocks. -/
theorem keepsBoundaries_of_harmless (hmin : minQueueSize ≤ n) (hn : n < 2147483648) (hm : 2 ≤ m)
    (hmax : m < 2147483648) (pQBuffer : QueueBuffer n) (pNodeBuffer : NodeBuffer m) :
    ∃ c, eCirQueueGenericStaticCreate n m pQBuffer.val pNodeBuffer.val = some c ∧
      ∀ ops, Guarded nodeStep Harmless c ops → KeepsBoundaries n m c ops := by
  have hpos : 0 < n := lt_of_lt_of_le (by decide) hmin
  obtain ⟨c, hcreate, hcoupled⟩ := create_coupled hmin hm pQBuffer pNodeBuffer
  refine ⟨c, hcreate, fun ops hguarded => ?_⟩
  obtain ⟨c', replies, q, hrun, hallowed, lens, hc'⟩ :=
    (nodeStep_refines hpos hn hmax).run ⟨[], hcoupled⟩ hguarded
  exact ⟨c', replies, q, hrun, hallowed, hc'.inStep⟩

/-- A block that goes in and comes out. -/
theorem keepsBoundaries_of_harmless_block :
    ∃ c, eCirQueueGenericStaticCreate 10 2 (List.replicate 10 0) [0, 0] = some c ∧
      KeepsBoundaries 10 2 c
        [.bufferNodeEnCirQueue ⟨[1, 2, 3], by decide⟩, .bufferNodeDeCirQueue] := by
  obtain ⟨c, hcreate, hkeeps⟩ := keepsBoundaries_of_harmless (n := 10) (m := 2) (by decide)
    (by decide) (by decide) (by decide) ⟨List.replicate 10 0, rfl⟩ ⟨[0, 0], rfl⟩
  refine ⟨c, hcreate, hkeeps _ ?_⟩
  cases hcreate
  decide

/-- A clear that finds a block leaves its node. -/
theorem not_keepsBoundaries_cleared :
    ¬ ∀ (n m : ℕ) (pQBuffer : QueueBuffer n) (pNodeBuffer : NodeBuffer m),
      minQueueSize ≤ n → n < 2147483648 → 2 ≤ m → m < 2147483648 →
        ∃ c, eCirQueueGenericStaticCreate n m pQBuffer.val pNodeBuffer.val = some c ∧
          ∀ ops, KeepsBoundaries n m c ops := by
  intro h
  obtain ⟨c, hcreate, hkeeps⟩ := h 10 2 ⟨List.replicate 10 0, rfl⟩ ⟨[0, 0], rfl⟩ (by decide)
    (by decide) (by decide) (by decide)
  cases hcreate
  obtain ⟨c', replies, q, hrun, -, hstep⟩ :=
    hkeeps [.bufferNodeEnCirQueue ⟨[1, 2, 3], by decide⟩, .vCirQueueGenericClear]
  have hlost : (3 : ℤ) = 0 := by
    cases hrun
    exact hstep.sum
  exact absurd hlost (by decide)

end Runs

end VehicleTerminal.Queue
