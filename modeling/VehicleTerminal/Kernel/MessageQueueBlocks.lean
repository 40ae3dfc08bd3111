import VehicleTerminal.Kernel.MessageQueue
import VehicleTerminal.Library.Chain
import VehicleTerminal.Library.Ownership

/-! The blocks of a message queue. Each is linked to the queue, linked to the free list, or held by
one thread, and every critical section moves one block. -/
namespace VehicleTerminal.Kernel.MessageQueue
open LinkedChain Ownership

section Blocks

variable {T : Type*} {mq : RtMessagequeue} {holds : T → Option ℕ} {queue free rest : List ℕ}
  {thread : T} {msg : ℕ}

/-- The queue and the free list are these, and the threads hold the other blocks. -/
structure Laid (mq : RtMessagequeue) (holds : T → Option ℕ) (queue free : List ℕ) : Prop where
  queueChain : Chain mq.next mq.msgQueueHead queue
  tail : mq.msgQueueTail = queue.getLast?
  freeChain : Chain mq.next mq.msgQueueFree free
  owned : Owned mq.maxMsgs holds (queue ++ free)

theorem initFree_chain (maxMsgs : ℕ) :
    Chain (initFree maxMsgs).1 (initFree maxMsgs).2 (List.range maxMsgs).reverse := by
  induction maxMsgs with
  | zero => rfl
  | succ temp ih =>
    rw [List.range_succ, List.reverse_append, List.reverse_singleton]
    exact ih.push (by simp)

theorem rtMqInit_laid (msgSize maxMsgs : ℕ) (pool : ℕ → ℕ → UInt8) :
    Laid (rtMqInit (T := T) msgSize maxMsgs pool).mq (fun _ : T => none) []
      (List.range maxMsgs).reverse :=
  ⟨chain_none, rfl, initFree_chain maxMsgs, owned_range maxMsgs⟩

theorem Laid.not_mem_queue (h : Laid mq holds queue free) (hheld : holds thread = some msg) :
    msg ∉ queue := fun hin => h.owned.held thread msg hheld (List.mem_append_left _ hin)

theorem Laid.not_mem_free (h : Laid mq holds queue free) (hheld : holds thread = some msg) :
    msg ∉ free := fun hin => h.owned.held thread msg hheld (List.mem_append_right _ hin)

/-- A thread may write the header of its own block. -/
theorem Laid.setNext (h : Laid mq holds queue free) (hheld : holds thread = some msg)
    (link : Option ℕ) : Laid (mq.setNext msg link) holds queue free where
  queueChain := h.queueChain.update (h.not_mem_queue hheld) link
  tail := h.tail
  freeChain := h.freeChain.update (h.not_mem_free hheld) link
  owned := h.owned

theorem Laid.fill (h : Laid mq holds queue free) (msg : ℕ) (buffer : List UInt8) :
    Laid (mq.fill msg buffer) holds queue free :=
  ⟨h.queueChain, h.tail, h.freeChain, h.owned⟩

/-- The first block leaves the queue. -/
theorem Laid.unlink_queue (h : Laid mq holds (msg :: rest) free) :
    ∃ mq', mq.unlink = some (mq', msg) ∧ mq' = { mq with
        msgQueueHead := mq.next msg
        msgQueueTail := if mq.msgQueueTail = some msg then none else mq.msgQueueTail } ∧
      Chain mq'.next mq'.msgQueueHead rest ∧ mq'.msgQueueTail = rest.getLast? := by
  have hhead : mq.msgQueueHead = some msg := h.queueChain.1
  refine ⟨_, by rw [RtMessagequeue.unlink, hhead, Option.map_some], rfl, h.queueChain.2, ?_⟩
  have htail := h.tail
  have hout := (List.nodup_cons.mp h.owned.nodup).1
  cases rest with
  | nil =>
    rw [show [msg].getLast? = some msg from rfl] at htail
    rw [htail, if_pos rfl]
    rfl
  | cons second rest =>
    rw [List.getLast?_cons_cons] at htail
    have hne : mq.msgQueueTail ≠ some msg := by
      intro heq
      rw [htail] at heq
      exact hout (List.mem_append_left _ (List.mem_of_getLast? heq))
    rw [if_neg hne]
    exact htail

variable [DecidableEq T]

/-- A thread gets the first free block. -/
theorem Laid.allocate (h : Laid mq holds queue free) (hfree : mq.msgQueueFree = some msg)
    (hthread : holds thread = none) :
    ∃ rest, free = msg :: rest ∧ Laid { mq with msgQueueFree := mq.next msg }
      (Function.update holds thread (some msg)) queue rest := by
  have hchain := h.freeChain
  rw [hfree] at hchain
  obtain ⟨rest, rfl, hrest⟩ := hchain.uncons
  refine ⟨rest, rfl, h.queueChain, h.tail, hrest, ?_⟩
  exact (h.owned.perm List.perm_middle).claim hthread

theorem Laid.linkBack (h : Laid mq holds queue free) (hheld : holds thread = some msg)
    (hnone : mq.next msg = none) :
    Laid (mq.linkBack msg) (Function.update holds thread none) (queue ++ [msg]) free := by
  have hout := h.not_mem_queue hheld
  have hqueue : queue.Nodup := (List.nodup_append.mp h.owned.nodup).1
  have hlast : (queue ++ [msg]).getLast? = some msg := List.getLast?_concat
  have howned : Owned mq.maxMsgs (Function.update holds thread none) (queue ++ [msg] ++ free) := by
    refine (h.owned.give hheld).perm ?_
    rw [List.append_assoc]
    exact List.perm_middle.symm
  cases htail : mq.msgQueueTail with
  | none =>
    have hempty : queue = [] := List.getLast?_eq_none_iff.mp (h.tail.symm.trans htail)
    have hhead : mq.msgQueueHead = none := by rw [h.queueChain.head_eq, hempty]; rfl
    simp only [RtMessagequeue.linkBack, htail, hhead, if_true]
    refine ⟨?_, hlast.symm, h.freeChain, howned⟩
    rw [hempty]
    exact ⟨rfl, hnone⟩
  | some tail =>
    have hend : queue.getLast? = some tail := h.tail.symm.trans htail
    have hin : tail ∈ queue := List.mem_of_getLast? hend
    have hhead : mq.msgQueueHead ≠ none := by
      rw [h.queueChain.head_eq]
      intro hnil
      rw [List.head?_eq_none_iff.mp hnil] at hin
      cases hin
    have hfree : tail ∉ free := fun hmem =>
      (List.nodup_append.mp h.owned.nodup).2.2 tail hin tail hmem rfl
    simp only [RtMessagequeue.linkBack, htail, RtMessagequeue.setNext, if_neg hhead]
    exact ⟨h.queueChain.append hqueue hend hout hnone, hlast.symm, h.freeChain.update hfree _,
      howned⟩

theorem Laid.linkFront (h : Laid mq holds queue free) (hheld : holds thread = some msg) :
    Laid (mq.linkFront msg) (Function.update holds thread none) (msg :: queue) free where
  queueChain := h.queueChain.push (h.not_mem_queue hheld)
  tail := by
    have htail := h.tail
    cases queue with
    | nil =>
      rw [List.getLast?_nil] at htail
      simp [RtMessagequeue.linkFront, RtMessagequeue.setNext, htail]
    | cons first queue =>
      rw [List.getLast?_cons_cons, ← htail]
      have hne : mq.msgQueueTail ≠ none := by simp [htail]
      simp only [RtMessagequeue.linkFront, RtMessagequeue.setNext, if_neg hne]
  freeChain := h.freeChain.update (h.not_mem_free hheld) _
  owned := h.owned.give hheld

/-- A thread gets the first message. -/
theorem Laid.unlink (h : Laid mq holds (msg :: rest) free) (hthread : holds thread = none) :
    ∃ mq', mq.unlink = some (mq', msg) ∧ mq'.content = mq.content ∧ mq'.entry = mq.entry ∧
      mq'.msgSize = mq.msgSize ∧ mq'.maxMsgs = mq.maxMsgs ∧
      Laid mq' (Function.update holds thread (some msg)) rest free := by
  obtain ⟨mq', hunlink, rfl, hchain, htail⟩ := h.unlink_queue
  exact ⟨_, hunlink, rfl, rfl, rfl, rfl, hchain, htail, h.freeChain, h.owned.claim hthread⟩

theorem Laid.release (h : Laid mq holds queue free) (hheld : holds thread = some msg) :
    Laid (mq.release msg) (Function.update holds thread none) queue (msg :: free) where
  queueChain := h.queueChain.update (h.not_mem_queue hheld) _
  tail := h.tail
  freeChain := h.freeChain.push (h.not_mem_free hheld)
  owned := (h.owned.give hheld).perm List.perm_middle.symm

omit [DecidableEq T] in
/-- A reset moves all messages to the free list. -/
theorem Laid.releaseAll (h : Laid mq holds queue free) {fuel : ℕ} (hfuel : queue.length ≤ fuel) :
    ∃ mq', mq.releaseAll fuel = some mq' ∧ mq'.content = mq.content ∧
      mq'.msgSize = mq.msgSize ∧ mq'.maxMsgs = mq.maxMsgs ∧
      Laid mq' holds [] (queue.reverse ++ free) ∧
      ∀ other, other ∉ queue ++ free → mq'.next other = mq.next other := by
  induction queue generalizing mq free fuel with
  | nil =>
    have hhead : mq.msgQueueHead = none := h.queueChain
    refine ⟨mq, ?_, rfl, rfl, rfl, h, fun _ _ => rfl⟩
    cases fuel with
    | zero => rw [RtMessagequeue.releaseAll, if_pos hhead]
    | succ fuel =>
      simp only [RtMessagequeue.releaseAll, RtMessagequeue.unlink, hhead, Option.map_none]
  | cons msg rest ih =>
    obtain ⟨mq', hunlink, rfl, hchain, htail⟩ := h.unlink_queue
    have hnodup : (msg :: (rest ++ free)).Nodup := h.owned.nodup
    have hout := (List.nodup_cons.mp hnodup).1
    rw [List.mem_append, not_or] at hout
    have hnext : Laid (RtMessagequeue.release { mq with
        msgQueueHead := mq.next msg
        msgQueueTail := if mq.msgQueueTail = some msg then none else mq.msgQueueTail } msg)
        holds rest (msg :: free) := by
      refine ⟨hchain.update hout.1 _, htail, h.freeChain.push hout.2, ?_⟩
      exact h.owned.perm List.perm_middle.symm
    cases fuel with
    | zero => simp at hfuel
    | succ fuel =>
      obtain ⟨mq', hrun, hcontent, hsize, hmax, hlaid, hlinks⟩ :=
        ih hnext (Nat.le_of_succ_le_succ hfuel)
      refine ⟨mq', ?_, hcontent, hsize, hmax, ?_, fun other hother => ?_⟩
      · simp only [RtMessagequeue.releaseAll, hunlink]
        exact hrun
      · rw [List.reverse_cons, List.append_assoc]
        exact hlaid
      · rw [List.cons_append, List.mem_cons, not_or] at hother
        refine (hlinks other ?_).trans (Function.update_of_ne hother.1 _ _)
        rw [List.perm_middle.mem_iff, List.mem_cons, not_or]
        exact hother

end Blocks

end VehicleTerminal.Kernel.MessageQueue
