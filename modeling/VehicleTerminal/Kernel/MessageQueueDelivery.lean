import VehicleTerminal.Kernel.MessageQueueBlocks

/-! Over every interleaving a message queue delivers what was sent: no message is lost, torn or
delivered twice, an urgent one goes in front of the others, and no block and no wakeup is lost. -/
namespace VehicleTerminal.Kernel.MessageQueue
open LinkedChain Ownership PartialRun

section Coupling

variable {T : Type*} {s : System T} {m : Ledger T} {thread : T}

/-- The block of a call. -/
def Busy.msg : Busy → ℕ
  | .filling msg _ _ => msg
  | .linking msg _ _ => msg
  | .copying msg _ => msg
  | .freeing msg _ => msg

/-- The blocks that the threads hold. -/
def System.holds (s : System T) (thread : T) : Option ℕ := (s.busy thread).map Busy.msg

theorem System.holds_of_busy {b : Busy} (h : s.busy thread = some b) :
    s.holds thread = some b.msg := by
  rw [System.holds, h, Option.map_some]

/-- A thread that goes on with the block that it has. -/
theorem System.holds_update [DecidableEq T] {b b' : Busy} (h : s.busy thread = some b)
    (hmsg : b'.msg = b.msg) :
    Function.update s.holds thread ((some b').map Busy.msg) = s.holds := by
  rw [Option.map_some, hmsg, ← System.holds_of_busy h, Function.update_eq_self]

/-- The call of a thread and what the ledger has of it. -/
def Agrees (mq : RtMessagequeue) (call : Option Receiving) (doing : Option Doing) :
    Option Busy → Prop
  | none => doing = call.map fun wanted => .waiting wanted.size
  | some (.filling _ buffer urgent) =>
    doing = some (.sending buffer urgent false) ∧ buffer.length ≤ mq.msgSize
  | some (.linking msg buffer urgent) =>
    doing = some (.sending buffer urgent true) ∧ buffer <+: mq.content msg ∧
      (urgent = false → mq.next msg = none)
  | some (.copying msg size) =>
    ∃ message, doing = some (.taking message size false) ∧ message <+: mq.content msg
  | some (.freeing _ data) =>
    ∃ message size, doing = some (.taking message size true) ∧
      Delivers mq.msgSize message size data

/-- The messages in the blocks of the queue. -/
def Queues (mq : RtMessagequeue) (queue : List ℕ) (messages : List (List UInt8)) : Prop :=
  List.Forall₂ (fun msg message => message <+: mq.content msg) queue messages

/-- What holds when the woken receivers cover the messages, less `slack`. -/
structure CoupledBy (slack msgSize maxMsgs : ℕ) (s : System T) (m : Ledger T) : Prop where
  laid : ∃ queue free, Laid s.mq s.holds queue free ∧ s.mq.entry = queue.length ∧
    Queues s.mq queue m.queue
  size : s.mq.msgSize = msgSize
  max : s.mq.maxMsgs = maxMsgs
  lengths : ∀ msg < maxMsgs, (s.mq.content msg).length = msgSize
  agrees : ∀ t, Agrees s.mq (s.threads.call t) (m.doing t) (s.busy t)
  sound : s.threads.Sound
  apart : ∀ t, s.busy t ≠ none → s.threads.call t = none
  covers : s.threads.Covers slack s.mq.entry

/-- What holds between two steps. -/
abbrev Coupled (msgSize maxMsgs : ℕ) : System T → Ledger T → Prop := CoupledBy 0 msgSize maxMsgs

variable {slack msgSize maxMsgs : ℕ} {mq' : RtMessagequeue} {queue : List ℕ}
  {messages : List (List UInt8)}

theorem Agrees.congr {call : Option Receiving} {doing : Option Doing} {busy : Option Busy}
    (h : Agrees s.mq call doing busy) (hsize : mq'.msgSize = s.mq.msgSize)
    (hsame : ∀ b, busy = some b → mq'.content b.msg = s.mq.content b.msg ∧
      (s.mq.next b.msg = none → mq'.next b.msg = none)) : Agrees mq' call doing busy := by
  cases busy with
  | none => exact h
  | some b =>
    obtain ⟨hcontent, hnext⟩ := hsame b rfl
    cases b with
    | filling msg buffer urgent => exact ⟨h.1, hsize ▸ h.2⟩
    | linking msg buffer urgent =>
      obtain ⟨hdoing, hbuffer, hlink⟩ := h
      exact ⟨hdoing, hcontent ▸ hbuffer, fun hurgent => hnext (hlink hurgent)⟩
    | copying msg size =>
      obtain ⟨message, hdoing, hmessage⟩ := h
      exact ⟨message, hdoing, hcontent ▸ hmessage⟩
    | freeing msg data =>
      obtain ⟨message, size, hdoing, hdata⟩ := h
      exact ⟨message, size, hdoing, hsize ▸ hdata⟩

theorem Queues.congr (h : Queues s.mq queue messages)
    (hsame : ∀ msg ∈ queue, mq'.content msg = s.mq.content msg) : Queues mq' queue messages := by
  rw [Queues] at h ⊢
  induction h with
  | nil => exact .nil
  | cons hprefix _ ih =>
    exact .cons (hsame _ List.mem_cons_self ▸ hprefix)
      (ih fun msg hin => hsame msg (List.mem_cons_of_mem _ hin))

theorem CoupledBy.loosen (h : Coupled msgSize maxMsgs s m) : CoupledBy slack msgSize maxMsgs s m :=
  { h with covers := h.covers.loosen }

/-- What other threads hold is another block. -/
theorem CoupledBy.msg_ne (h : CoupledBy slack msgSize maxMsgs s m) {t : T} (ht : t ≠ thread)
    {b b' : Busy} (hb : s.busy thread = some b) (hb' : s.busy t = some b') : b'.msg ≠ b.msg := by
  obtain ⟨queue, free, hlaid, -⟩ := h.laid
  intro heq
  refine ht (hlaid.owned.holders t thread b.msg ?_ (System.holds_of_busy hb))
  rw [System.holds_of_busy hb', heq]

/-- The block of a call lies in the pool. -/
theorem CoupledBy.msg_length (h : CoupledBy slack msgSize maxMsgs s m) {b : Busy}
    (hb : s.busy thread = some b) : (s.mq.content b.msg).length = msgSize := by
  obtain ⟨queue, free, hlaid, -⟩ := h.laid
  apply h.lengths
  rw [← h.max]
  exact (hlaid.owned.all b.msg).mpr (.inr ⟨thread, System.holds_of_busy hb⟩)

theorem CoupledBy.entry_eq (h : CoupledBy slack msgSize maxMsgs s m) :
    s.mq.entry = m.queue.length := by
  obtain ⟨queue, free, -, hentry, hqueues⟩ := h.laid
  exact hentry.trans hqueues.length_eq

/-- A thread is outside every call when the ledger says so. -/
theorem CoupledBy.doing_eq_none_iff (h : CoupledBy slack msgSize maxMsgs s m) :
    m.doing thread = none ↔ s.busy thread = none ∧ s.threads.call thread = none := by
  have hagrees := h.agrees thread
  cases hbusy : s.busy thread with
  | none =>
    rw [hbusy] at hagrees
    simp [show m.doing thread = _ from hagrees]
  | some b =>
    rw [hbusy] at hagrees
    cases b with
    | filling msg buffer urgent => simp [hagrees.1]
    | linking msg buffer urgent => simp [hagrees.1]
    | copying msg size =>
      obtain ⟨message, hdoing, -⟩ := hagrees
      simp [hdoing]
    | freeing msg data =>
      obtain ⟨message, size, hdoing, -⟩ := hagrees
      simp [hdoing]

/-- The threads that hold a block are those that have a message in their hands. -/
theorem CoupledBy.holds_iff (h : CoupledBy slack msgSize maxMsgs s m) :
    s.holds thread ≠ none ↔ ∃ doing, m.doing thread = some doing ∧ doing.HasMessage := by
  have hagrees := h.agrees thread
  rw [System.holds]
  cases hbusy : s.busy thread with
  | none =>
    rw [hbusy] at hagrees
    simp only [show m.doing thread = _ from hagrees, Option.map_none, ne_eq, not_true_eq_false,
      false_iff, not_exists, not_and, Option.map_eq_some_iff, forall_exists_index, and_imp]
    rintro doing wanted - rfl
    exact id
  | some b =>
    rw [hbusy] at hagrees
    cases b with
    | filling msg buffer urgent => simp [hagrees.1, Doing.HasMessage]
    | linking msg buffer urgent => simp [hagrees.1, Doing.HasMessage]
    | copying msg size =>
      obtain ⟨message, hdoing, -⟩ := hagrees
      simp [hdoing, Doing.HasMessage]
    | freeing msg data =>
      obtain ⟨message, size, hdoing, -⟩ := hagrees
      simp [hdoing, Doing.HasMessage]

/-- Nothing is free just when all blocks are in the queue or in the hands of threads. -/
theorem CoupledBy.full_iff (h : CoupledBy slack msgSize maxMsgs s m) :
    m.Full maxMsgs ↔ s.mq.msgQueueFree = none := by
  obtain ⟨queue, free, hlaid, -, hqueues⟩ := h.laid
  obtain ⟨hands, hmem, hcard⟩ := hlaid.owned.card
  rw [List.length_append, hqueues.length_eq, h.max] at hcard
  rw [hlaid.freeChain.head_eq, List.head?_eq_none_iff, ← List.length_eq_zero_iff]
  constructor
  · rintro ⟨hands', hmem', hcard'⟩
    have hsame : hands' = hands := Finset.ext fun t => by rw [hmem, hmem', h.holds_iff]
    rw [hsame] at hcard'
    omega
  · intro hempty
    exact ⟨hands, fun t => by rw [hmem, h.holds_iff], by omega⟩

variable [DecidableEq T]

/-- A step of one thread that moves or writes its own block. -/
theorem CoupledBy.move {slack' : ℕ} {doing : Option Doing} {threads : Waiting T Receiving}
    {busy : Option Busy} (h : CoupledBy slack msgSize maxMsgs s m) (thread : T)
    (hlaid : ∃ queue free,
      Laid mq' (Function.update s.holds thread (busy.map Busy.msg)) queue free ∧
        mq'.entry = queue.length ∧ Queues mq' queue messages)
    (hsize : mq'.msgSize = s.mq.msgSize) (hmax : mq'.maxMsgs = s.mq.maxMsgs)
    (hlengths : ∀ msg < maxMsgs, (mq'.content msg).length = msgSize)
    (hothers : ∀ t b, t ≠ thread → s.busy t = some b →
      mq'.content b.msg = s.mq.content b.msg ∧ (s.mq.next b.msg = none → mq'.next b.msg = none))
    (hagrees : Agrees mq' none doing busy) (hsound : threads.Sound)
    (hcalls : threads.call = s.threads.call) (hcall : s.threads.call thread = none)
    (hcovers : threads.Covers slack' mq'.entry) :
    CoupledBy slack' msgSize maxMsgs ⟨mq', threads, Function.update s.busy thread busy⟩
      ⟨messages, Function.update m.doing thread doing⟩ where
  laid := by
    obtain ⟨queue, free, hblocks, hentry, hqueues⟩ := hlaid
    have hholds : System.holds ⟨mq', threads, Function.update s.busy thread busy⟩ =
        Function.update s.holds thread (busy.map Busy.msg) := by
      funext t
      simp only [System.holds, Function.update_apply]
      split_ifs <;> rfl
    exact ⟨queue, free, hholds ▸ hblocks, hentry, hqueues⟩
  size := hsize.trans h.size
  max := hmax.trans h.max
  lengths := hlengths
  agrees t := by
    by_cases ht : t = thread
    · subst ht
      simpa only [Function.update_self, hcalls, hcall] using hagrees
    · simp only [Function.update_of_ne ht, hcalls]
      exact (h.agrees t).congr hsize fun b hb => hothers t b ht hb
  sound := hsound
  apart t hbusy := by
    rw [hcalls]
    by_cases ht : t = thread
    · exact ht ▸ hcall
    · simp only [Function.update_of_ne ht] at hbusy
      exact h.apart t hbusy
  covers := hcovers

/-- A step that changes only how a thread waits that has no block. -/
theorem CoupledBy.rethread {slack' : ℕ} {doing : Option Doing} {threads : Waiting T Receiving}
    (h : CoupledBy slack msgSize maxMsgs s m) (hbusy : s.busy thread = none)
    (hdoing : doing = (threads.call thread).map fun wanted => .waiting wanted.size)
    (hcalls : ∀ t, t ≠ thread → threads.call t = s.threads.call t) (hsound : threads.Sound)
    (hcovers : threads.Covers slack' s.mq.entry) :
    CoupledBy slack' msgSize maxMsgs { s with threads := threads } (m.set thread doing) where
  laid := h.laid
  size := h.size
  max := h.max
  lengths := h.lengths
  agrees t := by
    by_cases ht : t = thread
    · subst ht
      simpa only [Ledger.set, Function.update_self, hbusy, Agrees] using hdoing
    · simp only [Ledger.set, Function.update_of_ne ht, hcalls t ht]
      exact h.agrees t
  sound := hsound
  apart t ht := by
    have hne : t ≠ thread := by
      rintro rfl
      exact ht hbusy
    exact (hcalls t hne).trans (h.apart t ht)
  covers := hcovers

end Coupling

section Sending

variable {T : Type*} {slack msgSize maxMsgs : ℕ} {s : System T} {m : Ledger T} {thread : T}
  {buffer : List UInt8} {urgent : Bool} {msg : ℕ}

/-- A thread outside every call. -/
structure Free (s : System T) (thread : T) : Prop where
  busy : s.busy thread = none
  call : s.threads.call thread = none

theorem Free.holds_none (hfree : Free s thread) : s.holds thread = none := by
  rw [System.holds, hfree.busy, Option.map_none]

theorem CoupledBy.doing_none (h : CoupledBy slack msgSize maxMsgs s m) (hfree : Free s thread) :
    m.doing thread = none := h.doing_eq_none_iff.mpr ⟨hfree.busy, hfree.call⟩

variable [DecidableEq T]

theorem Ledger.set_of_eq {doing : Option Doing} (h : m.doing thread = doing) :
    m.set thread doing = m := by
  rw [Ledger.set, ← h, Function.update_eq_self]

theorem Ledger.set_set (m : Ledger T) (thread : T) (doing doing' : Option Doing) :
    (m.set thread doing).set thread doing' = m.set thread doing' := by
  simp only [Ledger.set, Function.update_idem]

theorem rtMqSend_served (h : Coupled msgSize maxMsgs s m) (hfree : Free s thread)
    (buffer : List UInt8) (urgent : Bool) :
    ∃ m', Served msgSize maxMsgs m (.send thread buffer urgent)
        (rtMqSend s thread buffer urgent).2 m' ∧
      Coupled msgSize maxMsgs (rtMqSend s thread buffer urgent).1 m' := by
  have hdoing := h.doing_none hfree
  have hsame (err : Err) : m = m.next (.returned thread err) := (Ledger.set_of_eq hdoing).symm
  simp only [Served, Ledger.Answers, hdoing, ne_eq, not_true_eq_false, if_false]
  by_cases hlong : s.mq.msgSize < buffer.length
  · rw [rtMqSend, if_pos hlong, if_pos (h.size ▸ hlong)]
    exact ⟨m, ⟨rfl, hsame .error⟩, h⟩
  · rw [rtMqSend, if_neg hlong, if_neg (h.size ▸ hlong)]
    cases hblock : s.mq.msgQueueFree with
    | none => exact ⟨m, ⟨.inl ⟨h.full_iff.mpr hblock, rfl⟩, hsame .efull⟩, h⟩
    | some msg =>
      have hroom : ¬ m.Full maxMsgs := by simp [h.full_iff, hblock]
      obtain ⟨queue, free, hlaid, hentry, hqueues⟩ := h.laid
      obtain ⟨rest, rfl, hlaid'⟩ := hlaid.allocate hblock hfree.holds_none
      refine ⟨_, ⟨.inr ⟨hroom, rfl⟩, rfl⟩, ?_⟩
      exact h.move thread ⟨queue, rest, hlaid', hentry, hqueues⟩ rfl rfl h.lengths
        (fun t b ht hb => ⟨rfl, id⟩) ⟨rfl, Nat.le_of_not_lt hlong⟩ h.sound rfl hfree.call h.covers

/-- The copying into a block, and for a message that goes to the end its cleared header. -/
theorem filling_coupled (h : Coupled msgSize maxMsgs s m)
    (hbusy : s.busy thread = some (.filling msg buffer urgent)) :
    m.doing thread = some (.sending buffer urgent false) ∧
      Coupled msgSize maxMsgs (busyStep s thread (.filling msg buffer urgent)).1
        (m.next (.copied thread)) := by
  have hagrees := h.agrees thread
  rw [hbusy] at hagrees
  obtain ⟨hdoing, hlength⟩ := hagrees
  obtain ⟨queue, free, hlaid, hentry, hqueues⟩ := h.laid
  have hheld : s.holds thread = some msg := System.holds_of_busy hbusy
  have hsame : Function.update s.holds thread
      ((some (Busy.linking msg buffer urgent)).map Busy.msg) = s.holds :=
    System.holds_update hbusy rfl
  have hfilled : (s.mq.content msg).length = msgSize := h.msg_length hbusy
  have hcontent (mq : RtMessagequeue) {other : ℕ} (hne : other ≠ msg) :
      (mq.fill msg buffer).content other = mq.content other := Function.update_of_ne hne _ _
  have hnext : m.next (.copied thread) =
      ⟨m.queue, Function.update m.doing thread (some (.sending buffer urgent true))⟩ := by
    simp only [Ledger.next, hdoing, Option.map_some, Doing.copied, Ledger.set]
  refine ⟨hdoing, ?_⟩
  rw [hnext]
  -- the header is written in one of the two cases only
  have hmove (mq : RtMessagequeue) (hmq : mq.content = s.mq.content ∧ mq.entry = s.mq.entry ∧
      mq.msgSize = s.mq.msgSize ∧ mq.maxMsgs = s.mq.maxMsgs)
      (hnext : ∀ other, other ≠ msg → mq.next other = s.mq.next other)
      (hlink : urgent = false → mq.next msg = none) (hblocks : Laid mq s.holds queue free) :
      Coupled msgSize maxMsgs ⟨mq.fill msg buffer, s.threads,
        Function.update s.busy thread (some (.linking msg buffer urgent))⟩
        ⟨m.queue, Function.update m.doing thread (some (.sending buffer urgent true))⟩ := by
    obtain ⟨hc, he, hs, hm⟩ := hmq
    refine h.move thread
      ⟨queue, free, hsame.symm ▸ hblocks.fill msg buffer, he.trans hentry, ?_⟩ hs hm
      (fun other hother => ?_) (fun t b ht hb => ?_) ⟨rfl, ?_, hlink⟩ h.sound rfl
      (h.apart thread (by simp [hbusy])) (he.symm ▸ h.covers)
    · refine hqueues.congr fun other hin => ?_
      have hne : other ≠ msg := by
        rintro rfl
        exact hlaid.not_mem_queue hheld hin
      rw [hcontent mq hne, hc]
    · by_cases hne : other = msg
      · subst hne
        have hnew : (mq.fill other buffer).content other =
            buffer ++ (s.mq.content other).drop buffer.length := by
          simp only [RtMessagequeue.fill, Function.update_self, hc]
        have hsize := h.size
        rw [hnew, List.length_append, List.length_drop]
        omega
      · rw [hcontent mq hne, hc]
        exact h.lengths other hother
    · have hne : b.msg ≠ msg := h.msg_ne ht hbusy hb
      rw [hcontent mq hne, hc]
      exact ⟨rfl, fun hnone => (hnext _ hne).trans hnone⟩
    · simp only [RtMessagequeue.fill, Function.update_self]
      exact List.prefix_append _ _
  cases urgent with
  | false =>
    exact hmove (s.mq.setNext msg none) ⟨rfl, rfl, rfl, rfl⟩
      (fun other hne => Function.update_of_ne hne _ _) (fun _ => Function.update_self _ _ _)
      (hlaid.setNext hheld none)
  | true =>
    exact hmove s.mq ⟨rfl, rfl, rfl, rfl⟩ (fun _ _ => rfl) (fun hfalse => absurd hfalse (by simp))
      hlaid

/-- The block gets into the queue, and a receiver is resumed for it. -/
theorem linking_coupled (h : Coupled msgSize maxMsgs s m)
    (hbusy : s.busy thread = some (.linking msg buffer urgent)) :
    m.doing thread = some (.sending buffer urgent true) ∧
      Coupled msgSize maxMsgs (busyStep s thread (.linking msg buffer urgent)).1
        (m.next (.linked thread)) := by
  have hagrees := h.agrees thread
  rw [hbusy] at hagrees
  obtain ⟨hdoing, hbuffer, hlink⟩ := hagrees
  obtain ⟨queue, free, hlaid, hentry, hqueues⟩ := h.laid
  have hheld : s.holds thread = some msg := System.holds_of_busy hbusy
  have hnext : m.next (.linked thread) =
      ⟨if urgent then buffer :: m.queue else m.queue ++ [buffer],
        Function.update m.doing thread none⟩ := by
    simp only [Ledger.next, hdoing, Ledger.set]
  have hcall := h.apart thread (by simp [hbusy])
  refine ⟨hdoing, ?_⟩
  rw [hnext]
  -- what the two critical sections have in common
  have hmove (mq : RtMessagequeue) (queue' : List ℕ) (messages : List (List UInt8))
      (hblocks : Laid mq (Function.update s.holds thread none) queue' free)
      (hlength : mq.entry = queue'.length) (hgrown : mq.entry = s.mq.entry + 1)
      (hcontent : mq.content = s.mq.content) (hsize : mq.msgSize = s.mq.msgSize)
      (hmax : mq.maxMsgs = s.mq.maxMsgs) (hqueues' : Queues s.mq queue' messages)
      (hothers : ∀ other, other ∉ queue → other ≠ msg → mq.next other = s.mq.next other) :
      Coupled msgSize maxMsgs ⟨mq, s.threads.resumeFirst, Function.update s.busy thread none⟩
        ⟨messages, Function.update m.doing thread none⟩ := by
    refine h.move thread ⟨queue', free, hblocks, hlength,
      hqueues'.congr fun other _ => by rw [hcontent]⟩ hsize hmax (by rw [hcontent]; exact h.lengths)
      (fun t b ht hb => ?_) rfl h.sound.resumeFirst (Waiting.resumeFirst_call _) hcall
      (hgrown ▸ h.covers.resumeFirst h.sound)
    have hout := hlaid.not_mem_queue (System.holds_of_busy hb)
    exact ⟨by rw [hcontent], fun hnone => (hothers _ hout (h.msg_ne ht hbusy hb)).trans hnone⟩
  cases urgent with
  | true =>
    refine hmove (s.mq.linkFront msg) (msg :: queue) (buffer :: m.queue) (hlaid.linkFront hheld)
      (by rw [List.length_cons, ← hentry]; rfl) rfl rfl rfl rfl (.cons hbuffer hqueues) ?_
    exact fun other _ hne => Function.update_of_ne hne _ _
  | false =>
    have hgrown : (s.mq.linkBack msg).entry = s.mq.entry + 1 ∧
        (s.mq.linkBack msg).content = s.mq.content ∧
        (s.mq.linkBack msg).msgSize = s.mq.msgSize ∧
        (s.mq.linkBack msg).maxMsgs = s.mq.maxMsgs := by
      simp only [RtMessagequeue.linkBack]
      split <;> exact ⟨rfl, rfl, rfl, rfl⟩
    obtain ⟨he, hc, hs, hm⟩ := hgrown
    refine hmove (s.mq.linkBack msg) (queue ++ [msg]) (m.queue ++ [buffer])
      (hlaid.linkBack hheld (hlink rfl)) ?_ he hc hs hm
      (List.rel_append hqueues (.cons hbuffer .nil)) fun other hout _ => ?_
    · rw [he, hentry, List.length_append, List.length_singleton]
    · simp only [RtMessagequeue.linkBack]
      split
      · next tail htail =>
        have hin : tail ∈ queue := List.mem_of_getLast? (hlaid.tail.symm.trans htail)
        refine Function.update_of_ne ?_ _ _
        rintro rfl
        exact hout hin
      · rfl

end Sending

section Receiving

variable {T : Type*} [DecidableEq T] {slack msgSize maxMsgs : ℕ} {s : System T} {m : Ledger T}
  {thread : T} {wanted : Receiving} {msg : ℕ}

/-- The copying out of a block. -/
theorem copying_coupled {size : ℕ} (h : Coupled msgSize maxMsgs s m)
    (hbusy : s.busy thread = some (.copying msg size)) :
    (∃ message, m.doing thread = some (.taking message size false)) ∧
      Coupled msgSize maxMsgs (busyStep s thread (.copying msg size)).1
        (m.next (.copied thread)) := by
  have hagrees := h.agrees thread
  rw [hbusy] at hagrees
  obtain ⟨message, hdoing, hmessage⟩ := hagrees
  obtain ⟨queue, free, hlaid, hentry, hqueues⟩ := h.laid
  have hheld : s.holds thread = some msg := System.holds_of_busy hbusy
  have hlength : (s.mq.content msg).length = msgSize := h.msg_length hbusy
  have hsize : (if size > s.mq.msgSize then s.mq.msgSize else size) = min size s.mq.msgSize := by
    split_ifs <;> omega
  have hsame (data : List UInt8) : Function.update s.holds thread
      ((some (Busy.freeing msg data)).map Busy.msg) = s.holds := System.holds_update hbusy rfl
  have hnext : m.next (.copied thread) =
      ⟨m.queue, Function.update m.doing thread (some (.taking message size true))⟩ := by
    simp only [Ledger.next, hdoing, Option.map_some, Doing.copied, Ledger.set]
  refine ⟨⟨message, hdoing⟩, ?_⟩
  rw [hnext]
  refine h.move thread ⟨queue, free, (hsame _).symm ▸ hlaid, hentry, hqueues⟩ rfl rfl h.lengths
    (fun _ _ _ _ => ⟨rfl, id⟩) ⟨message, size, rfl, ?_⟩ h.sound rfl
    (h.apart thread (by simp [hbusy])) h.covers
  rw [hsize]
  refine ⟨?_, ?_⟩
  · rw [List.length_take, hlength, h.size]
    omega
  · obtain ⟨rest, hrest⟩ := hmessage
    have hfits : message.length ≤ s.mq.msgSize := by
      rw [h.size, ← hlength, ← hrest, List.length_append]
      omega
    rw [List.take_take, ← hrest, Nat.min_comm message.length]
    rw [List.take_append_of_le_length (by omega)]
    by_cases hle : size ≤ message.length
    · congr 1
      omega
    · rw [List.take_of_length_le (by omega), List.take_of_length_le (by omega)]

/-- The block of a received message gets into the free list. -/
theorem freeing_coupled {data : List UInt8} (h : Coupled msgSize maxMsgs s m)
    (hbusy : s.busy thread = some (.freeing msg data)) :
    (∃ message size, m.doing thread = some (.taking message size true) ∧
        Delivers msgSize message size data) ∧
      Coupled msgSize maxMsgs (busyStep s thread (.freeing msg data)).1
        (m.next (.received thread data)) := by
  have hagrees := h.agrees thread
  rw [hbusy] at hagrees
  obtain ⟨message, size, hdoing, hdata⟩ := hagrees
  obtain ⟨queue, free, hlaid, hentry, hqueues⟩ := h.laid
  have hheld : s.holds thread = some msg := System.holds_of_busy hbusy
  refine ⟨⟨message, size, hdoing, h.size ▸ hdata⟩, ?_⟩
  refine h.move thread ⟨queue, msg :: free, hlaid.release hheld, hentry, hqueues⟩ rfl rfl h.lengths
    (fun t b ht hb => ⟨rfl, fun hnone => ?_⟩) rfl h.sound rfl (h.apart thread (by simp [hbusy]))
    h.covers
  exact (Function.update_of_ne (h.msg_ne ht hbusy hb) _ _).trans hnone

/-- At an empty queue the call gives up or waits; only the threads change. -/
theorem rtMqLoop_empty (priority : T → ℕ) (flag : IpcFlag) (h : CoupledBy 1 msgSize maxMsgs s m)
    (hfree : Free s thread) (wanted : Receiving) (hempty : s.mq.entry = 0) :
    ∃ s' entries, rtMqLoop priority flag s thread wanted = some (s', entries) ∧
      entries = (if wanted.timeout = 0 then [.returned thread .etimeout] else []) ∧
      Coupled msgSize maxMsgs s'
        (entries.foldl Ledger.next (m.next (.called thread wanted.size))) := by
  have hfree' : (s.threads.setError thread .eok).call thread = none := hfree.call
  have hset := h.sound.setError hfree.call .eok
  have hcovers (threads : Waiting T Receiving)
      (hwoken : ∀ t c, threads.Woken t c ↔ s.threads.Woken t c) :
      threads.Covers 0 s.mq.entry := by
    rw [hempty]
    exact h.covers.without hwoken
  by_cases htime : wanted.timeout = 0
  · refine ⟨{ s with threads := (s.threads.setError thread .eok).setError thread .etimeout },
      [.returned thread .etimeout],
      by rw [rtMqLoop, if_pos hempty]; simp only [if_pos htime], (if_pos htime).symm, ?_⟩
    simp only [List.foldl_cons, List.foldl_nil, Ledger.next, Ledger.set_set]
    refine h.rethread hfree.busy ?_ (fun _ _ => rfl) (hset.setError hfree' .etimeout)
      (hcovers _ fun t c => ?_)
    · simp only [Waiting.setError, hfree.call, Option.map_none]
    · rw [Waiting.woken_setError hfree', Waiting.woken_setError hfree.call]
  · refine ⟨{ s with
        threads := (s.threads.setError thread .eok).suspend priority flag thread wanted }, [],
      by rw [rtMqLoop, if_pos hempty]; simp only [if_neg htime], (if_neg htime).symm, ?_⟩
    simp only [List.foldl_nil, Ledger.next]
    refine h.rethread hfree.busy ?_
      (fun t ht => Waiting.suspend_call_of_ne priority flag wanted ht)
      (hset.suspend hfree' priority flag wanted) (hcovers _ fun t c => ?_)
    · simp only [Waiting.suspend, Waiting.setCall, Function.update_self, Option.map_some]
    · rw [Waiting.woken_suspend hfree', Waiting.woken_setError hfree.call]

/-- The first block of the queue gets into the hands of the thread. -/
theorem rtMqLoop_takes (priority : T → ℕ) (flag : IpcFlag) (h : CoupledBy 1 msgSize maxMsgs s m)
    (hfree : Free s thread) (wanted : Receiving) (hentry : s.mq.entry ≠ 0) :
    ∃ s', rtMqLoop priority flag s thread wanted = some (s', [.taken thread]) ∧
      Coupled msgSize maxMsgs s' ((m.next (.called thread wanted.size)).next (.taken thread)) := by
  obtain ⟨queue, free, hlaid, hcount, hqueues⟩ := h.laid
  cases queue with
  | nil => exact absurd hcount hentry
  | cons msg rest =>
    obtain ⟨message, messages, hmessage, hmessages, hqueue⟩ :=
      List.forall₂_cons_left_iff.mp hqueues
    obtain ⟨mq', hunlink, hcontent, he, hs, hm, hlaid'⟩ := hlaid.unlink hfree.holds_none
    have hnext : (m.next (.called thread wanted.size)).next (.taken thread) =
        ⟨messages, Function.update m.doing thread
          (some (.taking message wanted.size false))⟩ := by
      simp only [Ledger.next, Ledger.set, Function.update_self, hqueue, Function.update_idem]
    have hlinks : mq'.next = s.mq.next := by
      obtain ⟨mq'', hunlink', rfl, -⟩ := hlaid.unlink_queue
      rw [hunlink] at hunlink'
      exact (congrArg (fun r => RtMessagequeue.next r.1) (Option.some.inj hunlink'))
    have hrest : Queues s.mq rest messages := hmessages
    have hone : s.mq.entry = s.mq.entry - 1 + 1 := by omega
    have hcovers := h.covers
    rw [hone] at hcovers
    refine ⟨⟨{ mq' with entry := mq'.entry - 1 }, s.threads,
        Function.update s.busy thread (some (.copying msg wanted.size))⟩,
      by rw [rtMqLoop, if_neg hentry, hunlink, Option.map_some]; rfl, ?_⟩
    rw [hnext]
    refine h.move thread ⟨rest, free,
      ⟨hlaid'.queueChain, hlaid'.tail, hlaid'.freeChain, hlaid'.owned⟩, ?_,
      hrest.congr fun other _ => congrFun hcontent other⟩ hs hm (fun other hother => ?_)
      (fun t b ht hb => ⟨congrFun hcontent _, fun hnil => (congrFun hlinks _).trans hnil⟩)
      ⟨message, rfl, ?_⟩ h.sound rfl hfree.call ?_
    · rw [he, hcount, List.length_cons, Nat.add_sub_cancel]
    · exact (congrArg List.length (congrFun hcontent other)).trans (h.lengths other hother)
    · exact (congrFun hcontent msg).symm ▸ hmessage
    · rw [he]
      exact hcovers.consume

/-- A thread that comes to the loop of `rt_mq_recv` takes the first message, gives up or waits. -/
theorem rtMqLoop_served (priority : T → ℕ) (flag : IpcFlag) (h : CoupledBy 1 msgSize maxMsgs s m)
    (hfree : Free s thread) (wanted : Receiving) :
    ∃ s' entries, rtMqLoop priority flag s thread wanted = some (s', entries) ∧
      entries = (if m.queue ≠ [] then [.taken thread]
        else if wanted.timeout = 0 then [.returned thread .etimeout] else []) ∧
      Coupled msgSize maxMsgs s'
        (entries.foldl Ledger.next (m.next (.called thread wanted.size))) := by
  by_cases hqueue : m.queue = []
  · have hempty : s.mq.entry = 0 := h.entry_eq.trans (congrArg List.length hqueue)
    rw [if_neg (not_not_intro hqueue)]
    exact rtMqLoop_empty priority flag h hfree wanted hempty
  · have hentry : s.mq.entry ≠ 0 := h.entry_eq ▸ fun hnil =>
      hqueue (List.length_eq_zero_iff.mp hnil)
    obtain ⟨s', hloop, hcoupled⟩ := rtMqLoop_takes priority flag h hfree wanted hentry
    exact ⟨s', [.taken thread], hloop, (if_pos hqueue).symm, hcoupled⟩

end Receiving

section Steps

variable {T : Type*} [DecidableEq T] {msgSize maxMsgs : ℕ} {s : System T} {m : Ledger T}
  {thread : T}

/-- A step of a thread that is inside a call. -/
theorem served_goOn {entries : List (Entry T)} {doing : Doing}
    (hdoing : m.doing thread = some doing) (hgoes : doing.Goes msgSize m thread entries)
    (elapsed : ℕ) :
    Served msgSize maxMsgs m (.goOn thread elapsed) entries (entries.foldl Ledger.next m) :=
  ⟨by simpa only [Ledger.Answers, hdoing] using hgoes, rfl⟩

theorem busyStep_served (h : Coupled msgSize maxMsgs s m) {busy : Busy}
    (hbusy : s.busy thread = some busy) (elapsed : ℕ) :
    ∃ m', Served msgSize maxMsgs m (.goOn thread elapsed) (busyStep s thread busy).2 m' ∧
      Coupled msgSize maxMsgs (busyStep s thread busy).1 m' := by
  cases busy with
  | filling msg buffer urgent =>
    obtain ⟨hdoing, hcoupled⟩ := filling_coupled h hbusy
    exact ⟨_, served_goOn hdoing rfl elapsed, hcoupled⟩
  | linking msg buffer urgent =>
    obtain ⟨hdoing, hcoupled⟩ := linking_coupled h hbusy
    exact ⟨_, served_goOn hdoing rfl elapsed, hcoupled⟩
  | copying msg size =>
    obtain ⟨⟨message, hdoing⟩, hcoupled⟩ := copying_coupled h hbusy
    exact ⟨_, served_goOn hdoing rfl elapsed, hcoupled⟩
  | freeing msg data =>
    obtain ⟨⟨message, size, hdoing, hdata⟩, hcoupled⟩ := freeing_coupled h hbusy
    exact ⟨_, served_goOn hdoing ⟨data, hdata, rfl⟩ elapsed, hcoupled⟩

/-- A thread that was resumed goes on to the loop of `rt_mq_recv`. -/
theorem goOn_woken (priority : T → ℕ) (flag : IpcFlag) (h : Coupled msgSize maxMsgs s m)
    {wanted : Receiving} (hbusy : s.busy thread = none)
    (hwoken : s.threads.Woken thread wanted) (elapsed : ℕ) :
    ∃ s' entries, goOn priority flag s thread elapsed = some (s', entries) ∧
      entries = (if m.queue ≠ [] then [.taken thread]
        else if (wanted.after elapsed).timeout = 0 then [.returned thread .etimeout] else []) ∧
      Coupled msgSize maxMsgs s' (entries.foldl Ledger.next m) := by
  have hdoing : m.doing thread = some (.waiting wanted.size) := by
    have hagrees := h.agrees thread
    rwa [hbusy, hwoken.1] at hagrees
  have hleft : CoupledBy 1 msgSize maxMsgs
      { s with threads := s.threads.setCall thread none } (m.set thread none) := by
    refine h.rethread hbusy ?_ (fun t ht => Function.update_of_ne ht _ _)
      (h.sound.leave hwoken.2.1 none) (h.covers.rise hwoken)
    simp only [Waiting.setCall, Function.update_self, Option.map_none]
  obtain ⟨s', entries, hloop, hentries, hcoupled⟩ := rtMqLoop_served priority flag hleft
    ⟨hbusy, Function.update_self _ _ _⟩ (wanted.after elapsed)
  have hback : (m.set thread none).next (.called thread (wanted.after elapsed).size) = m :=
    (m.set_set thread none _).trans (Ledger.set_of_eq hdoing)
  rw [hback] at hcoupled
  exact ⟨s', entries, by simp only [goOn, hbusy, hwoken.wake_eq, hloop], hentries, hcoupled⟩

theorem goOn_served (priority : T → ℕ) (flag : IpcFlag) (h : Coupled msgSize maxMsgs s m)
    (thread : T) (elapsed : ℕ) :
    ∃ s' entries m', goOn priority flag s thread elapsed = some (s', entries) ∧
      Served msgSize maxMsgs m (.goOn thread elapsed) entries m' ∧
      Coupled msgSize maxMsgs s' m' := by
  cases hbusy : s.busy thread with
  | some busy =>
    obtain ⟨m', hserved, hcoupled⟩ := busyStep_served h hbusy elapsed
    exact ⟨_, _, m', by simp only [goOn, hbusy], hserved, hcoupled⟩
  | none =>
    have hdoing : m.doing thread =
        (s.threads.call thread).map fun wanted => .waiting wanted.size := by
      have hagrees := h.agrees thread
      rwa [hbusy] at hagrees
    cases hwake : s.threads.wake thread with
    | absent =>
      refine ⟨s, [], m, by simp only [goOn, hbusy, hwake], ⟨?_, rfl⟩, h⟩
      cases hcall : s.threads.call thread with
      | none => simp only [Ledger.Answers, hdoing, hcall, Option.map_none]
      | some wanted => simp [Ledger.Answers, hdoing, hcall, Doing.Goes]
    | failed err =>
      obtain ⟨hcall, hout, herror⟩ := Waiting.wake_failed hwake
      obtain ⟨wanted, hwanted⟩ := Option.ne_none_iff_exists'.mp hcall
      rw [hwanted] at hdoing
      have herr : err ≠ .eok := Waiting.wake_failed_error hwake ▸ herror
      refine ⟨{ s with threads := s.threads.setCall thread none }, [.returned thread err], _,
        by simp only [goOn, hbusy, hwake],
        served_goOn hdoing (.inr (.inr ⟨err, herr, rfl⟩)) elapsed,
        h.rethread hbusy ?_ (fun t ht => Function.update_of_ne ht _ _) (h.sound.leave hout none)
          (h.covers.congr (fun t c => ?_) (List.Subset.refl _))⟩
      · simp only [Waiting.setCall, Function.update_self, Option.map_none]
      · rw [Waiting.woken_leave, and_iff_right_iff_imp]
        rintro hwoken rfl
        exact Waiting.not_woken_of_failed herror hwoken
    | resumed wanted =>
      have hwoken := Waiting.wake_resumed hwake
      rw [hwoken.1] at hdoing
      obtain ⟨s', entries, hgo, hentries, hcoupled⟩ :=
        goOn_woken priority flag h hbusy hwoken elapsed
      refine ⟨s', entries, _, hgo, served_goOn hdoing ?_ elapsed, hcoupled⟩
      rw [hentries]
      split_ifs with hqueue htime
      · exact .inr (.inl ⟨hqueue, rfl⟩)
      · exact .inr (.inr ⟨.etimeout, by decide, rfl⟩)
      · exact .inl rfl

theorem rtMqRecv_served (priority : T → ℕ) (flag : IpcFlag) (h : Coupled msgSize maxMsgs s m)
    (hfree : Free s thread) (wanted : Receiving) :
    ∃ s' entries m', rtMqRecv priority flag s thread wanted = some (s', entries) ∧
      Served msgSize maxMsgs m (.recv thread wanted) entries m' ∧
      Coupled msgSize maxMsgs s' m' := by
  have hdoing := h.doing_none hfree
  simp only [Served, Ledger.Answers, hdoing, ne_eq, not_true_eq_false, if_false]
  by_cases hempty : s.mq.entry = 0 ∧ wanted.timeout = 0
  · have hnothing : m.queue = [] :=
      List.length_eq_zero_iff.mp (h.entry_eq.symm.trans hempty.1)
    have hsame : m = (m.next (.called thread wanted.size)).next (.returned thread .etimeout) :=
      ((m.set_set thread _ none).trans (Ledger.set_of_eq hdoing)).symm
    exact ⟨s, [.called thread wanted.size, .returned thread .etimeout], m,
      by rw [rtMqRecv, if_pos hempty], ⟨by simp [hnothing, hempty.2], hsame⟩, h⟩
  · obtain ⟨s', entries, hloop, hentries, hcoupled⟩ :=
      rtMqLoop_served priority flag h.loosen hfree wanted
    refine ⟨s', .called thread wanted.size :: entries, _,
      by rw [rtMqRecv, if_neg hempty, hloop]; rfl, ⟨?_, rfl⟩, hcoupled⟩
    rw [hentries]
    split_ifs <;> simp_all

theorem threadTimeout_coupled (timed : Receiving → Bool) (h : Coupled msgSize maxMsgs s m)
    (thread : T) :
    Coupled msgSize maxMsgs { s with threads := s.threads.threadTimeout timed thread } m := by
  refine { h with
    agrees := fun t => ?_
    sound := h.sound.threadTimeout timed thread
    apart := fun t hbusy => ?_
    covers := h.covers.congr (fun t c => h.sound.woken_threadTimeout timed)
      (Waiting.threadTimeout_subset timed s.threads thread) }
  · rw [Waiting.threadTimeout_call]
    exact h.agrees t
  · rw [Waiting.threadTimeout_call]
    exact h.apart t hbusy

theorem rtMqReset_served (h : Coupled msgSize maxMsgs s m) :
    ∃ s' entries, rtMqReset s = some (s', entries) ∧
      Served msgSize maxMsgs m .reset entries { m with queue := [] } ∧
      Coupled msgSize maxMsgs s' { m with queue := [] } := by
  obtain ⟨queue, free, hlaid, hentry, hqueues⟩ := h.laid
  have hlength : queue.length ≤ s.mq.maxMsgs := by
    obtain ⟨hands, -, hcard⟩ := hlaid.owned.card
    rw [List.length_append] at hcard
    omega
  obtain ⟨mq', hrun, hcontent, hs, hm, hlaid', hlinks⟩ := hlaid.releaseAll hlength
  refine ⟨{ s with mq := { mq' with entry := 0 }, threads := s.threads.resumeAll }, [.wiped],
    by rw [rtMqReset, hrun, Option.map_some], ⟨rfl, rfl⟩, ?_⟩
  exact {
    laid := ⟨[], queue.reverse ++ free, ⟨hlaid'.queueChain, hlaid'.tail, hlaid'.freeChain,
      hlaid'.owned⟩, rfl, .nil⟩
    size := hs.trans h.size
    max := hm.trans h.max
    lengths := fun msg hmsg => (congrArg List.length (congrFun hcontent msg)).trans
      (h.lengths msg hmsg)
    agrees := fun t => (h.agrees t).congr hs fun b hb =>
      ⟨congrFun hcontent _, fun hnone => (hlinks b.msg fun hin => hlaid.owned.held t b.msg
        (System.holds_of_busy hb) hin).trans hnone⟩
    sound := s.threads.resumeAll_sound
    apart := fun t hbusy => h.apart t hbusy
    covers := h.covers.without fun t c => Waiting.woken_resumeAll }

theorem step_refines (priority : T → ℕ) (flag : IpcFlag) (msgSize maxMsgs : ℕ) :
    StepRefines (step (T := T) priority flag) (Served msgSize maxMsgs) (Coupled msgSize maxMsgs)
      fun _ _ => True := by
  intro s m a h _
  cases a with
  | send thread buffer urgent =>
    by_cases hfree : s.busy thread = none ∧ s.threads.call thread = none
    · obtain ⟨m', hserved, hcoupled⟩ := rtMqSend_served h ⟨hfree.1, hfree.2⟩ buffer urgent
      exact ⟨_, _, m', by rw [step, if_pos hfree], hserved, hcoupled⟩
    · have hdoing : m.doing thread ≠ none := mt h.doing_eq_none_iff.mp hfree
      exact ⟨s, [], m, by rw [step, if_neg hfree], ⟨by simp [Ledger.Answers, hdoing], rfl⟩, h⟩
  | recv thread wanted =>
    by_cases hfree : s.busy thread = none ∧ s.threads.call thread = none
    · obtain ⟨s', entries, m', hrecv, hserved, hcoupled⟩ :=
        rtMqRecv_served priority flag h ⟨hfree.1, hfree.2⟩ wanted
      exact ⟨s', entries, m', by rw [step, if_pos hfree, hrecv], hserved, hcoupled⟩
    · have hdoing : m.doing thread ≠ none := mt h.doing_eq_none_iff.mp hfree
      exact ⟨s, [], m, by rw [step, if_neg hfree], ⟨by simp [Ledger.Answers, hdoing], rfl⟩, h⟩
  | goOn thread elapsed =>
    obtain ⟨s', entries, m', hgo, hserved, hcoupled⟩ := goOn_served priority flag h thread elapsed
    exact ⟨s', entries, m', hgo, hserved, hcoupled⟩
  | threadTimeout thread =>
    exact ⟨_, _, m, rfl, ⟨rfl, rfl⟩, threadTimeout_coupled _ h thread⟩
  | reset =>
    obtain ⟨s', entries, hreset, hserved, hcoupled⟩ := rtMqReset_served h
    exact ⟨s', entries, _, hreset, hserved, hcoupled⟩

end Steps

section Runs

variable {T : Type*}

theorem rtMqInit_coupled (msgSize maxMsgs : ℕ) (pool : ℕ → ℕ → UInt8) :
    Coupled msgSize maxMsgs (rtMqInit (T := T) msgSize maxMsgs pool) .empty where
  laid := ⟨[], _, rtMqInit_laid msgSize maxMsgs pool, rfl, .nil⟩
  size := rfl
  max := rfl
  lengths msg _ := by simp [rtMqInit]
  agrees t := rfl
  sound := Waiting.nobody_sound
  apart t _ := rfl
  covers := Waiting.covers_nobody

/-- Over every interleaving of sends, urgent sends, receives, timeouts and resets, also while other
threads copy: every access stays inside the pool; a send is refused just when the message is too
long or all blocks are in use, and else its bytes get into the queue after two steps of the thread;
a receiver gets the bytes of the first message of this queue; a block is in the queue, in the free
list, or in the hands of one thread; while a receiver is suspended, every message has a receiver
that was resumed for it, and a resumed receiver that finds a message takes it. -/
theorem run_delivers [DecidableEq T] (priority : T → ℕ) (flag : IpcFlag) (msgSize maxMsgs : ℕ)
    (pool : ℕ → ℕ → UInt8) (actions : List (Action T)) :
    ∃ s entries m queue free,
      run (step priority flag) (rtMqInit msgSize maxMsgs pool) actions = some (s, entries) ∧
        Allowed (Served msgSize maxMsgs) Ledger.empty actions entries m ∧
        Laid s.mq s.holds queue free ∧ s.mq.entry = queue.length ∧ Queues s.mq queue m.queue ∧
        (s.threads.suspendThread ≠ [] →
          s.mq.entry ≤ {t | ∃ c, s.threads.Woken t c}.ncard) ∧
        ∀ t c elapsed, s.threads.Woken t c → queue ≠ [] →
          ∃ s', step priority flag s (.goOn t elapsed) = some (s', [.taken t]) := by
  obtain ⟨s, entries, m, hrun, hallowed, hcoupled⟩ :=
    (step_refines priority flag msgSize maxMsgs).run (rtMqInit_coupled msgSize maxMsgs pool)
      (guarded_of_forall (fun _ _ => trivial) _ actions)
  obtain ⟨queue, free, hlaid, hentry, hqueues⟩ := hcoupled.laid
  refine ⟨s, entries, m, queue, free, hrun, hallowed, hlaid, hentry, hqueues,
    hcoupled.covers.noLostWakeup, fun t c elapsed hwoken hqueue => ?_⟩
  have hbusy : s.busy t = none := by
    by_contra hbusy
    exact absurd ((hcoupled.apart t hbusy).symm.trans hwoken.1) (by simp)
  have hmessages : m.queue ≠ [] := fun hnil =>
    hqueue (List.forall₂_nil_right_iff.mp (hnil ▸ hqueues))
  obtain ⟨s', entries, hgo, hentries, -⟩ := goOn_woken priority flag hcoupled hbusy hwoken elapsed
  exact ⟨s', by rw [step, hgo, hentries, if_pos hmessages]⟩

end Runs

end VehicleTerminal.Kernel.MessageQueue
