import VehicleTerminal.Comm.Transmit

/-! The transmit path with every statement of `COMM_SendData` as its own step and
`COMM_TxIsr` free to run between any two of them. The handler may find the queue empty
between the direction switch and the insert; in every other schedule the port keeps its
promises. -/
namespace VehicleTerminal.Comm
open LzmQueue BoundedFifo PartialRun

/-- The statement of `COMM_SendData` that runs next. -/
inductive Statement
  | idle
  | emptyTest (buff : Batch)
  | spaceTest (buff : Batch) (wasEmpty : Bool)
  | directionSwitch (buff : Batch)
  | batchInsert (buff : Batch)
  | busySet
  | interruptEnable

structure Machine where
  port : Port
  pc : Statement

/-- One statement of the sender, with the answer when it returns. -/
def senderStep (m : Machine) : Option (Machine × Option UInt8) :=
  match m.pc with
  | .idle => some (m, none)
  | .emptyTest buff =>
    some ({ m with pc := .spaceTest buff (lzmQueueEmpty m.port.stTxQueue) }, none)
  | .spaceTest buff wasEmpty =>
    match spaceAnswer wasEmpty m.port buff.bytes.length with
    | some answer => some ({ m with pc := .idle }, some answer)
    | none => some ({ m with pc := .directionSwitch buff }, none)
  | .directionSwitch buff => some (⟨commCtrlEnableSend m.port, .batchInsert buff⟩, none)
  | .batchInsert buff =>
    (batchInsertComTxQueue m.port buff.bytes).map fun p => (⟨p, .busySet⟩, none)
  | .busySet => some (⟨setSendBusy m.port, .interruptEnable⟩, none)
  | .interruptEnable => some (⟨enableTc m.port, .idle⟩, some 0)

inductive Action
  | call (buff : Batch)
  | sender
  | txIsr

/-- A new call starts only when none is in progress, and the handler runs only while the
TC interrupt is enabled. -/
def interleave (m : Machine) : Action → Option (Machine × Option UInt8)
  | .call buff =>
    match m.pc with
    | .idle => some ({ m with pc := .emptyTest buff }, none)
    | _ => some (m, none)
  | .sender => senderStep m
  | .txIsr =>
    if m.port.tcEnabled then (commTxIsr m.port).map fun p => ({ m with port := p }, none)
    else some (m, none)

/-- The direction is switched and a byte is about to be inserted. -/
def Statement.inWindow : Statement → Bool
  | .batchInsert buff => !buff.bytes.isEmpty
  | _ => false

/-- The handler does not find the queue empty between the direction switch and the insert. -/
def OutsideWindow (m : Machine) : Action → Prop
  | .txIsr => m.port.tcEnabled → lzmQueueEmpty m.port.stTxQueue → m.pc.inWindow = false
  | _ => True

instance : ∀ m action, Decidable (OutsideWindow m action)
  | m, .txIsr => inferInstanceAs (Decidable (m.port.tcEnabled → lzmQueueEmpty m.port.stTxQueue →
      m.pc.inWindow = false))
  | _, .call _ => isTrue trivial
  | _, .sender => isTrue trivial

/-- With no call in progress a queued byte is being sent, and no byte was ever handed to the
UART while the direction was set to receive. -/
structure Promises (m : Machine) : Prop where
  controlled : (wiring m.port).isSome
  sending : m.pc = .idle → queued m.port.stTxQueue ≠ [] → Sending m.port
  never_receiving : ∀ transfer ∈ m.port.dataRegister, transfer.2 ≠ .ctrlRecv

/-- What holds between any two steps outside the window. The busy flag and the interrupt
enable may lag behind the queue only while the sender is about to set them. -/
structure Safe (n : ℕ) (m : Machine) (q : List UInt8) : Prop where
  ring : Coupled n (n + 1) m.port.stTxQueue q
  front_lt : m.port.stTxQueue.front < n
  wired : (wiring m.port).isSome
  direction : q ≠ [] ∨ m.pc.inWindow = true → m.port.ctrlStatus = .ctrlSend
  busy : q ≠ [] → m.pc ≠ .busySet → m.port.sendBusy = 1
  enabled : q ≠ [] → m.pc ≠ .busySet → m.pc ≠ .interruptEnable → m.port.tcEnabled = true
  never_receiving : ∀ transfer ∈ m.port.dataRegister, transfer.2 ≠ .ctrlRecv

section Steps

variable {n : ℕ} {m : Machine} {q : List UInt8}

theorem Safe.promises (h : Safe n m q) : Promises m where
  controlled := h.wired
  sending := by
    intro hidle hq
    rw [h.ring.queued_eq] at hq
    have hbusy : m.pc ≠ .busySet := by simp [hidle]
    have henable : m.pc ≠ .interruptEnable := by simp [hidle]
    exact ⟨h.busy hq hbusy, h.enabled hq hbusy henable, fun _ => h.direction (.inl hq)⟩
  never_receiving := h.never_receiving

/-- A step of the sender that leaves the port alone and enters no lagging statement. -/
theorem Safe.move {pc : Statement} (h : Safe n m q) (hw : pc.inWindow = false)
    (hfrom : m.pc ≠ .busySet ∧ m.pc ≠ .interruptEnable) : Safe n { m with pc := pc } q where
  ring := h.ring
  front_lt := h.front_lt
  wired := h.wired
  direction := fun hd => h.direction (hd.imp_right fun hin => by rw [hw] at hin; cases hin)
  busy := fun hq _ => h.busy hq hfrom.1
  enabled := fun hq _ _ => h.enabled hq hfrom.1 hfrom.2
  never_receiving := h.never_receiving

theorem directionSwitch_safe {buff : Batch} (h : Safe n m q) (hpc : m.pc = .directionSwitch buff) :
    Safe n ⟨commCtrlEnableSend m.port, .batchInsert buff⟩ q where
  ring := by
    rw [commCtrlEnableSend, ctrlEnable_stTxQueue]
    exact h.ring
  front_lt := by
    rw [commCtrlEnableSend, ctrlEnable_stTxQueue]
    exact h.front_lt
  wired := by
    rw [commCtrlEnableSend, ctrlEnable_wiring]
    exact h.wired
  direction := fun _ => ctrlEnable_ctrlStatus _ _ h.wired
  busy := fun hq _ => by
    rw [commCtrlEnableSend, ctrlEnable_sendBusy]
    exact h.busy hq (by simp [hpc])
  enabled := fun hq _ _ => by
    rw [commCtrlEnableSend, ctrlEnable_tcEnabled]
    exact h.enabled hq (by simp [hpc]) (by simp [hpc])
  never_receiving := by
    rw [commCtrlEnableSend, ctrlEnable_dataRegister]
    exact h.never_receiving

theorem batchInsert_safe {buff : Batch} (h : Safe n m q) (hn : n < 65536)
    (hpc : m.pc = .batchInsert buff) :
    ∃ p, batchInsertComTxQueue m.port buff.bytes = some p ∧
      Safe n ⟨p, .busySet⟩ (q ++ fitting n q buff.bytes) := by
  obtain ⟨pq', hinsert, hring, hfront⟩ := dataBatchInsert_refines h.ring hn buff.bytes
  refine ⟨{ m.port with stTxQueue := pq' },
    by rw [batchInsertComTxQueue, hinsert, Option.map_some], ?_⟩
  exact {
    ring := hring
    front_lt := hfront ▸ h.front_lt
    wired := h.wired
    direction := by
      intro hd
      apply h.direction
      by_cases hq : q = []
      · right
        have hne : buff.bytes ≠ [] := by
          rintro hnil
          simp [hq, hnil, fitting, Statement.inWindow] at hd
        simp [hpc, Statement.inWindow, hne]
      · exact .inl hq
    busy := fun _ hne => absurd rfl hne
    enabled := fun _ hne => absurd rfl hne
    never_receiving := h.never_receiving }

theorem busySet_safe (h : Safe n m q) : Safe n ⟨setSendBusy m.port, .interruptEnable⟩ q where
  ring := h.ring
  front_lt := h.front_lt
  wired := h.wired
  direction := fun hd => h.direction (.inl (hd.resolve_right (by simp [Statement.inWindow])))
  busy := fun _ _ => rfl
  enabled := fun _ _ hne => absurd rfl hne
  never_receiving := h.never_receiving

theorem interruptEnable_safe (h : Safe n m q) (hpc : m.pc = .interruptEnable) :
    Safe n ⟨enableTc m.port, .idle⟩ q where
  ring := h.ring
  front_lt := h.front_lt
  wired := h.wired
  direction := fun hd => h.direction (.inl (hd.resolve_right (by simp [Statement.inWindow])))
  busy := fun hq _ => h.busy hq (by simp [hpc])
  enabled := fun _ _ _ => rfl
  never_receiving := h.never_receiving

theorem sender_safe (h : Safe n m q) (hn : n < 65536) :
    ∃ m' answer q', senderStep m = some (m', answer) ∧ Safe n m' q' := by
  unfold senderStep
  cases hpc : m.pc with
  | idle => exact ⟨m, none, q, rfl, h⟩
  | emptyTest buff => exact ⟨_, none, q, rfl, h.move rfl (by simp [hpc])⟩
  | spaceTest buff wasEmpty =>
    cases hspace : spaceAnswer wasEmpty m.port buff.bytes.length with
    | some answer =>
      exact ⟨{ m with pc := .idle }, some answer, q, by simp only [hspace],
        h.move rfl (by simp [hpc])⟩
    | none =>
      exact ⟨{ m with pc := .directionSwitch buff }, none, q, by simp only [hspace],
        h.move rfl (by simp [hpc])⟩
  | directionSwitch buff => exact ⟨_, none, q, rfl, directionSwitch_safe h hpc⟩
  | batchInsert buff =>
    obtain ⟨p, hinsert, h'⟩ := batchInsert_safe h hn hpc
    exact ⟨_, none, _, by simp only [hinsert, Option.map_some], h'⟩
  | busySet => exact ⟨_, none, q, rfl, busySet_safe h⟩
  | interruptEnable => exact ⟨_, some 0, q, rfl, interruptEnable_safe h hpc⟩

/-- The handler on a queue that holds a byte: the direction is send. -/
theorem txIsr_hands_safe {data : UInt8} {rest : List UInt8} (h : Safe n m (data :: rest))
    (hn : n < 65536) : ∃ p, commTxIsr m.port = some p ∧ Safe n { m with port := p } rest := by
  have hempty : lzmQueueEmpty m.port.stTxQueue = false := h.ring.empty_eq
  obtain ⟨pq', hdelete, hring, hfront⟩ := delete_refines h.ring hn h.front_lt
  have hne : data :: rest ≠ [] := List.cons_ne_nil _ _
  have hsend : m.port.ctrlStatus = .ctrlSend := h.direction (.inl hne)
  refine ⟨usartSendData { m.port with stTxQueue := pq' } data,
    by rw [commTxIsr, hempty, hdelete]; rfl, ?_⟩
  exact {
    ring := hring
    front_lt := hfront
    wired := h.wired
    direction := fun _ => hsend
    busy := fun _ => h.busy hne
    enabled := fun _ => h.enabled hne
    never_receiving := by
      intro transfer hmem
      rcases List.mem_append.mp hmem with hold | hnew
      · exact h.never_receiving transfer hold
      · rw [List.mem_singleton] at hnew
        simp [hnew, hsend] }

/-- The handler on an empty queue, outside the window. -/
theorem txIsr_idles_safe (h : Safe n m []) (hw : m.pc.inWindow = false) :
    ∃ p, commTxIsr m.port = some p ∧ Safe n { m with port := p } [] := by
  have hempty : lzmQueueEmpty m.port.stTxQueue = true := h.ring.empty_eq
  refine ⟨{ commCtrlEnableRecv m.port with sendBusy := 0, tcEnabled := false },
    by rw [commTxIsr, hempty]; rfl, ?_⟩
  exact {
    ring := by rw [commCtrlEnableRecv, ctrlEnable_stTxQueue]; exact h.ring
    front_lt := by rw [commCtrlEnableRecv, ctrlEnable_stTxQueue]; exact h.front_lt
    wired := (congrArg Option.isSome (ctrlEnable_wiring _ _ m.port)).trans h.wired
    direction := by simp [hw]
    busy := fun hq => absurd rfl hq
    enabled := fun hq => absurd rfl hq
    never_receiving := by
      rw [commCtrlEnableRecv, ctrlEnable_dataRegister]
      exact h.never_receiving }

/-- One step of any schedule outside the window, by cases on the step. -/
theorem interleave_safe (hn : n < 65536) :
    StepRefines interleave (fun _ _ _ _ => True) (Safe n) OutsideWindow := by
  intro m q action h hguard
  cases action with
  | call buff =>
    unfold interleave
    cases hpc : m.pc with
    | idle => exact ⟨_, none, q, rfl, trivial, h.move rfl (by simp [hpc])⟩
    | _ => exact ⟨m, none, q, rfl, trivial, h⟩
  | sender =>
    obtain ⟨m', answer, q', hstep, h'⟩ := sender_safe h hn
    exact ⟨m', answer, q', hstep, trivial, h'⟩
  | txIsr =>
    by_cases htc : m.port.tcEnabled = true
    · have hone : ∃ p q', commTxIsr m.port = some p ∧ Safe n { m with port := p } q' := by
        cases q with
        | nil =>
          obtain ⟨p, hp, h'⟩ := txIsr_idles_safe h (hguard htc h.ring.empty_eq)
          exact ⟨p, [], hp, h'⟩
        | cons data rest =>
          obtain ⟨p, hp, h'⟩ := txIsr_hands_safe h hn
          exact ⟨p, rest, hp, h'⟩
      obtain ⟨p, q', hp, h'⟩ := hone
      exact ⟨_, none, q', by rw [interleave, if_pos htc, hp, Option.map_some], trivial, h'⟩
    · exact ⟨m, none, q, by rw [interleave, if_neg htc], trivial, h⟩

/-- Inside the window the handler strands the message: the next three statements end the
call with a queued byte and the direction at receive. -/
theorem window_strands {buff : Batch} (h : Safe n m []) (hn : n < 65536)
    (hpc : m.pc = .batchInsert buff) (hne : buff.bytes ≠ []) (htc : m.port.tcEnabled = true) :
    ∃ m' answers, run interleave m [.txIsr, .sender, .sender, .sender] = some (m', answers) ∧
      m'.pc = .idle ∧ queued m'.port.stTxQueue ≠ [] ∧ m'.port.ctrlStatus = .ctrlRecv := by
  have hempty : lzmQueueEmpty m.port.stTxQueue = true := h.ring.empty_eq
  obtain ⟨pq', hinsert, hring, -⟩ := dataBatchInsert_refines h.ring hn buff.bytes
  have hpos : 0 < n := by
    have hfront := h.front_lt
    omega
  have hqueued : queued pq' ≠ [] := by
    rw [hring.queued_eq, List.nil_append]
    cases hb : buff.bytes with
    | nil => exact absurd hb hne
    | cons data rest => simp [fitting, List.take_eq_nil_iff, hpos.ne']
  have hrecv : (commCtrlEnableRecv m.port).ctrlStatus = .ctrlRecv :=
    ctrlEnable_ctrlStatus _ _ h.wired
  have hqueue : (commCtrlEnableRecv m.port).stTxQueue = m.port.stTxQueue :=
    ctrlEnable_stTxQueue _ _ _
  refine ⟨⟨enableTc (setSendBusy { commCtrlEnableRecv m.port with
    stTxQueue := pq', sendBusy := 0, tcEnabled := false }), .idle⟩, [none, none, none, some 0],
    ?_, rfl, hqueued, hrecv⟩
  simp only [run, interleave, htc, if_true, commTxIsr, hempty, Bool.not_true, Bool.false_eq_true,
    if_false, Option.map_some, senderStep, hpc, batchInsertComTxQueue, hqueue, hinsert]

end Steps

/-- Without interrupts the statements of one call add up to `COMM_SendData`. -/
theorem sender_uninterrupted {p p' : Port} {buff : Batch} {answer : UInt8}
    (h : commSendData p buff.bytes = some (p', answer)) :
    ∃ answers, run interleave ⟨p, .idle⟩ (.call buff :: List.replicate 6 .sender) =
      some (⟨p', .idle⟩, answers) ∧ some answer ∈ answers := by
  unfold commSendData at h
  cases hspace : spaceAnswer (lzmQueueEmpty p.stTxQueue) p buff.bytes.length with
  | some refused =>
    simp only [hspace] at h
    cases h
    refine ⟨[none, none, some answer, none, none, none, none], ?_, by simp⟩
    simp only [run, interleave, senderStep, List.replicate, hspace, Option.map_some]
  | none =>
    simp only [hspace] at h
    obtain ⟨r, hinsert, heq⟩ := Option.map_eq_some_iff.mp h
    cases heq
    refine ⟨[none, none, none, none, none, none, some 0], ?_, by simp⟩
    simp only [run, interleave, senderStep, List.replicate, hspace, hinsert, Option.map_some]

theorem initial_safe (com : Com) (txData : TxData com) (callbacks : Bool × Bool) :
    Safe (comMaxLenTx com) ⟨initialPort com txData (some callbacks), .idle⟩ [] := by
  have h : Transmits (comMaxLenTx com) (some callbacks)
      (initialPort com txData (some callbacks)) [] := initialPort_transmits com txData
  exact {
    ring := h.ring
    front_lt := h.front_lt
    wired := by rw [h.wired]; rfl
    direction := by simp [Statement.inWindow]
    busy := fun hq => absurd rfl hq
    enabled := fun hq => absurd rfl hq
    never_receiving := by simp [initialPort_dataRegister] }

/-- Every schedule in which the handler stays out of the window keeps the promises. -/
theorem interleaved_promises (com : Com) (txData : TxData com) (callbacks : Bool × Bool)
    (actions : List Action)
    (h : Guarded interleave OutsideWindow ⟨initialPort com txData (some callbacks), .idle⟩
      actions) :
    ∃ m answers, run interleave ⟨initialPort com txData (some callbacks), .idle⟩ actions =
      some (m, answers) ∧ Promises m := by
  obtain ⟨m, answers, q, hrun, -, hsafe⟩ :=
    (interleave_safe (comMaxLenTx_bounds com).2).run (initial_safe com txData callbacks) h
  exact ⟨m, answers, hrun, hsafe.promises⟩

theorem seven_counted : ([7] : List UInt8).length < 65536 := by decide

/-- One message sent without interference, and the handler serving it. -/
def undisturbed : List Action :=
  .call ⟨[7], seven_counted⟩ :: List.replicate 6 .sender ++ [.txIsr, .txIsr]

/-- A second message whose insert is overtaken by the handler that ends the first one. -/
def overtaken : List Action :=
  .call ⟨[7], seven_counted⟩ :: List.replicate 6 .sender ++
    [.txIsr, .call ⟨[8], by decide⟩, .sender, .sender, .sender, .txIsr, .sender, .sender, .sender,
      .txIsr]

/-- The smallest port, with a two-byte queue. -/
def smallTxData : TxData .com3 := ⟨[0, 0, 0], rfl⟩

theorem interleaved_promises_undisturbed :
    Guarded interleave OutsideWindow
      ⟨initialPort .com3 smallTxData (some (true, true)), .idle⟩ undisturbed ∧
    ∃ m answers, run interleave ⟨initialPort .com3 smallTxData (some (true, true)), .idle⟩
      undisturbed = some (m, answers) ∧ Promises m :=
  ⟨by decide, interleaved_promises .com3 smallTxData (true, true) undisturbed (by decide)⟩

theorem not_promises_overtaken :
    ¬ ∀ (com : Com) (txData : TxData com) (callbacks : Bool × Bool) (actions : List Action),
      ∃ m answers, run interleave ⟨initialPort com txData (some callbacks), .idle⟩ actions =
        some (m, answers) ∧ Promises m := by
  intro h
  obtain ⟨m, answers, hrun, hpromises⟩ := h .com3 smallTxData (true, true) overtaken
  have hlog : (run interleave ⟨initialPort .com3 smallTxData (some (true, true)), .idle⟩
      overtaken).map (fun r => r.1.port.dataRegister) =
      some [(7, .ctrlSend), (8, .ctrlRecv)] := by decide
  rw [hrun] at hlog
  have hregister : m.port.dataRegister = [(7, .ctrlSend), (8, .ctrlRecv)] := Option.some.inj hlog
  have hmem : (8, .ctrlRecv) ∈ m.port.dataRegister := by
    rw [hregister]
    decide
  exact hpromises.never_receiving _ hmem rfl

end VehicleTerminal.Comm
