import VehicleTerminal.Queue.LzmQueueRefinement
import VehicleTerminal.Comm.Port

/-! The transmit path with `COMM_SendData` and `COMM_TxIsr` as atomic steps: what the UART
has been handed followed by what is queued is the concatenation of the accepted messages,
a queued byte always finds the port ready to send it, and the interrupts send it. -/
namespace VehicleTerminal.Comm
open LzmQueue BoundedFifo PartialRun

inductive Event
  | sendData (buff : Batch)
  | txIsr

inductive Reply
  | answered (code : UInt8)
  | served
  deriving Repr, DecidableEq

/-- The interrupt comes only while it is enabled; a disabled one changes nothing. -/
def step (p : Port) : Event → Option (Port × Reply)
  | .sendData buff => (commSendData p buff.bytes).map fun r => (r.1, .answered r.2)
  | .txIsr => if p.tcEnabled then (commTxIsr p).map fun p => (p, .served) else some (p, .served)

/-- The bytes that an answered event adds to the accepted messages. -/
def accepted : Event → Reply → List UInt8
  | .sendData buff, .answered 0 => buff.bytes
  | _, _ => []

def acceptedMessages (events : List Event) (replies : List Reply) : List UInt8 :=
  (List.zipWith accepted events replies).flatten

/-- The bytes handed to the UART so far. -/
def handed (p : Port) : List UInt8 := p.dataRegister.map Prod.fst

/-- A port that holds a byte is busy sending it. -/
structure Sending (p : Port) : Prop where
  busy : p.sendBusy = 1
  enabled : p.tcEnabled = true
  direction : (wiring p).isSome → p.ctrlStatus = .ctrlSend

/-- A port that is not sending listens. -/
structure Resting (p : Port) : Prop where
  idle : p.sendBusy = 0
  disabled : p.tcEnabled = false
  direction : (wiring p).isSome → p.ctrlStatus = .ctrlRecv

/-- An interrupt hands over the oldest byte, or puts a port without one to rest. -/
def IsrServes (p : Port) : Prop :=
  ∃ p', commTxIsr p = some p' ∧ handed p' = handed p ++ (queued p.stTxQueue).take 1 ∧
    queued p'.stTxQueue = (queued p.stTxQueue).drop 1 ∧ (queued p.stTxQueue = [] → Resting p')

/-- After as many interrupts as bytes are queued all of them are handed over, and one more puts
the port to rest. -/
def Drains (p : Port) : Prop :=
  ∃ p' replies, run step p (List.replicate (queued p.stTxQueue).length .txIsr) =
      some (p', replies) ∧ handed p' = handed p ++ queued p.stTxQueue ∧
    queued p'.stTxQueue = [] ∧ ∃ p'', step p' .txIsr = some (p'', .served) ∧
      handed p'' = handed p' ∧ Resting p''

/-- The invariant of the transmit path with `q` queued. -/
structure Transmits (n : ℕ) (control : Option (Bool × Bool)) (p : Port) (q : List UInt8) :
    Prop where
  ring : Coupled n (n + 1) p.stTxQueue q
  front_lt : p.stTxQueue.front < n
  wired : wiring p = control
  line : LineFollows p
  sending : q ≠ [] → Sending p
  resting : p.tcEnabled = false → Resting p

section Steps

variable {n : ℕ} {control : Option (Bool × Bool)} {p : Port} {q : List UInt8}

theorem comMaxLenTx_bounds (com : Com) : 0 < comMaxLenTx com ∧ comMaxLenTx com < 65536 := by
  cases com <;> decide

theorem initialPort_stTxQueue (com : Com) (txData : TxData com) :
    (initialPort com txData control).stTxQueue =
      lzmQueueDataInit txData.val (comMaxLenTx com) := by
  cases control with
  | none => rfl
  | some callbacks =>
    rw [initialPort, commCtrlEnableInitialize, commCtrlEnableRecv, ctrlEnable_stTxQueue]
    rfl

theorem initialPort_dataRegister (com : Com) (txData : TxData com) :
    (initialPort com txData control).dataRegister = [] := by
  cases control with
  | none => rfl
  | some callbacks =>
    rw [initialPort, commCtrlEnableInitialize, commCtrlEnableRecv, ctrlEnable_dataRegister]
    rfl

theorem initialPort_resting (com : Com) (txData : TxData com) (control : Option (Bool × Bool)) :
    Resting (initialPort com txData control) := by
  cases control with
  | none => exact ⟨rfl, rfl, fun h => absurd h Bool.false_ne_true⟩
  | some callbacks => exact ⟨rfl, rfl, fun _ => rfl⟩

theorem initialPort_transmits (com : Com) (txData : TxData com) :
    Transmits (comMaxLenTx com) control (initialPort com txData control) [] where
  ring := by
    rw [initialPort_stTxQueue]
    exact init_coupled (comMaxLenTx_bounds com).2 txData.property (Nat.le_succ _)
  front_lt := by
    rw [initialPort_stTxQueue]
    exact (comMaxLenTx_bounds com).1
  wired := initialPort_wiring com txData control
  line := initialPort_lineFollows com txData control
  sending := fun h => absurd rfl h
  resting := fun _ => initialPort_resting com txData control

/-- A refused message leaves the whole port as it was. -/
theorem commSendData_refused {p' : Port} {buff : List UInt8} {answer : UInt8}
    (h : commSendData p buff = some (p', answer)) (hanswer : answer ≠ 0) : p' = p := by
  unfold commSendData at h
  split at h
  · cases h
    rfl
  · obtain ⟨r, -, heq⟩ := Option.map_eq_some_iff.mp h
    cases heq
    exact absurd rfl hanswer

theorem spaceAnswer_ne_zero {wasEmpty : Bool} {len : ℕ} {answer : UInt8}
    (h : spaceAnswer wasEmpty p len = some answer) : answer ≠ 0 := by
  unfold spaceAnswer at h
  split_ifs at h <;> cases h <;> decide

/-- A message that passes the space test fits behind the queued bytes. -/
theorem spaceAnswer_fits (hring : Coupled n (n + 1) p.stTxQueue q) (hn : n < 65536)
    {buff : List UInt8} {wasEmpty : Bool} (h : spaceAnswer wasEmpty p buff.length = none) :
    fitting n q buff = buff := by
  rw [spaceAnswer, hring.freeSpace_eq hn] at h
  apply List.take_of_length_le
  split_ifs at h <;> omega

/-- A message is refused only where it would fill the queue. -/
theorem refused_fills (hring : Coupled n (n + 1) p.stTxQueue q) (hn : n < 65536) {p' : Port}
    {buff : List UInt8} {answer : UInt8} (h : commSendData p buff = some (p', answer))
    (hanswer : answer ≠ 0) : n ≤ q.length + buff.length := by
  unfold commSendData spaceAnswer at h
  rw [hring.freeSpace_eq hn] at h
  split at h
  · rename_i refusal hrefusal
    split_ifs at hrefusal <;> omega
  · obtain ⟨r, -, heq⟩ := Option.map_eq_some_iff.mp h
    cases heq
    exact absurd rfl hanswer

theorem sendData_transmits (h : Transmits n control p q) (hn : n < 65536) (buff : List UInt8) :
    ∃ p' answer, commSendData p buff = some (p', answer) ∧ p'.dataRegister = p.dataRegister ∧
      Transmits n control p' (if answer = 0 then q ++ buff else q) := by
  cases hspace : spaceAnswer (lzmQueueEmpty p.stTxQueue) p buff.length with
  | some answer =>
    refine ⟨p, answer, by rw [commSendData, hspace], rfl, ?_⟩
    rwa [if_neg (spaceAnswer_ne_zero hspace)]
  | none =>
    have hfits : fitting n q buff = buff := spaceAnswer_fits h.ring hn hspace
    obtain ⟨pq', hinsert, hring, hfront⟩ := dataBatchInsert_refines h.ring hn buff
    rw [hfits] at hring
    have hrun : batchInsertComTxQueue (commCtrlEnableSend p) buff =
        some { commCtrlEnableSend p with stTxQueue := pq' } := by
      rw [batchInsertComTxQueue, commCtrlEnableSend, ctrlEnable_stTxQueue, hinsert, Option.map_some]
    have hwired : wiring (commCtrlEnableSend p) = control := by
      rw [commCtrlEnableSend, ctrlEnable_wiring, h.wired]
    refine ⟨enableTc (setSendBusy { commCtrlEnableSend p with stTxQueue := pq' }), 0,
      by rw [commSendData, hspace, hrun]; rfl, ctrlEnable_dataRegister _ _ p, ?_⟩
    rw [if_pos rfl]
    exact {
      ring := hring
      front_lt := hfront ▸ h.front_lt
      wired := hwired
      line := ctrlEnable_lineFollows _ _ h.line wiring_sendEnable
      sending := fun _ => {
        busy := rfl
        enabled := rfl
        direction := fun hw => ctrlEnable_ctrlStatus _ _ (by rwa [h.wired, ← hwired]) }
      resting := fun hdisabled => absurd hdisabled (by simp [enableTc]) }

theorem txIsr_resting (p : Port) :
    Resting { commCtrlEnableRecv p with sendBusy := 0, tcEnabled := false } := by
  refine ⟨rfl, rfl, fun hw => ctrlEnable_ctrlStatus _ _ ?_⟩
  exact (ctrlEnable_wiring .ctrlRecv p.recvEnable p).symm ▸ hw

/-- The interrupt hands over the oldest byte while the direction is still set to send; on an
empty queue it switches back to receiving. -/
theorem txIsr_transmits (h : Transmits n control p q) (hn : n < 65536) :
    ∃ p', commTxIsr p = some p' ∧ handed p' = handed p ++ q.take 1 ∧
      Transmits n control p' (q.drop 1) ∧ (q = [] → Resting p') := by
  cases q with
  | nil =>
    have hempty : lzmQueueEmpty p.stTxQueue = true := h.ring.empty_eq
    refine ⟨{ commCtrlEnableRecv p with sendBusy := 0, tcEnabled := false },
      ?_, ?_, ?_, fun _ => txIsr_resting p⟩
    · rw [commTxIsr, hempty]
      rfl
    · rw [List.take_nil, List.append_nil, handed, commCtrlEnableRecv, ctrlEnable_dataRegister,
        handed]
    · exact {
        ring := by rw [commCtrlEnableRecv, ctrlEnable_stTxQueue]; exact h.ring
        front_lt := by rw [commCtrlEnableRecv, ctrlEnable_stTxQueue]; exact h.front_lt
        wired := (ctrlEnable_wiring _ _ p).trans h.wired
        line := ctrlEnable_lineFollows _ _ h.line wiring_recvEnable
        sending := fun hne => absurd rfl hne
        resting := fun _ => txIsr_resting p }
  | cons data rest =>
    have hempty : lzmQueueEmpty p.stTxQueue = false := h.ring.empty_eq
    obtain ⟨pq', hdelete, hring, hfront⟩ := delete_refines h.ring hn h.front_lt
    have hsending : Sending p := h.sending (List.cons_ne_nil _ _)
    refine ⟨usartSendData { p with stTxQueue := pq' } data, ?_, ?_, ?_,
      fun hnil => absurd hnil (List.cons_ne_nil _ _)⟩
    · rw [commTxIsr, hempty, hdelete]
      rfl
    · rw [handed, usartSendData, List.map_append]
      rfl
    · exact {
        ring := hring
        front_lt := hfront
        wired := h.wired
        line := h.line
        sending := fun _ => ⟨hsending.busy, hsending.enabled, hsending.direction⟩
        resting := fun hdisabled => absurd (hdisabled.symm.trans hsending.enabled) (by decide) }

theorem Transmits.isrServes (h : Transmits n control p q) (hn : n < 65536) : IsrServes p := by
  obtain ⟨p', hrun, hhanded, h', hrest⟩ := txIsr_transmits h hn
  refine ⟨p', hrun, ?_, ?_, ?_⟩ <;> rw [h.ring.queued_eq]
  · exact hhanded
  · exact h'.ring.queued_eq
  · exact hrest

/-- Induction over the queued bytes: while one is left the interrupt is enabled. -/
theorem Transmits.handsAll (h : Transmits n control p q) (hn : n < 65536) :
    ∃ p' replies, run step p (List.replicate q.length .txIsr) = some (p', replies) ∧
      handed p' = handed p ++ q ∧ Transmits n control p' [] := by
  induction q generalizing p with
  | nil => exact ⟨p, [], rfl, (List.append_nil _).symm, h⟩
  | cons data rest ih =>
    have henabled : p.tcEnabled = true := (h.sending (List.cons_ne_nil _ _)).enabled
    obtain ⟨p₁, hisr, hhanded, h₁, -⟩ := txIsr_transmits h hn
    have hstep : step p .txIsr = some (p₁, .served) := by
      rw [step, if_pos henabled, hisr, Option.map_some]
    obtain ⟨p', replies, hrun, hall, h'⟩ := ih h₁
    refine ⟨p', .served :: replies, ?_, ?_, h'⟩
    · rw [List.length_cons, List.replicate_succ, run_cons_of_step hstep, hrun, Option.map_some]
    · rw [hall, hhanded, List.append_assoc]
      rfl

theorem Transmits.drains (h : Transmits n control p q) (hn : n < 65536) : Drains p := by
  obtain ⟨p', replies, hrun, hhanded, h'⟩ := h.handsAll hn
  refine ⟨p', replies, ?_, ?_, h'.ring.queued_eq, ?_⟩
  · rw [h.ring.queued_eq, hrun]
  · rw [h.ring.queued_eq, hhanded]
  · by_cases henabled : p'.tcEnabled = true
    · obtain ⟨p'', hisr, hlast, -, hrest⟩ := txIsr_transmits h' hn
      refine ⟨p'', by rw [step, if_pos henabled, hisr, Option.map_some], ?_, hrest rfl⟩
      rw [hlast, List.take_nil, List.append_nil]
    · refine ⟨p', by rw [step, if_neg henabled], rfl, h'.resting ?_⟩
      exact Bool.not_eq_true _ ▸ henabled

/-- The port with `bytes` accepted so far. -/
def Conserves (n : ℕ) (control : Option (Bool × Bool)) (p : Port) (bytes : List UInt8) : Prop :=
  ∃ q, Transmits n control p q ∧ bytes = handed p ++ q

theorem step_conserves (hn : n < 65536) :
    StepRefines step (fun bytes event reply bytes' => bytes' = bytes ++ accepted event reply)
      (Conserves n control) (fun _ _ => True) := by
  rintro p bytes event ⟨q, h, rfl⟩ -
  cases event with
  | sendData buff =>
    obtain ⟨p', answer, hrun, hsame, h'⟩ := sendData_transmits h hn buff.bytes
    refine ⟨p', .answered answer, _, by rw [step, hrun, Option.map_some], rfl, _, h', ?_⟩
    have hhanded : handed p' = handed p := congrArg (List.map Prod.fst) hsame
    by_cases hanswer : answer = 0
    · subst hanswer
      rw [if_pos rfl, hhanded, List.append_assoc]
      rfl
    · have hnone : accepted (.sendData buff) (.answered answer) = [] := by
        unfold accepted
        split
        · simp_all
        · rfl
      rw [if_neg hanswer, hhanded, hnone, List.append_nil]
  | txIsr =>
    by_cases henabled : p.tcEnabled = true
    · obtain ⟨p', hrun, hhanded, h', -⟩ := txIsr_transmits h hn
      refine ⟨p', .served, _, by rw [step, if_pos henabled, hrun, Option.map_some], rfl, _, h', ?_⟩
      have hnone : accepted .txIsr .served = [] := rfl
      rw [hhanded, hnone, List.append_nil, List.append_assoc, List.take_append_drop]
    · exact ⟨p, .served, _, by rw [step, if_neg henabled], rfl, q, h, List.append_nil _⟩

theorem allowed_accepted {bytes bytes' : List UInt8} {events : List Event} {replies : List Reply}
    (h : Allowed (fun bytes event reply bytes' => bytes' = bytes ++ accepted event reply)
      bytes events replies bytes') : bytes' = bytes ++ acceptedMessages events replies := by
  induction h with
  | nil bytes => exact (List.append_nil _).symm
  | cons head _ ih =>
    rw [ih, head, List.append_assoc]
    rfl

end Steps

/-- Over every interleaving of sends and interrupts on an initialised port; a message is refused
only where it would fill the queue, and the interrupts that follow hand over whatever was
accepted. -/
theorem commTransmit_conserves (com : Com) (txData : TxData com) (control : Option (Bool × Bool))
    (events : List Event) :
    ∃ p replies, run step (initialPort com txData control) events = some (p, replies) ∧
      handed p ++ queued p.stTxQueue = acceptedMessages events replies ∧
      wiring p = control ∧ LineFollows p ∧ (queued p.stTxQueue ≠ [] → Sending p) ∧
      (∀ buff p' answer, commSendData p buff = some (p', answer) → answer ≠ 0 →
        p' = p ∧ comMaxLenTx com ≤ (queued p.stTxQueue).length + buff.length) ∧
      IsrServes p ∧ Drains p := by
  have hn : comMaxLenTx com < 65536 := (comMaxLenTx_bounds com).2
  have hstart : Conserves (comMaxLenTx com) control (initialPort com txData control) [] :=
    ⟨[], initialPort_transmits com txData, by rw [handed, initialPort_dataRegister]; rfl⟩
  obtain ⟨p, replies, bytes, hrun, hallowed, q, h, hbytes⟩ :=
    (step_conserves hn).run hstart (guarded_of_forall (fun _ _ => trivial) _ events)
  refine ⟨p, replies, hrun, ?_, h.wired, h.line, ?_, ?_, h.isrServes hn, h.drains hn⟩
  · rw [h.ring.queued_eq, ← hbytes, allowed_accepted hallowed, List.nil_append]
  · rw [h.ring.queued_eq]
    exact h.sending
  · intro buff p' answer hsend hanswer
    rw [h.ring.queued_eq]
    exact ⟨commSendData_refused hsend hanswer, refused_fills h.ring hn hsend hanswer⟩

end VehicleTerminal.Comm
