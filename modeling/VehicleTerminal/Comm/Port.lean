import VehicleTerminal.Queue.LzmQueue

/-! The transmit side of a serial port in `comm.c`: its attributes, the TC interrupt
enable of its UART, the direction line that the callbacks drive, and the log of bytes
handed to the data register. -/
namespace VehicleTerminal.Comm
open LzmQueue

inductive Com
  | com1
  | com2
  | com3
  | com4
  | com5
  | com6
  deriving Repr, DecidableEq

def comMaxLenTx : Com → ℕ
  | .com1 => 1024
  | .com2 => 512
  | .com3 => 2
  | .com4 => 128
  | .com5 => 128
  | .com6 => 256

/-- The values of `E_COMMATTRIB`. -/
inductive CommAttribValue
  | empty
  | ctrlValid
  | ctrlSend
  | ctrlRecv
  deriving Repr, DecidableEq

/-- The fields of `ST_COMM_ATTRIB` that sending uses. A callback counts only as set or null. -/
structure CommAttrib where
  stTxQueue : StQueue
  sendBusy : UInt8
  ctrlValidFlag : CommAttribValue
  ctrlStatus : CommAttribValue
  recvEnable : Bool
  sendEnable : Bool
  deriving Repr, DecidableEq

/-- A port with its surroundings. Every byte in `dataRegister` stands with the
direction status at the moment it was handed over. -/
structure Port extends CommAttrib where
  tcEnabled : Bool
  line : CommAttribValue
  dataRegister : List (UInt8 × CommAttribValue)
  deriving Repr, DecidableEq

/-- Switch a controlled port to `status` and run its callback, unless it is there already. -/
def ctrlEnable (status : CommAttribValue) (callback : Bool) (p : Port) : Port :=
  if p.ctrlValidFlag ≠ .ctrlValid then p
  else if p.ctrlStatus = status then p
  else { p with ctrlStatus := status, line := if callback then status else p.line }

def commCtrlEnableRecv (p : Port) : Port := ctrlEnable .ctrlRecv p.recvEnable p

def commCtrlEnableSend (p : Port) : Port := ctrlEnable .ctrlSend p.sendEnable p

/-- The transmit buffer of a port has one byte more than its queue uses. -/
def TxData (com : Com) : Type := { data : List UInt8 // data.length = comMaxLenTx com + 1 }

/-- `COMM_Initialize`: attributes cleared, queue set up, UART reset with TC disabled. -/
def commInitialize (com : Com) (txData : TxData com) : Port where
  stTxQueue := lzmQueueDataInit txData.val (comMaxLenTx com)
  sendBusy := 0
  ctrlValidFlag := .empty
  ctrlStatus := .empty
  recvEnable := false
  sendEnable := false
  tcEnabled := false
  line := .empty
  dataRegister := []

def commCtrlEnableInitialize (p : Port) (recvEnable sendEnable : Bool) : Port :=
  commCtrlEnableRecv
    { p with
      ctrlStatus := .empty
      ctrlValidFlag := .ctrlValid
      recvEnable := recvEnable
      sendEnable := sendEnable }

/-- A port after its initialisation, with or without direction control. -/
def initialPort (com : Com) (txData : TxData com) : Option (Bool × Bool) → Port
  | none => commInitialize com txData
  | some (recvEnable, sendEnable) =>
    commCtrlEnableInitialize (commInitialize com txData) recvEnable sendEnable

/-- `UsartSendData`. -/
def usartSendData (p : Port) (data : UInt8) : Port :=
  { p with dataRegister := p.dataRegister ++ [(data, p.ctrlStatus)] }

def commTxIsr (p : Port) : Option Port :=
  if !lzmQueueEmpty p.stTxQueue then
    (lzmQueueDelete p.stTxQueue).map fun r => usartSendData { p with stTxQueue := r.1 } r.2
  else some { commCtrlEnableRecv p with sendBusy := 0, tcEnabled := false }

/-- `BatchInsert_COMTXQueue`; the count it returns is not used. -/
def batchInsertComTxQueue (p : Port) (buff : List UInt8) : Option Port :=
  (lzmQueueDataBatchInsert p.stTxQueue buff buff.length).map fun r => { p with stTxQueue := r.1 }

def setSendBusy (p : Port) : Port := { p with sendBusy := 1 }

def enableTc (p : Port) : Port := { p with tcEnabled := true }

/-- The space test of `COMM_SendData`: strict only when the queue is not empty. -/
def spaceAnswer (wasEmpty : Bool) (p : Port) (len : ℕ) : Option UInt8 :=
  if wasEmpty then if len > lzmQueueDataFreeSpace p.stTxQueue then some 0xff else none
  else if lzmQueueDataFreeSpace p.stTxQueue > len then none else some 1

def commSendData (p : Port) (buff : List UInt8) : Option (Port × UInt8) :=
  match spaceAnswer (lzmQueueEmpty p.stTxQueue) p buff.length with
  | some answer => some (p, answer)
  | none =>
    (batchInsertComTxQueue (commCtrlEnableSend p) buff).map fun p => (enableTc (setSendBusy p), 0)

/-- The direction control of a port: its callbacks, if it has been set up. -/
def wiring (p : Port) : Option (Bool × Bool) :=
  if p.ctrlValidFlag = .ctrlValid then some (p.recvEnable, p.sendEnable) else none

/-- The line follows the status on a port with both callbacks. -/
def LineFollows (p : Port) : Prop := wiring p = some (true, true) → p.line = p.ctrlStatus

section CtrlEnable

variable (status : CommAttribValue) (callback : Bool) (p : Port)

@[simp] theorem ctrlEnable_stTxQueue : (ctrlEnable status callback p).stTxQueue = p.stTxQueue := by
  unfold ctrlEnable
  split_ifs <;> rfl

@[simp] theorem ctrlEnable_sendBusy : (ctrlEnable status callback p).sendBusy = p.sendBusy := by
  unfold ctrlEnable
  split_ifs <;> rfl

@[simp] theorem ctrlEnable_tcEnabled : (ctrlEnable status callback p).tcEnabled = p.tcEnabled := by
  unfold ctrlEnable
  split_ifs <;> rfl

@[simp] theorem ctrlEnable_dataRegister :
    (ctrlEnable status callback p).dataRegister = p.dataRegister := by
  unfold ctrlEnable
  split_ifs <;> rfl

@[simp] theorem ctrlEnable_wiring : wiring (ctrlEnable status callback p) = wiring p := by
  unfold ctrlEnable
  split_ifs <;> rfl

variable {p}

theorem ctrlEnable_ctrlStatus (h : (wiring p).isSome) :
    (ctrlEnable status callback p).ctrlStatus = status := by
  have hvalid : p.ctrlValidFlag = .ctrlValid := by
    by_contra hne
    simp [wiring, hne] at h
  by_cases hstatus : p.ctrlStatus = status <;> simp [ctrlEnable, hvalid, hstatus]

theorem ctrlEnable_lineFollows (h : LineFollows p)
    (hcallback : wiring p = some (true, true) → callback = true) :
    LineFollows (ctrlEnable status callback p) := by
  intro hw
  rw [ctrlEnable_wiring] at hw
  rw [ctrlEnable, hcallback hw]
  split
  · exact h hw
  · split
    · exact h hw
    · rfl

end CtrlEnable

theorem wiring_recvEnable {p : Port} (h : wiring p = some (true, true)) : p.recvEnable = true := by
  unfold wiring at h
  split_ifs at h
  simp_all

theorem wiring_sendEnable {p : Port} (h : wiring p = some (true, true)) : p.sendEnable = true := by
  unfold wiring at h
  split_ifs at h
  simp_all

theorem initialPort_wiring (com : Com) (txData : TxData com) (control : Option (Bool × Bool)) :
    wiring (initialPort com txData control) = control := by
  cases control with
  | none => rfl
  | some callbacks =>
    rw [initialPort, commCtrlEnableInitialize, commCtrlEnableRecv, ctrlEnable_wiring]
    rfl

theorem initialPort_lineFollows (com : Com) (txData : TxData com)
    (control : Option (Bool × Bool)) : LineFollows (initialPort com txData control) := by
  cases control with
  | none =>
    intro h
    cases h
  | some callbacks =>
    apply ctrlEnable_lineFollows
    · exact fun _ => rfl
    · exact wiring_recvEnable

end VehicleTerminal.Comm
