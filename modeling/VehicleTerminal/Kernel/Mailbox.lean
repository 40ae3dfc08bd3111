import Mathlib.Logic.Function.Basic
import VehicleTerminal.Kernel.SuspendList
import VehicleTerminal.Library.Memory
import VehicleTerminal.Library.Simulation

/-! The mailbox of `ipc.c` with the threads that call it. What a call does while the interrupts are
disabled is one step; a thread that was suspended goes on behind `rt_schedule` in a step of its own.
An access outside the message pool has no result. -/
namespace VehicleTerminal.Kernel.Mailbox
open BlockMemory

section Model

structure RtMailbox where
  msgPool : List UInt32
  size : ℕ
  entry : ℕ
  inOffset : ℕ
  outOffset : ℕ
  deriving Repr, DecidableEq

/-- What a thread wants that has been suspended, with the timeout it has left. -/
inductive Call
  | sending (value : UInt32) (timeout : ℤ)
  | receiving (timeout : ℤ)
  deriving Repr, DecidableEq

variable {T : Type*} [DecidableEq T]

/-- `call` is set from the suspension of a thread until its call returns. -/
structure System (T : Type*) where
  mb : RtMailbox
  suspendThread : List T
  suspendSenderThread : List T
  call : T → Option Call
  error : T → Err

inductive Action (T : Type*)
  | sendWait (thread : T) (value : UInt32) (timeout : ℤ)
  | recv (thread : T) (timeout : ℤ)
  | goOn (thread : T) (elapsed : ℕ)
  | threadTimeout (thread : T)
  | reset
  deriving Repr, DecidableEq

inductive Output (T : Type*)
  | silent
  | accepted (value : UInt32)
  | received (thread : T) (value : UInt32)
  | returned (thread : T) (err : Err)
  deriving Repr, DecidableEq

/-- `rt_mb_init`, for as many mails as the pool has room for; the size is kept in 16 bits. -/
def rtMbInit (msgPool : List UInt32) : System T where
  mb := ⟨msgPool, msgPool.length % 2 ^ 16, 0, 0, 0⟩
  suspendThread := []
  suspendSenderThread := []
  call _ := none
  error _ := .eok

def RtMailbox.put (mb : RtMailbox) (value : UInt32) : Option RtMailbox :=
  (store mb.msgPool mb.inOffset value).map fun msgPool =>
    { mb with
      msgPool := msgPool
      inOffset := if mb.inOffset + 1 ≥ mb.size then 0 else mb.inOffset + 1
      entry := mb.entry + 1 }

def RtMailbox.take (mb : RtMailbox) : Option (RtMailbox × UInt32) :=
  (mb.msgPool[mb.outOffset]?).map fun value =>
    ({ mb with
      outOffset := if mb.outOffset + 1 ≥ mb.size then 0 else mb.outOffset + 1
      entry := mb.entry - 1 }, value)

def System.setError (s : System T) (thread : T) (err : Err) : System T :=
  { s with error := Function.update s.error thread err }

def System.setCall (s : System T) (thread : T) (call : Option Call) : System T :=
  { s with call := Function.update s.call thread call }

/-- What a call does from the test of its `while` loop on. `priority` are the priorities of the
threads. -/
def rtMbLoop (priority : T → ℕ) (flag : IpcFlag) (s : System T) (thread : T) :
    Call → Option (System T × Output T)
  | .sending value timeout =>
    if s.mb.entry = s.mb.size then
      let s := s.setError thread .eok
      if timeout = 0 then some (s, .returned thread .efull)
      else
        let list := ipcListSuspend priority flag s.suspendSenderThread thread
        some ({ s.setCall thread (some (.sending value timeout)) with
          suspendSenderThread := list }, .silent)
    else
      (s.mb.put value).map fun mb =>
        ({ s with mb := mb, suspendThread := s.suspendThread.tail }, .accepted value)
  | .receiving timeout =>
    if s.mb.entry = 0 then
      let s := s.setError thread .eok
      if timeout = 0 then some (s.setError thread .etimeout, .returned thread .etimeout)
      else
        let list := ipcListSuspend priority flag s.suspendThread thread
        some ({ s.setCall thread (some (.receiving timeout)) with suspendThread := list }, .silent)
    else
      s.mb.take.map fun r =>
        ({ s with mb := r.1, suspendSenderThread := s.suspendSenderThread.tail },
          .received thread r.2)

/-- The call returns at once when there is nothing to wait for. -/
def rtMbSendWait (priority : T → ℕ) (flag : IpcFlag) (s : System T) (thread : T) (value : UInt32)
    (timeout : ℤ) : Option (System T × Output T) :=
  if s.mb.entry = s.mb.size ∧ timeout = 0 then some (s, .returned thread .efull)
  else rtMbLoop priority flag s thread (.sending value timeout)

def rtMbSend (priority : T → ℕ) (flag : IpcFlag) (s : System T) (thread : T) (value : UInt32) :
    Option (System T × Output T) :=
  rtMbSendWait priority flag s thread value 0

def rtMbRecv (priority : T → ℕ) (flag : IpcFlag) (s : System T) (thread : T) (timeout : ℤ) :
    Option (System T × Output T) :=
  if s.mb.entry = 0 ∧ timeout = 0 then some (s, .returned thread .etimeout)
  else rtMbLoop priority flag s thread (.receiving timeout)

def timeoutAfter (timeout : ℤ) (elapsed : ℕ) : ℤ :=
  if 0 < timeout then max 0 (timeout - elapsed) else timeout

/-- The call with the timeout that is left. -/
def Call.after (elapsed : ℕ) : Call → Call
  | .sending value timeout => .sending value (timeoutAfter timeout elapsed)
  | .receiving timeout => .receiving (timeoutAfter timeout elapsed)

def Call.timeout : Call → ℤ
  | .sending _ timeout => timeout
  | .receiving timeout => timeout

def System.Suspended (s : System T) (thread : T) : Prop :=
  thread ∈ s.suspendThread ∨ thread ∈ s.suspendSenderThread

instance (s : System T) (thread : T) : Decidable (s.Suspended thread) :=
  inferInstanceAs (Decidable (_ ∨ _))

/-- A thread that was resumed goes on behind `rt_schedule`. -/
def goOn (priority : T → ℕ) (flag : IpcFlag) (s : System T) (thread : T) (elapsed : ℕ) :
    Option (System T × Output T) :=
  match s.call thread with
  | none => some (s, .silent)
  | some call =>
    if s.Suspended thread then some (s, .silent)
    else if s.error thread ≠ .eok then
      some (s.setCall thread none, .returned thread (s.error thread))
    else rtMbLoop priority flag (s.setCall thread none) thread (call.after elapsed)

/-- `rt_thread_timeout`, when the timer of the thread was started. -/
def threadTimeout (s : System T) (thread : T) : System T :=
  match s.call thread with
  | none => s
  | some call =>
    if s.Suspended thread ∧ 0 < call.timeout then
      { s.setError thread .etimeout with
        suspendThread := s.suspendThread.erase thread
        suspendSenderThread := s.suspendSenderThread.erase thread }
    else s

def ipcListResumeAll (error : T → Err) (list : List T) : T → Err :=
  fun thread => if thread ∈ list then .error else error thread

/-- `rt_mb_control` with the command `RT_IPC_CMD_RESET`. -/
def rtMbReset (s : System T) : System T :=
  { s with
    mb := { s.mb with entry := 0, inOffset := 0, outOffset := 0 }
    suspendThread := []
    suspendSenderThread := []
    error := ipcListResumeAll (ipcListResumeAll s.error s.suspendThread) s.suspendSenderThread }

/-- A thread that is inside a call that may wait makes no other one; with timeout 0 the calling
context does not matter. -/
def step (priority : T → ℕ) (flag : IpcFlag) (s : System T) :
    Action T → Option (System T × Output T)
  | .sendWait thread value timeout =>
    if timeout = 0 ∨ s.call thread = none then rtMbSendWait priority flag s thread value timeout
    else some (s, .silent)
  | .recv thread timeout =>
    if timeout = 0 ∨ s.call thread = none then rtMbRecv priority flag s thread timeout
    else some (s, .silent)
  | .goOn thread elapsed => goOn priority flag s thread elapsed
  | .threadTimeout thread => some (threadTimeout s thread, .silent)
  | .reset => some (rtMbReset s, .silent)

end Model

end VehicleTerminal.Kernel.Mailbox
