import VehicleTerminal.Kernel.Waiting
import VehicleTerminal.Library.Simulation

/-! The message queues of `ipc.c`. The blocks of a pool are linked to a queue and to a list of free
blocks; a call takes its block out of one of them, copies while the interrupts are enabled, and puts
the block into the other one. Each of these is a step of its own, and so is what a suspended thread
does behind `rt_schedule`. -/
namespace VehicleTerminal.Kernel.MessageQueue
open PartialRun

section Model

/-- A block is named by its number in `msg_pool`; `next` is its header, `content` what is behind
it. -/
structure RtMessagequeue where
  msgSize : ℕ
  maxMsgs : ℕ
  next : ℕ → Option ℕ
  content : ℕ → List UInt8
  entry : ℕ
  msgQueueHead : Option ℕ
  msgQueueTail : Option ℕ
  msgQueueFree : Option ℕ

/-- The call of a thread between two of its critical sections, with its block. -/
inductive Busy
  | filling (msg : ℕ) (buffer : List UInt8) (urgent : Bool)
  | linking (msg : ℕ) (buffer : List UInt8) (urgent : Bool)
  | copying (msg size : ℕ)
  | freeing (msg : ℕ) (data : List UInt8)
  deriving Repr, DecidableEq

/-- What a suspended thread waits for. -/
structure Receiving where
  size : ℕ
  timeout : ℤ
  deriving Repr, DecidableEq

structure System (T : Type*) where
  mq : RtMessagequeue
  threads : Waiting T Receiving
  busy : T → Option Busy

inductive Action (T : Type*)
  | send (thread : T) (buffer : List UInt8) (urgent : Bool)
  | recv (thread : T) (wanted : Receiving)
  | goOn (thread : T) (elapsed : ℕ)
  | threadTimeout (thread : T)
  | reset
  deriving Repr, DecidableEq

/-- What happens to the messages, and what the calls return that get none. -/
inductive Entry (T : Type*)
  | began (thread : T) (buffer : List UInt8) (urgent : Bool)
  | called (thread : T) (size : ℕ)
  | taken (thread : T)
  | copied (thread : T)
  | linked (thread : T)
  | received (thread : T) (data : List UInt8)
  | returned (thread : T) (err : Err)
  | wiped
  deriving Repr, DecidableEq

/-- The loop of `rt_mq_init` over the blocks, the last one first in the free list. -/
def initFree : ℕ → (ℕ → Option ℕ) × Option ℕ
  | 0 => (fun _ => none, none)
  | temp + 1 =>
    let r := initFree temp
    (Function.update r.1 temp r.2, some temp)

/-- `rt_mq_init` and `rt_mq_create`, for messages of an aligned size; `pool` are the bytes that the
blocks happen to hold. -/
def rtMqInit {T : Type*} (msgSize maxMsgs : ℕ) (pool : ℕ → ℕ → UInt8) : System T where
  mq := {
    msgSize := msgSize
    maxMsgs := maxMsgs
    next := (initFree maxMsgs).1
    content := fun msg => (List.range msgSize).map (pool msg)
    entry := 0
    msgQueueHead := none
    msgQueueTail := none
    msgQueueFree := (initFree maxMsgs).2 }
  threads := .nobody
  busy _ := none

def RtMessagequeue.setNext (mq : RtMessagequeue) (msg : ℕ) (link : Option ℕ) : RtMessagequeue :=
  { mq with next := Function.update mq.next msg link }

/-- `rt_memcpy` to a block. -/
def RtMessagequeue.fill (mq : RtMessagequeue) (msg : ℕ) (buffer : List UInt8) : RtMessagequeue :=
  { mq with
    content := Function.update mq.content msg (buffer ++ (mq.content msg).drop buffer.length) }

/-- The critical section of `rt_mq_send` behind the copying. -/
def RtMessagequeue.linkBack (mq : RtMessagequeue) (msg : ℕ) : RtMessagequeue :=
  let mq := match mq.msgQueueTail with
    | some tail => mq.setNext tail (some msg)
    | none => mq
  { mq with
    msgQueueTail := some msg
    msgQueueHead := if mq.msgQueueHead = none then some msg else mq.msgQueueHead
    entry := mq.entry + 1 }

/-- The critical section of `rt_mq_urgent` behind the copying. -/
def RtMessagequeue.linkFront (mq : RtMessagequeue) (msg : ℕ) : RtMessagequeue :=
  { mq.setNext msg mq.msgQueueHead with
    msgQueueHead := some msg
    msgQueueTail := if mq.msgQueueTail = none then some msg else mq.msgQueueTail
    entry := mq.entry + 1 }

/-- A message is taken off the queue; without one the access goes through a null pointer. -/
def RtMessagequeue.unlink (mq : RtMessagequeue) : Option (RtMessagequeue × ℕ) :=
  mq.msgQueueHead.map fun msg =>
    ({ mq with
      msgQueueHead := mq.next msg
      msgQueueTail := if mq.msgQueueTail = some msg then none else mq.msgQueueTail }, msg)

/-- A block is put to the free list. -/
def RtMessagequeue.release (mq : RtMessagequeue) (msg : ℕ) : RtMessagequeue :=
  { mq.setNext msg mq.msgQueueFree with msgQueueFree := some msg }

/-- The `while` loop of `rt_mq_control`; it has no result when it is not over after `fuel`
rounds. -/
def RtMessagequeue.releaseAll (mq : RtMessagequeue) : ℕ → Option RtMessagequeue
  | 0 => if mq.msgQueueHead = none then some mq else none
  | fuel + 1 =>
    match mq.unlink with
    | none => some mq
    | some (mq, msg) => (mq.release msg).releaseAll fuel

variable {T : Type*} [DecidableEq T]

def System.setBusy (s : System T) (thread : T) (busy : Option Busy) : System T :=
  { s with busy := Function.update s.busy thread busy }

/-- `rt_mq_send` and `rt_mq_urgent` up to the copying. -/
def rtMqSend (s : System T) (thread : T) (buffer : List UInt8) (urgent : Bool) :
    System T × List (Entry T) :=
  if s.mq.msgSize < buffer.length then (s, [.returned thread .error])
  else
    match s.mq.msgQueueFree with
    | none => (s, [.returned thread .efull])
    | some msg =>
      let mq := { s.mq with msgQueueFree := s.mq.next msg }
      ({ s with mq := mq }.setBusy thread (some (.filling msg buffer urgent)),
        [.began thread buffer urgent])

/-- `rt_mq_recv` from the test of its `while` loop on. -/
def rtMqLoop (priority : T → ℕ) (flag : IpcFlag) (s : System T) (thread : T) (wanted : Receiving) :
    Option (System T × List (Entry T)) :=
  if s.mq.entry = 0 then
    let threads := s.threads.setError thread .eok
    if wanted.timeout = 0 then
      some ({ s with threads := threads.setError thread .etimeout }, [.returned thread .etimeout])
    else some ({ s with threads := threads.suspend priority flag thread wanted }, [])
  else
    s.mq.unlink.map fun r =>
      ({ s with mq := { r.1 with entry := r.1.entry - 1 } }.setBusy thread
        (some (.copying r.2 wanted.size)), [.taken thread])

def rtMqRecv (priority : T → ℕ) (flag : IpcFlag) (s : System T) (thread : T) (wanted : Receiving) :
    Option (System T × List (Entry T)) :=
  if s.mq.entry = 0 ∧ wanted.timeout = 0 then
    some (s, [.called thread wanted.size, .returned thread .etimeout])
  else
    (rtMqLoop priority flag s thread wanted).map fun r =>
      (r.1, .called thread wanted.size :: r.2)

/-- The call with the timeout that is left. -/
def Receiving.after (elapsed : ℕ) (wanted : Receiving) : Receiving :=
  { wanted with
    timeout := if 0 < wanted.timeout then max 0 (wanted.timeout - elapsed) else wanted.timeout }

/-- The next step of a call that has a block. -/
def busyStep (s : System T) (thread : T) : Busy → System T × List (Entry T)
  | .filling msg buffer urgent =>
    let mq := if urgent then s.mq else s.mq.setNext msg none
    ({ s with mq := mq.fill msg buffer }.setBusy thread (some (.linking msg buffer urgent)),
      [.copied thread])
  | .linking msg _ urgent =>
    let mq := if urgent then s.mq.linkFront msg else s.mq.linkBack msg
    ({ s with mq := mq, threads := s.threads.resumeFirst }.setBusy thread none, [.linked thread])
  | .copying msg size =>
    let size := if size > s.mq.msgSize then s.mq.msgSize else size
    (s.setBusy thread (some (.freeing msg ((s.mq.content msg).take size))), [.copied thread])
  | .freeing msg data =>
    ({ s with mq := s.mq.release msg }.setBusy thread none, [.received thread data])

/-- What a thread does next that is inside a call. -/
def goOn (priority : T → ℕ) (flag : IpcFlag) (s : System T) (thread : T) (elapsed : ℕ) :
    Option (System T × List (Entry T)) :=
  match s.busy thread with
  | some busy => some (busyStep s thread busy)
  | none =>
    match s.threads.wake thread with
    | .absent => some (s, [])
    | .failed err =>
      some ({ s with threads := s.threads.setCall thread none }, [.returned thread err])
    | .resumed wanted =>
      rtMqLoop priority flag { s with threads := s.threads.setCall thread none } thread
        (wanted.after elapsed)

/-- `rt_mq_control` with the command `RT_IPC_CMD_RESET`. -/
def rtMqReset (s : System T) : Option (System T × List (Entry T)) :=
  (s.mq.releaseAll s.mq.maxMsgs).map fun mq =>
    ({ s with mq := { mq with entry := 0 }, threads := s.threads.resumeAll }, [.wiped])

/-- A thread that is inside a call makes no other one. -/
def step (priority : T → ℕ) (flag : IpcFlag) (s : System T) :
    Action T → Option (System T × List (Entry T))
  | .send thread buffer urgent =>
    if s.busy thread = none ∧ s.threads.call thread = none then
      some (rtMqSend s thread buffer urgent)
    else some (s, [])
  | .recv thread wanted =>
    if s.busy thread = none ∧ s.threads.call thread = none then
      rtMqRecv priority flag s thread wanted
    else some (s, [])
  | .goOn thread elapsed => goOn priority flag s thread elapsed
  | .threadTimeout thread =>
    some ({ s with
      threads := s.threads.threadTimeout (fun w => decide (0 < w.timeout)) thread }, [])
  | .reset => rtMqReset s

end Model

section Ledger

variable {T : Type*}

/-- What a thread does in its call: it sends a message, it waits for one, or it has taken one. -/
inductive Doing
  | sending (buffer : List UInt8) (urgent copied : Bool)
  | waiting (size : ℕ)
  | taking (message : List UInt8) (size : ℕ) (copied : Bool)
  deriving Repr, DecidableEq

/-- The messages that are queued, and what the threads do with others. -/
structure Ledger (T : Type*) where
  queue : List (List UInt8)
  doing : T → Option Doing

def Ledger.empty : Ledger T := ⟨[], fun _ => none⟩

/-- A message is in the hands of the thread. -/
def Doing.HasMessage : Doing → Prop
  | .sending _ _ _ => True
  | .waiting _ => False
  | .taking _ _ _ => True

def Doing.copied : Doing → Doing
  | .sending buffer urgent _ => .sending buffer urgent true
  | .waiting size => .waiting size
  | .taking message size _ => .taking message size true

/-- The bytes that a receiver gets of a message when it asks for `size`; behind the end of the
message there is what was in the block. -/
def Delivers (msgSize : ℕ) (message : List UInt8) (size : ℕ) (data : List UInt8) : Prop :=
  data.length = min size msgSize ∧ data.take message.length = message.take size

/-- The messages that are queued or in the hands of threads are as many as there are blocks. -/
def Ledger.Full (maxMsgs : ℕ) (m : Ledger T) : Prop :=
  ∃ hands : Finset T, (∀ t, t ∈ hands ↔ ∃ doing, m.doing t = some doing ∧ doing.HasMessage) ∧
    m.queue.length + hands.card = maxMsgs

variable [DecidableEq T]

def Ledger.set (m : Ledger T) (thread : T) (doing : Option Doing) : Ledger T :=
  { m with doing := Function.update m.doing thread doing }

def Ledger.next (m : Ledger T) : Entry T → Ledger T
  | .began thread buffer urgent => m.set thread (some (.sending buffer urgent false))
  | .called thread size => m.set thread (some (.waiting size))
  | .taken thread =>
    match m.queue, m.doing thread with
    | message :: queue, some (.waiting size) =>
      { m with queue := queue }.set thread (some (.taking message size false))
    | _, _ => m
  | .copied thread => m.set thread ((m.doing thread).map Doing.copied)
  | .linked thread =>
    match m.doing thread with
    | some (.sending buffer urgent _) =>
      { m with queue := if urgent then buffer :: m.queue else m.queue ++ [buffer] }.set thread none
    | _ => m
  | .received thread _ => m.set thread none
  | .returned thread _ => m.set thread none
  | .wiped => { m with queue := [] }

/-- What one step of a thread that is inside a call may be. A receiver that is woken may find the
queue empty again. -/
def Doing.Goes (msgSize : ℕ) (m : Ledger T) (thread : T) (entries : List (Entry T)) :
    Doing → Prop
  | .sending _ _ false => entries = [.copied thread]
  | .sending _ _ true => entries = [.linked thread]
  | .waiting _ => entries = [] ∨ (m.queue ≠ [] ∧ entries = [.taken thread]) ∨
      ∃ err, err ≠ .eok ∧ entries = [.returned thread err]
  | .taking _ _ false => entries = [.copied thread]
  | .taking message size true =>
    ∃ data, Delivers msgSize message size data ∧ entries = [.received thread data]

/-- What one action is answered with. A send is refused when the message is too long, or else when
all blocks are in use, and only then. -/
def Ledger.Answers (msgSize maxMsgs : ℕ) (m : Ledger T) (entries : List (Entry T)) :
    Action T → Prop
  | .send thread buffer urgent =>
    if m.doing thread ≠ none then entries = []
    else if msgSize < buffer.length then entries = [.returned thread .error]
    else m.Full maxMsgs ∧ entries = [.returned thread .efull] ∨
      ¬ m.Full maxMsgs ∧ entries = [.began thread buffer urgent]
  | .recv thread wanted =>
    if m.doing thread ≠ none then entries = []
    else if m.queue ≠ [] then entries = [.called thread wanted.size, .taken thread]
    else if wanted.timeout = 0 then
      entries = [.called thread wanted.size, .returned thread .etimeout]
    else entries = [.called thread wanted.size]
  | .goOn thread _ =>
    match m.doing thread with
    | none => entries = []
    | some doing => doing.Goes msgSize m thread entries
  | .threadTimeout _ => entries = []
  | .reset => entries = [.wiped]

/-- What one action may do. -/
def Served (msgSize maxMsgs : ℕ) (m : Ledger T) (a : Action T) (entries : List (Entry T))
    (m' : Ledger T) : Prop :=
  m.Answers msgSize maxMsgs entries a ∧ m' = entries.foldl Ledger.next m

end Ledger

end VehicleTerminal.Kernel.MessageQueue
