import VehicleTerminal.Kernel.Waiting
import VehicleTerminal.Library.BitFlags
import VehicleTerminal.Library.Simulation

/-! The event sets of `ipc.c` with the threads that wait for flags. A send looks at every suspended
thread in turn, and what it clears for one the next ones do not see. -/
namespace VehicleTerminal.Kernel.Event
open BitFlags PartialRun

section Model

/-- `RT_EVENT_FLAG_AND`. -/
def rtEventFlagAnd : BitVec 8 := 0x01

/-- `RT_EVENT_FLAG_OR`. -/
def rtEventFlagOr : BitVec 8 := 0x02

/-- `RT_EVENT_FLAG_CLEAR`. -/
def rtEventFlagClear : BitVec 8 := 0x04

/-- What `rt_event_recv` is asked for; in a suspended thread `event_set`, `event_info`, and the time
its timer was started with. -/
structure Wanted where
  eventSet : BitVec 32
  eventInfo : BitVec 8
  timeout : ℤ
  deriving Repr, DecidableEq

/-- What is received out of a set, if it is enough. With neither AND nor OR it never is. -/
def Wanted.received (wanted : Wanted) (set : BitVec 32) : Option (BitVec 32) :=
  if wanted.eventInfo &&& rtEventFlagAnd ≠ 0 then
    if wanted.eventSet &&& set = wanted.eventSet then some wanted.eventSet else none
  else if wanted.eventInfo &&& rtEventFlagOr ≠ 0 then
    if wanted.eventSet &&& set ≠ 0 then some (wanted.eventSet &&& set) else none
  else none

/-- The set that is left behind when `recved` was received. -/
def Wanted.left (wanted : Wanted) (set recved : BitVec 32) : BitVec 32 :=
  if wanted.eventInfo &&& rtEventFlagClear ≠ 0 then set &&& ~~~recved else set

structure System (T : Type*) where
  set : BitVec 32
  threads : Waiting T Wanted

inductive Action (T : Type*)
  | send (set : BitVec 32)
  | recv (thread : T) (wanted : Wanted)
  | goOn (thread : T)
  | threadTimeout (thread : T)
  | reset
  deriving Repr, DecidableEq

/-- What happens to the flags: flags are sent, a thread asks for some, is given what it wants, and
its call returns; or its call fails. -/
inductive Entry (T : Type*)
  | sent (set : BitVec 32)
  | called (thread : T) (wanted : Wanted)
  | given (thread : T) (wanted : Wanted) (recved : BitVec 32)
  | returned (thread : T) (recved : BitVec 32)
  | failed (thread : T) (err : Err)
  | wiped
  deriving Repr, DecidableEq

/-- `rt_event_create`. -/
def rtEventCreate {T : Type*} : System T := ⟨0, .nobody⟩

variable {T : Type*} [DecidableEq T]

/-- The loop of `rt_event_send` over the threads that it finds suspended. -/
def resumeSatisfied (event : System T) : List T → System T × List (Entry T)
  | [] => (event, [])
  | thread :: rest =>
    match event.threads.call thread with
    | none => resumeSatisfied event rest
    | some wanted =>
      match wanted.received event.set with
      | none => resumeSatisfied event rest
      | some recved =>
        let threads := event.threads.setCall thread (some { wanted with eventSet := recved })
        let event := ⟨wanted.left event.set recved, threads.resume thread⟩
        let r := resumeSatisfied event rest
        (r.1, .given thread wanted recved :: r.2)

def rtEventSend (event : System T) (set : BitVec 32) : System T × List (Entry T) :=
  if set = 0 then (event, [])
  else
    let event := { event with set := event.set ||| set }
    let r := resumeSatisfied event event.threads.suspendThread
    (r.1, .sent set :: r.2)

/-- `rt_event_recv` up to `rt_schedule`. -/
def rtEventRecv (priority : T → ℕ) (flag : IpcFlag) (event : System T) (thread : T)
    (wanted : Wanted) : System T × List (Entry T) :=
  if wanted.eventSet = 0 then (event, [.called thread wanted, .failed thread .error])
  else
    let threads := event.threads.setError thread .eok
    match wanted.received event.set with
    | some _ =>
      let recved := event.set &&& wanted.eventSet
      (⟨if wanted.eventInfo &&& rtEventFlagClear ≠ 0 then event.set &&& ~~~wanted.eventSet
          else event.set, threads⟩,
        [.called thread wanted, .given thread wanted recved, .returned thread recved])
    | none =>
      if wanted.timeout = 0 then
        ({ event with threads := threads.setError thread .etimeout },
          [.called thread wanted, .failed thread .etimeout])
      else
        ({ event with threads := threads.suspend priority flag thread wanted },
          [.called thread wanted])

/-- `rt_event_recv` behind `rt_schedule`. -/
def goOn (event : System T) (thread : T) : System T × List (Entry T) :=
  match event.threads.wake thread with
  | .absent => (event, [])
  | .failed err =>
    ({ event with threads := event.threads.setCall thread none }, [.failed thread err])
  | .resumed wanted =>
    ({ event with threads := event.threads.setCall thread none },
      [.returned thread wanted.eventSet])

/-- `rt_event_control` with the command `RT_IPC_CMD_RESET`. -/
def rtEventReset (event : System T) : System T × List (Entry T) :=
  (⟨0, event.threads.resumeAll⟩, [.wiped])

def eventTimeout (event : System T) (thread : T) : System T :=
  { event with threads := event.threads.threadTimeout (fun w => decide (0 < w.timeout)) thread }

/-- A thread that is inside a call makes no other one. -/
def step (priority : T → ℕ) (flag : IpcFlag) (event : System T) :
    Action T → Option (System T × List (Entry T))
  | .send set => some (rtEventSend event set)
  | .recv thread wanted =>
    if event.threads.call thread = none then some (rtEventRecv priority flag event thread wanted)
    else some (event, [])
  | .goOn thread => some (goOn event thread)
  | .threadTimeout thread => some (eventTimeout event thread, [])
  | .reset => some (rtEventReset event)

end Model

section Ledger

variable {T : Type*}

/-- The flags that were sent and not cleared since; what the threads have asked for whose calls have
not returned, and what they were given. -/
structure Ledger (T : Type*) where
  pending : Set ℕ
  wants : T → Option Wanted
  given : T → Option (BitVec 32)

def Ledger.empty : Ledger T := ⟨∅, fun _ => none, fun _ => none⟩

def Wanted.And (wanted : Wanted) : Prop := wanted.eventInfo &&& rtEventFlagAnd ≠ 0

def Wanted.Or (wanted : Wanted) : Prop := wanted.eventInfo &&& rtEventFlagOr ≠ 0

def Wanted.Clear (wanted : Wanted) : Prop := wanted.eventInfo &&& rtEventFlagClear ≠ 0

instance (wanted : Wanted) : Decidable wanted.And := inferInstanceAs (Decidable (_ ≠ _))

instance (wanted : Wanted) : Decidable wanted.Or := inferInstanceAs (Decidable (_ ≠ _))

instance (wanted : Wanted) : Decidable wanted.Clear := inferInstanceAs (Decidable (_ ≠ _))

/-- These flags are what the thread wants: all of its own, or those of its own that are there. -/
def Wanted.Gets (wanted : Wanted) (pending : Set ℕ) (recved : BitVec 32) : Prop :=
  wanted.And ∧ flags wanted.eventSet ⊆ pending ∧ recved = wanted.eventSet ∨
    ¬ wanted.And ∧ wanted.Or ∧ flags recved = flags wanted.eventSet ∩ pending ∧ recved ≠ 0

variable [DecidableEq T]

def Ledger.next (m : Ledger T) : Entry T → Ledger T
  | .sent set => { m with pending := m.pending ∪ flags set }
  | .called thread wanted => { m with wants := Function.update m.wants thread (some wanted) }
  | .given thread wanted recved => { m with
      pending := if wanted.Clear then m.pending \ flags recved else m.pending
      given := Function.update m.given thread (some recved) }
  | .returned thread _ => { m with
      wants := Function.update m.wants thread none
      given := Function.update m.given thread none }
  | .failed thread _ => { m with wants := Function.update m.wants thread none }
  | .wiped => { m with pending := ∅ }

/-- What may happen: a thread is given what it asked for out of the flags that are there, once, and
returns with it. -/
def Ledger.Ok (m : Ledger T) : Entry T → Prop
  | .sent set => set ≠ 0
  | .called thread _ => m.wants thread = none ∧ m.given thread = none
  | .given thread wanted recved =>
    m.wants thread = some wanted ∧ m.given thread = none ∧ wanted.Gets m.pending recved
  | .returned thread recved => m.given thread = some recved
  | .failed thread _ => m.wants thread ≠ none ∧ m.given thread = none
  | .wiped => True

/-- The action that an entry comes from. -/
def Entry.origin : Entry T → List (Action T)
  | .sent set => [.send set]
  | .called thread wanted => [.recv thread wanted]
  | .wiped => [.reset]
  | _ => []

/-- The actions that have a beginning that can be seen. -/
def Action.begins (m : Ledger T) : Action T → List (Action T)
  | .send set => if set = 0 then [] else [.send set]
  | .recv thread wanted => if m.wants thread = none then [.recv thread wanted] else []
  | .reset => [.reset]
  | _ => []

/-- What one action may do. -/
def Served (m : Ledger T) (a : Action T) (entries : List (Entry T)) (m' : Ledger T) : Prop :=
  Monitored Ledger.next Ledger.Ok m entries ∧ m' = entries.foldl Ledger.next m ∧
    entries.flatMap Entry.origin = a.begins m

end Ledger

end VehicleTerminal.Kernel.Event
