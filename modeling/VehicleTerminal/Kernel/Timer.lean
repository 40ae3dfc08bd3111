import Mathlib.Logic.Function.Basic
import VehicleTerminal.Library.MachineInt
import VehicleTerminal.Library.SkipList

/-! The timers of `timer.c` that the clock interrupt serves. They are started and stopped with
interrupts disabled, and from timeout functions. -/
namespace VehicleTerminal.Kernel.Timer
open MachineInt SkipList

section Model

def rtTickMax : ℕ := 2 ^ 32 - 1

/-- `RT_TIMER_SKIP_LIST_LEVEL` and `RT_TIMER_SKIP_LIST_MASK`. -/
structure Config where
  levels : ℕ
  mask : ℕ
  pos : 0 < levels

/-- An `init_tick` that the assertion of `rt_timer_start` admits, and that is not zero. -/
structure Period where
  ticks : ℕ
  pos : 0 < ticks
  lt : ticks < rtTickMax / 2

structure RtTimer where
  timeoutTick : ℕ
  initTick : Period
  periodic : Bool
  activated : Bool

/-- `rt_tick`, `random_nr` and `rt_timer_list`. The first row has the fewest timers. -/
structure System (T : Type*) where
  rtTick : ℕ
  randomNr : ℕ
  rows : List (List T)
  timers : T → RtTimer

/-- `rt_system_timer_init`, with timers that `rt_timer_init` has set up. -/
def rtTimerInit {T : Type*} (c : Config) (initTick : T → Period) (periodic : T → Bool) :
    System T :=
  ⟨0, 0, List.replicate c.levels [], fun t => ⟨0, initTick t, periodic t, false⟩⟩

inductive Call (T : Type*)
  | start (t : T)
  | stop (t : T)
  | getTime (t : T)
  | setTime (t : T) (time : Period)
  | setOneshot (t : T)
  | setPeriodic (t : T)

/-- What callers and timeout functions see. -/
inductive Entry (T : Type*)
  | tick
  | started (t : T)
  | stopped (t : T)
  | notActive (t : T)
  | time (t : T) (ticks : ℕ)
  | timeSet (t : T) (time : Period)
  | periodicSet (t : T) (periodic : Bool)
  | timeout (t : T)
  | returned (t : T)
  | checked

/-- The rows that a new timer is inserted into, by the bits of `random_nr`. -/
def height (mask : ℕ) : ℕ → ℕ → ℕ
  | 0, _ => 1
  | levels + 1, nr =>
    if nr &&& mask = 0 then height mask levels (nr >>> ((mask + 1) >>> 1)) + 1 else 1

variable {T : Type*} [DecidableEq T]

def System.update (s : System T) (t : T) (timer : RtTimer) : System T :=
  { s with timers := Function.update s.timers t timer }

def System.setActivated (s : System T) (t : T) (activated : Bool) : System T :=
  s.update t { s.timers t with activated := activated }

/-- `timer->timeout_tick = rt_tick_get() + timer->init_tick`. -/
def System.setTimeout (s : System T) (t : T) : System T :=
  let timer := s.timers t
  s.update t { timer with timeoutTick := (s.rtTick + timer.initTick.ticks) % 2 ^ 32 }

/-- `_rt_timer_remove`. -/
def System.remove (s : System T) (t : T) : System T := { s with rows := SkipList.remove t s.rows }

/-- `t->timeout_tick - timer->timeout_tick` is neither zero nor negative. -/
def System.ahead (s : System T) (timer t : T) : Bool :=
  let difference := uint32 ((s.timers t).timeoutTick - (s.timers timer).timeoutTick)
  difference ≠ 0 ∧ difference < rtTickMax / 2

def rtTimerStart (c : Config) (s : System T) (t : T) : System T :=
  let s := ((s.remove t).setActivated t false).setTimeout t
  let randomNr := (s.randomNr + 1) % 2 ^ 32
  let rows := insertRows (s.ahead t) t (height c.mask (c.levels - 1) randomNr) none s.rows
  { s with randomNr := randomNr, rows := rows }.setActivated t true

/-- The state behind `rt_timer_stop`, `none` for the result `-RT_ERROR`. -/
def rtTimerStop (s : System T) (t : T) : Option (System T) :=
  if (s.timers t).activated then some ((s.remove t).setActivated t false) else none

def call (c : Config) (s : System T) : Call T → System T × Entry T
  | .start t => (rtTimerStart c s t, .started t)
  | .stop t =>
    match rtTimerStop s t with
    | none => (s, .notActive t)
    | some s => (s, .stopped t)
  | .getTime t => (s, .time t (s.timers t).initTick.ticks)
  | .setTime t time => (s.update t { s.timers t with initTick := time }, .timeSet t time)
  | .setOneshot t => (s.update t { s.timers t with periodic := false }, .periodicSet t false)
  | .setPeriodic t => (s.update t { s.timers t with periodic := true }, .periodicSet t true)

/-- The calls of a timeout function. -/
def callAll (c : Config) : System T → List (Call T) → System T × List (Entry T)
  | s, [] => (s, [])
  | s, a :: calls =>
    let (s, e) := call c s a
    let (s, entries) := callAll c s calls
    (s, e :: entries)

/-- What `rt_timer_check` does with a timer after its timeout function. -/
def restart (c : Config) (s : System T) (t : T) : System T :=
  let timer := s.timers t
  let s := s.setActivated t false
  if timer.periodic ∧ timer.activated then rtTimerStart c s t else s

/-- `rt_timer_check`, with the calls of the timeout functions. -/
def rtTimerCheck (c : Config) : ℕ → System T → List (List (Call T)) →
    Option (System T × List (Entry T))
  | 0, _, _ => none
  | rounds + 1, s, functions =>
    match bottom s.rows with
    | [] => some (s, [.checked])
    | t :: _ =>
      if uint32 (s.rtTick - (s.timers t).timeoutTick) < rtTickMax / 2 then
        let (s, entries) := callAll c (s.remove t) (functions.headD [])
        (rtTimerCheck c rounds (restart c s t) functions.tail).map fun r =>
          (r.1, .timeout t :: entries ++ .returned t :: r.2)
      else some (s, [.checked])

inductive Action (T : Type*)
  | call (call : Call T)
  | tickIncrease (functions : List (List (Call T)))

def step (c : Config) (rounds : ℕ) (s : System T) : Action T → Option (System T × List (Entry T))
  | .call a =>
    let (s, e) := call c s a
    some (s, [e])
  | .tickIncrease functions =>
    let s := { s with rtTick := (s.rtTick + 1) % 2 ^ 32 }
    (rtTimerCheck c rounds s functions).map fun r => (r.1, .tick :: r.2)

end Model

end VehicleTerminal.Kernel.Timer
