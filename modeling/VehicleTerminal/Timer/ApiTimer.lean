import Mathlib.Logic.Function.Basic
import Mathlib.Tactic

/-! The 10 ms and the 1 s timers of `ApiTimer.c`. Both services run the same code over a table
of their own, so the functions take the length of the table; what a callback does in one tick,
and what it returns, is part of the tick, and a tick records the callbacks that it runs. -/
namespace VehicleTerminal.ApiTimers

variable {γ : Type*}

inductive ErrorStatus
  | error
  | success
  deriving DecidableEq

def timrOn : ℕ := 1

def timrOff : ℕ := 0

def timerModeOnce : ℕ := 0

def timerModeContinue : ℕ := 1

def timerModeStopWhenSuccess : ℕ := 0xff

def maxTimenum10ms : ℕ := 6

def maxTimenum1s : ℕ := 6

/-- The number has six bits, the switch and the mode one bit each, the length and the count
sixteen. The callback may be null. -/
structure StrTimer (γ : Type*) where
  number : ℕ
  timeswitch : ℕ
  timerMode : ℕ
  timeLen : ℕ
  timeCount : ℕ
  callback : Option γ

abbrev Table (γ : Type*) := ℕ → StrTimer γ

/-- `TimerInit` clears the tables. -/
def timerInit : Table γ := fun _ => ⟨0, 0, 0, 0, 0, none⟩

section Calls

variable (max : ℕ)

/-- Returns 0 if the timer is started; the mode is cut to the width of its field. -/
def timerStart (timeNumber timeLen mode : ℕ) (callBack : Option γ) (t : Table γ) :
    ℕ × Table γ :=
  if timeNumber < max ∧ 0 < timeLen then
    (0, Function.update t timeNumber
      { number := timeNumber % 2 ^ 6
        timeswitch := timrOn
        timerMode := mode % 2 ^ 1
        timeLen := timeLen
        timeCount := 0
        callback := callBack })
  else (1, t)

def restartTime (timeNumber : ℕ) (t : Table γ) : ℕ × Table γ :=
  if timeNumber < max then
    (0, Function.update t timeNumber { t timeNumber with timeswitch := timrOn, timeCount := 0 })
  else (1, t)

def closeTime (timeNumber : ℕ) (t : Table γ) : ℕ × Table γ :=
  if timeNumber < max then
    (0, Function.update t timeNumber { t timeNumber with timeswitch := timrOff })
  else (1, t)

/-- The calls that touch the table. -/
inductive Call (γ : Type*)
  | start (timeNumber timeLen mode : ℕ) (callBack : Option γ)
  | restart (timeNumber : ℕ)
  | close (timeNumber : ℕ)

def Call.timeNumber : Call γ → ℕ
  | .start timeNumber _ _ _ => timeNumber
  | .restart timeNumber => timeNumber
  | .close timeNumber => timeNumber

def Call.effect : Call γ → Table γ → Table γ
  | .start timeNumber timeLen mode callBack, t =>
    (timerStart max timeNumber timeLen mode callBack t).2
  | .restart timeNumber, t => (restartTime max timeNumber t).2
  | .close timeNumber, t => (closeTime max timeNumber t).2

def callAll (calls : List (Call γ)) (t : Table γ) : Table γ :=
  calls.foldl (fun t call => call.effect max t) t

end Calls

section Manage

variable (max : ℕ)

/-- What a callback does if it runs in a tick: its calls, and its result. -/
structure Behaviour (γ : Type*) where
  calls : List (Call γ)
  result : ErrorStatus

/-- The switch is on and this tick completes the length. -/
def Expires (timer : StrTimer γ) : Prop :=
  timer.timeswitch = timrOn ∧ timer.timeLen ≤ (timer.timeCount + 1) % 2 ^ 16

instance (timer : StrTimer γ) : Decidable (Expires timer) := inferInstanceAs (Decidable (_ ∧ _))

/-- A tick under way: the variable `err`, which all slots share, the table, and the callbacks
that have run, each with the number of its slot. -/
structure Progress (γ : Type*) where
  err : ErrorStatus
  table : Table γ
  ran : List (ℕ × γ)

/-- The count of an expired timer is cleared and its callback runs, if it has one; the result of
the callback stays in `err`. -/
def expire (callbacks : ℕ → Behaviour γ) (i : ℕ) (s : Progress γ) : Progress γ :=
  let cleared := Function.update s.table i { s.table i with timeCount := 0 }
  match (s.table i).callback with
  | some callback =>
    { err := (callbacks i).result
      table := callAll max (callbacks i).calls cleared
      ran := s.ran ++ [(i, callback)] }
  | none => { s with table := cleared }

/-- What the mode, as it is stored, makes of a timer after its callback. -/
def settle (err : ErrorStatus) (timer : StrTimer γ) : StrTimer γ :=
  if timer.timerMode = timerModeOnce then { timer with timeswitch := timrOff }
  else if timer.timerMode = timerModeStopWhenSuccess ∧ err = .success then
    { timer with timeswitch := timrOff }
  else timer

/-- One round of the loop of `TimerManage10ms` and `TimerManage1s`. -/
def timerManageSlot (callbacks : ℕ → Behaviour γ) (i : ℕ) (s : Progress γ) : Progress γ :=
  if (s.table i).timeswitch = timrOn then
    let timeCount := ((s.table i).timeCount + 1) % 2 ^ 16
    if (s.table i).timeLen ≤ timeCount then
      let s := expire max callbacks i s
      { s with table := Function.update s.table i (settle s.err (s.table i)) }
    else { s with table := Function.update s.table i { s.table i with timeCount := timeCount } }
  else s

/-- The tick when the loop reaches the slot with this index. -/
def timerManage (callbacks : ℕ → Behaviour γ) (t : Table γ) : ℕ → Progress γ
  | 0 => ⟨.error, t, []⟩
  | i + 1 => timerManageSlot max callbacks i (timerManage callbacks t i)

end Manage

section Services

def timer10msStart (timeNumber timeLen mode : ℕ) (callBack : Option γ) (t : Table γ) :
    ℕ × Table γ :=
  timerStart maxTimenum10ms timeNumber timeLen mode callBack t

def restartTime10ms (timeNumber : ℕ) (t : Table γ) : ℕ × Table γ :=
  restartTime maxTimenum10ms timeNumber t

def closeTime10ms (timeNumber : ℕ) (t : Table γ) : ℕ × Table γ :=
  closeTime maxTimenum10ms timeNumber t

def timerManage10ms (callbacks : ℕ → Behaviour γ) (t : Table γ) : Progress γ :=
  timerManage maxTimenum10ms callbacks t maxTimenum10ms

def timer1sStart (timeNumber timeLen mode : ℕ) (callBack : Option γ) (t : Table γ) :
    ℕ × Table γ :=
  timerStart maxTimenum1s timeNumber timeLen mode callBack t

def closeTime1s (timeNumber : ℕ) (t : Table γ) : ℕ × Table γ :=
  closeTime maxTimenum1s timeNumber t

def timerManage1s (callbacks : ℕ → Behaviour γ) (t : Table γ) : Progress γ :=
  timerManage maxTimenum1s callbacks t maxTimenum1s

end Services

end VehicleTerminal.ApiTimers
