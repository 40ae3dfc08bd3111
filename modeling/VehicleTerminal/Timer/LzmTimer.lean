import Mathlib.Logic.Function.Basic
import Mathlib.Tactic

/-! The software timers of `Public.c`: a table of slots that a handler walks, firing those
that are due. A callback may set and kill timers itself, its own included; what it does in
one handler call is part of the event. -/
namespace VehicleTerminal.LzmTimers

variable {γ : Type*}

def once : ℕ := 0

def timerEnable : ℕ := 0xBA

def timerDisenable : ℕ := 0x10

/-- The deadline, the reload value, the switch and the callback, which may be null. -/
structure LzmTimer (γ : Type*) where
  counter : ℕ
  interval : ℕ
  enabled : ℕ
  operate : Option γ

/-- The slots by their index. -/
abbrev Table (γ : Type*) := ℕ → LzmTimer γ

section Calls

/-- The functions that set and kill timers, with their arguments. -/
inductive Call (γ : Type*)
  | setCycTimer (i value : ℕ) (function : Option γ)
  | setOnceTimer (i value : ℕ) (function : Option γ)
  | killTimer (i : ℕ)
  | killTimerAll (maxtimes : ℕ)

/-- The slot after `LZM_PublicSetCycTimer`; `now` is what `rt_tick_get` returns. -/
def lzmPublicSetCycTimer (now value : ℕ) (function : Option γ) : LzmTimer γ where
  counter := (value + now) % 2 ^ 32
  interval := value
  enabled := timerEnable
  operate := function

def lzmPublicSetOnceTimer (now value : ℕ) (function : Option γ) : LzmTimer γ where
  counter := (value + now) % 2 ^ 32
  interval := once
  enabled := timerEnable
  operate := function

def lzmPublicKillTimer (stTimer : LzmTimer γ) : LzmTimer γ :=
  { stTimer with enabled := timerDisenable }

def lzmPublicKillTimerAll (maxtimes : ℕ) (stTimers : Table γ) : Table γ := fun i =>
  if i < maxtimes then lzmPublicKillTimer (stTimers i) else stTimers i

/-- What a call at tick `now` makes of the table. -/
def Call.effect (now : ℕ) : Call γ → Table γ → Table γ
  | .setCycTimer i value function, t =>
    Function.update t i (lzmPublicSetCycTimer now value function)
  | .setOnceTimer i value function, t =>
    Function.update t i (lzmPublicSetOnceTimer now value function)
  | .killTimer i, t => Function.update t i (lzmPublicKillTimer (t i))
  | .killTimerAll maxtimes, t => lzmPublicKillTimerAll maxtimes t

/-- The calls of a callback, each at its own tick. -/
def callAll (calls : List (ℕ × Call γ)) (t : Table γ) : Table γ :=
  calls.foldl (fun t call => call.2.effect call.1 t) t

end Calls

section Handler

/-- The switch is on and the deadline is reached. -/
def Due (timerVal : ℕ) (stTimer : LzmTimer γ) : Prop :=
  stTimer.enabled = timerEnable ∧ stTimer.counter ≤ timerVal

instance (timerVal : ℕ) (stTimer : LzmTimer γ) : Decidable (Due timerVal stTimer) :=
  inferInstanceAs (Decidable (_ ∧ _))

/-- What becomes of a slot that fires, before its callback runs: a single timer is switched
off, a repeating one gets its next deadline, which is never in the past. -/
def advance (timerVal : ℕ) (stTimer : LzmTimer γ) : LzmTimer γ :=
  if stTimer.interval = once then { stTimer with enabled := timerDisenable }
  else
    let counter := (stTimer.counter + stTimer.interval) % 2 ^ 32
    { stTimer with counter := if counter < timerVal then timerVal else counter }

/-- What happens in a run: a call, from the program or from a callback, or the firing of a slot in a
handler call that began at the tick `timerVal`, with the callback that runs unless it is null. -/
inductive Occurrence (γ : Type*)
  | call (now : ℕ) (c : Call γ)
  | fired (i timerVal : ℕ) (operate : Option γ)

/-- A scan under way: the table, and what has happened in the scan so far. -/
structure Scan (γ : Type*) where
  table : Table γ
  trace : List (Occurrence γ)

/-- One slot of the scan, with the callback's calls if there is a callback. -/
def scanSlot (timerVal : ℕ) (calls : ℕ → List (ℕ × Call γ)) (i : ℕ) (s : Scan γ) : Scan γ :=
  if Due timerVal (s.table i) then
    let fired := Function.update s.table i (advance timerVal (s.table i))
    match (s.table i).operate with
    | some operate =>
      { table := callAll (calls i) fired
        trace := s.trace ++ .fired i timerVal (some operate) ::
          (calls i).map fun call => .call call.1 call.2 }
    | none => { table := fired, trace := s.trace ++ [.fired i timerVal none] }
  else s

/-- The scan of `LZM_PublicTimerHandler` when it reaches the slot with this index; with `maxtimes`
in its place, what the handler leaves. `timerVal` is read before the scan, and `calls i` is what
the callback of slot `i` does if it runs. -/
def lzmPublicTimerHandler (timerVal : ℕ) (calls : ℕ → List (ℕ × Call γ)) (t : Table γ) :
    ℕ → Scan γ
  | 0 => ⟨t, []⟩
  | i + 1 => scanSlot timerVal calls i (lzmPublicTimerHandler timerVal calls t i)

end Handler

end VehicleTerminal.LzmTimers
