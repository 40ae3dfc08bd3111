import Mathlib.Logic.Function.Basic
import VehicleTerminal.Library.Simulation

/-! The timed tasks of `taskschedule.c`. The scheduler looks for expired tasks and posts their
numbers to a mailbox, the task thread runs their handlers and stores what they return, and
anyone may set and clear tasks. Every statement at which another context may get in is a step
of its own. -/
namespace VehicleTerminal.TaskSchedule

section Model

/-- `MAX_TIMETASK`: the length of the task table, and the capacity of the mailbox. -/
def maxTimetask : ℕ := 5

inductive FunctionalState
  | disable
  | enable
  deriving DecidableEq

structure TimeTask where
  taskTimerState : FunctionalState
  taskTimerCount : ℕ
  taskExTimer : ℕ

/-- Where `TimerTaskScheduler` stands; the tick is read once, at its beginning. -/
inductive Scheduler
  | idle
  | looking (i nowtimer : ℕ)
  | enabled (i nowtimer : ℕ)
  | due (i nowtimer : ℕ)
  | posting (i nowtimer : ℕ)
  deriving DecidableEq

/-- Where the loop of `task_schedule_thread_entry` stands. -/
inductive Thread
  | waiting
  | received (mail : ℕ)
  | operating (mail : ℕ)
  | storing (mail : ℕ) (validflag : FunctionalState)
  deriving DecidableEq

structure System where
  myTimerTask : ℕ → TimeTask
  tick : ℕ
  mailbox : List ℕ
  scheduler : Scheduler
  thread : Thread

/-- The next step: of the clock, of whoever sets or clears a task, of the scheduler, or of the
task thread. -/
inductive Action
  | tick
  | setTimerTask (task time : ℕ)
  | clrTimerTask (task : ℕ)
  | timerTaskScheduler
  | receive
  | operate
  | finish (validflag : FunctionalState)
  | store
  deriving DecidableEq

/-- What can be seen of a step. -/
inductive Output
  | silent
  | wasSet (task : ℕ)
  | recognised (task nowtimer taskExTimer : ℕ)
  | started (task : ℕ)
  deriving DecidableEq

/-- Switch, deadline and period of the tasks at power-on. -/
def myTimerTask : ℕ → TimeTask
  | 0 => ⟨.disable, 0, 10⟩
  | 1 => ⟨.disable, 0, 10⟩
  | 2 => ⟨.disable, 0, 10⟩
  | 3 => ⟨.enable, 0, 2⟩
  | 4 => ⟨.enable, 0, 100⟩
  | _ => ⟨.disable, 0, 0⟩

def initial (tick : ℕ) : System := ⟨myTimerTask, tick, [], .idle, .waiting⟩

/-- The system with another entry for one task. -/
def System.withTask (s : System) (i : ℕ) (entry : TimeTask) : System :=
  { s with myTimerTask := Function.update s.myTimerTask i entry }

def setTimerTask (task time : ℕ) (s : System) : System :=
  s.withTask task ⟨.enable, (time + s.tick) % 2 ^ 32, time⟩

def clrTimerTask (task : ℕ) (s : System) : System :=
  s.withTask task { s.myTimerTask task with taskTimerState := .disable }

/-- One step of `TimerTaskScheduler`. A mail that does not fit the mailbox is lost, since the
result of `rt_mb_send` is not looked at. -/
def timerTaskScheduler (s : System) : System × Output :=
  match s.scheduler with
  | .idle => ({ s with scheduler := .looking 0 s.tick }, .silent)
  | .looking i nowtimer =>
    if i < maxTimetask then
      if (s.myTimerTask i).taskTimerState = .enable then
        ({ s with scheduler := .enabled i nowtimer }, .silent)
      else ({ s with scheduler := .looking (i + 1) nowtimer }, .silent)
    else ({ s with scheduler := .idle }, .silent)
  | .enabled i nowtimer =>
    if (s.myTimerTask i).taskTimerCount ≤ nowtimer then
      ({ s with scheduler := .due i nowtimer },
        .recognised i nowtimer (s.myTimerTask i).taskExTimer)
    else ({ s with scheduler := .looking (i + 1) nowtimer }, .silent)
  | .due i nowtimer =>
    let entry := { s.myTimerTask i with
      taskTimerCount := (nowtimer + (s.myTimerTask i).taskExTimer) % 2 ^ 32 }
    ({ s.withTask i entry with scheduler := .posting i nowtimer }, .silent)
  | .posting i nowtimer =>
    ({ s with
        mailbox := if s.mailbox.length < maxTimetask then s.mailbox ++ [i] else s.mailbox
        scheduler := .looking (i + 1) nowtimer }, .silent)

/-- One step of the system; none if the step is not possible in this state. -/
def step (s : System) : Action → Option (System × Output)
  | .tick => some ({ s with tick := (s.tick + 1) % 2 ^ 32 }, .silent)
  | .setTimerTask task time => some (setTimerTask task time s, .wasSet task)
  | .clrTimerTask task => some (clrTimerTask task s, .silent)
  | .timerTaskScheduler => some (timerTaskScheduler s)
  | .receive =>
    match s.thread, s.mailbox with
    | .waiting, mail :: mails =>
      some ({ s with mailbox := mails, thread := .received mail }, .silent)
    | _, _ => none
  | .operate =>
    match s.thread with
    | .received mail => some ({ s with thread := .operating mail }, .started mail)
    | _ => none
  | .finish validflag =>
    match s.thread with
    | .operating mail => some ({ s with thread := .storing mail validflag }, .silent)
    | _ => none
  | .store =>
    match s.thread with
    | .storing mail validflag =>
      let entry := { s.myTimerTask mail with taskTimerState := validflag }
      some ({ s.withTask mail entry with thread := .waiting }, .silent)
    | _ => none

end Model

section Steps

@[simp] theorem withTask_self (s : System) (i : ℕ) (entry : TimeTask) :
    (s.withTask i entry).myTimerTask i = entry := Function.update_self _ _ _

theorem withTask_other (s : System) {i j : ℕ} (entry : TimeTask) (h : j ≠ i) :
    (s.withTask i entry).myTimerTask j = s.myTimerTask j := Function.update_of_ne h _ _

@[simp] theorem withTask_mailbox (s : System) (i : ℕ) (entry : TimeTask) :
    (s.withTask i entry).mailbox = s.mailbox := rfl

@[simp] theorem withTask_scheduler (s : System) (i : ℕ) (entry : TimeTask) :
    (s.withTask i entry).scheduler = s.scheduler := rfl

@[simp] theorem withTask_thread (s : System) (i : ℕ) (entry : TimeTask) :
    (s.withTask i entry).thread = s.thread := rfl

@[simp] theorem withTask_tick (s : System) (i : ℕ) (entry : TimeTask) :
    (s.withTask i entry).tick = s.tick := rfl

/-- The steps of the scheduler by where it stands and what it finds. -/
inductive SchedulerStep (s : System) : System → Output → Prop
  | begin (hat : s.scheduler = .idle) :
    SchedulerStep s { s with scheduler := .looking 0 s.tick } .silent
  | found {i nowtimer : ℕ} (hat : s.scheduler = .looking i nowtimer) (hi : i < maxTimetask)
      (henable : (s.myTimerTask i).taskTimerState = .enable) :
    SchedulerStep s { s with scheduler := .enabled i nowtimer } .silent
  | skip {i nowtimer : ℕ} (hat : s.scheduler = .looking i nowtimer) :
    SchedulerStep s { s with scheduler := .looking (i + 1) nowtimer } .silent
  | finish {i nowtimer : ℕ} (hat : s.scheduler = .looking i nowtimer) :
    SchedulerStep s { s with scheduler := .idle } .silent
  | expired {i nowtimer : ℕ} (hat : s.scheduler = .enabled i nowtimer)
      (hdue : (s.myTimerTask i).taskTimerCount ≤ nowtimer) :
    SchedulerStep s { s with scheduler := .due i nowtimer }
      (.recognised i nowtimer (s.myTimerTask i).taskExTimer)
  | early {i nowtimer : ℕ} (hat : s.scheduler = .enabled i nowtimer) :
    SchedulerStep s { s with scheduler := .looking (i + 1) nowtimer } .silent
  | advance {i nowtimer : ℕ} (hat : s.scheduler = .due i nowtimer) :
    SchedulerStep s
      { s.withTask i { s.myTimerTask i with
          taskTimerCount := (nowtimer + (s.myTimerTask i).taskExTimer) % 2 ^ 32 } with
        scheduler := .posting i nowtimer } .silent
  | post {i nowtimer : ℕ} (hat : s.scheduler = .posting i nowtimer)
      (hroom : s.mailbox.length < maxTimetask) :
    SchedulerStep s { s with
      mailbox := s.mailbox ++ [i]
      scheduler := .looking (i + 1) nowtimer } .silent
  | full {i nowtimer : ℕ} (hat : s.scheduler = .posting i nowtimer)
      (hfull : ¬ s.mailbox.length < maxTimetask) :
    SchedulerStep s { s with scheduler := .looking (i + 1) nowtimer } .silent

theorem timerTaskScheduler_step (s : System) :
    SchedulerStep s (timerTaskScheduler s).1 (timerTaskScheduler s).2 := by
  cases hat : s.scheduler with
  | idle =>
    simp only [timerTaskScheduler, hat]
    exact .begin hat
  | looking i nowtimer =>
    simp only [timerTaskScheduler, hat]
    split_ifs with hi henable
    · exact .found hat hi henable
    · exact .skip hat
    · exact .finish hat
  | enabled i nowtimer =>
    simp only [timerTaskScheduler, hat]
    split_ifs with hdue
    · exact .expired hat hdue
    · exact .early hat
  | due i nowtimer =>
    simp only [timerTaskScheduler, hat]
    exact .advance hat
  | posting i nowtimer =>
    simp only [timerTaskScheduler, hat]
    split_ifs with hroom
    · exact .post hat hroom
    · exact .full hat hroom

variable {s s' : System} {o : Output} {validflag : FunctionalState}

theorem step_scheduler (h : step s .timerTaskScheduler = some (s', o)) : SchedulerStep s s' o := by
  have hstep := timerTaskScheduler_step s
  rwa [show timerTaskScheduler s = (s', o) from Option.some.inj h] at hstep

theorem step_receive (h : step s .receive = some (s', o)) :
    ∃ mail mails, s.thread = .waiting ∧ s.mailbox = mail :: mails ∧
      s' = { s with mailbox := mails, thread := .received mail } ∧ o = .silent := by
  simp only [step] at h
  split at h
  · next mail mails hthread hmail =>
    cases h
    exact ⟨mail, mails, hthread, hmail, rfl, rfl⟩
  · cases h

theorem step_operate (h : step s .operate = some (s', o)) :
    ∃ mail, s.thread = .received mail ∧ s' = { s with thread := .operating mail } ∧
      o = .started mail := by
  simp only [step] at h
  split at h
  · next mail hthread =>
    cases h
    exact ⟨mail, hthread, rfl, rfl⟩
  · cases h

theorem step_finish (h : step s (.finish validflag) = some (s', o)) :
    ∃ mail, s.thread = .operating mail ∧
      s' = { s with thread := .storing mail validflag } ∧ o = .silent := by
  simp only [step] at h
  split at h
  · next mail hthread =>
    cases h
    exact ⟨mail, hthread, rfl, rfl⟩
  · cases h

theorem step_store (h : step s .store = some (s', o)) :
    ∃ mail validflag, s.thread = .storing mail validflag ∧
      s' = { s.withTask mail { s.myTimerTask mail with taskTimerState := validflag } with
        thread := .waiting } ∧ o = .silent := by
  simp only [step] at h
  split at h
  · next mail validflag hthread =>
    cases h
    exact ⟨mail, validflag, hthread, rfl, rfl⟩
  · cases h

def Output.startedTask : Output → List ℕ
  | .started task => [task]
  | _ => []

/-- The tasks of the handlers that are started in a run. -/
def startedTasks (os : List Output) : List ℕ := os.flatMap Output.startedTask

theorem startedTasks_append (os os' : List Output) :
    startedTasks (os ++ os') = startedTasks os ++ startedTasks os' := List.flatMap_append

end Steps

end VehicleTerminal.TaskSchedule
