import Mathlib.Logic.Function.Basic
import VehicleTerminal.Library.Simulation

/-! The event tasks of `taskschedule.c`. Anyone may request a task at any time, also the handlers
themselves; the statements of the scheduler at which a request may get in are steps of their own.
A call through a null pointer ends the scheduler. -/
namespace VehicleTerminal.EventTasks
open PartialRun

section Model

inductive EventTask
  | evFctCmd
  | evCanrec
  | evSendRs485
  | evSendDisplay
  | evGetLoginPassword
  | evLinkGovServer
  | evFtpUpdata
  | evCalling
  | evSevCall
  | evRing
  | evRingOver
  | evShowText
  deriving DecidableEq, Repr

def EventTask.toNat : EventTask → ℕ
  | .evFctCmd => 0
  | .evCanrec => 1
  | .evSendRs485 => 2
  | .evSendDisplay => 3
  | .evGetLoginPassword => 4
  | .evLinkGovServer => 5
  | .evFtpUpdata => 6
  | .evCalling => 7
  | .evSevCall => 8
  | .evRing => 9
  | .evRingOver => 10
  | .evShowText => 11

def maxEventask : ℕ := 12

inductive FunctionalState
  | disable
  | enable
  deriving DecidableEq, Repr

inductive Handler
  | evNopHandleTask
  deriving DecidableEq, Repr

/-- A null pointer is `none`. -/
structure EvenTask where
  evTaskOnState : FunctionalState
  operate : Option Handler
  deriving DecidableEq, Repr

/-- The table at power-on: the entries that the initialiser leaves out are zero. -/
def myEvTask : ℕ → EvenTask
  | 0 => ⟨.disable, some .evNopHandleTask⟩
  | 1 => ⟨.disable, some .evNopHandleTask⟩
  | _ => ⟨.disable, none⟩

/-- Where `EvTaskScheduler` stands. -/
inductive Scheduler
  | idle
  | looking (i : ℕ)
  | enabled (i : ℕ)
  | calling (i : ℕ)
  | operating (i : ℕ)
  | faulted
  deriving DecidableEq, Repr

structure System where
  myEvTask : ℕ → EvenTask
  scheduler : Scheduler

def initial : System := ⟨myEvTask, .idle⟩

/-- The next step: a request, a statement of the scheduler, or the return of a handler. -/
inductive Action
  | setEvTask (ev : EventTask)
  | evTaskScheduler
  | finish
  deriving DecidableEq, Repr

/-- What can be seen of a step. A visit passes an event by, or takes it and then calls through
its pointer. -/
inductive Output
  | silent
  | requested (ev : ℕ)
  | passed (ev : ℕ)
  | taken (ev : ℕ)
  | called (ev : ℕ) (operate : Option Handler)
  deriving DecidableEq, Repr

/-- The system with another switch for one event. -/
def System.withState (s : System) (i : ℕ) (state : FunctionalState) : System :=
  { s with myEvTask := Function.update s.myEvTask i ⟨state, (s.myEvTask i).operate⟩ }

def setEvTask (ev : ℕ) (s : System) : System := s.withState ev .enable

def evTaskScheduler (s : System) : Option (System × Output) :=
  match s.scheduler with
  | .idle => some ({ s with scheduler := .looking 0 }, .silent)
  | .looking i =>
    if i < maxEventask then
      if (s.myEvTask i).evTaskOnState ≠ .enable then
        some ({ s with scheduler := .looking (i + 1) }, .passed i)
      else some ({ s with scheduler := .enabled i }, .silent)
    else some ({ s with scheduler := .idle }, .silent)
  | .enabled i => some ({ s.withState i .disable with scheduler := .calling i }, .taken i)
  | .calling i =>
    match (s.myEvTask i).operate with
    | some handler => some ({ s with scheduler := .operating i }, .called i (some handler))
    | none => some ({ s with scheduler := .faulted }, .called i none)
  | .operating _ => none
  | .faulted => none

/-- One step of the system; none if the step is not possible in this state. -/
def step (s : System) : Action → Option (System × Output)
  | .setEvTask ev => some (setEvTask ev.toNat s, .requested ev.toNat)
  | .evTaskScheduler => evTaskScheduler s
  | .finish =>
    match s.scheduler with
    | .operating i => some ({ s with scheduler := .looking (i + 1) }, .silent)
    | _ => none

end Model

section Property

/-- What the requests since the last visits ask for, and the event whose visit has begun. -/
structure Owed where
  requested : ℕ → Bool
  taken : Option ℕ

def nothing : Owed := ⟨fun _ => false, none⟩

def Owed.next (owed : Owed) : Output → Owed
  | .silent => owed
  | .requested ev => { owed with requested := Function.update owed.requested ev true }
  | .passed _ => owed
  | .taken ev => ⟨Function.update owed.requested ev false, some ev⟩
  | .called _ _ => { owed with taken := none }

/-- A visit takes an event exactly when it was requested since its last visit, and before
anything else is visited it is called once, through a pointer that is not null. -/
def Owed.Allows (owed : Owed) : Output → Prop
  | .silent => True
  | .requested _ => True
  | .passed ev => owed.taken = none ∧ owed.requested ev = false
  | .taken ev => owed.taken = none ∧ owed.requested ev = true
  | .called ev operate => owed.taken = some ev ∧ operate ≠ none

def RunsOncePerRequest (os : List Output) : Prop := Monitored Owed.next Owed.Allows nothing os

/-- The event that the scheduler has taken and not called yet. -/
def System.takenEvent (s : System) : Option ℕ :=
  match s.scheduler with
  | .calling i => some i
  | _ => none

/-- The switches are the requests since the last visits, and every event that is switched on or
about to be called has a handler. -/
structure Inv (s : System) (owed : Owed) : Prop where
  requested : ∀ ev, owed.requested ev = decide ((s.myEvTask ev).evTaskOnState = .enable)
  taken : owed.taken = s.takenEvent
  enabled : ∀ i, s.scheduler = .enabled i → (s.myEvTask i).evTaskOnState = .enable
  operate : ∀ ev, (s.myEvTask ev).operate = (myEvTask ev).operate
  handled : ∀ ev, (s.myEvTask ev).evTaskOnState = .enable → (myEvTask ev).operate ≠ none
  calling : ∀ i, s.scheduler = .calling i → (myEvTask i).operate ≠ none

/-- A request for one of the events that the table has a handler for. -/
def Handled : Action → Prop
  | .setEvTask ev => ev = .evFctCmd ∨ ev = .evCanrec
  | _ => True

section Steps

variable {s s' : System} {owed : Owed} {o : Output}

@[simp] theorem withState_self (s : System) (i : ℕ) (state : FunctionalState) :
    ((s.withState i state).myEvTask i).evTaskOnState = state := by
  simp [System.withState]

theorem withState_other (s : System) {i j : ℕ} (state : FunctionalState) (h : j ≠ i) :
    (s.withState i state).myEvTask j = s.myEvTask j := Function.update_of_ne h _ _

@[simp] theorem withState_scheduler (s : System) (i : ℕ) (state : FunctionalState) :
    (s.withState i state).scheduler = s.scheduler := rfl

@[simp] theorem withState_operate (s : System) (i j : ℕ) (state : FunctionalState) :
    ((s.withState i state).myEvTask j).operate = (s.myEvTask j).operate := by
  by_cases h : j = i
  · simp [System.withState, h]
  · rw [withState_other s state h]

theorem initial_inv : Inv initial nothing where
  requested ev := by
    rcases ev with _ | _ | ev <;> rfl
  taken := rfl
  enabled i h := by cases h
  operate ev := rfl
  handled ev h := by
    rcases ev with _ | _ | ev <;> cases h
  calling i h := by cases h

/-- A switch that is set is a request that is remembered. -/
theorem requested_withState (h : Inv s owed) (i ev : ℕ) (state : FunctionalState) :
    Function.update owed.requested i (decide (state = .enable)) ev =
      decide (((s.withState i state).myEvTask ev).evTaskOnState = .enable) := by
  by_cases hev : ev = i
  · subst hev
    simp
  · rw [withState_other s state hev, Function.update_of_ne hev, h.requested]

theorem setEvTask_inv (h : Inv s owed) {ev : ℕ} (hev : (myEvTask ev).operate ≠ none) :
    Inv (setEvTask ev s) (owed.next (.requested ev)) where
  requested := fun i => requested_withState h ev i .enable
  taken := h.taken
  enabled i hi := by
    by_cases hsame : i = ev
    · subst hsame
      exact withState_self s i .enable
    · rw [setEvTask, withState_other s .enable hsame]
      exact h.enabled i hi
  operate i := (withState_operate s ev i .enable).trans (h.operate i)
  handled i hi := by
    by_cases hsame : i = ev
    · exact hsame.symm ▸ hev
    · rw [setEvTask, withState_other s .enable hsame] at hi
      exact h.handled i hi
  calling := h.calling

/-- The scheduler moves to a place from which no event is called. -/
theorem Inv.moveTo (h : Inv s owed) {place : Scheduler}
    (henabled : ∀ i, place ≠ .enabled i) (hcalling : ∀ i, place ≠ .calling i) :
    Inv { s with scheduler := place } { owed with taken := none } where
  requested := h.requested
  taken := by
    cases place with
    | calling i => exact absurd rfl (hcalling i)
    | _ => rfl
  enabled i hi := absurd hi (henabled i)
  operate := h.operate
  handled := h.handled
  calling i hi := absurd hi (hcalling i)

/-- A step of the scheduler, by where it stands and what it finds. -/
theorem evTaskScheduler_inv (h : Inv s owed) (hstep : evTaskScheduler s = some (s', o)) :
    owed.Allows o ∧ Inv s' (owed.next o) := by
  obtain ⟨requested, taken⟩ := owed
  obtain rfl : taken = s.takenEvent := h.taken
  rw [evTaskScheduler] at hstep
  cases hat : s.scheduler with
  | idle =>
    simp only [System.takenEvent, hat] at hstep h ⊢
    cases hstep
    exact ⟨trivial, h.moveTo (by simp) (by simp)⟩
  | looking i =>
    simp only [System.takenEvent, hat] at hstep h ⊢
    split_ifs at hstep with hin hoff
    · cases hstep
      exact ⟨⟨rfl, (h.requested i).trans (decide_eq_false hoff)⟩, h.moveTo (by simp) (by simp)⟩
    · cases hstep
      refine ⟨trivial, h.requested, rfl, fun j hj => ?_, h.operate, h.handled, fun j hj => ?_⟩
      · cases hj
        exact not_not.mp hoff
      · cases hj
    · cases hstep
      exact ⟨trivial, h.moveTo (by simp) (by simp)⟩
  | enabled i =>
    have hon := h.enabled i hat
    simp only [System.takenEvent, hat] at hstep h ⊢
    cases hstep
    refine ⟨⟨rfl, (h.requested i).trans (decide_eq_true hon)⟩,
      fun ev => requested_withState h i ev .disable, rfl, fun j hj => ?_,
      fun j => (withState_operate s i j .disable).trans (h.operate j), fun j hj => ?_,
      fun j hj => ?_⟩
    · cases hj
    · by_cases hsame : j = i
      · exact hsame ▸ h.handled i hon
      · exact h.handled j (by simpa only [withState_other s .disable hsame] using hj)
    · cases hj
      exact h.handled i hon
  | calling i =>
    have hhandled := h.calling i hat
    rw [← h.operate i] at hhandled
    obtain ⟨handler, hhandler⟩ := Option.ne_none_iff_exists'.mp hhandled
    simp only [System.takenEvent, hat, hhandler] at hstep h ⊢
    cases hstep
    exact ⟨⟨rfl, Option.some_ne_none _⟩, h.moveTo (by simp) (by simp)⟩
  | operating i =>
    rw [hat] at hstep
    cases hstep
  | faulted =>
    rw [hat] at hstep
    cases hstep

theorem step_inv (h : Inv s owed) {a : Action} (ha : Handled a) (hstep : step s a = some (s', o)) :
    owed.Allows o ∧ Inv s' (owed.next o) := by
  cases a with
  | setEvTask ev =>
    cases hstep
    refine ⟨trivial, setEvTask_inv h ?_⟩
    rcases ha with rfl | rfl <;> exact Option.some_ne_none _
  | evTaskScheduler => exact evTaskScheduler_inv h hstep
  | finish =>
    simp only [step] at hstep
    split at hstep
    · next i hat =>
      obtain ⟨requested, taken⟩ := owed
      obtain rfl : taken = s.takenEvent := h.taken
      simp only [System.takenEvent, hat] at h ⊢
      cases hstep
      exact ⟨trivial, h.moveTo (by simp) (by simp)⟩
    · cases hstep

end Steps

/-- In a run that requests only the two events with a handler, every visit follows the requests
since the last one, and no call goes through a null pointer. -/
theorem run_once_per_request {actions : List Action} (hactions : ∀ a ∈ actions, Handled a)
    {s : System} {os : List Output} (hrun : run step initial actions = some (s, os)) :
    RunsOncePerRequest os :=
  (run_monitored (fun _ _ _ _ _ hinv ha (_ : True) hstep => step_inv hinv ha hstep) hrun
    initial_inv hactions (guarded_of_forall (fun _ _ => trivial) _ _)).1

/-- A request for an event and the steps of the scheduler up to its call. -/
def requestAndPass (ev : EventTask) : List Action :=
  .setEvTask ev :: List.replicate (ev.toNat + 4) .evTaskScheduler

theorem run_once_per_request_canrec :
    (∀ a ∈ requestAndPass .evCanrec, Handled a) ∧
      ∃ s os, run step initial (requestAndPass .evCanrec) = some (s, os) ∧
        RunsOncePerRequest os := by
  have hhandled : ∀ a ∈ requestAndPass .evCanrec, Handled a := by
    simp [requestAndPass, Handled]
  exact ⟨hhandled, _, _, rfl, run_once_per_request hhandled rfl⟩

/-- The third event has no handler. -/
theorem not_run_once_per_request :
    ¬ ∀ actions s os, run step initial actions = some (s, os) → RunsOncePerRequest os := by
  intro h
  have hmonitored := h (requestAndPass .evSendRs485) _ _ rfl
  simp [RunsOncePerRequest, Monitored, Owed.Allows] at hmonitored

end Property

end VehicleTerminal.EventTasks
