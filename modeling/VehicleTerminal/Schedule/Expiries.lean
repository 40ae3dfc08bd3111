import VehicleTerminal.Schedule.TaskSchedule

/-! The expiries that the scheduler recognises. Each leads to one run of its handler while every
mail finds room, and two of one task are its period apart while no deadline is taken for reached
because it wrapped. -/
namespace VehicleTerminal.TaskSchedule
open PartialRun

section Statement

/-- The times are 32-bit values. -/
def Action.typed : Action → Prop
  | .setTimerTask _ time => time < 2 ^ 32
  | _ => True

def Output.recognisedTask : Output → List ℕ
  | .recognised task _ _ => [task]
  | _ => []

/-- The tasks of the expiries that are recognised in a run. -/
def recognisedTasks (os : List Output) : List ℕ := os.flatMap Output.recognisedTask

/-- The mail the task thread has received and whose handler it has not started. -/
def Thread.inHand : Thread → List ℕ
  | .received mail => [mail]
  | _ => []

/-- The expiry that the scheduler has recognised and not yet posted. -/
def Scheduler.inHand : Scheduler → List ℕ
  | .due i _ => [i]
  | .posting i _ => [i]
  | _ => []

/-- The expiries on their way to the handlers, the oldest first. -/
def System.inHand (s : System) : List ℕ :=
  s.thread.inHand ++ s.mailbox ++ s.scheduler.inHand

/-- Consecutive expiries of a task that nobody sets in between are at least its period apart,
modulo 2^32. -/
def Spaced (os : List Output) : Prop :=
  ∀ (before between after : List Output) (i nowtimer₁ nowtimer₂ taskExTimer₁ taskExTimer₂ : ℕ),
    os = before ++ .recognised i nowtimer₁ taskExTimer₁ ::
      (between ++ .recognised i nowtimer₂ taskExTimer₂ :: after) →
    (∀ nowtimer taskExTimer, .recognised i nowtimer taskExTimer ∉ between) →
    .wasSet i ∉ between →
    taskExTimer₁ ≤ (nowtimer₂ + 2 ^ 32 - nowtimer₁) % 2 ^ 32

/-- Every expiry leads to one run of its handler, and none is early; in particular the handlers
started are those of the expiries recognised as soon as nothing is in hand. -/
structure ExpiriesKept (s : System) (os : List Output) : Prop where
  conserved : recognisedTasks os = startedTasks os ++ s.inHand
  spaced : Spaced os

/-- A deadline that wrapped is not compared with a tick that did not. -/
def TimeTask.comparable (entry : TimeTask) (nowtimer : ℕ) : Prop :=
  entry.taskExTimer ≤ entry.taskTimerCount ∨
    nowtimer + entry.taskExTimer < entry.taskTimerCount + 2 ^ 32

def Scheduler.onTime (s : System) : Scheduler → Prop
  | .enabled i nowtimer => (s.myTimerTask i).taskTimerCount ≤ nowtimer →
      (s.myTimerTask i).comparable nowtimer
  | .posting _ _ => s.mailbox.length < maxTimetask
  | _ => True

/-- A mail that is posted finds room, and a deadline that is found reached is comparable. -/
def OnTime (s : System) : Action → Prop
  | .timerTaskScheduler => s.scheduler.onTime s
  | _ => True

instance (entry : TimeTask) (nowtimer : ℕ) : Decidable (entry.comparable nowtimer) :=
  inferInstanceAs (Decidable (_ ∨ _))

instance (s : System) : ∀ scheduler : Scheduler, Decidable (scheduler.onTime s)
  | .idle => isTrue trivial
  | .looking _ _ => isTrue trivial
  | .enabled _ _ => inferInstanceAs (Decidable (_ → _))
  | .due _ _ => isTrue trivial
  | .posting _ _ => inferInstanceAs (Decidable (_ < _))

instance (s : System) : ∀ a, Decidable (OnTime s a)
  | .timerTaskScheduler => inferInstanceAs (Decidable (s.scheduler.onTime s))
  | .tick => isTrue trivial
  | .setTimerTask _ _ => isTrue trivial
  | .clrTimerTask _ => isTrue trivial
  | .receive => isTrue trivial
  | .operate => isTrue trivial
  | .finish _ => isTrue trivial
  | .store => isTrue trivial

end Statement

section Conservation

variable {s s' : System} {o : Output} {a : Action}

/-- An expiry that is recognised gets in hand, and leaves when its handler is started. -/
theorem SchedulerStep.conserved (hontime : OnTime s .timerTaskScheduler)
    (hstep : SchedulerStep s s' o) :
    s.inHand ++ o.recognisedTask = o.startedTask ++ s'.inHand := by
  cases hstep with
  | full hat hfull =>
    simp only [OnTime, hat, Scheduler.onTime] at hontime
    exact absurd hontime hfull
  | expired hat | advance hat | post hat | begin hat | found hat | skip hat | finish hat
  | early hat =>
    simp [System.inHand, Scheduler.inHand, hat, Output.recognisedTask, Output.startedTask]

theorem step_conserved (hontime : OnTime s a) (hstep : step s a = some (s', o)) :
    s.inHand ++ o.recognisedTask = o.startedTask ++ s'.inHand := by
  cases a with
  | timerTaskScheduler => exact (step_scheduler hstep).conserved hontime
  | receive =>
    obtain ⟨mail, mails, hthread, hmail, rfl, rfl⟩ := step_receive hstep
    simp [System.inHand, Thread.inHand, hthread, hmail, Output.recognisedTask, Output.startedTask]
  | operate =>
    obtain ⟨mail, hthread, rfl, rfl⟩ := step_operate hstep
    simp [System.inHand, Thread.inHand, hthread, Output.recognisedTask, Output.startedTask]
  | finish validflag =>
    obtain ⟨mail, hthread, rfl, rfl⟩ := step_finish hstep
    simp [System.inHand, Thread.inHand, hthread, Output.recognisedTask, Output.startedTask]
  | store =>
    obtain ⟨mail, validflag, hthread, rfl, rfl⟩ := step_store hstep
    simp [System.inHand, Thread.inHand, hthread, Output.recognisedTask, Output.startedTask]
  | _ =>
    cases hstep
    exact List.append_nil _

end Conservation

section Spacing

/-- Tick and period of the last expiry of the task since it was set. -/
def lastExpiry (i : ℕ) (last : Option (ℕ × ℕ)) : Output → Option (ℕ × ℕ)
  | .wasSet task => if task = i then none else last
  | .recognised task nowtimer taskExTimer => if task = i then some (nowtimer, taskExTimer) else last
  | _ => last

/-- An expiry of the task does not come before its period is over. -/
def NotEarly (i : ℕ) (last : Option (ℕ × ℕ)) : Output → Prop
  | .recognised task nowtimer _ => task = i → ∀ nowtimer₁ taskExTimer₁,
      last = some (nowtimer₁, taskExTimer₁) →
      taskExTimer₁ ≤ (nowtimer + 2 ^ 32 - nowtimer₁) % 2 ^ 32
  | _ => True

def Scheduler.inRange : Scheduler → Prop
  | .idle => True
  | .looking _ nowtimer => nowtimer < 2 ^ 32
  | .enabled _ nowtimer => nowtimer < 2 ^ 32
  | .due _ nowtimer => nowtimer < 2 ^ 32
  | .posting _ nowtimer => nowtimer < 2 ^ 32

/-- The deadline of the task stands one period after its last expiry; while the scheduler is
about to write it, the expiry is the one it has just recognised. -/
structure Tracks (i : ℕ) (s : System) (last : Option (ℕ × ℕ)) : Prop where
  tick : s.tick < 2 ^ 32
  nowtimer : s.scheduler.inRange
  period : (s.myTimerTask i).taskExTimer < 2 ^ 32
  expiry : ∀ nowtimer taskExTimer, last = some (nowtimer, taskExTimer) →
    nowtimer < 2 ^ 32 ∧ (s.myTimerTask i).taskExTimer = taskExTimer ∧
      (∀ nowtimer', s.scheduler = .due i nowtimer' → nowtimer' = nowtimer) ∧
      ((∀ nowtimer', s.scheduler ≠ .due i nowtimer') →
        (s.myTimerTask i).taskTimerCount = (nowtimer + taskExTimer) % 2 ^ 32)

variable {s s' : System} {o : Output} {a : Action} {i : ℕ} {last : Option (ℕ × ℕ)}

/-- A comparable deadline that is reached is one period after the expiry that set it. -/
theorem period_le_of_reached {nowtimer₁ nowtimer₂ : ℕ} {entry : TimeTask}
    (h₁ : nowtimer₁ < 2 ^ 32) (h₂ : nowtimer₂ < 2 ^ 32) (hperiod : entry.taskExTimer < 2 ^ 32)
    (hcount : entry.taskTimerCount = (nowtimer₁ + entry.taskExTimer) % 2 ^ 32)
    (hreached : entry.taskTimerCount ≤ nowtimer₂) (hcomparable : entry.comparable nowtimer₂) :
    entry.taskExTimer ≤ (nowtimer₂ + 2 ^ 32 - nowtimer₁) % 2 ^ 32 := by
  unfold TimeTask.comparable at hcomparable
  omega

/-- A step that leaves the scheduler, and the deadline and the period of the task. -/
theorem Tracks.frame (h : Tracks i s last) (htick : s'.tick < 2 ^ 32)
    (hscheduler : s'.scheduler = s.scheduler)
    (hcount : (s'.myTimerTask i).taskTimerCount = (s.myTimerTask i).taskTimerCount)
    (hperiod : (s'.myTimerTask i).taskExTimer = (s.myTimerTask i).taskExTimer) :
    Tracks i s' last where
  tick := htick
  nowtimer := hscheduler ▸ h.nowtimer
  period := hperiod ▸ h.period
  expiry := by
    rw [hscheduler, hcount, hperiod]
    exact h.expiry

/-- Another state of some task changes neither deadline nor period. -/
theorem Tracks.withState (h : Tracks i s last) (j : ℕ) (state : FunctionalState) :
    Tracks i (s.withTask j { s.myTimerTask j with taskTimerState := state }) last := by
  by_cases hj : j = i
  · subst hj
    exact h.frame h.tick rfl (by rw [withTask_self]) (by rw [withTask_self])
  · have hother := withTask_other s { s.myTimerTask j with taskTimerState := state } (Ne.symm hj)
    exact h.frame h.tick rfl (by rw [hother]) (by rw [hother])

/-- A step of the scheduler between two statements that do not concern the deadline. -/
theorem Tracks.move (h : Tracks i s last) (scheduler : Scheduler) (mailbox : List ℕ)
    (hrange : scheduler.inRange) (hfrom : ∀ nowtimer, s.scheduler ≠ .due i nowtimer)
    (hto : ∀ nowtimer, scheduler ≠ .due i nowtimer) :
    Tracks i { s with mailbox := mailbox, scheduler := scheduler } last where
  tick := h.tick
  nowtimer := hrange
  period := h.period
  expiry nowtimer taskExTimer hlast := by
    obtain ⟨hnow, hex, -, hcount⟩ := h.expiry nowtimer taskExTimer hlast
    exact ⟨hnow, hex, fun nowtimer' hat => absurd hat (hto nowtimer'), fun _ => hcount hfrom⟩

theorem SchedulerStep.tracks (h : Tracks i s last) (hontime : OnTime s .timerTaskScheduler)
    (hstep : SchedulerStep s s' o) : NotEarly i last o ∧ Tracks i s' (lastExpiry i last o) := by
  have hrange := h.nowtimer
  cases hstep with
  | begin hat =>
    exact ⟨trivial, h.move (.looking 0 s.tick) s.mailbox h.tick (by simp [hat]) nofun⟩
  | @found j nowtimer hat =>
    rw [hat] at hrange
    exact ⟨trivial, h.move (.enabled j nowtimer) s.mailbox hrange (by simp [hat]) nofun⟩
  | @skip j nowtimer hat =>
    rw [hat] at hrange
    exact ⟨trivial, h.move (.looking (j + 1) nowtimer) s.mailbox hrange (by simp [hat]) nofun⟩
  | finish hat => exact ⟨trivial, h.move .idle s.mailbox trivial (by simp [hat]) nofun⟩
  | @early j nowtimer hat =>
    rw [hat] at hrange
    exact ⟨trivial, h.move (.looking (j + 1) nowtimer) s.mailbox hrange (by simp [hat]) nofun⟩
  | @post j nowtimer hat =>
    rw [hat] at hrange
    exact ⟨trivial, h.move (.looking (j + 1) nowtimer) _ hrange (by simp [hat]) nofun⟩
  | @full j nowtimer hat =>
    rw [hat] at hrange
    exact ⟨trivial, h.move (.looking (j + 1) nowtimer) s.mailbox hrange (by simp [hat]) nofun⟩
  | @expired j nowtimer hat hdue =>
    rw [hat] at hrange
    simp only [OnTime, hat, Scheduler.onTime] at hontime
    by_cases hj : j = i
    · subst hj
      refine ⟨fun _ nowtimer₁ taskExTimer₁ hlast => ?_, h.tick, hrange, h.period, ?_⟩
      · obtain ⟨hnow, rfl, -, hcount⟩ := h.expiry nowtimer₁ taskExTimer₁ hlast
        exact period_le_of_reached hnow hrange h.period (hcount (by simp [hat])) hdue
          (hontime hdue)
      · intro nowtimer₁ taskExTimer₁ hlast
        simp only [lastExpiry, if_true, Option.some_inj, Prod.mk.injEq] at hlast
        obtain ⟨rfl, rfl⟩ := hlast
        refine ⟨hrange, rfl, ?_, fun hne => absurd rfl (hne nowtimer)⟩
        rintro _ ⟨⟩
        rfl
    · refine ⟨fun he => absurd he hj, ?_⟩
      rw [lastExpiry, if_neg hj]
      refine h.move (.due j nowtimer) s.mailbox hrange (by simp [hat]) ?_
      rintro _ ⟨⟩
      exact hj rfl
  | @advance j nowtimer hat =>
    rw [hat] at hrange
    by_cases hj : j = i
    · subst hj
      refine ⟨trivial, h.tick, hrange, ?_, fun nowtimer₁ taskExTimer₁ hlast => ?_⟩
      · simpa using h.period
      · obtain ⟨hnow, rfl, hat', -⟩ := h.expiry nowtimer₁ taskExTimer₁ hlast
        obtain rfl := hat' nowtimer hat
        exact ⟨hnow, by simp, nofun, fun _ => by simp⟩
    · have hother := withTask_other s { s.myTimerTask j with
        taskTimerCount := (nowtimer + (s.myTimerTask j).taskExTimer) % 2 ^ 32 } (Ne.symm hj)
      have hframe : Tracks i (s.withTask j { s.myTimerTask j with
          taskTimerCount := (nowtimer + (s.myTimerTask j).taskExTimer) % 2 ^ 32 }) last :=
        h.frame h.tick rfl (by rw [hother]) (by rw [hother])
      refine ⟨trivial, hframe.move (.posting j nowtimer) s.mailbox hrange ?_ nofun⟩
      intro nowtimer' hat'
      rw [withTask_scheduler, hat] at hat'
      cases hat'
      exact hj rfl

theorem step_tracks (h : Tracks i s last) (typed : a.typed) (hontime : OnTime s a)
    (hstep : step s a = some (s', o)) : NotEarly i last o ∧ Tracks i s' (lastExpiry i last o) := by
  cases a with
  | tick =>
    cases hstep
    exact ⟨trivial, h.frame (Nat.mod_lt _ (by decide)) rfl rfl rfl⟩
  | setTimerTask task time =>
    cases hstep
    refine ⟨trivial, ?_⟩
    by_cases hi : task = i
    · subst hi
      refine ⟨h.tick, h.nowtimer, ?_, by simp [lastExpiry]⟩
      rw [setTimerTask, withTask_self]
      exact typed
    · have hother := withTask_other s ⟨.enable, (time + s.tick) % 2 ^ 32, time⟩ (Ne.symm hi)
      rw [lastExpiry, if_neg hi]
      exact h.frame h.tick rfl (congrArg TimeTask.taskTimerCount hother)
        (congrArg TimeTask.taskExTimer hother)
  | clrTimerTask task =>
    cases hstep
    exact ⟨trivial, h.withState task .disable⟩
  | timerTaskScheduler => exact (step_scheduler hstep).tracks h hontime
  | receive =>
    obtain ⟨mail, mails, hthread, hmail, rfl, rfl⟩ := step_receive hstep
    exact ⟨trivial, h.frame h.tick rfl rfl rfl⟩
  | operate =>
    obtain ⟨mail, hthread, rfl, rfl⟩ := step_operate hstep
    exact ⟨trivial, h.frame h.tick rfl rfl rfl⟩
  | finish validflag =>
    obtain ⟨mail, hthread, rfl, rfl⟩ := step_finish hstep
    exact ⟨trivial, h.frame h.tick rfl rfl rfl⟩
  | store =>
    obtain ⟨mail, validflag, hthread, rfl, rfl⟩ := step_store hstep
    have hstate := h.withState mail validflag
    exact ⟨trivial, hstate.frame hstate.tick rfl rfl rfl⟩

end Spacing

section Runs

theorem initial_tracks {tick : ℕ} (htick : tick < 2 ^ 32) (i : ℕ) :
    Tracks i (initial tick) none where
  tick := htick
  nowtimer := trivial
  period := by
    dsimp only [initial]
    unfold myTimerTask
    split <;> decide
  expiry := nofun

theorem lastExpiry_between {i : ℕ} {last : Option (ℕ × ℕ)} {between : List Output}
    (hrecognised : ∀ nowtimer taskExTimer, .recognised i nowtimer taskExTimer ∉ between)
    (hset : .wasSet i ∉ between) : between.foldl (lastExpiry i) last = last := by
  induction between with
  | nil => rfl
  | cons o between ih =>
    have hkeeps : lastExpiry i last o = last := by
      cases o with
      | wasSet task =>
        refine if_neg ?_
        rintro rfl
        exact hset List.mem_cons_self
      | recognised task nowtimer taskExTimer =>
        refine if_neg ?_
        rintro rfl
        exact hrecognised nowtimer taskExTimer List.mem_cons_self
      | _ => rfl
    rw [List.foldl_cons, hkeeps]
    exact ih (fun nowtimer taskExTimer hmem =>
      hrecognised nowtimer taskExTimer (List.mem_cons_of_mem _ hmem))
      fun hmem => hset (List.mem_cons_of_mem _ hmem)

theorem spaced_of_monitored {os : List Output}
    (h : ∀ i, Monitored (lastExpiry i) (NotEarly i) none os) : Spaced os := by
  rintro before between after i nowtimer₁ nowtimer₂ taskExTimer₁ taskExTimer₂ rfl hrecognised hset
  obtain ⟨-, hfrom⟩ := (monitored_append.mp (h i)).2
  obtain ⟨hearly, -⟩ := (monitored_append.mp hfrom).2
  rw [lastExpiry_between hrecognised hset, lastExpiry, if_pos rfl] at hearly
  exact hearly rfl nowtimer₁ taskExTimer₁ rfl

/-- No expiry is lost or early while every mail finds room and every deadline found reached is
comparable. -/
theorem expiries_kept {tick : ℕ} {actions : List Action} {t : System} {os : List Output}
    (htick : tick < 2 ^ 32) (typed : ∀ a ∈ actions, a.typed)
    (hrun : run step (initial tick) actions = some (t, os))
    (hontime : Guarded step OnTime (initial tick) actions) : ExpiriesKept t os where
  conserved :=
    run_conserved (fun _ _ _ _ hguard hstep => step_conserved hguard hstep) hrun hontime
  spaced := spaced_of_monitored fun i =>
    (run_monitored (fun _ _ _ _ _ h typed hguard hstep => step_tracks h typed hguard hstep)
      hrun (initial_tracks htick i) typed hontime).1

/-- The first expiry of task 3, up to its handler. -/
def firstExpiry : List Action := List.replicate 8 .timerTaskScheduler ++ [.receive, .operate]

theorem expiries_kept_first_expiry :
    ∃ t os, run step (initial 7) firstExpiry = some (t, os) ∧ ExpiriesKept t os :=
  ⟨_, _, rfl, expiries_kept (by decide : 7 < 2 ^ 32)
    (show ∀ a ∈ firstExpiry, a.typed by simp [firstExpiry, Action.typed]) rfl
    (show Guarded step OnTime (initial 7) firstExpiry by decide)⟩

/-- Scans of the table two ticks apart, while the task thread does not get to its mailbox. -/
def slowConsumer (scans : ℕ) : List Action :=
  (List.replicate scans (List.replicate 13 .timerTaskScheduler ++ [.tick, .tick])).flatten

set_option maxRecDepth 10000 in
/-- The sixth mail of a slow consumer is lost. At the last tick before the wrap, task 3, whose
period is 2, expires twice. -/
theorem not_expiriesKept :
    (∃ t os, run step (initial 0) (slowConsumer 6) = some (t, os) ∧ ¬ ExpiriesKept t os) ∧
      ∃ t os, run step (initial (2 ^ 32 - 1)) (List.replicate 19 .timerTaskScheduler) =
        some (t, os) ∧ ¬ ExpiriesKept t os := by
  refine ⟨⟨_, _, rfl, fun h => ?_⟩, ⟨_, _, rfl, fun h => ?_⟩⟩
  · exact absurd h.conserved (by decide)
  · have hgap := h.spaced (List.replicate 5 .silent)
      [.silent, .silent, .silent, .recognised 4 (2 ^ 32 - 1) 100, .silent, .silent, .silent,
        .silent, .silent, .silent, .silent, .silent] [] 3 (2 ^ 32 - 1) (2 ^ 32 - 1) 2 2 rfl
      (by simp) (by simp)
    exact absurd hgap (by decide)

end Runs

end VehicleTerminal.TaskSchedule
