import VehicleTerminal.Schedule.TaskSchedule

/-! Clearing a timed task. A clear is final exactly if it finds nothing of the task under way:
neither a mail that the scheduler is about to post or has posted, nor a handler whose result is
still to be stored. -/
namespace VehicleTerminal.TaskSchedule
open PartialRun

section Settled

/-- The scheduler has no expiry of the task in hand. -/
def Scheduler.settled (tasks : ℕ → TimeTask) (i : ℕ) : Scheduler → Prop
  | .idle => True
  | .looking _ _ => True
  | .enabled j nowtimer => j = i → nowtimer < (tasks i).taskTimerCount
  | .due j _ => j ≠ i
  | .posting j _ => j ≠ i

/-- The task thread neither starts the handler of the task nor may its result enable it. -/
def Thread.settled (i : ℕ) : Thread → Prop
  | .waiting => True
  | .received mail => mail ≠ i
  | .operating mail => mail ≠ i
  | .storing mail validflag => mail = i → validflag = .disable

/-- Nothing of the task is under way. -/
structure Settled (s : System) (i : ℕ) : Prop where
  mailbox : i ∉ s.mailbox
  scheduler : s.scheduler.settled s.myTimerTask i
  thread : s.thread.settled i

/-- Disabled, with nothing under way. -/
structure Quiet (i : ℕ) (s : System) : Prop where
  disabled : (s.myTimerTask i).taskTimerState = .disable
  settled : Settled s i

variable {s s' t : System} {i : ℕ} {o : Output}

theorem SchedulerStep.quiet (h : Quiet i s) (hstep : SchedulerStep s s' o) :
    Quiet i s' ∧ o ≠ .started i := by
  obtain ⟨hdisabled, hmailbox, hscheduler, hthread⟩ := h
  cases hstep with
  | begin => exact ⟨⟨hdisabled, hmailbox, trivial, hthread⟩, nofun⟩
  | found hat hj henable =>
    refine ⟨⟨hdisabled, hmailbox, ?_, hthread⟩, nofun⟩
    rintro rfl
    exact absurd (hdisabled.symm.trans henable) nofun
  | skip => exact ⟨⟨hdisabled, hmailbox, trivial, hthread⟩, nofun⟩
  | finish => exact ⟨⟨hdisabled, hmailbox, trivial, hthread⟩, nofun⟩
  | expired hat hdue =>
    rw [hat] at hscheduler
    refine ⟨⟨hdisabled, hmailbox, ?_, hthread⟩, nofun⟩
    rintro rfl
    exact absurd hdue (Nat.not_le.mpr (hscheduler rfl))
  | early => exact ⟨⟨hdisabled, hmailbox, trivial, hthread⟩, nofun⟩
  | @advance j nowtimer hat =>
    rw [hat] at hscheduler
    have hj : i ≠ j := Ne.symm hscheduler
    refine ⟨⟨?_, hmailbox, hscheduler, hthread⟩, nofun⟩
    simpa only [withTask_other s _ hj] using hdisabled
  | @post j nowtimer hat hroom =>
    rw [hat] at hscheduler
    refine ⟨⟨hdisabled, ?_, trivial, hthread⟩, nofun⟩
    rw [List.mem_append, List.mem_singleton, not_or]
    exact ⟨hmailbox, Ne.symm hscheduler⟩
  | full => exact ⟨⟨hdisabled, hmailbox, trivial, hthread⟩, nofun⟩

theorem Scheduler.settled_congr {tasks tasks' : ℕ → TimeTask} {scheduler : Scheduler}
    (h : (tasks i).taskTimerCount = (tasks' i).taskTimerCount)
    (hsettled : scheduler.settled tasks' i) : scheduler.settled tasks i := by
  cases scheduler with
  | enabled j nowtimer => exact fun hj => h ▸ hsettled hj
  | _ => exact hsettled

/-- An entry of the task that is disabled and keeps the deadline, or an entry of another task. -/
theorem Settled.withTask (h : Settled s i) {j : ℕ} {entry : TimeTask}
    (hdisabled : j ≠ i → (s.myTimerTask i).taskTimerState = .disable)
    (hentry : j = i → entry.taskTimerState = .disable ∧
      entry.taskTimerCount = (s.myTimerTask i).taskTimerCount) : Quiet i (s.withTask j entry) := by
  by_cases hj : j = i
  · subst hj
    obtain ⟨hoff, hcount⟩ := hentry rfl
    refine ⟨by rw [withTask_self, hoff], h.mailbox, ?_, h.thread⟩
    exact Scheduler.settled_congr (by rw [withTask_self, hcount]) h.scheduler
  · have hother := withTask_other s entry (Ne.symm hj)
    exact ⟨by rw [hother, hdisabled hj], h.mailbox,
      Scheduler.settled_congr (by rw [hother]) h.scheduler, h.thread⟩

/-- A step other than setting the task leaves it quiet, and starts no handler of it. -/
theorem step_quiet {a : Action} (h : Quiet i s) (ha : ∀ time, a ≠ .setTimerTask i time)
    (hstep : step s a = some (s', o)) : Quiet i s' ∧ o ≠ .started i := by
  cases a with
  | tick =>
    cases hstep
    exact ⟨⟨h.disabled, h.settled.mailbox, h.settled.scheduler, h.settled.thread⟩, nofun⟩
  | setTimerTask task time =>
    cases hstep
    refine ⟨h.settled.withTask (fun _ => h.disabled) ?_, nofun⟩
    rintro rfl
    exact absurd rfl (ha time)
  | clrTimerTask task =>
    cases hstep
    refine ⟨h.settled.withTask (fun _ => h.disabled) ?_, nofun⟩
    rintro rfl
    exact ⟨rfl, rfl⟩
  | timerTaskScheduler => exact (step_scheduler hstep).quiet h
  | receive =>
    obtain ⟨mail, mails, hthread, hmail, rfl, rfl⟩ := step_receive hstep
    have hmailbox := h.settled.mailbox
    rw [hmail, List.mem_cons, not_or] at hmailbox
    exact ⟨⟨h.disabled, hmailbox.2, h.settled.scheduler, Ne.symm hmailbox.1⟩, nofun⟩
  | operate =>
    obtain ⟨mail, hthread, rfl, rfl⟩ := step_operate hstep
    have hmail := h.settled.thread
    rw [hthread] at hmail
    refine ⟨⟨h.disabled, h.settled.mailbox, h.settled.scheduler, hmail⟩, ?_⟩
    rintro ⟨⟩
    exact hmail rfl
  | finish validflag =>
    obtain ⟨mail, hthread, rfl, rfl⟩ := step_finish hstep
    have hmail := h.settled.thread
    rw [hthread] at hmail
    exact ⟨⟨h.disabled, h.settled.mailbox, h.settled.scheduler, fun he => absurd he hmail⟩, nofun⟩
  | store =>
    obtain ⟨mail, validflag, hthread, rfl, rfl⟩ := step_store hstep
    have hflag := h.settled.thread
    rw [hthread] at hflag
    have hquiet : Quiet i
        (s.withTask mail { s.myTimerTask mail with taskTimerState := validflag }) := by
      refine h.settled.withTask (fun _ => h.disabled) ?_
      rintro rfl
      exact ⟨hflag rfl, rfl⟩
    exact ⟨⟨hquiet.disabled, hquiet.settled.mailbox, hquiet.settled.scheduler, trivial⟩, nofun⟩

theorem clrTimerTask_quiet (h : Settled s i) : Quiet i (clrTimerTask i s) :=
  h.withTask (fun hne => absurd rfl hne) fun _ => ⟨rfl, rfl⟩

/-- Without a set, a quiet task stays quiet and its handler is not started. -/
theorem run_quiet {mid : List Action} {os : List Output} (h : Quiet i s)
    (hrun : run step s mid = some (t, os)) (hset : ∀ time, .setTimerTask i time ∉ mid) :
    Quiet i t ∧ i ∉ startedTasks os := by
  have hadmitted : ∀ a ∈ mid, ∀ time, a ≠ .setTimerTask i time := by
    rintro a ha time rfl
    exact hset time ha
  obtain ⟨hquiet, hstarts⟩ := run_preserves
    (fun s a s' o h ha hstep => step_quiet (s := s) h ha hstep) hrun h hadmitted
  refine ⟨hquiet, fun hi => ?_⟩
  obtain ⟨o, ho, hstarted⟩ := List.mem_flatMap.mp hi
  cases o with
  | started task =>
    obtain rfl := List.mem_singleton.mp hstarted
    exact hstarts _ ho rfl
  | _ => cases hstarted

end Settled

section Draining

variable {s t : System} {i : ℕ}

/-- The task thread comes to wait for a mail, with the scheduler and the deadlines as they are. -/
structure Idles (s t : System) : Prop where
  thread : t.thread = .waiting
  scheduler : t.scheduler = s.scheduler
  count : ∀ j, (t.myTimerTask j).taskTimerCount = (s.myTimerTask j).taskTimerCount

theorem store_idles (s : System) (mail : ℕ) (validflag : FunctionalState) :
    Idles s { s.withTask mail { s.myTimerTask mail with taskTimerState := validflag } with
      thread := .waiting } := by
  refine ⟨rfl, rfl, fun j => ?_⟩
  by_cases hj : j = mail
  · subst hj
    simp
  · simp [withTask_other s _ hj]

/-- The handler of a received mail runs, and disables its task. -/
theorem operate_run {mail : ℕ} (h : s.thread = .received mail) :
    ∃ t, run step s [.operate, .finish .disable, .store] =
        some (t, [.started mail, .silent, .silent]) ∧ Idles s t ∧ t.mailbox = s.mailbox :=
  ⟨_, by simp only [run, step, h]; rfl, store_idles s mail .disable, rfl⟩

/-- The thread can finish what it is about. -/
theorem idle_run (s : System) (i : ℕ) :
    ∃ mid t os, run step s mid = some (t, os) ∧ (∀ time, .setTimerTask i time ∉ mid) ∧
      Idles s t ∧ t.mailbox = s.mailbox ∧
      ∀ mail, s.thread = .received mail → mail ∈ startedTasks os := by
  cases hthread : s.thread with
  | waiting =>
    exact ⟨[], s, [], rfl, by simp, ⟨hthread, rfl, fun _ => rfl⟩, rfl, fun _ h => by cases h⟩
  | received mail =>
    obtain ⟨t, hrun, hidle, hmailbox⟩ := operate_run hthread
    refine ⟨_, t, _, hrun, by simp, hidle, hmailbox, ?_⟩
    rintro _ ⟨⟩
    simp [startedTasks, Output.startedTask]
  | operating mail =>
    exact ⟨[.finish .disable, .store], _, _, by simp only [run, step, hthread]; rfl, by simp,
      store_idles s mail .disable, rfl, fun _ h => by cases h⟩
  | storing mail validflag =>
    exact ⟨[.store], _, _, by simp only [run, step, hthread]; rfl, by simp,
      store_idles s mail validflag, rfl, fun _ h => by cases h⟩

/-- The task thread can work off the mailbox, while nobody sets a task. -/
theorem drain_run (mails : List ℕ) (hthread : s.thread = .waiting) (hmailbox : s.mailbox = mails) :
    ∃ mid t os, run step s mid = some (t, os) ∧ (∀ time, .setTimerTask i time ∉ mid) ∧
      Idles s t ∧ t.mailbox = [] ∧ startedTasks os = mails := by
  induction mails generalizing s with
  | nil => exact ⟨[], s, [], rfl, by simp, ⟨hthread, rfl, fun _ => rfl⟩, hmailbox, rfl⟩
  | cons mail mails ih =>
    have hreceive : step s .receive =
        some ({ s with mailbox := mails, thread := .received mail }, .silent) := by
      simp only [step, hthread, hmailbox]
    obtain ⟨s₁, hoperate, hidle₁, hmailbox₁⟩ :=
      operate_run (s := { s with mailbox := mails, thread := .received mail }) rfl
    obtain ⟨mid, t, os, hrun, hset, hidle, hempty, hstarted⟩ := ih hidle₁.thread hmailbox₁
    have hfirst := run_cons_of_step hreceive [.operate, .finish .disable, .store]
    rw [hoperate, Option.map_some] at hfirst
    refine ⟨_, t, _, run_append hfirst hrun, by simpa using hset, ⟨hidle.thread, ?_, ?_⟩,
      hempty, ?_⟩
    · exact hidle.scheduler.trans hidle₁.scheduler
    · exact fun j => (hidle.count j).trans (hidle₁.count j)
    · rw [startedTasks_append, hstarted]
      rfl

/-- The system once the scheduler has posted an expiry of the task to the empty mailbox. -/
def posted (s : System) (i nowtimer : ℕ) : System :=
  { s with mailbox := [i], scheduler := .looking (i + 1) nowtimer }

theorem posting_run {nowtimer : ℕ} (hmailbox : s.mailbox = [])
    (hat : s.scheduler = .posting i nowtimer) :
    run step s [.timerTaskScheduler] = some (posted s i nowtimer, [.silent]) := by
  simp [run, step, timerTaskScheduler, hat, hmailbox, maxTimetask, posted]

theorem due_run {nowtimer : ℕ} (hmailbox : s.mailbox = [])
    (hat : s.scheduler = .due i nowtimer) :
    ∃ entry, run step s [.timerTaskScheduler, .timerTaskScheduler] =
      some (posted (s.withTask i entry) i nowtimer, [.silent, .silent]) := by
  refine ⟨{ s.myTimerTask i with
    taskTimerCount := (nowtimer + (s.myTimerTask i).taskExTimer) % 2 ^ 32 }, ?_⟩
  simp [run, step, timerTaskScheduler, hat, hmailbox, maxTimetask, posted]

/-- A scheduler that has an expiry in hand posts it. -/
theorem post_run (hmailbox : s.mailbox = [])
    (hscheduler : ¬ s.scheduler.settled s.myTimerTask i) :
    ∃ mid t os, run step s mid = some (t, os) ∧ (∀ time, .setTimerTask i time ∉ mid) ∧
      t.thread = s.thread ∧ t.mailbox = [i] := by
  cases hat : s.scheduler with
  | enabled j nowtimer =>
    rw [hat] at hscheduler
    simp only [Scheduler.settled, Classical.not_imp, Nat.not_lt] at hscheduler
    obtain ⟨rfl, hdue⟩ := hscheduler
    have hexpired : step s .timerTaskScheduler = some ({ s with scheduler := .due j nowtimer },
        .recognised j nowtimer (s.myTimerTask j).taskExTimer) := by
      simp only [step, timerTaskScheduler, hat, hdue, if_true]
    obtain ⟨entry, hrun⟩ := due_run (s := { s with scheduler := .due j nowtimer }) hmailbox rfl
    exact ⟨_, _, _, (run_cons_of_step hexpired _).trans (congrArg _ hrun), by simp, rfl, rfl⟩
  | due j nowtimer =>
    rw [hat] at hscheduler
    obtain rfl := not_not.mp hscheduler
    obtain ⟨entry, hrun⟩ := due_run hmailbox hat
    exact ⟨_, _, _, hrun, by simp, rfl, rfl⟩
  | posting j nowtimer =>
    rw [hat] at hscheduler
    obtain rfl := not_not.mp hscheduler
    exact ⟨_, _, _, posting_run hmailbox hat, by simp, rfl, rfl⟩
  | _ =>
    rw [hat] at hscheduler
    exact absurd trivial hscheduler

theorem Idles.unsettled {t : System} (h : Idles s t)
    (hscheduler : ¬ s.scheduler.settled s.myTimerTask i) :
    ¬ t.scheduler.settled t.myTimerTask i := by
  rw [h.scheduler]
  exact mt (Scheduler.settled_congr (h.count i).symm) hscheduler

/-- What is under way of a task can come to start its handler, or to enable it. -/
theorem unsettled_run (h : ¬ Settled s i) :
    ∃ mid t os, run step s mid = some (t, os) ∧ (∀ time, .setTimerTask i time ∉ mid) ∧
      ((t.myTimerTask i).taskTimerState = .enable ∨ i ∈ startedTasks os) := by
  by_cases hthread : s.thread.settled i
  · -- the thread works off the mailbox, and after an expiry in hand once more
    obtain ⟨mid₁, s₁, os₁, hrun₁, hset₁, hidle₁, hmailbox₁, -⟩ := idle_run s i
    obtain ⟨mid₂, s₂, os₂, hrun₂, hset₂, hidle₂, hempty₂, hstarted₂⟩ :=
      drain_run (i := i) s.mailbox hidle₁.thread hmailbox₁
    have hrun := run_append hrun₁ hrun₂
    by_cases hmailbox : i ∈ s.mailbox
    · refine ⟨_, s₂, _, hrun, by simp [hset₁, hset₂], .inr ?_⟩
      rw [startedTasks_append, hstarted₂]
      exact List.mem_append_right _ hmailbox
    · have hscheduler : ¬ s.scheduler.settled s.myTimerTask i := fun hscheduler =>
        h ⟨hmailbox, hscheduler, hthread⟩
      obtain ⟨mid₃, s₃, os₃, hrun₃, hset₃, hthread₃, hmailbox₃⟩ :=
        post_run hempty₂ (hidle₂.unsettled (hidle₁.unsettled hscheduler))
      obtain ⟨mid₄, s₄, os₄, hrun₄, hset₄, -, -, hstarted₄⟩ :=
        drain_run (i := i) [i] (hthread₃.trans hidle₂.thread) hmailbox₃
      refine ⟨_, s₄, _, run_append (run_append hrun hrun₃) hrun₄,
        by simp [hset₁, hset₂, hset₃, hset₄], .inr ?_⟩
      rw [startedTasks_append, hstarted₄]
      simp
  · cases hat : s.thread with
    | waiting =>
      rw [hat] at hthread
      exact absurd trivial hthread
    | received mail =>
      rw [hat] at hthread
      obtain rfl := not_not.mp hthread
      obtain ⟨mid, t, os, hrun, hset, -, -, hstarted⟩ := idle_run s mail
      exact ⟨mid, t, os, hrun, hset, .inr (hstarted mail hat)⟩
    | operating mail =>
      rw [hat] at hthread
      obtain rfl := not_not.mp hthread
      exact ⟨[.finish .enable, .store], _, _, by simp only [run, step, hat]; rfl, by simp,
        .inl (by simp)⟩
    | storing mail validflag =>
      rw [hat] at hthread
      simp only [Thread.settled, Classical.not_imp] at hthread
      obtain ⟨rfl, hflag⟩ := hthread
      refine ⟨[.store], _, _, by simp only [run, step, hat]; rfl, by simp, .inl ?_⟩
      cases validflag with
      | disable => exact absurd rfl hflag
      | enable => simp

end Draining

section Clearing

/-- Once the task is cleared after `pre`, it stays disabled and its handler is not started, as
long as nobody sets it. -/
def ClearFinal (s₀ : System) (pre : List Action) (i : ℕ) : Prop :=
  ∀ mid t os, run step s₀ (pre ++ .clrTimerTask i :: mid) = some (t, os) →
    (∀ time, .setTimerTask i time ∉ mid) →
    (t.myTimerTask i).taskTimerState = .disable ∧ i ∉ startedTasks (os.drop (pre.length + 1))

theorem drop_past (os os' : List Output) (o : Output) :
    (os ++ o :: os').drop (os.length + 1) = os' := by
  rw [List.drop_append, List.drop_of_length_le (by omega)]
  simp

/-- A clear is final if and only if nothing of the task is under way when it is performed. -/
theorem clearFinal_iff {tick i : ℕ} {pre : List Action} {s : System} {os₀ : List Output}
    (hpre : run step (initial tick) pre = some (s, os₀)) :
    ClearFinal (initial tick) pre i ↔ Settled s i := by
  have hclear : step s (.clrTimerTask i) = some (clrTimerTask i s, .silent) := rfl
  constructor
  · intro hfinal
    by_contra hunsettled
    have hcleared : ¬ Settled (clrTimerTask i s) i := fun hsettled => hunsettled
      ⟨hsettled.mailbox, Scheduler.settled_congr (by simp [clrTimerTask]) hsettled.scheduler,
        hsettled.thread⟩
    obtain ⟨mid, t, os, hrun, hset, hbad⟩ := unsettled_run hcleared
    have hall := run_append hpre ((run_cons_of_step hclear mid).trans (congrArg _ hrun))
    obtain ⟨hdisabled, hstarts⟩ := hfinal mid t _ hall hset
    rw [← run_length hpre, drop_past] at hstarts
    rcases hbad with henabled | hstarted
    · exact absurd (hdisabled.symm.trans henabled) nofun
    · exact hstarts hstarted
  · intro hsettled mid t os hrun hset
    obtain ⟨s', os', os'', hpre', hrest, rfl⟩ := run_append_eq_some hrun
    rw [hpre] at hpre'
    cases hpre'
    obtain ⟨s₁, o, os₁, hstep, hmid, rfl⟩ := run_cons_eq_some hrest
    rw [hclear] at hstep
    cases hstep
    obtain ⟨hquiet, hstarts⟩ := run_quiet (clrTimerTask_quiet hsettled) hmid hset
    refine ⟨hquiet.disabled, ?_⟩
    rwa [← run_length hpre, drop_past]

/-- The scheduler has recognised the expiry of task 3 and posted its mail. -/
def mailOfTask3 : System :=
  { (initial 0).withTask 3 ⟨.enable, 2, 2⟩ with mailbox := [3], scheduler := .looking 4 0 }

theorem run_mailOfTask3 : ∃ os,
    run step (initial 0) (List.replicate 8 .timerTaskScheduler) = some (mailOfTask3, os) :=
  ⟨_, rfl⟩

/-- A clear when the mail of the task is in the mailbox. -/
theorem clearFinal_iff_mail :
    ClearFinal (initial 0) (List.replicate 8 .timerTaskScheduler) 3 ↔ Settled mailOfTask3 3 :=
  clearFinal_iff run_mailOfTask3.choose_spec

/-- The scheduler posts the expiry of task 3, the task is cleared, and the mail still starts its
handler. -/
theorem posted_not_clearFinal :
    ¬ ClearFinal (initial 0) (List.replicate 8 .timerTaskScheduler) 3 := by
  intro hfinal
  obtain ⟨-, hstarts⟩ := hfinal [.receive, .operate] _ _ rfl (by simp)
  exact hstarts (by decide)

end Clearing

end VehicleTerminal.TaskSchedule
