import VehicleTerminal.Kernel.MailboxWakeups
import VehicleTerminal.Schedule.TaskSchedule

/-! The timed tasks over the mailbox of the kernel. The idle thread posts to it, the task thread
waits in `rt_mb_recv` and is resumed; what can be seen is what the list of mails in
`TaskSchedule` shows. -/
namespace VehicleTerminal.TaskSchedule
open Kernel Kernel.Mailbox PartialRun

section Model

/-- The threads that call the mailbox. -/
inductive Context
  | idle
  | task
  deriving Repr, DecidableEq

/-- While the task thread is `waiting` it is in `rt_mb_recv` or about to call it. -/
structure Deployed where
  myTimerTask : ℕ → TimeTask
  tick : ℕ
  kernel : Mailbox.System Context
  scheduler : Scheduler
  thread : Thread

inductive DeployedAction
  | tick
  | setTimerTask (task time : ℕ)
  | clrTimerTask (task : ℕ)
  | timerTaskScheduler
  | recv
  | goOn (elapsed : ℕ)
  | operate
  | finish (validflag : FunctionalState)
  | store
  deriving DecidableEq

/-- `RT_WAITING_FOREVER`. -/
def rtWaitingForever : ℤ := -1

/-- The system as `TaskSchedule` sees it, with these mails. -/
def Deployed.withMails (s : Deployed) (mails : List ℕ) : System :=
  ⟨s.myTimerTask, s.tick, mails, s.scheduler, s.thread⟩

/-- A step that does not touch the mailbox. -/
def Deployed.apart (s : Deployed) (r : System × Output) : Deployed × Output :=
  (⟨r.1.myTimerTask, r.1.tick, s.kernel, r.1.scheduler, r.1.thread⟩, r.2)

/-- The task thread when `rt_mb_recv` has returned with a mail. -/
def Deployed.taken (s : Deployed) (r : Mailbox.System Context × Mailbox.Output Context) :
    Deployed × Output :=
  match r.2 with
  | .received _ value => ({ s with kernel := r.1, thread := .received value.toNat }, .silent)
  | _ => ({ s with kernel := r.1 }, .silent)

def idleStep (priority : Context → ℕ) (s : Deployed) : Option (Deployed × Output) :=
  match s.scheduler with
  | .posting i nowtimer =>
    (rtMbSend priority .fifo s.kernel .idle (UInt32.ofNat i)).map fun r =>
      ({ s with kernel := r.1, scheduler := .looking (i + 1) nowtimer }, .silent)
  | _ => some (s.apart (timerTaskScheduler (s.withMails [])))

/-- What cannot happen in a state leaves it as it is. -/
def deployedStep (priority : Context → ℕ) (s : Deployed) :
    DeployedAction → Option (Deployed × Output)
  | .tick => some ({ s with tick := (s.tick + 1) % 2 ^ 32 }, .silent)
  | .setTimerTask task time =>
    some (s.apart (setTimerTask task time (s.withMails []), .wasSet task))
  | .clrTimerTask task => some (s.apart (clrTimerTask task (s.withMails []), .silent))
  | .timerTaskScheduler => idleStep priority s
  | .recv =>
    if s.thread = .waiting ∧ s.kernel.call .task = none then
      (rtMbRecv priority .fifo s.kernel .task rtWaitingForever).map s.taken
    else some (s, .silent)
  | .goOn elapsed =>
    if s.thread = .waiting then
      (goOn priority .fifo s.kernel .task elapsed).map s.taken
    else some (s, .silent)
  | .operate =>
    match s.thread with
    | .received mail => some ({ s with thread := .operating mail }, .started mail)
    | _ => some (s, .silent)
  | .finish validflag =>
    match s.thread with
    | .operating mail => some ({ s with thread := .storing mail validflag }, .silent)
    | _ => some (s, .silent)
  | .store =>
    match s.thread with
    | .storing mail validflag =>
      let entry := { s.myTimerTask mail with taskTimerState := validflag }
      some ({ s with
        myTimerTask := Function.update s.myTimerTask mail entry
        thread := .waiting }, .silent)
    | _ => some (s, .silent)

/-- `rt_mb_create` with room for `MAX_TIMETASK` mails. -/
def deployed (tick : ℕ) : Deployed :=
  ⟨myTimerTask, tick, rtMbInit (List.replicate maxTimetask 0), .idle, .waiting⟩

end Model

section Refinement

variable {priority : Context → ℕ} {s : Deployed} {q : List UInt32} {a : System}

/-- The numbers of the tasks that the scheduler is about to post. -/
def Scheduler.Within : Scheduler → Prop
  | .idle => True
  | .looking _ _ => True
  | .enabled i _ => i < maxTimetask
  | .due i _ => i < maxTimetask
  | .posting i _ => i < maxTimetask

/-- What holds between two steps when the box holds the mails `q`. No thread waits for a place or
has an error, and the task thread waits for ever. -/
structure Serving (s : Deployed) (q : List UInt32) : Prop where
  orderly : Orderly maxTimetask s.kernel q
  idle : s.kernel.call .idle = none
  task : ∀ call, s.kernel.call .task = some call → call = .receiving rtWaitingForever
  errors : ∀ t, s.kernel.error t = .eok
  within : s.scheduler.Within

/-- What `TaskSchedule` says of the system. -/
def Coupled (s : Deployed) (a : System) : Prop :=
  ∃ q, Serving s q ∧ a = s.withMails (q.map UInt32.toNat)

/-- A send that does not wait posts its mail, or finds the box full. -/
theorem rtMbSend_serves (priority : Context → ℕ) (h : Serving s q) (value : UInt32) :
    ∃ kernel o, rtMbSend priority .fifo s.kernel .idle value = some (kernel, o) ∧
      Serving { s with kernel := kernel }
        (if q.length < maxTimetask then q ++ [value] else q) := by
  obtain ⟨kernel, o, q', hsend, hsteps⟩ :=
    sendWait_steps priority .fifo h.orderly.behaves.1 .idle value 0 (.inl rfl)
  have hsize := h.orderly.behaves.2
  have hentry := h.orderly.behaves.1.holding.entry
  have hroom := h.orderly.behaves.1.holding.room
  have hqueued := hsteps.queued
  refine ⟨kernel, o, hsend, ?_⟩
  by_cases hfull : s.kernel.mb.entry = s.kernel.mb.size
  · rw [rtMbSendWait, if_pos ⟨hfull, rfl⟩] at hsend
    cases hsend
    rw [if_neg (by omega)]
    exact h
  · rw [rtMbSendWait, if_neg (fun hboth => hfull hboth.1), rtMbLoop, if_neg hfull,
      Option.map_eq_some_iff] at hsend
    obtain ⟨mb, hput, heq⟩ := hsend
    cases heq
    have hq : q' = q ++ [value] := (hqueued.mailed (by simp)).2
    rw [if_pos (by omega), ← hq]
    exact ⟨h.orderly.steps hsteps, h.idle, h.task, h.errors, h.within⟩

/-- What the task thread does in `rt_mb_recv` after the test for an empty box. -/
theorem rtMbLoop_receiving (priority : Context → ℕ) {kernel : Mailbox.System Context}
    (h : Holding kernel.mb q) :
    ∃ kernel' o, rtMbLoop priority .fifo kernel .task (.receiving rtWaitingForever) =
        some (kernel', o) ∧
      (q = [] ∧ o = .silent ∧
          kernel'.call = Function.update kernel.call .task (some (.receiving rtWaitingForever)) ∧
          kernel'.error = Function.update kernel.error .task .eok ∨
        ∃ mail rest, q = mail :: rest ∧ o = .received .task mail ∧
          kernel'.call = kernel.call ∧ kernel'.error = kernel.error) := by
  have hentry := h.entry
  cases q with
  | nil =>
    have hempty : kernel.mb.entry = 0 := hentry
    have hforever : rtWaitingForever ≠ 0 := by decide
    exact ⟨_, _, by rw [rtMbLoop, if_pos hempty]; simp only [hforever, if_false]; rfl,
      .inl ⟨rfl, rfl, rfl, rfl⟩⟩
  | cons mail rest =>
    have hsome : kernel.mb.entry ≠ 0 := by
      rw [hentry, List.length_cons]
      exact Nat.succ_ne_zero _
    obtain ⟨mb, htake, -⟩ := h.take
    exact ⟨{ kernel with mb := mb, suspendSenderThread := kernel.suspendSenderThread.tail }, _,
      by rw [rtMbLoop, if_neg hsome, htake, Option.map_some],
      .inr ⟨mail, rest, rfl, rfl, rfl, rfl⟩⟩

/-- What a step of the task thread in `rt_mb_recv` comes to: it waits on, or it has the oldest
mail. -/
inductive Taken (s : Deployed) (q : List UInt32) (s' : Deployed) : Prop
  | waits (kernel : Mailbox.System Context) (hstate : s' = { s with kernel := kernel })
      (hserving : Serving s' q)
  | mail (mail : UInt32) (rest : List UInt32) (kernel : Mailbox.System Context)
      (hmails : q = mail :: rest)
      (hstate : s' = { s with kernel := kernel, thread := .received mail.toNat })
      (hserving : Serving s' rest)

/-- The loop of the task thread, from a kernel in which it has no call. -/
theorem Serving.loop (h : Serving s q) (act : Mailbox.Action Context)
    (kernel : Mailbox.System Context) {kernel' : Mailbox.System Context}
    {o : Mailbox.Output Context} {q' : List UInt32} (hmb : kernel.mb = s.kernel.mb)
    (hidle : kernel.call .idle = none) (htask : kernel.call .task = none)
    (herrors : ∀ t, kernel.error t = .eok)
    (hloop : rtMbLoop priority .fifo kernel .task (.receiving rtWaitingForever) =
      some (kernel', o)) (hreset : act ≠ .reset)
    (hsteps : Steps priority .fifo s.kernel kernel' q q' act o) :
    Taken s q (s.taken (kernel', o)).1 ∧ (s.taken (kernel', o)).2 = .silent ∧
      (q ≠ [] → ∃ mail, (s.taken (kernel', o)).1.thread = .received mail) := by
  obtain ⟨kernel₁, o₁, hrun, hcase⟩ :=
    rtMbLoop_receiving priority (hmb ▸ h.orderly.behaves.1.holding)
  rw [hloop] at hrun
  cases hrun
  have horderly := h.orderly.steps hsteps
  have hmailed : Mailed s.kernel.mb.size q q' o := hsteps.queued.mailed hreset
  rcases hcase with ⟨rfl, rfl, hcall, herror⟩ | ⟨mail, rest, rfl, rfl, hcall, herror⟩
  · obtain rfl : q' = [] := hmailed
    refine ⟨.waits kernel' rfl ⟨horderly, ?_, ?_, ?_, h.within⟩, rfl, fun hne => absurd rfl hne⟩
    · change kernel'.call .idle = none
      rw [hcall, Function.update_of_ne (by decide), hidle]
    · intro call hsome
      change kernel'.call .task = some call at hsome
      rw [hcall, Function.update_self] at hsome
      exact (Option.some.inj hsome).symm
    · intro t
      change kernel'.error t = .eok
      rw [herror, Function.update_apply, herrors, ite_self]
  · obtain rfl : rest = q' := (List.cons.inj hmailed).2
    refine ⟨.mail mail rest kernel' rfl rfl ⟨horderly, ?_, ?_, ?_, h.within⟩, rfl,
      fun _ => ⟨_, rfl⟩⟩
    · exact (congrFun hcall _).trans hidle
    · intro call hsome
      change kernel'.call .task = some call at hsome
      rw [hcall, htask] at hsome
      cases hsome
    · exact fun t => (congrFun herror t).trans (herrors t)

/-- The call of `rt_mb_recv`. -/
theorem recv_taken (priority : Context → ℕ) (h : Serving s q)
    (hcall : s.kernel.call .task = none) :
    ∃ kernel o, rtMbRecv priority .fifo s.kernel .task rtWaitingForever = some (kernel, o) ∧
      Taken s q (s.taken (kernel, o)).1 ∧ (s.taken (kernel, o)).2 = .silent ∧
      (q ≠ [] → ∃ mail, (s.taken (kernel, o)).1.thread = .received mail) := by
  obtain ⟨kernel, o, q', hrecv, hsteps⟩ :=
    recv_steps priority .fifo h.orderly.behaves.1 .task rtWaitingForever (.inr hcall)
  have hforever : ¬ (s.kernel.mb.entry = 0 ∧ rtWaitingForever = 0) := fun hboth =>
    absurd hboth.2 (by decide)
  have hloop := hrecv
  rw [rtMbRecv, if_neg hforever] at hloop
  exact ⟨kernel, o, hrecv, h.loop _ s.kernel rfl h.idle hcall h.errors hloop (by simp) hsteps⟩

/-- While mails are in the box the task thread is not suspended. -/
theorem Serving.resumed (h : Serving s q) (hmails : q ≠ []) : ¬ s.kernel.Suspended .task := by
  intro hsuspended
  obtain ⟨side, hside⟩ := suspended_iff.mp hsuspended
  obtain ⟨call, hcall, rfl⟩ := h.orderly.waits.calls side _ hside
  obtain rfl := h.task call hcall
  -- the only thread that receives would have to be both waiting and woken
  have hnobody : {t | s.kernel.Woken .receiver t} = ∅ := by
    ext t
    refine iff_of_false ?_ id
    rintro ⟨⟨call, hsome, hkind⟩, hout, -⟩
    cases t with
    | idle =>
      rw [h.idle] at hsome
      cases hsome
    | task => exact hout hside
  have htokens : s.kernel.mb.tokens .receiver ≤ 0 := by
    have hwakeup := (h.orderly.covered .receiver).noLostWakeup (List.ne_nil_of_mem hside)
    rwa [hnobody, Set.ncard_empty] at hwakeup
  have hlength := h.orderly.behaves.1.holding.entry
  rw [RtMailbox.tokens, hlength] at htokens
  exact hmails (List.eq_nil_of_length_eq_zero (Nat.le_zero.mp htokens))

/-- What the task thread does behind `rt_schedule`. -/
theorem goOn_taken (priority : Context → ℕ) (h : Serving s q) (elapsed : ℕ) :
    ∃ kernel o, goOn priority .fifo s.kernel .task elapsed = some (kernel, o) ∧
      Taken s q (s.taken (kernel, o)).1 ∧ (s.taken (kernel, o)).2 = .silent ∧
      (q ≠ [] → s.kernel.call .task ≠ none →
        ∃ mail, (s.taken (kernel, o)).1.thread = .received mail) := by
  cases hcall : s.kernel.call .task with
  | none =>
    exact ⟨s.kernel, .silent, by simp only [goOn, hcall], .waits s.kernel rfl h, rfl,
      fun _ hne => absurd rfl hne⟩
  | some call =>
    obtain rfl := h.task call hcall
    by_cases hsuspended : s.kernel.Suspended .task
    · exact ⟨s.kernel, .silent, by simp only [goOn, hcall, if_pos hsuspended],
        .waits s.kernel rfl h, rfl, fun hmails _ => absurd hsuspended (h.resumed hmails)⟩
    · obtain ⟨kernel, o, q', hgo, hsteps⟩ :=
        goOn_steps priority .fifo h.orderly.behaves.1 .task elapsed
      have hloop := hgo
      simp only [goOn, hcall, if_neg hsuspended, h.errors, ne_eq, not_true_eq_false,
        if_false] at hloop
      have hafter : (Call.receiving rtWaitingForever).after elapsed =
          .receiving rtWaitingForever := rfl
      rw [hafter] at hloop
      obtain ⟨htaken, hsilent, hmail⟩ := h.loop _ (s.kernel.setCall .task none) rfl
        ((setCall_of_ne none (by decide)).trans h.idle) (setCall_self none) h.errors hloop
        (by simp) hsteps
      exact ⟨kernel, o, hgo, htaken, hsilent, fun hmails _ => hmail hmails⟩

theorem Serving.congr {s' : Deployed} (h : Serving s q) (hkernel : s'.kernel = s.kernel)
    (hwithin : s'.scheduler.Within) : Serving s' q where
  orderly := hkernel ▸ h.orderly
  idle := hkernel ▸ h.idle
  task := hkernel ▸ h.task
  errors := hkernel ▸ h.errors
  within := hwithin

/-- A step of the scheduler that posts nothing is the same with other mails, and goes on with tasks
inside the table. -/
theorem timerTaskScheduler_withMails (s : Deployed) (mails : List ℕ) (hwithin : s.scheduler.Within)
    (hposting : ∀ i nowtimer, s.scheduler ≠ .posting i nowtimer) :
    timerTaskScheduler (s.withMails mails) =
        ((s.apart (timerTaskScheduler (s.withMails []))).1.withMails mails,
          (s.apart (timerTaskScheduler (s.withMails []))).2) ∧
      (s.apart (timerTaskScheduler (s.withMails []))).1.scheduler.Within := by
  cases hat : s.scheduler with
  | idle => exact ⟨by simp only [timerTaskScheduler, Deployed.withMails, hat]; rfl,
      by simp only [timerTaskScheduler, Deployed.withMails, hat]; trivial⟩
  | looking i nowtimer =>
    simp only [timerTaskScheduler, Deployed.withMails, hat]
    split_ifs with hi henable
    · exact ⟨rfl, hi⟩
    · exact ⟨rfl, trivial⟩
    · exact ⟨rfl, trivial⟩
  | enabled i nowtimer =>
    rw [hat] at hwithin
    simp only [timerTaskScheduler, Deployed.withMails, hat]
    split_ifs
    · exact ⟨rfl, hwithin⟩
    · exact ⟨rfl, trivial⟩
  | due i nowtimer =>
    rw [hat] at hwithin
    simp only [timerTaskScheduler, Deployed.withMails, hat]
    exact ⟨rfl, hwithin⟩
  | posting i nowtimer => exact absurd hat (hposting i nowtimer)

theorem idleStep_weak (priority : Context → ℕ) (h : Serving s q) :
    ∃ s' o q', idleStep priority s = some (s', o) ∧
      timerTaskScheduler (s.withMails (q.map UInt32.toNat)) =
        (s'.withMails (q'.map UInt32.toNat), o) ∧ Serving s' q' := by
  by_cases hposting : ∃ i nowtimer, s.scheduler = .posting i nowtimer
  · obtain ⟨i, nowtimer, hat⟩ := hposting
    obtain ⟨kernel, o, hsend, hserving⟩ := rtMbSend_serves priority h (UInt32.ofNat i)
    have hi : i < maxTimetask := by
      have hwithin := h.within
      rwa [hat] at hwithin
    have hnumber : (UInt32.ofNat i).toNat = i :=
      UInt32.toNat_ofNat_of_lt' (lt_trans hi (by decide))
    refine ⟨{ s with kernel := kernel, scheduler := .looking (i + 1) nowtimer }, .silent, _,
      by simp only [idleStep, hat, hsend, Option.map_some], ?_, hserving.congr rfl trivial⟩
    simp only [timerTaskScheduler, Deployed.withMails, hat, List.length_map]
    split_ifs
    · rw [List.map_append, List.map_singleton, hnumber]
    · rfl
  · push Not at hposting
    obtain ⟨hsame, hwithin⟩ :=
      timerTaskScheduler_withMails s (q.map UInt32.toNat) h.within hposting
    refine ⟨_, _, q, ?_, hsame, h.congr rfl hwithin⟩
    cases hat : s.scheduler with
    | posting i nowtimer => exact absurd hat (hposting i nowtimer)
    | idle | looking | enabled | due => simp only [idleStep, hat]

/-- What the task thread takes out of the kernel's box it takes out of the list of mails. -/
theorem Taken.weak {s' : Deployed} (h : Taken s q s') (hthread : s.thread = .waiting) :
    (∃ b, step (s.withMails (q.map UInt32.toNat)) .receive = some (b, .silent) ∧ Coupled s' b) ∨
      Coupled s' (s.withMails (q.map UInt32.toNat)) := by
  cases h with
  | waits kernel hstate hserving => exact .inr ⟨q, hserving, by rw [hstate]; rfl⟩
  | mail mail rest kernel hmails hstate hserving =>
    refine .inl ⟨s'.withMails (rest.map UInt32.toNat), ?_, rest, hserving, rfl⟩
    simp only [step, hmails, hstate, Deployed.withMails, hthread, List.map_cons]

theorem deployedStep_weak (priority : Context → ℕ) :
    WeakStep (deployedStep priority) step .silent Coupled := by
  rintro s a action ⟨q, h, rfl⟩
  have hkeep : Coupled s (s.withMails (q.map UInt32.toNat)) := ⟨q, h, rfl⟩
  cases action with
  | tick => exact ⟨_, _, rfl, .inl ⟨.tick, _, rfl, q, h.congr rfl h.within, rfl⟩⟩
  | setTimerTask task time =>
    exact ⟨_, _, rfl, .inl ⟨.setTimerTask task time, _, rfl, q, h.congr rfl h.within, rfl⟩⟩
  | clrTimerTask task =>
    exact ⟨_, _, rfl, .inl ⟨.clrTimerTask task, _, rfl, q, h.congr rfl h.within, rfl⟩⟩
  | timerTaskScheduler =>
    obtain ⟨s', o, q', hidle, hsame, hserving⟩ := idleStep_weak priority h
    exact ⟨s', o, hidle, .inl ⟨.timerTaskScheduler, _, congrArg some hsame, q', hserving, rfl⟩⟩
  | recv =>
    by_cases hready : s.thread = .waiting ∧ s.kernel.call .task = none
    · obtain ⟨kernel, o, hrecv, htaken, hsilent, -⟩ := recv_taken priority h hready.2
      refine ⟨(s.taken (kernel, o)).1, .silent, ?_, ?_⟩
      · rw [deployedStep, if_pos hready, hrecv, Option.map_some, ← hsilent]
      · exact (htaken.weak hready.1).imp (fun hb => ⟨.receive, hb⟩) fun hc => ⟨rfl, hc⟩
    · exact ⟨s, .silent, by rw [deployedStep, if_neg hready], .inr ⟨rfl, hkeep⟩⟩
  | goOn elapsed =>
    by_cases hready : s.thread = .waiting
    · obtain ⟨kernel, o, hgo, htaken, hsilent, -⟩ := goOn_taken priority h elapsed
      refine ⟨(s.taken (kernel, o)).1, .silent, ?_, ?_⟩
      · rw [deployedStep, if_pos hready, hgo, Option.map_some, ← hsilent]
      · exact (htaken.weak hready).imp (fun hb => ⟨.receive, hb⟩) fun hc => ⟨rfl, hc⟩
    · exact ⟨s, .silent, by rw [deployedStep, if_neg hready], .inr ⟨rfl, hkeep⟩⟩
  | operate =>
    cases hat : s.thread with
    | received mail =>
      refine ⟨{ s with thread := .operating mail }, .started mail, by simp only [deployedStep, hat],
        .inl ⟨.operate, _, ?_, q, h.congr rfl h.within, rfl⟩⟩
      simp only [step, Deployed.withMails, hat]
    | waiting | operating | storing =>
      exact ⟨s, .silent, by simp only [deployedStep, hat], .inr ⟨rfl, hkeep⟩⟩
  | finish validflag =>
    cases hat : s.thread with
    | operating mail =>
      refine ⟨{ s with thread := .storing mail validflag }, .silent,
        by simp only [deployedStep, hat],
        .inl ⟨.finish validflag, _, ?_, q, h.congr rfl h.within, rfl⟩⟩
      simp only [step, Deployed.withMails, hat]
    | waiting | received | storing =>
      exact ⟨s, .silent, by simp only [deployedStep, hat], .inr ⟨rfl, hkeep⟩⟩
  | store =>
    cases hat : s.thread with
    | storing mail validflag =>
      refine ⟨{ s with
        myTimerTask := Function.update s.myTimerTask mail
          { s.myTimerTask mail with taskTimerState := validflag }
        thread := .waiting }, .silent, by simp only [deployedStep, hat],
        .inl ⟨.store, _, ?_, q, h.congr rfl h.within, rfl⟩⟩
      simp only [step, Deployed.withMails, hat, System.withTask]
    | waiting | received | operating =>
      exact ⟨s, .silent, by simp only [deployedStep, hat], .inr ⟨rfl, hkeep⟩⟩

/-- The next step of a task thread that has no mail yet. -/
def Deployed.awaits (s : Deployed) (elapsed : ℕ) : DeployedAction :=
  if s.kernel.call .task = none then .recv else .goOn elapsed

/-- When a mail is there, the task thread gets the oldest one with its next step. -/
theorem Serving.gets (priority : Context → ℕ) (h : Serving s q) (hthread : s.thread = .waiting)
    {mail : UInt32} {rest : List UInt32} (hmails : q = mail :: rest) (elapsed : ℕ) :
    ∃ s', deployedStep priority s (s.awaits elapsed) = some (s', .silent) ∧
      s'.thread = .received mail.toNat ∧ s'.kernel.mb.mails = rest := by
  have hne : q ≠ [] := by simp [hmails]
  have hget (s' : Deployed) (htaken : Taken s q s') (hgot : ∃ mail, s'.thread = .received mail) :
      s'.thread = .received mail.toNat ∧ s'.kernel.mb.mails = rest := by
    cases htaken with
    | waits kernel hstate hserving =>
      obtain ⟨m, hm⟩ := hgot
      rw [hstate] at hm
      exact absurd (hthread.symm.trans hm) (by simp)
    | mail mail' rest' kernel hq hstate hserving =>
      rw [hmails] at hq
      cases hq
      exact ⟨by rw [hstate], hserving.orderly.behaves.1.holding.mails_eq⟩
  by_cases hcall : s.kernel.call .task = none
  · obtain ⟨kernel, o, hrecv, htaken, hsilent, hmail⟩ := recv_taken priority h hcall
    refine ⟨(s.taken (kernel, o)).1, ?_, hget _ htaken (hmail hne)⟩
    rw [Deployed.awaits, if_pos hcall, deployedStep, if_pos ⟨hthread, hcall⟩, hrecv,
      Option.map_some, ← hsilent]
  · obtain ⟨kernel, o, hgo, htaken, hsilent, hmail⟩ := goOn_taken priority h elapsed
    refine ⟨(s.taken (kernel, o)).1, ?_, hget _ htaken (hmail hne hcall)⟩
    rw [Deployed.awaits, if_neg hcall, deployedStep, if_pos hthread, hgo, Option.map_some,
      ← hsilent]

end Refinement

section Runs

theorem deployed_coupled (tick : ℕ) : Coupled (deployed tick) (initial tick) := by
  refine ⟨[], ⟨?_, rfl, fun call hsome => ?_, fun _ => rfl, trivial⟩, rfl⟩
  · exact init_orderly (List.replicate maxTimetask 0)
  · cases hsome

/-- With the mailbox and the suspended threads of the kernel under them, the timed tasks show
nothing that they do not show with a list of mails; and when a mail is there, the waiting task
thread gets the oldest one with its next step. -/
theorem run_deployed (priority : Context → ℕ) (tick : ℕ) (actions : List DeployedAction) :
    ∃ s outputs actions' outputs',
      run (deployedStep priority) (deployed tick) actions = some (s, outputs) ∧
        run step (initial tick) actions' =
          some (s.withMails (s.kernel.mb.mails.map UInt32.toNat), outputs') ∧
        outputs.filter (· ≠ .silent) = outputs'.filter (· ≠ .silent) ∧
        ∀ mail rest elapsed, s.thread = .waiting → s.kernel.mb.mails = mail :: rest →
          ∃ s', deployedStep priority s (s.awaits elapsed) = some (s', .silent) ∧
            s'.thread = .received mail.toNat ∧ s'.kernel.mb.mails = rest := by
  obtain ⟨s, outputs, actions', outputs', b, hrun, hrun', hvisible, q, hserving, rfl⟩ :=
    (deployedStep_weak priority).run (deployed_coupled tick) actions
  have hmails := hserving.orderly.behaves.1.holding.mails_eq
  refine ⟨s, outputs, actions', outputs', hrun, hmails.symm ▸ hrun', hvisible, ?_⟩
  intro mail rest elapsed hthread hq
  exact hserving.gets priority hthread (hmails.symm.trans hq) elapsed

end Runs

end VehicleTerminal.TaskSchedule
