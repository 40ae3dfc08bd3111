import VehicleTerminal.Schedule.Cleared
import VehicleTerminal.Schedule.Watchdog

/-! When the watchdog is fed: not without its four tasks, at most twice behind the last event of
one, and at once when no event is missing. -/
namespace VehicleTerminal.Watchdog
open Kernel Kernel.Event PartialRun BitFlags

section Feeding

variable {s : System} {m m' : Ledger Unit} {i : ℕ}

theorem allowed_paid {actions : List Action} {outputs : List (List Output)}
    (h : Allowed Paid m actions outputs m') (hi : i ∈ flags wdogEventFlag) :
    weight i m' + outputs.flatten.count .fed ≤
      weight i m + outputs.flatten.count (.announced i) := by
  induction h with
  | nil m => exact le_rfl
  | cons head _ ih =>
    have hfirst := head i hi
    rw [List.flatten_cons, List.count_append, List.count_append]
    omega

/-- The watchdog is never fed more often than any of its four tasks has announced itself, and from
any state on at most twice more often: when a task stops, at most two more feeds come. -/
theorem run_fed_le (tick : ℕ) (before after : List Action) :
    ∃ s outputs t outputs', run step (initial tick) before = some (s, outputs) ∧
      run step s after = some (t, outputs') ∧ ∀ i ∈ flags wdogEventFlag,
        outputs.flatten.count .fed ≤ outputs.flatten.count (.announced i) ∧
        outputs'.flatten.count .fed ≤ outputs'.flatten.count (.announced i) + 2 := by
  obtain ⟨s, outputs, m, hrun, hallowed, hwatched⟩ := step_refines.run (initial_watched tick)
    (guarded_of_forall (fun _ _ => trivial) _ before)
  obtain ⟨t, outputs', m', hrun', hallowed', -⟩ := step_refines.run hwatched
    (guarded_of_forall (fun _ _ => trivial) _ after)
  refine ⟨s, outputs, t, outputs', hrun, hrun', fun i hi => ?_⟩
  have hfirst := allowed_paid hallowed hi
  have hsecond := allowed_paid hallowed' hi
  have hbound := weight_le_two i m
  rw [weight_empty] at hfirst
  omega

/-- What the system remembers of a run. -/
def Remembered (s : System) (history : List Output) : Prop :=
  ∃ m, Watched s m ∧ ∀ i ∈ flags wdogEventFlag, .announced i ∈ sinceFed history → Kept i m

theorem rtEventRecv_feeds {event : Event.System Unit} (h : flags wdogEventFlag ⊆ flags event.set) :
    .fed ∈ (rtEventRecv (fun _ => 0) .fifo event () wdogWanted).2.filterMap feed := by
  have hreceived : wdogWanted.received event.set = some wdogEventFlag := by
    have hall : wdogEventFlag &&& event.set = wdogEventFlag := and_eq_left_iff.mpr h
    have hand : wdogWanted.eventInfo &&& rtEventFlagAnd ≠ 0 := by decide
    rw [Wanted.received, if_pos hand]
    exact if_pos hall
  have hset : wdogWanted.eventSet ≠ 0 := by decide
  simp only [rtEventRecv, if_neg hset, hreceived]
  exact List.mem_cons_self

theorem goOn_feeds {event : Event.System Unit} {wanted : Wanted}
    (h : event.threads.Woken () wanted) : .fed ∈ (goOn event ()).2.filterMap feed := by
  have hwake : event.threads.wake () = .resumed wanted := by
    simp only [Waiting.wake, h.1, if_neg h.2.1, if_pos h.2.2]
  simp only [goOn, hwake]
  exact List.mem_cons_self

/-- When no flag is missing, the next step of the watchdog thread feeds. -/
theorem Watched.feeds (h : Watched s m) (hkept : ∀ i ∈ flags wdogEventFlag, Kept i m) :
    .fed ∈ (watchDogThreadEntry s.wdogEvent).2.filterMap feed := by
  cases hgiven : m.given () with
  | some recved =>
    obtain ⟨wanted, hwoken, -⟩ := (h.coupled.given () recved).mp hgiven
    have hcall : s.wdogEvent.threads.call () ≠ none := by simp [hwoken.1]
    rw [watchDogThreadEntry, if_neg hcall]
    exact goOn_feeds hwoken
  | none =>
    have hset : flags wdogEventFlag ⊆ flags s.wdogEvent.set := by
      intro i hi
      rw [h.coupled.pending]
      exact (hkept i hi).resolve_right (not_not.mpr hgiven)
    cases hcall : s.wdogEvent.threads.call () with
    | none =>
      rw [watchDogThreadEntry, if_pos hcall]
      exact rtEventRecv_feeds hset
    | some wanted =>
      exfalso
      by_cases hin : () ∈ s.wdogEvent.threads.suspendThread
      · obtain rfl := h.asks wanted ((h.coupled.wants () hin).trans hcall)
        have hnone := h.coupled.waits hin hcall
        have hall : wdogWanted.received s.wdogEvent.set = some wdogEventFlag := by
          have hand : wdogWanted.eventInfo &&& rtEventFlagAnd ≠ 0 := by decide
          rw [Wanted.received, if_pos hand]
          exact if_pos (and_eq_left_iff.mpr hset)
        rw [hall] at hnone
        cases hnone
      · have hsome := (h.coupled.given () wanted.eventSet).mpr ⟨wanted, ⟨hcall, hin, h.error⟩, rfl⟩
        rw [hgiven] at hsome
        cases hsome

/-- In every state that is reached, the next step of the watchdog thread feeds the watchdog, or one
of the four tasks has not announced itself since the last feed. -/
theorem run_feeds_or_missing (tick : ℕ) (actions : List Action) :
    ∃ s outputs, run step (initial tick) actions = some (s, outputs) ∧
      ((∀ i ∈ flags wdogEventFlag, .announced i ∈ sinceFed outputs.flatten) →
        ∃ t fed, step s .watchDog = some (t, fed) ∧ .fed ∈ fed) := by
  have hstart : Remembered (initial tick) [] :=
    ⟨.empty, initial_watched tick, fun i _ hin => absurd hin List.not_mem_nil⟩
  obtain ⟨s, outputs, m, hrun, -, -⟩ := step_refines.run (initial_watched tick)
    (guarded_of_forall (fun _ _ => trivial) _ actions)
  have hstep : ∀ s history a s' outputs, Remembered s history → True → True →
      step s a = some (s', outputs) → True ∧ Remembered s' (history ++ outputs) := by
    rintro s history a s' outputs ⟨m, hwatched, hkept⟩ - - hstep
    obtain ⟨s₁, outputs₁, m', hrun, hwatched', -, hremembers⟩ := step_steps hwatched a
    rw [hstep] at hrun
    cases hrun
    exact ⟨trivial, m', hwatched', fun i hi => hremembers history i hi (hkept i hi)⟩
  have hadmitted : ∀ a ∈ actions, (fun _ => True) a := fun _ _ => trivial
  have hguard : Guarded step (fun _ _ => True) (initial tick) actions :=
    guarded_of_forall (fun _ _ => trivial) _ actions
  obtain ⟨-, m', hwatched, hkept⟩ := run_monitored hstep hrun hstart hadmitted hguard
  refine ⟨s, outputs, hrun, fun hall => ⟨_, _, rfl, hwatched.feeds fun i hi => hkept i hi ?_⟩⟩
  have hflat : outputs.foldl (fun history os => history ++ os) [] = outputs.flatten := by
    rw [List.foldl_append_eq_append]
    simp
  rw [hflat]
  exact hall i hi

end Feeding

section Unset

variable {s : System} {i : ℕ}

/-- Nothing of the task is under way, and none of its events. -/
structure Dormant (i : ℕ) (s : System) : Prop where
  quiet : TaskSchedule.Quiet i s.tasks
  storing : ∀ validflag, s.tasks.thread ≠ .storing i validflag
  announce : s.announce ≠ some i

theorem step_storing {t t' : TaskSchedule.System} {a : TaskSchedule.Action}
    {o : TaskSchedule.Output} (hquiet : TaskSchedule.Quiet i t)
    (h : ∀ validflag, t.thread ≠ .storing i validflag)
    (hstep : TaskSchedule.step t a = some (t', o)) (validflag : TaskSchedule.FunctionalState) :
    t'.thread ≠ .storing i validflag := by
  cases a with
  | tick | setTimerTask | clrTimerTask =>
    cases hstep
    exact h validflag
  | timerTaskScheduler => cases TaskSchedule.step_scheduler hstep <;> exact h validflag
  | receive =>
    obtain ⟨_, _, -, -, rfl, -⟩ := TaskSchedule.step_receive hstep
    simp
  | operate =>
    obtain ⟨_, -, rfl, -⟩ := TaskSchedule.step_operate hstep
    simp
  | finish flag =>
    obtain ⟨mail, hthread, rfl, -⟩ := TaskSchedule.step_finish hstep
    have hmail := hquiet.settled.thread
    rw [hthread] at hmail
    intro heq
    cases heq
    exact hmail rfl
  | store =>
    obtain ⟨_, _, -, rfl, -⟩ := TaskSchedule.step_store hstep
    simp

theorem taskStep_dormant (h : Dormant i s) {a : TaskSchedule.Action}
    (ha : ∀ time, a ≠ .setTimerTask i time) : Dormant i (taskStep s a).1 := by
  cases hstep : TaskSchedule.step s.tasks a with
  | none =>
    simp only [taskStep, hstep]
    exact h
  | some r =>
    have hquiet := (TaskSchedule.step_quiet h.quiet ha hstep).1
    have hstoring := step_storing h.quiet h.storing hstep
    simp only [taskStep, hstep]
    split
    · split_ifs
      · exact ⟨hquiet, hstoring, h.announce⟩
      · exact h
    · next mail validflag hthread =>
      refine ⟨hquiet, hstoring, ?_⟩
      rintro ⟨⟩
      exact h.storing validflag hthread
    · exact ⟨hquiet, hstoring, h.announce⟩

theorem step_dormant (h : Dormant i s) {a : Action}
    (ha : ∀ time, a ≠ .tasks (.setTimerTask i time)) {s' : System} {outputs : List Output}
    (hstep : step s a = some (s', outputs)) : Dormant i s' ∧ .announced i ∉ outputs := by
  cases a with
  | tasks a =>
    have hpair : taskStep s a = (s', outputs) := Option.some.inj hstep
    have hdormant : Dormant i (taskStep s a).1 :=
      taskStep_dormant h fun time heq => ha time (congrArg _ heq)
    have hout := taskStep_output s a
    rw [hpair] at hdormant hout
    refine ⟨hdormant, ?_⟩
    rcases hout with rfl | ⟨o, rfl⟩ <;> simp
  | announce =>
    cases hannounce : s.announce with
    | none =>
      simp only [step, hannounce] at hstep
      cases hstep
      exact ⟨h, List.not_mem_nil⟩
    | some mail =>
      simp only [step, hannounce] at hstep
      cases hstep
      refine ⟨⟨h.quiet, h.storing, by simp⟩, ?_⟩
      rw [List.mem_singleton]
      rintro ⟨⟩
      exact h.announce hannounce
  | watchDog =>
    cases hstep
    refine ⟨⟨h.quiet, h.storing, h.announce⟩, ?_⟩
    rw [← List.count_eq_zero, count_announced]

/-- Two of the four tasks are off at power-on: the watchdog is never fed unless both are set. -/
theorem run_fed_set (tick : ℕ) (actions : List Action) :
    ∃ s outputs, run step (initial tick) actions = some (s, outputs) ∧
      (.fed ∈ outputs.flatten →
        ∀ i, i = 1 ∨ i = 2 → ∃ time, .tasks (.setTimerTask i time) ∈ actions) := by
  obtain ⟨s, outputs, m, hrun, hallowed, -⟩ := step_refines.run (initial_watched tick)
    (guarded_of_forall (fun _ _ => trivial) _ actions)
  refine ⟨s, outputs, hrun, fun hfed i hi => ?_⟩
  by_contra hset
  push Not at hset
  have hflag : i ∈ flags wdogEventFlag := by rcases hi with rfl | rfl <;> decide
  have hstart : Dormant i (initial tick) := by
    refine ⟨⟨?_, List.not_mem_nil, trivial, trivial⟩, by simp [initial, TaskSchedule.initial],
      by simp [initial]⟩
    rcases hi with rfl | rfl <;> rfl
  have hnone := (run_preserves (fun s a s' o h ha hstep => step_dormant h ha hstep) hrun hstart
    fun a ha time heq => hset time (heq ▸ ha)).2
  have hannounced : outputs.flatten.count (.announced i) = 0 := by
    rw [List.count_eq_zero, List.mem_flatten]
    rintro ⟨os, hos, hin⟩
    exact hnone os hos hin
  have hpaid := allowed_paid hallowed hflag
  rw [weight_empty, hannounced] at hpaid
  have hpos := List.count_pos_iff.mpr hfed
  omega

end Unset

end VehicleTerminal.Watchdog
