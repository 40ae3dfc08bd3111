import VehicleTerminal.Kernel.Event

/-! Over every interleaving the flags of an event set are those that were sent and not cleared
since, every thread gets what it wants out of them, and no thread stays suspended that could have
it. -/
namespace VehicleTerminal.Kernel.Event
open BitFlags PartialRun

section Wants

variable {wanted : Wanted} {set set' recved : BitVec 32}

theorem Wanted.received_gets (h : wanted.received set = some recved) :
    wanted.Gets (flags set) recved := by
  rw [received] at h
  split_ifs at h with hand hall hor hsome
  · exact .inl ⟨hand, and_eq_left_iff.mp hall, (Option.some.inj h).symm⟩
  · rw [← Option.some.inj h]
    exact .inr ⟨hand, hor, flags_and _ _, hsome⟩

theorem Wanted.received_eq (h : wanted.received set = some recved) :
    recved = wanted.eventSet &&& set := by
  rw [received] at h
  split_ifs at h with hand hall hor hsome
  · rw [hall]
    exact (Option.some.inj h).symm
  · exact (Option.some.inj h).symm

/-- What is not enough is not enough when flags are cleared. -/
theorem Wanted.received_eq_none_of_subset (h : wanted.received set = none)
    (hsub : flags set' ⊆ flags set) : wanted.received set' = none := by
  rw [received] at h ⊢
  split_ifs at h with hand hall hor hsome
  · rw [if_pos hand, if_neg fun hall' => hall ?_]
    exact and_eq_left_iff.mpr ((and_eq_left_iff.mp hall').trans hsub)
  · rw [if_neg hand, if_pos hor, if_neg fun hsome' => hsome ?_]
    exact and_ne_zero_iff.mpr
      ((and_ne_zero_iff.mp hsome').mono (Set.inter_subset_inter_right _ hsub))
  · rw [if_neg hand, if_neg hor]

theorem Wanted.left_subset (wanted : Wanted) (set recved : BitVec 32) :
    flags (wanted.left set recved) ⊆ flags set := by
  rw [left]
  split_ifs
  · rw [flags_clear]
    exact Set.sdiff_subset
  · exact subset_rfl

theorem Wanted.flags_left (wanted : Wanted) (set recved : BitVec 32) :
    flags (wanted.left set recved) =
      if wanted.Clear then flags set \ flags recved else flags set := by
  by_cases hclear : wanted.eventInfo &&& rtEventFlagClear ≠ 0
  · rw [left, if_pos hclear, if_pos (show wanted.Clear from hclear), flags_clear]
  · rw [left, if_neg hclear, if_neg (show ¬ wanted.Clear from hclear)]

end Wants

section Coupling

variable {T : Type*} {event : System T} {m : Ledger T} {thread : T} {rest : List T}

/-- The system while a send looks at the threads of `rest`: no other suspended thread can have what
it wants. -/
structure Looking (rest : List T) (event : System T) (m : Ledger T) : Prop where
  pending : flags event.set = m.pending
  sound : event.threads.Sound
  unsatisfied : ∀ t ∈ event.threads.suspendThread, t ∉ rest →
    ∀ wanted, event.threads.call t = some wanted → wanted.received event.set = none
  free : ∀ t, m.wants t = none ↔ event.threads.call t = none
  wants : ∀ t ∈ event.threads.suspendThread, m.wants t = event.threads.call t
  given : ∀ t recved, m.given t = some recved ↔
    ∃ wanted, event.threads.Woken t wanted ∧ wanted.eventSet = recved

/-- The system between two actions. -/
abbrev Coupled : System T → Ledger T → Prop := Looking []

theorem Looking.not_given (h : Looking rest event m)
    (hnot : ∀ wanted, ¬ event.threads.Woken thread wanted) : m.given thread = none := by
  cases hgiven : m.given thread with
  | none => rfl
  | some recved =>
    obtain ⟨wanted, hwoken, -⟩ := (h.given thread recved).mp hgiven
    exact absurd hwoken (hnot wanted)

end Coupling

section Send

variable {T : Type*} [DecidableEq T] {event : System T} {m : Ledger T} {thread : T} {rest : List T}
  {wanted : Wanted} {recved : BitVec 32}

theorem Looking.skip (h : Looking (thread :: rest) event m)
    (hnone : ∀ wanted, event.threads.call thread = some wanted →
      wanted.received event.set = none) : Looking rest event m where
  pending := h.pending
  sound := h.sound
  unsatisfied t ht hrest wanted hcall := by
    by_cases heq : t = thread
    · exact hnone wanted (heq ▸ hcall)
    · exact h.unsatisfied t ht (by simp [heq, hrest]) wanted hcall
  free := h.free
  wants := h.wants
  given := h.given

/-- A thread that can have what it wants is given it and resumed. -/
theorem Looking.give (h : Looking (thread :: rest) event m)
    (hin : thread ∈ event.threads.suspendThread)
    (hcall : event.threads.call thread = some wanted)
    (hreceived : wanted.received event.set = some recved) :
    m.Ok (.given thread wanted recved) ∧
      Looking rest ⟨wanted.left event.set recved,
        (event.threads.setCall thread (some { wanted with eventSet := recved })).resume thread⟩
        (m.next (.given thread wanted recved)) := by
  have hasleep (c : Wanted) : ¬ event.threads.Woken thread c := fun hwoken => hwoken.2.1 hin
  refine ⟨⟨(h.wants thread hin).trans hcall, h.not_given hasleep,
    h.pending ▸ wanted.received_gets hreceived⟩, ?_⟩
  exact {
    pending := by rw [wanted.flags_left, h.pending]; rfl
    sound := (h.sound.setCall_some thread _).resume thread
    unsatisfied := by
      intro t ht hrest c hc
      obtain ⟨hne, hsuspended⟩ := h.sound.nodup.mem_erase_iff.mp ht
      have hbefore : event.threads.call t = some c := (Function.update_of_ne hne _ _).symm.trans hc
      exact c.received_eq_none_of_subset
        (h.unsatisfied t hsuspended (by simp [hne, hrest]) c hbefore) (wanted.left_subset _ _)
    free := by
      intro t
      simp only [Ledger.next, Waiting.resume, Waiting.setCall, Function.update_apply, h.free]
      split_ifs with ht
      · simp [ht, hcall]
      · rfl
    wants := by
      intro t ht
      obtain ⟨hne, hsuspended⟩ := h.sound.nodup.mem_erase_iff.mp ht
      exact (h.wants t hsuspended).trans (Function.update_of_ne hne _ _).symm
    given := by
      intro t r
      have hcalled : (event.threads.setCall thread (some { wanted with eventSet := recved })).call
          thread = some { wanted with eventSet := recved } := Function.update_self _ _ _
      simp only [(h.sound.setCall_some thread _).woken_resume hin, Waiting.woken_setCall hin,
        hcalled, Ledger.next, Function.update_apply]
      by_cases ht : t = thread
      · subst ht
        simp [hasleep]
      · simp [ht, h.given] }

/-- The loop of a send gives to the suspended threads what they can have. -/
theorem resumeSatisfied_coupled (h : Looking rest event m)
    (hsub : ∀ t ∈ rest, t ∈ event.threads.suspendThread) (hnodup : rest.Nodup) :
    Monitored Ledger.next Ledger.Ok m (resumeSatisfied event rest).2 ∧
      Coupled (resumeSatisfied event rest).1
        ((resumeSatisfied event rest).2.foldl Ledger.next m) ∧
      (resumeSatisfied event rest).2.flatMap Entry.origin = [] := by
  induction rest generalizing event m with
  | nil => exact ⟨trivial, h, rfl⟩
  | cons thread rest ih =>
    obtain ⟨hthread, hrest⟩ := List.nodup_cons.mp hnodup
    have hin := hsub thread List.mem_cons_self
    have hsub' : ∀ t ∈ rest, t ∈ event.threads.suspendThread :=
      fun t ht => hsub t (List.mem_cons_of_mem _ ht)
    cases hcall : event.threads.call thread with
    | none => exact absurd hcall (h.sound.calls thread hin)
    | some wanted =>
      cases hreceived : wanted.received event.set with
      | none =>
        simp only [resumeSatisfied, hcall, hreceived]
        refine ih (h.skip fun c hc => ?_) hsub' hrest
        rw [hcall] at hc
        cases hc
        exact hreceived
      | some recved =>
        obtain ⟨hok, hlooking⟩ := h.give hin hcall hreceived
        have hsub'' : ∀ t ∈ rest, t ∈ event.threads.suspendThread.erase thread := by
          intro t ht
          refine h.sound.nodup.mem_erase_iff.mpr ⟨?_, hsub' t ht⟩
          rintro rfl
          exact hthread ht
        obtain ⟨hmonitored, hcoupled, horigin⟩ := ih hlooking hsub'' hrest
        simp only [resumeSatisfied, hcall, hreceived]
        exact ⟨⟨hok, hmonitored⟩, hcoupled, horigin⟩

@[simp] theorem resumeSatisfied_error (event : System T) (rest : List T) :
    (resumeSatisfied event rest).1.threads.error = event.threads.error := by
  induction rest generalizing event with
  | nil => rfl
  | cons thread rest ih =>
    rw [resumeSatisfied]
    split
    · exact ih event
    · split
      · exact ih event
      · exact ih _

theorem rtEventSend_error (event : System T) (set : BitVec 32) :
    (rtEventSend event set).1.threads.error = event.threads.error := by
  rw [rtEventSend]
  split_ifs
  · rfl
  · exact resumeSatisfied_error _ _

/-- A send gives, and nothing returns in it. -/
theorem mem_resumeSatisfied {e : Entry T} (h : e ∈ (resumeSatisfied event rest).2) :
    ∃ thread wanted recved, e = .given thread wanted recved := by
  induction rest generalizing event with
  | nil => cases h
  | cons thread rest ih =>
    rw [resumeSatisfied] at h
    split at h
    · exact ih h
    · split at h
      · exact ih h
      · rcases List.mem_cons.mp h with rfl | hrest
        · exact ⟨_, _, _, rfl⟩
        · exact ih hrest

theorem rtEventSend_served (h : Coupled event m) (set : BitVec 32) :
    ∃ m', Served m (.send set) (rtEventSend event set).2 m' ∧
      Coupled (rtEventSend event set).1 m' := by
  by_cases hzero : set = 0
  · rw [rtEventSend, if_pos hzero]
    exact ⟨m, ⟨trivial, rfl, by rw [Action.begins, if_pos hzero]; rfl⟩, h⟩
  · have hlooking : Looking event.threads.suspendThread { event with set := event.set ||| set }
        (m.next (.sent set)) := by
      refine ⟨?_, h.sound, fun t ht hnot => absurd ht hnot, h.free, h.wants, h.given⟩
      rw [flags_or, h.pending]
      rfl
    obtain ⟨hmonitored, hcoupled, horigin⟩ :=
      resumeSatisfied_coupled hlooking (fun _ ht => ht) h.sound.nodup
    rw [rtEventSend, if_neg hzero]
    refine ⟨_, ⟨⟨hzero, hmonitored⟩, rfl, ?_⟩, hcoupled⟩
    rw [List.flatMap_cons, horigin, Action.begins, if_neg hzero]
    rfl

end Send

section Receive

variable {T : Type*} {event : System T} {m : Ledger T} {thread : T} {wanted : Wanted}

theorem Looking.waits (h : Coupled event m) {t : T} (ht : t ∈ event.threads.suspendThread)
    {c : Wanted} (hc : event.threads.call t = some c) : c.received event.set = none :=
  h.unsatisfied t ht List.not_mem_nil c hc

/-- A thread outside every call has nothing. -/
theorem Looking.not_given_of_free (h : Coupled event m)
    (hfree : event.threads.call thread = none) : m.given thread = none := by
  refine h.not_given fun wanted hwoken => ?_
  have hcall := hwoken.1
  rw [hfree] at hcall
  cases hcall

theorem begins_recv (hwants : m.wants thread = none) :
    (Action.recv thread wanted).begins m = [.recv thread wanted] := if_pos hwants

variable [DecidableEq T]

/-- A call that fails at once leaves the ledger. -/
theorem next_called_failed (hwants : m.wants thread = none) (wanted : Wanted) (err : Err) :
    (m.next (.called thread wanted)).next (.failed thread err) = m := by
  simp only [Ledger.next, Function.update_idem]
  rw [← hwants, Function.update_eq_self]

theorem monitored_called_failed (hwants : m.wants thread = none) (hgiven : m.given thread = none)
    (wanted : Wanted) (err : Err) : Monitored Ledger.next Ledger.Ok m
      [.called thread wanted, .failed thread err] :=
  ⟨⟨hwants, hgiven⟩, ⟨by simp [Ledger.next], hgiven⟩, trivial⟩

/-- A call that is served at once. -/
theorem next_called_returned (hwants : m.wants thread = none) (hgiven : m.given thread = none)
    (wanted : Wanted) (recved : BitVec 32) :
    [Entry.called thread wanted, .given thread wanted recved, .returned thread recved].foldl
        Ledger.next m =
      { m with pending := (m.next (.given thread wanted recved)).pending } := by
  simp only [List.foldl_cons, List.foldl_nil, Ledger.next, Function.update_idem]
  congr 1
  · rw [← hwants, Function.update_eq_self]
  · rw [← hgiven, Function.update_eq_self]

/-- What is there is received at once. -/
theorem recv_now (h : Coupled event m) (hfree : event.threads.call thread = none)
    {recved : BitVec 32} (hreceived : wanted.received event.set = some recved) :
    ∃ m', Served m (.recv thread wanted) [.called thread wanted,
        .given thread wanted (event.set &&& wanted.eventSet),
        .returned thread (event.set &&& wanted.eventSet)] m' ∧
      Coupled ⟨if wanted.eventInfo &&& rtEventFlagClear ≠ 0 then event.set &&& ~~~wanted.eventSet
        else event.set, event.threads.setError thread .eok⟩ m' := by
  have hsame : event.set &&& wanted.eventSet = recved := by
    rw [wanted.received_eq hreceived, BitVec.and_comm]
  have hwants := (h.free thread).mpr hfree
  have hgiven := h.not_given_of_free hfree
  rw [hsame]
  refine ⟨_, ⟨⟨⟨hwants, hgiven⟩, ⟨?_, hgiven, h.pending ▸ wanted.received_gets hreceived⟩, ?_,
    trivial⟩, (next_called_returned hwants hgiven wanted recved).symm,
    (begins_recv hwants).symm⟩, ?_⟩
  · simp [Ledger.next]
  · simp [Ledger.Ok, Ledger.next]
  · -- clearing all flags that are wanted clears those that are received
    have hleft : (if wanted.eventInfo &&& rtEventFlagClear ≠ 0 then
        event.set &&& ~~~wanted.eventSet else event.set) = wanted.left event.set recved := by
      rw [Wanted.left]
      split_ifs
      · apply flags_injective
        rw [flags_clear, flags_clear, ← hsame, flags_and, Set.sdiff_self_inter]
      · rfl
    rw [hleft]
    exact {
      pending := by rw [wanted.flags_left, h.pending]; rfl
      sound := h.sound.setError hfree .eok
      unsatisfied := fun t ht _ c hc =>
        c.received_eq_none_of_subset (h.waits ht hc) (wanted.left_subset _ _)
      free := h.free
      wants := h.wants
      given := fun t r => by simp only [Waiting.woken_setError hfree, h.given] }

/-- A thread that finds too little is suspended. -/
theorem recv_suspends (h : Coupled event m) (hfree : event.threads.call thread = none)
    (hnone : wanted.received event.set = none) (priority : T → ℕ) (flag : IpcFlag) :
    Coupled { event with threads :=
        (event.threads.setError thread .eok).suspend priority flag thread wanted }
      (m.next (.called thread wanted)) := by
  have hfree' : (event.threads.setError thread .eok).call thread = none := hfree
  have hcases (t : T) :
      ((event.threads.setError thread .eok).suspend priority flag thread wanted).call t =
        if t = thread then some wanted else event.threads.call t := Function.update_apply _ _ _ _
  exact {
    pending := h.pending
    sound := (h.sound.setError hfree .eok).suspend hfree' priority flag wanted
    unsatisfied := by
      intro t ht _ c hc
      rw [hcases] at hc
      split_ifs at hc with hthread
      · exact Option.some.inj hc ▸ hnone
      · exact h.waits ((mem_ipcListSuspend.mp ht).resolve_left hthread) hc
    free := by
      intro t
      rw [hcases]
      simp only [Ledger.next, Function.update_apply]
      split_ifs
      · simp
      · exact h.free t
    wants := by
      intro t ht
      rw [hcases]
      simp only [Ledger.next, Function.update_apply]
      split_ifs with hthread
      · rfl
      · exact h.wants t ((mem_ipcListSuspend.mp ht).resolve_left hthread)
    given := by
      intro t r
      simp only [Waiting.woken_suspend hfree', Waiting.woken_setError hfree]
      exact h.given t r }

theorem rtEventRecv_served (h : Coupled event m) (hfree : event.threads.call thread = none)
    (priority : T → ℕ) (flag : IpcFlag) (wanted : Wanted) :
    ∃ m', Served m (.recv thread wanted) (rtEventRecv priority flag event thread wanted).2 m' ∧
      Coupled (rtEventRecv priority flag event thread wanted).1 m' := by
  have hwants := (h.free thread).mpr hfree
  have hgiven := h.not_given_of_free hfree
  have hfailed (err : Err) : Served m (.recv thread wanted)
      [.called thread wanted, .failed thread err] m :=
    ⟨monitored_called_failed hwants hgiven wanted err, (next_called_failed hwants wanted err).symm,
      (begins_recv hwants).symm⟩
  by_cases hzero : wanted.eventSet = 0
  · rw [rtEventRecv, if_pos hzero]
    exact ⟨m, hfailed .error, h⟩
  · rw [rtEventRecv, if_neg hzero]
    cases hreceived : wanted.received event.set with
    | some recved => exact recv_now h hfree hreceived
    | none =>
      by_cases htime : wanted.timeout = 0
      · simp only [if_pos htime]
        have hfree' : (event.threads.setError thread .eok).call thread = none := hfree
        refine ⟨m, hfailed .etimeout, ?_⟩
        exact {
          pending := h.pending
          sound := (h.sound.setError hfree .eok).setError hfree' .etimeout
          unsatisfied := h.unsatisfied
          free := h.free
          wants := h.wants
          given := by
            intro t r
            simp only [Waiting.woken_setError hfree', Waiting.woken_setError hfree]
            exact h.given t r }
      · simp only [if_neg htime]
        exact ⟨_, ⟨⟨⟨hwants, hgiven⟩, trivial⟩, rfl, (begins_recv hwants).symm⟩,
          recv_suspends h hfree hreceived priority flag⟩

/-- A call that is over leaves what the other threads wait for. -/
theorem Looking.leave (h : Coupled event m) (hout : thread ∉ event.threads.suspendThread)
    {given : T → Option (BitVec 32)}
    (hgiven : ∀ t recved, given t = some recved ↔ t ≠ thread ∧ m.given t = some recved) :
    Coupled { event with threads := event.threads.setCall thread none }
      ⟨m.pending, Function.update m.wants thread none, given⟩ := by
  have hne {t : T} (ht : t ∈ event.threads.suspendThread) : t ≠ thread := by
    rintro rfl
    exact hout ht
  exact {
    pending := h.pending
    sound := h.sound.leave hout none
    unsatisfied := fun t ht _ c hc =>
      h.waits ht ((Function.update_of_ne (hne ht) _ _).symm.trans hc)
    free := by
      intro t
      simp only [Waiting.setCall, Function.update_apply]
      split_ifs
      · simp
      · exact h.free t
    wants := by
      intro t ht
      simp only [Waiting.setCall, Function.update_of_ne (hne ht)]
      exact h.wants t ht
    given := by
      intro t r
      simp only [Waiting.woken_leave, hgiven, h.given, and_assoc, exists_and_left] }

theorem goOn_served (h : Coupled event m) (thread : T) :
    ∃ m', Served m (.goOn thread) (goOn event thread).2 m' ∧ Coupled (goOn event thread).1 m' := by
  cases hwake : event.threads.wake thread with
  | absent =>
    simp only [goOn, hwake]
    exact ⟨m, ⟨trivial, rfl, rfl⟩, h⟩
  | failed err =>
    obtain ⟨hcall, hout, herror⟩ := Waiting.wake_failed hwake
    have hnone : m.given thread = none :=
      h.not_given fun _ => Waiting.not_woken_of_failed herror
    simp only [goOn, hwake]
    refine ⟨_, ⟨⟨⟨mt (h.free thread).mp hcall, hnone⟩, trivial⟩, rfl, rfl⟩, h.leave hout ?_⟩
    intro t r
    rw [iff_and_self]
    rintro hsome rfl
    exact absurd (hnone.symm.trans hsome) (by simp)
  | resumed wanted =>
    have hwoken := Waiting.wake_resumed hwake
    have hgiven : m.given thread = some wanted.eventSet :=
      (h.given thread _).mpr ⟨wanted, hwoken, rfl⟩
    simp only [goOn, hwake]
    refine ⟨_, ⟨⟨hgiven, trivial⟩, rfl, rfl⟩, h.leave hwoken.2.1 fun t r => ?_⟩
    rw [Function.update_apply]
    split_ifs with ht
    · simp [ht]
    · simp [ht]

theorem eventTimeout_coupled (h : Coupled event m) (thread : T) :
    Coupled (eventTimeout event thread) m := by
  have hcall : (eventTimeout event thread).threads.call = event.threads.call :=
    Waiting.threadTimeout_call _ _ _
  have hsub : (eventTimeout event thread).threads.suspendThread ⊆ event.threads.suspendThread :=
    Waiting.threadTimeout_subset _ _ _
  exact {
    pending := h.pending
    sound := h.sound.threadTimeout _ thread
    unsatisfied := fun t ht _ c hc => h.waits (hsub ht) (hcall ▸ hc)
    free := fun t => by rw [hcall, h.free]
    wants := fun t ht => by rw [hcall, h.wants t (hsub ht)]
    given := fun t r => by simp only [eventTimeout, h.sound.woken_threadTimeout, h.given] }

theorem rtEventReset_served (h : Coupled event m) :
    Served m .reset (rtEventReset event).2 { m with pending := ∅ } ∧
      Coupled (rtEventReset event).1 { m with pending := ∅ } := by
  refine ⟨⟨⟨trivial, trivial⟩, rfl, rfl⟩, ?_⟩
  exact {
    pending := flags_zero
    sound := event.threads.resumeAll_sound
    unsatisfied := fun t ht => absurd ht List.not_mem_nil
    free := h.free
    wants := fun t ht => absurd ht List.not_mem_nil
    given := fun t r => by simp only [rtEventReset, Waiting.woken_resumeAll, h.given] }

end Receive

section Runs

variable {T : Type*}

theorem rtEventCreate_coupled : Coupled (rtEventCreate : System T) .empty where
  pending := flags_zero
  sound := Waiting.nobody_sound
  unsatisfied t ht := absurd ht List.not_mem_nil
  free t := Iff.rfl
  wants t ht := absurd ht List.not_mem_nil
  given t r := by simp [rtEventCreate, Ledger.empty, Waiting.not_woken_nobody]

variable [DecidableEq T]

theorem step_refines (priority : T → ℕ) (flag : IpcFlag) :
    StepRefines (step priority flag) Served Coupled fun _ _ => True := by
  intro event m a h _
  cases a with
  | send set =>
    obtain ⟨m', hserved, hcoupled⟩ := rtEventSend_served h set
    exact ⟨_, _, m', rfl, hserved, hcoupled⟩
  | recv thread wanted =>
    by_cases hfree : event.threads.call thread = none
    · obtain ⟨m', hserved, hcoupled⟩ := rtEventRecv_served h hfree priority flag wanted
      exact ⟨_, _, m', by rw [step, if_pos hfree], hserved, hcoupled⟩
    · have hwants := mt (h.free thread).mp hfree
      exact ⟨event, [], m, by rw [step, if_neg hfree],
        ⟨trivial, rfl, by rw [Action.begins, if_neg hwants]; rfl⟩, h⟩
  | goOn thread =>
    obtain ⟨m', hserved, hcoupled⟩ := goOn_served h thread
    exact ⟨_, _, m', rfl, hserved, hcoupled⟩
  | threadTimeout thread =>
    exact ⟨_, _, m, rfl, ⟨trivial, rfl, rfl⟩, eventTimeout_coupled h thread⟩
  | reset => exact ⟨_, _, _, rfl, rtEventReset_served h⟩

end Runs

end VehicleTerminal.Kernel.Event
