import VehicleTerminal.Kernel.EventDelivery
import VehicleTerminal.Schedule.TaskSchedule

/-! The watchdog of `WDogManage.c` over the timed tasks. Behind every handler the task thread sends
an event of its own, and the watchdog is fed when the events of four tasks have come. -/
namespace VehicleTerminal.Watchdog
open Kernel Kernel.Event PartialRun BitFlags

section Model

/-- `WDOG_EVENT_FLAG`. -/
def wdogEventFlag : BitVec 32 := 1#32 <<< 1 ||| 1#32 <<< 2 ||| 1#32 <<< 3 ||| 1#32 <<< 4

/-- What `watchDog_thread_entry` asks for, for ever. -/
def wdogWanted : Wanted := ⟨wdogEventFlag, rtEventFlagAnd ||| rtEventFlagClear, -1⟩

/-- `announce` is the task whose handler has returned and whose event is still to be sent. -/
structure System where
  tasks : TaskSchedule.System
  announce : Option ℕ
  wdogEvent : Event.System Unit

inductive Action
  | tasks (a : TaskSchedule.Action)
  | announce
  | watchDog
  deriving DecidableEq

inductive Output
  | tasks (o : TaskSchedule.Output)
  | announced (mail : ℕ)
  | fed
  deriving DecidableEq

/-- `IWDG_ReloadCounter` behind `rt_event_recv`. -/
def feed : Entry Unit → Option Output
  | .returned _ _ => some .fed
  | _ => none

/-- One step of the threads around `MyTimerTask`. The task thread gets no mail before its event is
sent; what cannot happen in a state leaves it as it is. -/
def taskStep (s : System) (a : TaskSchedule.Action) : System × List Output :=
  match TaskSchedule.step s.tasks a with
  | none => (s, [])
  | some r =>
    match a, s.tasks.thread with
    | .receive, _ =>
      if s.announce = none then ({ s with tasks := r.1 }, [.tasks r.2]) else (s, [])
    | .store, .storing mail _ => ({ s with tasks := r.1, announce := some mail }, [.tasks r.2])
    | _, _ => ({ s with tasks := r.1 }, [.tasks r.2])

/-- The next step of `watchDog_thread_entry`. -/
def watchDogThreadEntry (event : Event.System Unit) : Event.System Unit × List (Entry Unit) :=
  if event.threads.call () = none then rtEventRecv (fun _ => 0) .fifo event () wdogWanted
  else goOn event ()

def step (s : System) : Action → Option (System × List Output)
  | .tasks a => some (taskStep s a)
  | .announce =>
    match s.announce with
    | some mail =>
      let r := rtEventSend s.wdogEvent (1#32 <<< mail)
      some ({ s with announce := none, wdogEvent := r.1 }, [.announced mail])
    | none => some (s, [])
  | .watchDog =>
    let r := watchDogThreadEntry s.wdogEvent
    some ({ s with wdogEvent := r.1 }, r.2.filterMap feed)

def initial (tick : ℕ) : System := ⟨TaskSchedule.initial tick, none, rtEventCreate⟩

end Model

section Trace

variable {m : Ledger Unit} {entries : List (Entry Unit)} {i : ℕ}

/-- The watchdog thread has asked for its four flags or for nothing. -/
def Asks (m : Ledger Unit) : Prop := ∀ wanted, m.wants () = some wanted → wanted = wdogWanted

open scoped Classical in
/-- The feeds that the events sent so far for one task can still lead to. -/
noncomputable def weight (i : ℕ) (m : Ledger Unit) : ℕ :=
  (if i ∈ m.pending then 1 else 0) + if m.given () = none then 0 else 1

theorem weight_le_two (i : ℕ) (m : Ledger Unit) : weight i m ≤ 2 := by
  rw [weight]
  split_ifs <;> omega

theorem weight_congr {m' : Ledger Unit} (hpending : i ∈ m'.pending ↔ i ∈ m.pending)
    (hgiven : m'.given () = m.given ()) : weight i m' = weight i m := by
  rw [weight, weight, hgiven]
  by_cases hin : i ∈ m.pending
  · rw [if_pos hin, if_pos (hpending.mpr hin)]
  · rw [if_neg hin, if_neg (mt hpending.mp hin)]

/-- The entries that send the flag of a task. -/
def sends (i : ℕ) : Entry Unit → Bool
  | .sent set => set.getLsbD i
  | _ => false

/-- The action that sends it. -/
def sendsFlag (i : ℕ) : Event.Action Unit → Bool
  | .send set => set.getLsbD i
  | _ => false

def returns : Entry Unit → Bool
  | .returned _ _ => true
  | _ => false

theorem wdogWanted_gets {pending : Set ℕ} {recved : BitVec 32}
    (h : wdogWanted.Gets pending recved) :
    flags wdogEventFlag ⊆ pending ∧ recved = wdogEventFlag := by
  have hand : wdogWanted.And := by decide
  rcases h with ⟨-, hall, hrecved⟩ | ⟨hnot, -⟩
  · exact ⟨hall, hrecved⟩
  · exact absurd hand hnot

/-- One entry: what is fed was paid for by an event of every task. -/
theorem weight_next {e : Entry Unit} (hok : m.Ok e) (hasks : Asks m)
    (hcalled : ∀ wanted, e = .called () wanted → wanted = wdogWanted)
    (hi : i ∈ flags wdogEventFlag) :
    weight i (m.next e) + (if returns e then 1 else 0) ≤ weight i m + (if sends i e then 1 else 0) ∧
      Asks (m.next e) := by
  classical
  cases e with
  | sent set =>
    refine ⟨?_, hasks⟩
    have hmem : i ∈ (m.next (.sent set)).pending ↔ i ∈ m.pending ∨ set.getLsbD i = true := Iff.rfl
    have hgiven : (m.next (.sent set)).given = m.given := rfl
    simp only [weight, hmem, hgiven, sends, returns]
    grind
  | called thread wanted =>
    refine ⟨(weight_congr Iff.rfl rfl).le, ?_⟩
    intro c hc
    have hsome : some wanted = some c := by simpa [Ledger.next] using hc
    exact Option.some.inj hsome ▸ hcalled wanted rfl
  | given thread wanted recved =>
    obtain ⟨hwants, hnone, hgets⟩ := hok
    obtain rfl := hasks wanted hwants
    obtain ⟨hall, rfl⟩ := wdogWanted_gets hgets
    have hclear : wdogWanted.Clear := by decide
    refine ⟨?_, hasks⟩
    have hin : i ∈ m.pending := hall hi
    simp [weight, Ledger.next, hclear, hin, hi, hnone, returns, sends]
  | returned thread recved =>
    have hsome : m.given () = some recved := hok
    have hmem : i ∈ (m.next (.returned () recved)).pending ↔ i ∈ m.pending := Iff.rfl
    have hgiven : (m.next (.returned () recved)).given () = none := by simp [Ledger.next]
    refine ⟨by simp [weight, hmem, hgiven, hsome, returns, sends], ?_⟩
    intro c hc
    simp [Ledger.next] at hc
  | failed thread err =>
    refine ⟨(weight_congr Iff.rfl rfl).le, ?_⟩
    intro c hc
    simp [Ledger.next] at hc
  | wiped =>
    refine ⟨?_, hasks⟩
    simp only [weight, Ledger.next, Set.mem_empty_iff_false, if_false, returns, sends]
    grind

theorem weight_foldl (hok : Monitored Ledger.next Ledger.Ok m entries) (hasks : Asks m)
    (hcalled : ∀ wanted, .called () wanted ∈ entries → wanted = wdogWanted)
    (hi : i ∈ flags wdogEventFlag) :
    weight i (entries.foldl Ledger.next m) + entries.countP returns ≤
        weight i m + entries.countP (sends i) ∧
      Asks (entries.foldl Ledger.next m) := by
  induction entries generalizing m with
  | nil => exact ⟨le_rfl, hasks⟩
  | cons e entries ih =>
    obtain ⟨hfirst, hasks'⟩ := weight_next hok.1 hasks
      (fun wanted heq => hcalled wanted (heq ▸ List.mem_cons_self)) hi
    obtain ⟨hrest, hend⟩ :=
      ih hok.2 hasks' fun wanted hin => hcalled wanted (List.mem_cons_of_mem _ hin)
    refine ⟨?_, hend⟩
    rw [List.foldl_cons, List.countP_cons, List.countP_cons]
    omega

end Trace

section Kept

variable {m : Ledger Unit} {i : ℕ} {entries : List (Entry Unit)}

/-- What was shown since the watchdog was last fed, the newest first. -/
def sinceFed (outputs : List Output) : List Output :=
  outputs.reverse.takeWhile (· ≠ .fed)

/-- The event of the task has not been lost: its flag is set, or the watchdog thread is about to
feed. -/
def Kept (i : ℕ) (m : Ledger Unit) : Prop := i ∈ m.pending ∨ m.given () ≠ none

theorem sinceFed_append_singleton (outputs : List Output) (o : Output) :
    sinceFed (outputs ++ [o]) = if o = .fed then [] else o :: sinceFed outputs := by
  rw [sinceFed, List.reverse_append, List.reverse_singleton, List.singleton_append,
    List.takeWhile_cons]
  split_ifs with ho hfed
  · simp [hfed] at ho
  · rfl
  · rfl
  · simp at ho
    contradiction

/-- Unless the call of the watchdog thread returns, no flag is lost. -/
theorem kept_next {e : Entry Unit} (h : Kept i m) (hreturns : returns e = false)
    (hwiped : e ≠ .wiped) : Kept i (m.next e) := by
  cases e with
  | sent set => exact h.imp (fun hin => .inl hin) id
  | called thread wanted => exact h
  | given thread wanted recved => exact .inr (by simp [Ledger.next])
  | returned thread recved => cases hreturns
  | failed thread err => exact h
  | wiped => exact absurd rfl hwiped

theorem kept_foldl (h : Kept i m) (hreturns : ∀ e ∈ entries, returns e = false)
    (hwiped : .wiped ∉ entries) : Kept i (entries.foldl Ledger.next m) := by
  induction entries generalizing m with
  | nil => exact h
  | cons e entries ih =>
    have hnot : e ≠ .wiped := fun heq => hwiped (heq ▸ List.mem_cons_self)
    exact ih (kept_next h (hreturns e List.mem_cons_self) hnot)
      (fun e he => hreturns e (List.mem_cons_of_mem _ he)) fun hin =>
        hwiped (List.mem_cons_of_mem _ hin)

/-- The task whose event is sent is kept. -/
theorem rtEventSend_kept (event : Event.System Unit) (mail : ℕ)
    (hin : i = mail ∧ i ∈ flags wdogEventFlag ∨ Kept i m) :
    Kept i ((rtEventSend event (1#32 <<< mail)).2.foldl Ledger.next m) := by
  by_cases hzero : 1#32 <<< mail = 0
  · rw [rtEventSend, if_pos hzero]
    refine hin.resolve_left ?_
    rintro ⟨rfl, hflag⟩
    have hlt : i < 32 := BitVec.lt_of_getLsbD hflag
    have hbit : (1#32 <<< i).getLsbD i = true := by
      rw [← BitVec.twoPow_eq, BitVec.getLsbD_twoPow]
      simp [hlt]
    rw [hzero] at hbit
    simp at hbit
  · rw [rtEventSend, if_neg hzero, List.foldl_cons]
    have hgiven (e : Entry Unit)
        (he : e ∈ (resumeSatisfied { event with set := event.set ||| 1#32 <<< mail }
          event.threads.suspendThread).2) : returns e = false ∧ e ≠ .wiped := by
      obtain ⟨thread, wanted, recved, rfl⟩ := mem_resumeSatisfied he
      exact ⟨rfl, by simp⟩
    refine kept_foldl ?_ (fun e he => (hgiven e he).1) fun hwiped => (hgiven _ hwiped).2 rfl
    rcases hin with ⟨rfl, hflag⟩ | hkept
    · have hlt : i < 32 := BitVec.lt_of_getLsbD hflag
      refine .inl (.inr ?_)
      rw [mem_flags, ← BitVec.twoPow_eq, BitVec.getLsbD_twoPow]
      simp [hlt]
    · exact kept_next hkept rfl (by simp)

end Kept

section Steps

variable {s : System} {m m' : Ledger Unit} {i : ℕ}

/-- What holds between two steps. -/
structure Watched (s : System) (m : Ledger Unit) : Prop where
  coupled : Coupled s.wdogEvent m
  asks : Asks m
  error : s.wdogEvent.threads.error () = .eok

/-- What a step feeds was paid for. -/
def Paid (m : Ledger Unit) (_ : Action) (outputs : List Output) (m' : Ledger Unit) : Prop :=
  ∀ i ∈ flags wdogEventFlag,
    weight i m' + outputs.count .fed ≤ weight i m + outputs.count (.announced i)

theorem one_mem : 1 ∈ flags wdogEventFlag := by decide

theorem initial_watched (tick : ℕ) : Watched (initial tick) .empty where
  coupled := rtEventCreate_coupled
  asks _ h := absurd h (by simp [Ledger.empty])
  error := rfl

theorem weight_empty (i : ℕ) : weight i .empty = 0 := by simp [weight, Ledger.empty]

theorem taskStep_wdogEvent (s : System) (a : TaskSchedule.Action) :
    (taskStep s a).1.wdogEvent = s.wdogEvent := by
  rw [taskStep]
  split
  · rfl
  · split
    · split_ifs <;> rfl
    · rfl
    · rfl

/-- The tasks show what they show, and feed nothing. -/
theorem taskStep_output (s : System) (a : TaskSchedule.Action) :
    (taskStep s a).2 = [] ∨ ∃ o, (taskStep s a).2 = [.tasks o] := by
  rw [taskStep]
  split
  · exact .inl rfl
  · split
    · split_ifs
      · exact .inr ⟨_, rfl⟩
      · exact .inl rfl
    · exact .inr ⟨_, rfl⟩
    · exact .inr ⟨_, rfl⟩

theorem filterMap_feed_eq_nil {entries : List (Entry Unit)}
    (h : ∀ e ∈ entries, returns e = false) : entries.filterMap feed = [] := by
  rw [List.filterMap_eq_nil_iff]
  intro e he
  have hreturns := h e he
  cases e <;> first | rfl | cases hreturns

/-- A feed forgets what was announced before. -/
theorem sinceFed_append_feed (history : List Output) {entries : List (Entry Unit)}
    (h : ¬ ∀ e ∈ entries, returns e = false) :
    sinceFed (history ++ entries.filterMap feed) = [] := by
  have hfed : ∀ o ∈ entries.filterMap feed, o = .fed := by
    intro o ho
    obtain ⟨e, -, hfeed⟩ := List.mem_filterMap.mp ho
    cases e <;> simp_all [feed]
  have hne : entries.filterMap feed ≠ [] := by
    push Not at h
    obtain ⟨e, he, hreturns⟩ := h
    refine List.ne_nil_of_mem (a := .fed) (List.mem_filterMap.mpr ⟨e, he, ?_⟩)
    cases e <;> first | rfl | exact absurd rfl hreturns
  obtain ⟨front, o, heq⟩ := List.eq_nil_or_concat' _ |>.resolve_left hne
  rw [heq, ← List.append_assoc, sinceFed_append_singleton,
    if_pos (hfed o (heq ▸ List.mem_append_right _ (List.mem_singleton.mpr rfl)))]

theorem count_fed (entries : List (Entry Unit)) :
    (entries.filterMap feed).count .fed = entries.countP returns := by
  induction entries with
  | nil => rfl
  | cons e entries ih => cases e <;> simp [List.filterMap_cons, List.countP_cons, feed, returns, ih]

theorem count_announced (entries : List (Entry Unit)) (i : ℕ) :
    (entries.filterMap feed).count (.announced i) = 0 := by
  induction entries with
  | nil => rfl
  | cons e entries ih => cases e <;> simp [List.filterMap_cons, feed, ih]

/-- The flag of a task is sent once when the task is announced. -/
theorem countP_sends (mail i : ℕ) {entries : List (Entry Unit)}
    (h : entries.flatMap Entry.origin = (Event.Action.send (1#32 <<< mail)).begins m) :
    entries.countP (sends i) ≤ if mail = i then 1 else 0 := by
  have hcount (entries : List (Entry Unit)) :
      entries.countP (sends i) = (entries.flatMap Entry.origin).countP (sendsFlag i) := by
    induction entries with
    | nil => rfl
    | cons e entries ih =>
      cases e with
      | sent set =>
        simp [sends, sendsFlag, Entry.origin, ih, List.countP_cons]
        rfl
      | called | given | returned | failed | wiped =>
        simp [sends, sendsFlag, Entry.origin, ih]
  rw [hcount, h, Event.Action.begins]
  split_ifs with hzero hmail hmail
  · simp
  · simp
  · exact List.countP_le_length
  · have hbit : (1#32 <<< mail).getLsbD i = false := by
      rw [← BitVec.twoPow_eq, BitVec.getLsbD_twoPow, decide_eq_false hmail, Bool.and_false]
    simp [sendsFlag, hbit]

/-- An entry has its origin in the action. -/
theorem mem_begins {a : Event.Action Unit}
    {entries : List (Entry Unit)} {e : Entry Unit} (h : entries.flatMap Entry.origin = a.begins m)
    (he : e ∈ entries) {b : Event.Action Unit} (hb : b ∈ e.origin) : b ∈ a.begins m :=
  h ▸ List.mem_flatMap.mpr ⟨e, he, hb⟩

/-- The watchdog thread asks for its flags and sends none. -/
theorem watchDogThreadEntry_served {event : Event.System Unit} (h : Coupled event m) :
    ∃ m', Monitored Ledger.next Ledger.Ok m (watchDogThreadEntry event).2 ∧
      m' = (watchDogThreadEntry event).2.foldl Ledger.next m ∧
      Coupled (watchDogThreadEntry event).1 m' ∧
      (∀ wanted, .called () wanted ∈ (watchDogThreadEntry event).2 → wanted = wdogWanted) ∧
      (∀ i, (watchDogThreadEntry event).2.countP (sends i) = 0) ∧
      .wiped ∉ (watchDogThreadEntry event).2 := by
  have hnoSends {a : Event.Action Unit} {entries : List (Entry Unit)}
      (horigin : entries.flatMap Entry.origin = a.begins m)
      (ha : ∀ set, .send set ∉ a.begins m) (i : ℕ) : entries.countP (sends i) = 0 := by
    rw [List.countP_eq_zero]
    intro e he hsends
    cases e with
    | sent set => exact ha set (mem_begins horigin he (List.mem_singleton.mpr rfl))
    | called | given | returned | failed | wiped => cases hsends
  by_cases hfree : event.threads.call () = none
  · obtain ⟨m', ⟨hok, hend, horigin⟩, hcoupled⟩ :=
      rtEventRecv_served h hfree (fun _ => 0) .fifo wdogWanted
    have hbegins : (Event.Action.recv () wdogWanted).begins m = [.recv () wdogWanted] :=
      begins_recv ((h.free ()).mpr hfree)
    rw [watchDogThreadEntry, if_pos hfree]
    refine ⟨m', hok, hend, hcoupled, fun wanted hin => ?_, hnoSends horigin ?_, fun hin => ?_⟩
    · have hmem := mem_begins horigin hin (List.mem_singleton.mpr rfl)
      rw [hbegins, List.mem_singleton] at hmem
      cases hmem
      rfl
    · intro set hmem
      rw [hbegins, List.mem_singleton] at hmem
      cases hmem
    · have hmem := mem_begins horigin hin (List.mem_singleton.mpr rfl)
      rw [hbegins, List.mem_singleton] at hmem
      cases hmem
  · obtain ⟨m', ⟨hok, hend, horigin⟩, hcoupled⟩ := goOn_served h ()
    rw [watchDogThreadEntry, if_neg hfree]
    refine ⟨m', hok, hend, hcoupled, fun wanted hin => ?_, hnoSends horigin fun set => ?_,
      fun hin => ?_⟩
    · exact absurd (mem_begins horigin hin (List.mem_singleton.mpr rfl)) List.not_mem_nil
    · exact List.not_mem_nil
    · exact absurd (mem_begins horigin hin (List.mem_singleton.mpr rfl)) List.not_mem_nil

theorem watchDogThreadEntry_error {event : Event.System Unit}
    (h : event.threads.error () = .eok) :
    (watchDogThreadEntry event).1.threads.error () = .eok := by
  rw [watchDogThreadEntry]
  split_ifs
  · have hset : wdogWanted.eventSet ≠ 0 := by decide
    have htime : wdogWanted.timeout ≠ 0 := by decide
    simp only [rtEventRecv, if_neg hset, if_neg htime]
    split
    · simp [Waiting.setError]
    · simp [Waiting.suspend, Waiting.setError, Waiting.setCall]
  · rw [goOn]
    split <;> exact h

/-- A step that loses the flag of no task: what is announced behind the last feed is kept. -/
def Remembers (m : Ledger Unit) (outputs : List Output) (m' : Ledger Unit) : Prop :=
  ∀ history, ∀ i ∈ flags wdogEventFlag, (.announced i ∈ sinceFed history → Kept i m) →
    .announced i ∈ sinceFed (history ++ outputs) → Kept i m'

theorem remembers_nil (h : ∀ i ∈ flags wdogEventFlag, Kept i m → Kept i m') :
    Remembers m [] m' := by
  intro history i hi hkept hin
  rw [List.append_nil] at hin
  exact h i hi (hkept hin)

theorem tasks_steps (h : Watched s m) (a : TaskSchedule.Action) :
    Watched (taskStep s a).1 m ∧ Paid m (.tasks a) (taskStep s a).2 m ∧
      Remembers m (taskStep s a).2 m := by
  have hsame := taskStep_wdogEvent s a
  refine ⟨⟨hsame ▸ h.coupled, h.asks, hsame ▸ h.error⟩, ?_⟩
  rcases taskStep_output s a with hout | ⟨o, hout⟩
  · rw [hout]
    exact ⟨fun i _ => le_rfl, remembers_nil fun i _ => id⟩
  · rw [hout]
    refine ⟨fun i _ => by simp, fun history i _ hkept hin => hkept ?_⟩
    rw [sinceFed_append_singleton] at hin
    simpa using hin

theorem announce_steps (h : Watched s m) (mail : ℕ) :
    ∃ m', Watched { s with
          announce := none
          wdogEvent := (rtEventSend s.wdogEvent (1#32 <<< mail)).1 } m' ∧
      Paid m .announce [.announced mail] m' ∧ Remembers m [.announced mail] m' := by
  obtain ⟨m', ⟨hok, hend, horigin⟩, hcoupled⟩ := rtEventSend_served h.coupled (1#32 <<< mail)
  have hcalled (wanted : Wanted)
      (hin : Entry.called () wanted ∈ (rtEventSend s.wdogEvent (1#32 <<< mail)).2) :
      wanted = wdogWanted := by
    have hbegins := mem_begins horigin hin (List.mem_singleton.mpr rfl)
    rw [Event.Action.begins] at hbegins
    split_ifs at hbegins
    · cases hbegins
    · cases List.mem_singleton.mp hbegins
  refine ⟨m', ⟨hcoupled, hend ▸ (weight_foldl hok h.asks hcalled one_mem).2,
    (congrFun (rtEventSend_error _ _) _).trans h.error⟩, fun i hi => ?_, ?_⟩
  · have hweight := (weight_foldl hok h.asks hcalled hi).1
    have hsends := countP_sends mail i horigin
    rw [hend]
    by_cases hmail : mail = i
    · subst hmail
      simp at hsends ⊢
      omega
    · rw [if_neg hmail] at hsends
      simp [hmail]
      omega
  · intro history i hi hkept hin
    rw [sinceFed_append_singleton, if_neg (by simp), List.mem_cons] at hin
    rw [hend]
    refine rtEventSend_kept s.wdogEvent mail (hin.imp (fun heq => ?_) hkept)
    cases heq
    exact ⟨rfl, hi⟩

theorem watchDog_steps (h : Watched s m) :
    ∃ m', Watched { s with wdogEvent := (watchDogThreadEntry s.wdogEvent).1 } m' ∧
      Paid m .watchDog ((watchDogThreadEntry s.wdogEvent).2.filterMap feed) m' ∧
      Remembers m ((watchDogThreadEntry s.wdogEvent).2.filterMap feed) m' := by
  obtain ⟨m', hok, hend, hcoupled, hcalled, hsends, hwiped⟩ :=
    watchDogThreadEntry_served h.coupled
  refine ⟨m', ⟨hcoupled, hend ▸ (weight_foldl hok h.asks hcalled one_mem).2,
    watchDogThreadEntry_error h.error⟩, fun i hi => ?_, ?_⟩
  · have hweight := (weight_foldl hok h.asks hcalled hi).1
    rw [hsends] at hweight
    rw [count_fed, count_announced, hend]
    omega
  · by_cases hreturns : ∀ e ∈ (watchDogThreadEntry s.wdogEvent).2, returns e = false
    · rw [filterMap_feed_eq_nil hreturns, hend]
      exact remembers_nil fun i _ hkept => kept_foldl hkept hreturns hwiped
    · intro history i _ _ hin
      rw [sinceFed_append_feed history hreturns] at hin
      cases hin

theorem step_steps (h : Watched s m) (a : Action) :
    ∃ s' outputs m', step s a = some (s', outputs) ∧ Watched s' m' ∧ Paid m a outputs m' ∧
      Remembers m outputs m' := by
  cases a with
  | tasks a => exact ⟨_, _, m, rfl, tasks_steps h a⟩
  | announce =>
    cases hannounce : s.announce with
    | none =>
      exact ⟨s, [], m, by simp only [step, hannounce], h, fun i _ => le_rfl,
        remembers_nil fun i _ => id⟩
    | some mail =>
      obtain ⟨m', hsteps⟩ := announce_steps h mail
      exact ⟨_, _, m', by simp only [step, hannounce], hsteps⟩
  | watchDog =>
    obtain ⟨m', hsteps⟩ := watchDog_steps h
    exact ⟨_, _, m', rfl, hsteps⟩

theorem step_refines : StepRefines step Paid Watched fun _ _ => True := by
  intro s m a h _
  obtain ⟨s', outputs, m', hstep, hwatched, hpaid, -⟩ := step_steps h a
  exact ⟨s', outputs, m', hstep, hpaid, hwatched⟩

end Steps

end VehicleTerminal.Watchdog
