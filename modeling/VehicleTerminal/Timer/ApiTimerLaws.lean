import VehicleTerminal.Timer.ApiTimerRuns

/-! The timing of the 10 ms and the 1 s timers whose callbacks touch no timer: when a timer of
either mode fires, what a restart and a close do, and that no timer disturbs another. -/
namespace VehicleTerminal.ApiTimers

variable {γ : Type*}

section Laws

/-- What a service with `max` timers promises of a run from the cleared table; the firings are
listed for the ticks that follow the call, the first of them at index 0. -/
structure ServiceCorrect (max : ℕ) (events : List (Event γ)) : Prop where
  continues : ∀ (before rest after : List (Event γ)) (i timeLen : ℕ) (callBack : Option γ),
    events = before ++ .call (.start i timeLen timerModeContinue callBack) :: (rest ++ after) →
    i < max → 0 < timeLen → (∀ e ∈ rest, e.spares i) →
    ∀ k < ticks rest,
      (firings max i rest (tableAfter max
        (before ++ [.call (.start i timeLen timerModeContinue callBack)]) timerInit))[k]? =
      some (if timeLen ∣ k + 1 then callBack.toList else [])
  once : ∀ (before rest after : List (Event γ)) (i timeLen : ℕ) (callBack : Option γ),
    events = before ++ .call (.start i timeLen timerModeOnce callBack) :: (rest ++ after) →
    i < max → 0 < timeLen → (∀ e ∈ rest, e.spares i) →
    ∀ k < ticks rest,
      (firings max i rest (tableAfter max
        (before ++ [.call (.start i timeLen timerModeOnce callBack)]) timerInit))[k]? =
      some (if k + 1 = timeLen then callBack.toList else [])
  /-- A restart of the timer that `start` was the last to start. -/
  restarts : ∀ (before between rest after : List (Event γ)) (i timeLen mode : ℕ)
    (callBack : Option γ),
    events = before ++ .call (.start i timeLen mode callBack) ::
      (between ++ .call (.restart i) :: (rest ++ after)) →
    i < max → 0 < timeLen → (mode = timerModeContinue ∨ mode = timerModeOnce) →
    (∀ timeLen' mode' callBack', .call (.start i timeLen' mode' callBack') ∉ between) →
    (∀ e ∈ rest, e.spares i) →
    ∀ k < ticks rest,
      (firings max i rest (tableAfter max (before ++ .call (.start i timeLen mode callBack) ::
        (between ++ [.call (.restart i)])) timerInit))[k]? =
      some (if mode = timerModeContinue ∧ timeLen ∣ k + 1 ∨
        mode = timerModeOnce ∧ k + 1 = timeLen then callBack.toList else [])
  /-- Up to a start or a restart of the timer; it may be closed again in between. -/
  closes : ∀ (before rest after : List (Event γ)) (i : ℕ),
    events = before ++ .call (.close i) :: (rest ++ after) → i < max →
    (∀ timeLen mode callBack, .call (.start i timeLen mode callBack) ∉ rest) →
    .call (.restart i) ∉ rest →
    firings max i rest (tableAfter max (before ++ [.call (.close i)]) timerInit) =
      List.replicate (ticks rest) []
  /-- Another run that does the same to the timer and ticks as often in between. -/
  independent : ∀ (events' : List (Event γ)) (i : ℕ), (∀ e ∈ events', e.typed) →
    (∀ e ∈ events', e.silent) → i < max → acts i events = acts i events' →
    firings max i events timerInit = firings max i events' timerInit

variable {max i : ℕ} {t : Table γ}

theorem tableAfter_append (before after : List (Event γ)) :
    tableAfter max (before ++ after) t = tableAfter max after (tableAfter max before t) := by
  induction before generalizing t with
  | nil => rfl
  | cons event before ih => exact ih

/-- The slot just after a start. -/
theorem started_slot (before : List (Event γ)) {timeLen : ℕ} (mode : ℕ) (callBack : Option γ)
    (hi : i < max) (hlen : 0 < timeLen) :
    tableAfter max (before ++ [.call (.start i timeLen mode callBack)]) t i =
      { number := i % 2 ^ 6, timeswitch := timrOn, timerMode := mode % 2 ^ 1,
        timeLen := timeLen, timeCount := 0, callback := callBack } := by
  rw [tableAfter_append, tableAfter, tableAfter, Event.effect]
  refine (Call.effect_self (by rfl) hi).trans ?_
  exact if_pos hlen

/-- The slot just after a restart. -/
theorem restarted_slot (hi : i < max) (before : List (Event γ)) :
    tableAfter max (before ++ [.call (.restart i)]) t i =
      { tableAfter max before t i with timeswitch := timrOn, timeCount := 0 } := by
  rw [tableAfter_append, tableAfter, tableAfter, Event.effect]
  exact Call.effect_self (by rfl) hi

/-- Mode, length and callback of a slot, which only a start changes. -/
def StrTimer.setting (timer : StrTimer γ) : ℕ × ℕ × Option γ :=
  (timer.timerMode, timer.timeLen, timer.callback)

theorem tickAlone_setting (timer : StrTimer γ) : (tickAlone timer).setting = timer.setting := by
  unfold tickAlone
  dsimp only
  split_ifs <;> rfl

theorem Call.effect_setting {c : Call γ}
    (h : ∀ timeLen mode callBack, c ≠ .start i timeLen mode callBack) :
    (c.effect max t i).setting = (t i).setting := by
  by_cases hc : c.timeNumber = i
  · by_cases hi : i < max
    · rw [Call.effect_self hc hi]
      cases c with
      | start timeNumber timeLen mode callBack =>
        obtain rfl : timeNumber = i := hc
        exact absurd rfl (h timeLen mode callBack)
      | restart timeNumber => rfl
      | close timeNumber => rfl
    · rw [Call.effect_out_of_range (hc ▸ hi)]
  · rw [Call.effect_other hc]

/-- A run without a start of the timer keeps its setting. -/
theorem tableAfter_setting (hi : i < max) (h : ∀ j, Stored (t j)) {events : List (Event γ)}
    (typed : ∀ e ∈ events, e.typed) (alone : ∀ e ∈ events, e.undisturbed i)
    (hstarts : ∀ timeLen mode callBack, .call (.start i timeLen mode callBack) ∉ events) :
    (tableAfter max events t i).setting = (t i).setting := by
  induction events generalizing t with
  | nil => rfl
  | cons event events ih =>
    have htyped := typed event List.mem_cons_self
    have hrest := fun (t : Table γ) (h : ∀ j, Stored (t j)) => ih h
      (fun e he => typed e (List.mem_cons_of_mem _ he))
      (fun e he => alone e (List.mem_cons_of_mem _ he))
      fun timeLen mode callBack he => hstarts timeLen mode callBack (List.mem_cons_of_mem _ he)
    cases event with
    | call c =>
      refine (hrest _ (Call.effect_stored h htyped)).trans (Call.effect_setting ?_)
      intro timeLen mode callBack hc
      exact hstarts timeLen mode callBack (hc ▸ List.mem_cons_self)
    | tick callbacks =>
      refine (hrest _ (timerManage_stored h htyped max)).trans ?_
      rw [timerManage_undisturbed (alone _ List.mem_cons_self) hi (h i).bit, tickAlone_setting]

/-- The setting of a timer as long as it is not started anew. -/
theorem setting_after_start (callBack : Option γ) (hi : i < max)
    {before between : List (Event γ)} {timeLen mode : ℕ} (hlen : 0 < timeLen)
    (typed : ∀ e ∈ before ++ .call (.start i timeLen mode callBack) :: between, e.typed)
    (alone : ∀ e ∈ between, e.undisturbed i)
    (hstarts : ∀ timeLen' mode' callBack',
      .call (.start i timeLen' mode' callBack') ∉ between) :
    (tableAfter max (before ++ .call (.start i timeLen mode callBack) :: between)
      timerInit i).setting = (mode % 2 ^ 1, timeLen, callBack) := by
  have hregroup : before ++ .call (.start i timeLen mode callBack) :: between =
      (before ++ [.call (.start i timeLen mode callBack)]) ++ between := by simp
  rw [hregroup] at typed ⊢
  have hstored := tableAfter_stored max timerInit_stored
    fun e he => typed e (List.mem_append_left _ he)
  rw [tableAfter_append, tableAfter_setting hi hstored
    (fun e he => typed e (List.mem_append_right _ he)) alone hstarts,
    started_slot before mode callBack hi hlen]
  rfl

/-- The firings of a slot that has just been armed, with its count at 0. -/
theorem firings_of_armed (hi : i < max) (h : ∀ j, Stored (t j)) {events : List (Event γ)}
    (typed : ∀ e ∈ events, e.typed) (alone : ∀ e ∈ events, e.undisturbed i)
    (spares : ∀ e ∈ events, e.spares i) (hon : (t i).timeswitch = timrOn)
    (hcount : (t i).timeCount = 0) (hlen : 0 < (t i).timeLen) {k : ℕ} (hk : k < ticks events) :
    (firings max i events t)[k]? =
      some (if (t i).timerMode ≠ timerModeOnce ∧ (t i).timeLen ∣ k + 1 ∨
        (t i).timerMode = timerModeOnce ∧ k + 1 = (t i).timeLen then (t i).callback.toList
      else []) := by
  have counting : Counting (t i) := ⟨hon, by omega, (h i).fits⟩
  rw [firings_eq_alone hi h typed alone, acts_of_spares spares]
  by_cases hmode : (t i).timerMode = timerModeOnce
  · rw [firingsAlone_of_once counting hmode hk, hcount, Nat.zero_add]
    simp only [hmode, ne_eq, not_true_eq_false, false_and, true_and, false_or]
  · rw [firingsAlone_of_repeating counting hmode hk, hcount, Nat.zero_add]
    simp only [hmode, ne_eq, not_false_eq_true, true_and, false_and, or_false]

/-- A closed timer does not fire before it is armed again. -/
theorem firingsAlone_of_closed {timer : StrTimer γ} (hoff : timer.timeswitch ≠ timrOn)
    {events : List (Event γ)}
    (hstarts : ∀ timeLen mode callBack, .call (.start i timeLen mode callBack) ∉ events)
    (hrestarts : .call (.restart i) ∉ events) :
    firingsAlone i (acts i events) timer = List.replicate (ticks events) [] := by
  induction events generalizing timer with
  | nil => rfl
  | cons event events ih =>
    have hrest := fun (timer : StrTimer γ) (hoff : timer.timeswitch ≠ timrOn) => ih hoff
      (fun timeLen mode callBack he => hstarts timeLen mode callBack (List.mem_cons_of_mem _ he))
      fun he => hrestarts (List.mem_cons_of_mem _ he)
    cases event with
    | call c =>
      rw [acts]
      split_ifs with hc
      · subst hc
        cases c with
        | start timeNumber timeLen mode callBack =>
          exact absurd List.mem_cons_self (hstarts timeLen mode callBack)
        | restart timeNumber => exact absurd List.mem_cons_self hrestarts
        | close timeNumber => exact hrest _ (show timrOff ≠ timrOn by decide)
      · exact hrest timer hoff
    | tick callbacks =>
      rw [acts, firingsAlone, tick_of_off hoff, hrest timer hoff,
        if_neg fun hexpires : Expires timer => hoff hexpires.1]
      rfl

/-- What holds of all events of a run, for the part up to an event and a part after it. -/
theorem split_run {P : Event γ → Prop} {before rest after : List (Event γ)} {event : Event γ}
    (h : ∀ e ∈ before ++ event :: (rest ++ after), P e) :
    (∀ e ∈ before ++ [event], P e) ∧ ∀ e ∈ rest, P e := by
  simp only [List.mem_append, List.mem_cons, List.not_mem_nil, or_false] at h ⊢
  exact ⟨fun e he => h e (he.imp_right .inl), fun e he => h e (.inr (.inr (.inl he)))⟩

/-- The law of the started timers, for both modes. -/
theorem firings_of_started (hi : i < max) {before rest after : List (Event γ)}
    {timeLen mode : ℕ} {callBack : Option γ} (hlen : 0 < timeLen)
    (typed : ∀ e ∈ before ++ .call (.start i timeLen mode callBack) :: (rest ++ after), e.typed)
    (alone : ∀ e ∈ rest, e.undisturbed i) (spares : ∀ e ∈ rest, e.spares i) {k : ℕ}
    (hk : k < ticks rest) :
    (firings max i rest (tableAfter max
      (before ++ [.call (.start i timeLen mode callBack)]) timerInit))[k]? =
    some (if mode % 2 ^ 1 ≠ timerModeOnce ∧ timeLen ∣ k + 1 ∨
      mode % 2 ^ 1 = timerModeOnce ∧ k + 1 = timeLen then callBack.toList else []) := by
  have hslot := started_slot (t := timerInit) before mode callBack hi hlen
  have hstored := tableAfter_stored max timerInit_stored (split_run typed).1
  rw [firings_of_armed hi hstored (split_run typed).2 alone spares
    (by rw [hslot]) (by rw [hslot]) (by rw [hslot]; exact hlen) hk, hslot]

/-- One of the services, with whatever number of timers. -/
theorem service_correct (max : ℕ) {events : List (Event γ)} (typed : ∀ e ∈ events, e.typed)
    (silent : ∀ e ∈ events, e.silent) : ServiceCorrect max events where
  continues before rest after i timeLen callBack hevents hi hlen spares k hk := by
    subst hevents
    have alone : ∀ e ∈ rest, e.undisturbed i := fun e he =>
      Event.undisturbed_of_silent ((split_run silent).2 e he)
    rw [firings_of_started hi hlen typed alone spares hk]
    simp [timerModeContinue, timerModeOnce]
  once before rest after i timeLen callBack hevents hi hlen spares k hk := by
    subst hevents
    have alone : ∀ e ∈ rest, e.undisturbed i := fun e he =>
      Event.undisturbed_of_silent ((split_run silent).2 e he)
    rw [firings_of_started hi hlen typed alone spares hk]
    simp [timerModeOnce]
  restarts before between rest after i timeLen mode callBack hevents hi hlen hmode hbetween spares
      k hk := by
    subst hevents
    have hregroup : before ++ .call (.start i timeLen mode callBack) ::
        (between ++ .call (.restart i) :: (rest ++ after)) =
        (before ++ .call (.start i timeLen mode callBack) :: between) ++
          .call (.restart i) :: (rest ++ after) := by
      simp
    have htable : before ++ .call (.start i timeLen mode callBack) ::
        (between ++ [.call (.restart i)]) =
        (before ++ .call (.start i timeLen mode callBack) :: between) ++ [.call (.restart i)] := by
      simp
    rw [hregroup] at typed silent
    have alone : ∀ e ∈ rest, e.undisturbed i := fun e he =>
      Event.undisturbed_of_silent ((split_run silent).2 e he)
    have hstored := tableAfter_stored max timerInit_stored (split_run typed).1
    have hslot := restarted_slot (t := timerInit) hi
      (before ++ .call (.start i timeLen mode callBack) :: between)
    have hsetting := setting_after_start callBack hi hlen
      (fun e he => typed e (List.mem_append_left _ he))
      (fun e he => Event.undisturbed_of_silent (silent e (by simp [he]))) hbetween
    simp only [StrTimer.setting, Prod.mk.injEq] at hsetting
    rw [htable, firings_of_armed hi hstored (split_run typed).2 alone spares
      (by rw [hslot]) (by rw [hslot]) (by rw [hslot]; simpa only [hsetting] using hlen) hk, hslot]
    simp only [hsetting]
    rcases hmode with rfl | rfl <;> simp [timerModeContinue, timerModeOnce]
  closes before rest after i hevents hi hstarts hrestarts := by
    subst hevents
    have hstored := tableAfter_stored max timerInit_stored (split_run typed).1
    have hoff :
        (tableAfter max (before ++ [.call (.close i)]) timerInit i).timeswitch ≠ timrOn := by
      rw [tableAfter_append, tableAfter, tableAfter, Event.effect, Call.effect_self (by rfl) hi]
      change timrOff ≠ timrOn
      decide
    have alone : ∀ e ∈ rest, e.undisturbed i := fun e he =>
      Event.undisturbed_of_silent ((split_run silent).2 e he)
    rw [firings_eq_alone hi hstored (split_run typed).2 alone,
      firingsAlone_of_closed hoff hstarts hrestarts]
  independent events' i typed' silent' hi hacts := by
    rw [firings_eq_alone hi timerInit_stored typed fun e he =>
        Event.undisturbed_of_silent (silent e he), hacts,
      firings_eq_alone hi timerInit_stored typed' fun e he =>
        Event.undisturbed_of_silent (silent' e he)]

/-- The 10 ms and the 1 s timers keep their time, and each keeps its own. There is no restart
for the 1 s timers: their runs are those without one. -/
theorem services_correct {events : List (Event γ)} (typed : ∀ e ∈ events, e.typed)
    (silent : ∀ e ∈ events, e.silent) :
    ServiceCorrect maxTimenum10ms events ∧ ServiceCorrect maxTimenum1s events :=
  ⟨service_correct maxTimenum10ms typed silent, service_correct maxTimenum1s typed silent⟩

/-- Two timers of different modes, the second of them restarted. -/
theorem services_correct_two_timers :
    ServiceCorrect maxTimenum10ms [.call (.start 0 2 timerModeContinue (some ())),
      .call (.start 1 3 timerModeOnce (some ())), .tick fun _ => ⟨[], .success⟩,
      .call (.restart 1), .tick fun _ => ⟨[], .error⟩, .call (.close 0)] ∧
    ServiceCorrect maxTimenum1s [.call (.start 0 2 timerModeContinue (some ())),
      .call (.start 1 3 timerModeOnce (some ())), .tick fun _ => ⟨[], .success⟩,
      .call (.restart 1), .tick fun _ => ⟨[], .error⟩, .call (.close 0)] :=
  services_correct (by simp [Event.typed, Call.typed]) (by simp [Event.silent])

end Laws

end VehicleTerminal.ApiTimers
