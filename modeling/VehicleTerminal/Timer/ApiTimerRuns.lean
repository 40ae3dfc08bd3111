import VehicleTerminal.Timer.ApiTimerAlone

/-! Runs of the timer service. While the callbacks touch no timer, every timer runs as if it
were alone, which gives the ticks at which it fires. -/
namespace VehicleTerminal.ApiTimers

variable {γ : Type*}

section Runs

variable (max : ℕ)

/-- A call from the program, or a tick with what the callbacks do in it. -/
inductive Event (γ : Type*)
  | call (c : Call γ)
  | tick (callbacks : ℕ → Behaviour γ)

def Event.effect : Event γ → Table γ → Table γ
  | .call c, t => c.effect max t
  | .tick callbacks, t => (timerManage max callbacks t max).table

def tableAfter : List (Event γ) → Table γ → Table γ
  | [], t => t
  | event :: events, t => tableAfter events (event.effect max t)

/-- The callbacks of a slot among those that have run. -/
def ranFor (i : ℕ) (ran : List (ℕ × γ)) : List γ :=
  ran.filterMap fun r => if r.1 = i then some r.2 else none

/-- The callbacks that a tick runs for a slot. -/
def fires (i : ℕ) (callbacks : ℕ → Behaviour γ) (t : Table γ) : List γ :=
  ranFor i (timerManage max callbacks t max).ran

/-- For each tick of the run the callbacks of the slot that run. -/
def firings (i : ℕ) : List (Event γ) → Table γ → List (List γ)
  | [], _ => []
  | .call c :: events, t => firings i events (c.effect max t)
  | .tick callbacks :: events, t =>
    fires max i callbacks t :: firings i events ((Event.tick callbacks).effect max t)

/-- The number of ticks. -/
def ticks : List (Event γ) → ℕ
  | [] => 0
  | .call _ :: events => ticks events
  | .tick _ :: events => ticks events + 1

/-- The callbacks touch no timer. -/
def Event.silent : Event γ → Prop
  | .call _ => True
  | .tick callbacks => ∀ j, (callbacks j).calls = []

/-- The callbacks, its own included, leave this timer alone. -/
def Event.undisturbed (i : ℕ) : Event γ → Prop
  | .call _ => True
  | .tick callbacks => ∀ j, ∀ c ∈ (callbacks j).calls, c.timeNumber ≠ i

/-- The program and the callbacks of the other timers leave this timer alone. -/
def Event.spares (i : ℕ) : Event γ → Prop
  | .call c => c.timeNumber ≠ i
  | .tick callbacks => ∀ j, j ≠ i → ∀ c ∈ (callbacks j).calls, c.timeNumber ≠ i

/-- The length of a start is a 16-bit value. -/
def Call.typed : Call γ → Prop
  | .start _ timeLen _ _ => timeLen < 2 ^ 16
  | .restart _ => True
  | .close _ => True

def Event.typed : Event γ → Prop
  | .call c => c.typed
  | .tick callbacks => ∀ j, ∀ c ∈ (callbacks j).calls, c.typed

def Call.act : Call γ → Act γ
  | .start _ timeLen mode callBack => .start timeLen mode callBack
  | .restart _ => .restart
  | .close _ => .close

/-- What a run contains for one timer. -/
def acts (i : ℕ) : List (Event γ) → List (Act γ)
  | [] => []
  | .call c :: events => if c.timeNumber = i then c.act :: acts i events else acts i events
  | .tick _ :: events => .tick :: acts i events

end Runs

section Slots

variable {max i : ℕ} {t : Table γ} {callbacks : ℕ → Behaviour γ} {s : Progress γ}

theorem Call.effect_other {c : Call γ} (h : c.timeNumber ≠ i) : c.effect max t i = t i := by
  cases c <;> simp only [Call.effect, timerStart, restartTime, closeTime] <;> split_ifs
  all_goals first | exact Function.update_of_ne (Ne.symm h) _ _ | rfl

theorem Call.effect_self {c : Call γ} (h : c.timeNumber = i) (hi : i < max) :
    c.effect max t i = c.act.effect i (t i) := by
  subst h
  cases c with
  | start timeNumber timeLen mode callBack =>
    simp only [Call.timeNumber] at hi
    simp only [Call.effect, timerStart, Call.act, Act.effect, Call.timeNumber, hi, true_and]
    split_ifs
    · exact Function.update_self _ _ _
    · rfl
  | restart timeNumber =>
    simp only [Call.timeNumber] at hi
    simp only [Call.effect, restartTime, Call.act, Act.effect, Call.timeNumber, hi, if_true,
      Function.update_self]
  | close timeNumber =>
    simp only [Call.timeNumber] at hi
    simp only [Call.effect, closeTime, Call.act, Act.effect, Call.timeNumber, hi, if_true,
      Function.update_self]

theorem callAll_other {calls : List (Call γ)} (h : ∀ c ∈ calls, c.timeNumber ≠ i) :
    callAll max calls t i = t i := by
  induction calls generalizing t with
  | nil => rfl
  | cons c calls ih =>
    have hrest := ih (t := c.effect max t) fun d hd => h d (List.mem_cons_of_mem _ hd)
    exact hrest.trans (Call.effect_other (h c List.mem_cons_self))

theorem expire_other {j : ℕ} (hj : j ≠ i) (h : ∀ c ∈ (callbacks j).calls, c.timeNumber ≠ i) :
    (expire max callbacks j s).table i = s.table i := by
  have hcleared : Function.update s.table j { s.table j with timeCount := 0 } i = s.table i :=
    Function.update_of_ne (Ne.symm hj) _ _
  unfold expire
  cases (s.table j).callback with
  | none => exact hcleared
  | some _ => exact (callAll_other h).trans hcleared

theorem timerManageSlot_other {j : ℕ} (hj : j ≠ i)
    (h : ∀ c ∈ (callbacks j).calls, c.timeNumber ≠ i) :
    (timerManageSlot max callbacks j s).table i = s.table i := by
  simp only [timerManageSlot]
  split_ifs
  · exact (Function.update_of_ne (Ne.symm hj) _ _).trans (expire_other hj h)
  · exact Function.update_of_ne (Ne.symm hj) _ _
  · rfl

/-- The loop reaches a slot that the callbacks before it spare as the tick found it. -/
theorem timerManage_reached (h : ∀ j, j ≠ i → ∀ c ∈ (callbacks j).calls, c.timeNumber ≠ i)
    {k : ℕ} (hk : k ≤ i) : (timerManage max callbacks t k).table i = t i := by
  induction k with
  | zero => rfl
  | succ k ih =>
    have hne : k ≠ i := by omega
    exact (timerManageSlot_other hne (h k hne)).trans (ih (by omega))

/-- What the round for the slot leaves, the later rounds leave. -/
theorem timerManage_passed (h : ∀ j, i < j → ∀ c ∈ (callbacks j).calls, c.timeNumber ≠ i)
    {k : ℕ} (hk : i < k) :
    (timerManage max callbacks t k).table i = (timerManage max callbacks t (i + 1)).table i := by
  induction k, hk using Nat.le_induction with
  | base => rfl
  | succ k hik ih =>
    have hne : k ≠ i := Nat.ne_of_gt hik
    exact (timerManageSlot_other hne (h k hik)).trans ih

/-- A round in which the timer does not expire. -/
theorem timerManageSlot_waits (h : ¬ Expires (s.table i)) :
    (timerManageSlot max callbacks i s).table i = tickAlone (s.table i) := by
  simp only [timerManageSlot, tickAlone]
  by_cases hon : (s.table i).timeswitch = timrOn
  · have hlen : ¬ (s.table i).timeLen ≤ ((s.table i).timeCount + 1) % 2 ^ 16 :=
      fun hle => h ⟨hon, hle⟩
    simp only [hon, hlen, if_true, if_false, Function.update_self]
  · simp only [hon, if_false]

/-- A round in which it does. -/
theorem timerManageSlot_expires (h : Expires (s.table i)) :
    (timerManageSlot max callbacks i s).table i =
      settle (expire max callbacks i s).err ((expire max callbacks i s).table i) := by
  simp only [timerManageSlot, h.1, h.2, if_true, Function.update_self]

/-- A round runs the callback of its own slot, if the slot expires. -/
theorem timerManageSlot_ran (j : ℕ) :
    ranFor i (timerManageSlot max callbacks j s).ran =
      ranFor i s.ran ++
        if j = i ∧ Expires (s.table j) then (s.table j).callback.toList else [] := by
  simp only [timerManageSlot, Expires]
  by_cases hon : (s.table j).timeswitch = timrOn
  · by_cases hlen : (s.table j).timeLen ≤ ((s.table j).timeCount + 1) % 2 ^ 16
    · simp only [hon, hlen, if_true, and_self, and_true, expire]
      cases (s.table j).callback with
      | none => simp
      | some callback => by_cases hj : j = i <;> simp [ranFor, hj]
    · simp only [hon, hlen, if_true, if_false, and_false, List.append_nil]
  · simp only [hon, if_false, false_and, and_false, List.append_nil]

/-- The rounds for the slots in front of this one run other callbacks. -/
theorem timerManage_ran_before {k : ℕ} (hk : k ≤ i) :
    ranFor i (timerManage max callbacks t k).ran = [] := by
  induction k with
  | zero => rfl
  | succ k ih =>
    rw [timerManage, timerManageSlot_ran, ih (by omega), if_neg fun h => absurd h.1 (by omega)]
    rfl

/-- A tick runs the callback of a slot that expires when the loop reaches it, once. -/
theorem timerManage_ran {k : ℕ} (hk : i < k) :
    ranFor i (timerManage max callbacks t k).ran =
      if Expires ((timerManage max callbacks t i).table i) then
        ((timerManage max callbacks t i).table i).callback.toList
      else [] := by
  induction k, hk using Nat.le_induction with
  | base =>
    rw [timerManage, timerManageSlot_ran, timerManage_ran_before le_rfl, List.nil_append]
    simp only [true_and]
  | succ k hik ih =>
    have hother : ¬ (k = i ∧ Expires ((timerManage max callbacks t k).table k)) :=
      fun h => absurd h.1 (Nat.ne_of_gt hik)
    rw [timerManage, timerManageSlot_ran, ih, if_neg hother, List.append_nil]

theorem fires_eq (hi : i < max) :
    fires max i callbacks t = if Expires ((timerManage max callbacks t i).table i) then
      ((timerManage max callbacks t i).table i).callback.toList else [] := timerManage_ran hi

/-- A stored mode is one bit, so no stored mode stops at a success. -/
theorem settle_of_bit (err : ErrorStatus) {timer : StrTimer γ} (h : timer.timerMode < 2) :
    settle err timer =
      if timer.timerMode = timerModeOnce then { timer with timeswitch := timrOff } else timer := by
  have hstop : timer.timerMode ≠ timerModeStopWhenSuccess := by
    unfold timerModeStopWhenSuccess
    omega
  simp only [settle, hstop, false_and, if_false]

/-- A round whose callback leaves its own timer alone. -/
theorem timerManageSlot_undisturbed (h : ∀ c ∈ (callbacks i).calls, c.timeNumber ≠ i)
    (hbit : (s.table i).timerMode < 2) :
    (timerManageSlot max callbacks i s).table i = tickAlone (s.table i) := by
  by_cases hexpires : Expires (s.table i)
  · have hcleared : (expire max callbacks i s).table i = { s.table i with timeCount := 0 } := by
      unfold expire
      cases (s.table i).callback with
      | none => exact Function.update_self _ _ _
      | some _ => exact (callAll_other h).trans (Function.update_self _ _ _)
    have hcleared_bit : ({ s.table i with timeCount := 0 } : StrTimer γ).timerMode < 2 := hbit
    rw [timerManageSlot_expires hexpires, hcleared, settle_of_bit _ hcleared_bit]
    simp only [tickAlone, hexpires.1, hexpires.2, if_true]
  · exact timerManageSlot_waits hexpires

/-- A tick whose callbacks leave the timer alone. -/
theorem timerManage_undisturbed (h : ∀ j, ∀ c ∈ (callbacks j).calls, c.timeNumber ≠ i)
    (hi : i < max) (hbit : (t i).timerMode < 2) :
    (timerManage max callbacks t max).table i = tickAlone (t i) := by
  have hreached : (timerManage max callbacks t i).table i = t i :=
    timerManage_reached (fun j _ => h j) le_rfl
  rw [timerManage_passed (fun j _ => h j) hi, timerManage,
    timerManageSlot_undisturbed (h i) (hreached ▸ hbit), hreached]

end Slots

section Invariant

variable {max i : ℕ} {t : Table γ}

/-- What the calls and the ticks keep of every slot. -/
structure Stored (timer : StrTimer γ) : Prop where
  bit : timer.timerMode < 2
  fits : timer.timeLen < 2 ^ 16
  started : timer.callback ≠ none → 0 < timer.timeLen

theorem timerInit_stored (i : ℕ) : Stored ((timerInit : Table γ) i) where
  bit := Nat.zero_lt_two
  fits := by simp [timerInit]
  started h := absurd rfl h

theorem Stored.withCount {timer : StrTimer γ} (h : Stored timer) (n : ℕ) :
    Stored { timer with timeCount := n } := ⟨h.bit, h.fits, h.started⟩

theorem Stored.withSwitch {timer : StrTimer γ} (h : Stored timer) (s : ℕ) :
    Stored { timer with timeswitch := s } := ⟨h.bit, h.fits, h.started⟩

theorem Stored.settle {timer : StrTimer γ} (h : Stored timer) (err : ErrorStatus) :
    Stored (settle err timer) := by
  unfold ApiTimers.settle
  split_ifs
  · exact h.withSwitch _
  · exact h.withSwitch _
  · exact h

theorem Act.effect_stored {timer : StrTimer γ} (h : Stored timer) {c : Call γ}
    (typed : c.typed) : Stored (c.act.effect i timer) := by
  cases c with
  | start timeNumber timeLen mode callBack =>
    simp only [Call.act, Act.effect]
    split_ifs with hlen
    · exact ⟨Nat.mod_lt _ (by decide), typed, fun _ => hlen⟩
    · exact h
  | restart timeNumber => exact ⟨h.bit, h.fits, h.started⟩
  | close timeNumber => exact h.withSwitch _

theorem Call.effect_out_of_range {c : Call γ} (h : ¬ c.timeNumber < max) :
    c.effect max t = t := by
  cases c <;> simp only [Call.timeNumber] at h <;>
    simp only [Call.effect, timerStart, restartTime, closeTime, h, false_and, if_false]

theorem Call.effect_stored (h : ∀ j, Stored (t j)) {c : Call γ} (typed : c.typed) (j : ℕ) :
    Stored (c.effect max t j) := by
  by_cases hj : c.timeNumber = j
  · by_cases hrange : j < max
    · rw [Call.effect_self hj hrange]
      exact Act.effect_stored (h j) typed
    · rw [Call.effect_out_of_range (hj ▸ hrange)]
      exact h j
  · rw [Call.effect_other hj]
    exact h j

theorem callAll_stored (h : ∀ j, Stored (t j)) {calls : List (Call γ)}
    (typed : ∀ c ∈ calls, c.typed) (j : ℕ) : Stored (callAll max calls t j) := by
  induction calls generalizing t with
  | nil => exact h j
  | cons c calls ih =>
    exact ih (Call.effect_stored h (typed c List.mem_cons_self))
      fun d hd => typed d (List.mem_cons_of_mem _ hd)

theorem update_stored (h : ∀ j, Stored (t j)) {timer : StrTimer γ} (htimer : Stored timer)
    (j : ℕ) : Stored (Function.update t i timer j) := by
  by_cases hj : j = i
  · subst hj
    rwa [Function.update_self]
  · rw [Function.update_of_ne hj]
    exact h j

theorem expire_stored (max : ℕ) {s : Progress γ} (h : ∀ j, Stored (s.table j))
    {callbacks : ℕ → Behaviour γ} (typed : ∀ c ∈ (callbacks i).calls, c.typed) (j : ℕ) :
    Stored ((expire max callbacks i s).table j) := by
  have hcleared := update_stored h ((h i).withCount 0) (i := i)
  unfold expire
  cases (s.table i).callback with
  | none => exact hcleared j
  | some _ => exact callAll_stored hcleared typed j

theorem timerManage_stored (h : ∀ j, Stored (t j)) {callbacks : ℕ → Behaviour γ}
    (typed : ∀ j, ∀ c ∈ (callbacks j).calls, c.typed) (k j : ℕ) :
    Stored ((timerManage max callbacks t k).table j) := by
  induction k generalizing j with
  | zero => exact h j
  | succ k ih =>
    simp only [timerManage, timerManageSlot]
    split_ifs
    · have hexpire := expire_stored max ih (typed k)
      exact update_stored hexpire ((hexpire k).settle _) j
    · exact update_stored ih ((ih k).withCount _) j
    · exact ih j

theorem tableAfter_stored (max : ℕ) (h : ∀ j, Stored (t j)) {events : List (Event γ)}
    (typed : ∀ e ∈ events, e.typed) (j : ℕ) : Stored (tableAfter max events t j) := by
  induction events generalizing t with
  | nil => exact h j
  | cons event events ih =>
    refine ih ?_ fun e he => typed e (List.mem_cons_of_mem _ he)
    have htyped := typed event List.mem_cons_self
    cases event with
    | call c => exact Call.effect_stored h htyped
    | tick callbacks => exact timerManage_stored h htyped max

end Invariant

section Independence

variable {max i : ℕ} {t : Table γ}

theorem Event.undisturbed_of_silent {event : Event γ} (h : event.silent) :
    event.undisturbed i := by
  cases event with
  | call c => trivial
  | tick callbacks =>
    intro j c hc
    rw [h j] at hc
    exact absurd hc List.not_mem_nil

/-- While the callbacks leave a timer alone, it runs as if it were the only one. -/
theorem firings_eq_alone (hi : i < max) (h : ∀ j, Stored (t j)) {events : List (Event γ)}
    (typed : ∀ e ∈ events, e.typed) (alone : ∀ e ∈ events, e.undisturbed i) :
    firings max i events t = firingsAlone i (acts i events) (t i) := by
  induction events generalizing t with
  | nil => rfl
  | cons event events ih =>
    have halone := alone event List.mem_cons_self
    have htyped := typed event List.mem_cons_self
    have hrest := fun (t : Table γ) (h : ∀ j, Stored (t j)) => ih h
      (fun e he => typed e (List.mem_cons_of_mem _ he))
      fun e he => alone e (List.mem_cons_of_mem _ he)
    cases event with
    | call c =>
      rw [firings, hrest _ (Call.effect_stored h htyped), acts]
      split_ifs with hc
      · rw [Call.effect_self hc hi]
        cases c <;> rfl
      · rw [Call.effect_other hc]
    | tick callbacks =>
      rw [firings, Event.effect, hrest _ (timerManage_stored h htyped max), acts, firingsAlone,
        fires_eq hi, timerManage_undisturbed halone hi (h i).bit,
        timerManage_reached (fun j _ => halone j) le_rfl]

/-- Events that spare the timer are ticks for it. -/
theorem acts_of_spares {events : List (Event γ)} (h : ∀ e ∈ events, e.spares i) :
    acts i events = List.replicate (ticks events) .tick := by
  induction events with
  | nil => rfl
  | cons event events ih =>
    have hrest := ih fun e he => h e (List.mem_cons_of_mem _ he)
    cases event with
    | call c =>
      have hc : c.timeNumber ≠ i := h _ List.mem_cons_self
      rw [acts, if_neg hc, hrest, ticks]
    | tick callbacks => rw [acts, hrest, ticks, List.replicate_succ]

end Independence

end VehicleTerminal.ApiTimers
