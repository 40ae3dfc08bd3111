import VehicleTerminal.Timer.ApiTimer

/-! One timer of the service by itself: what a tick makes of its slot when its callback touches
no timer, and the ticks at which it fires from there on. -/
namespace VehicleTerminal.ApiTimers

variable {γ : Type*}

section Alone

/-- What a tick makes of the slot. -/
def tickAlone (timer : StrTimer γ) : StrTimer γ :=
  if timer.timeswitch = timrOn then
    let timeCount := (timer.timeCount + 1) % 2 ^ 16
    if timer.timeLen ≤ timeCount then
      if timer.timerMode = timerModeOnce then { timer with timeswitch := timrOff, timeCount := 0 }
      else { timer with timeCount := 0 }
    else { timer with timeCount := timeCount }
  else timer

/-- What concerns one timer: the calls with its number, and the ticks. -/
inductive Act (γ : Type*)
  | start (timeLen mode : ℕ) (callBack : Option γ)
  | restart
  | close
  | tick

def Act.effect (timeNumber : ℕ) : Act γ → StrTimer γ → StrTimer γ
  | .start timeLen mode callBack, timer =>
    if 0 < timeLen then
      { number := timeNumber % 2 ^ 6
        timeswitch := timrOn
        timerMode := mode % 2 ^ 1
        timeLen := timeLen
        timeCount := 0
        callback := callBack }
    else timer
  | .restart, timer => { timer with timeswitch := timrOn, timeCount := 0 }
  | .close, timer => { timer with timeswitch := timrOff }
  | .tick, timer => tickAlone timer

/-- For each tick the callbacks that run: one or none. -/
def firingsAlone (timeNumber : ℕ) : List (Act γ) → StrTimer γ → List (List γ)
  | [], _ => []
  | .tick :: acts, timer =>
    (if Expires timer then timer.callback.toList else []) ::
      firingsAlone timeNumber acts (tickAlone timer)
  | .start timeLen mode callBack :: acts, timer =>
    firingsAlone timeNumber acts ((Act.start timeLen mode callBack).effect timeNumber timer)
  | .restart :: acts, timer => firingsAlone timeNumber acts (Act.restart.effect timeNumber timer)
  | .close :: acts, timer => firingsAlone timeNumber acts (Act.close.effect timeNumber timer)

end Alone

section Ticking

variable {timer : StrTimer γ} {timeNumber n k : ℕ}

/-- Switched on, with a count below the length. -/
structure Counting (timer : StrTimer γ) : Prop where
  on : timer.timeswitch = timrOn
  below : timer.timeCount < timer.timeLen
  fits : timer.timeLen < 2 ^ 16

theorem Counting.count_eq (h : Counting timer) :
    (timer.timeCount + 1) % 2 ^ 16 = timer.timeCount + 1 := by
  have := h.below
  have := h.fits
  exact Nat.mod_eq_of_lt (by omega)

theorem Counting.expires_iff (h : Counting timer) :
    Expires timer ↔ timer.timeLen = timer.timeCount + 1 := by
  have := h.below
  simp only [Expires, h.on, h.count_eq, true_and]
  omega

theorem tick_of_expires_repeating (hexpires : Expires timer)
    (hmode : timer.timerMode ≠ timerModeOnce) :
    tickAlone timer = { timer with timeCount := 0 } := by
  simp only [tickAlone, hexpires.1, hexpires.2, hmode, if_true, if_false]

theorem tick_of_expires_once (hexpires : Expires timer)
    (hmode : timer.timerMode = timerModeOnce) :
    tickAlone timer = { timer with timeswitch := timrOff, timeCount := 0 } := by
  simp only [tickAlone, hexpires.1, hexpires.2, hmode, if_true]

theorem Counting.tick_of_waits (h : Counting timer) (hwaits : ¬ Expires timer) :
    tickAlone timer = { timer with timeCount := timer.timeCount + 1 } := by
  have hlen : ¬ timer.timeLen ≤ timer.timeCount + 1 := by
    rw [← h.count_eq]
    exact fun hle => hwaits ⟨h.on, hle⟩
  simp only [tickAlone, h.on, h.count_eq, hlen, if_true, if_false]

theorem tick_of_off (h : timer.timeswitch ≠ timrOn) : tickAlone timer = timer := if_neg h

/-- A tick that does not expire leaves a counting timer counting. -/
theorem Counting.waited (h : Counting timer) (hwaits : ¬ Expires timer) :
    Counting { timer with timeCount := timer.timeCount + 1 } where
  on := h.on
  below := by
    have := h.below
    have := mt h.expires_iff.mpr hwaits
    simp only
    omega
  fits := h.fits

/-- So does one that expires, if the timer repeats. -/
theorem Counting.cleared (h : Counting timer) : Counting { timer with timeCount := 0 } where
  on := h.on
  below := (Nat.zero_le _).trans_lt h.below
  fits := h.fits

theorem firingsAlone_of_off (h : timer.timeswitch ≠ timrOn) :
    firingsAlone timeNumber (List.replicate n .tick) timer = List.replicate n [] := by
  induction n with
  | zero => rfl
  | succ n ih =>
    rw [List.replicate_succ, List.replicate_succ, firingsAlone, tick_of_off h, ih,
      if_neg fun hexpires : Expires timer => h hexpires.1]

/-- A repeating timer fires whenever its count comes to a multiple of its length. -/
theorem firingsAlone_of_repeating (h : Counting timer) (hmode : timer.timerMode ≠ timerModeOnce)
    (hk : k < n) :
    (firingsAlone timeNumber (List.replicate n .tick) timer)[k]? =
      some (if timer.timeLen ∣ timer.timeCount + k + 1 then timer.callback.toList else []) := by
  induction n generalizing timer k with
  | zero => omega
  | succ n ih =>
    rw [List.replicate_succ, firingsAlone]
    have hbelow := h.below
    cases k with
    | zero =>
      have hdvd : timer.timeLen ∣ timer.timeCount + 1 ↔ Expires timer := by
        rw [h.expires_iff]
        refine ⟨fun hd => Nat.le_antisymm (Nat.le_of_dvd (by omega) hd) hbelow, ?_⟩
        exact fun hlen => Dvd.intro 1 ((Nat.mul_one _).trans hlen)
      simp only [List.getElem?_cons_zero, Nat.add_zero, hdvd]
    | succ k =>
      rw [List.getElem?_cons_succ]
      by_cases hexpires : Expires timer
      · -- the count starts again, one length further
        rw [tick_of_expires_repeating hexpires hmode, ih h.cleared hmode (by omega)]
        have hlen := h.expires_iff.mp hexpires
        have hdvd : timer.timeLen ∣ 0 + k + 1 ↔
            timer.timeLen ∣ timer.timeCount + (k + 1) + 1 := by
          rw [show timer.timeCount + (k + 1) + 1 = (0 + k + 1) + timer.timeLen by omega]
          exact (Nat.dvd_add_self_right).symm
        simp only [hdvd]
      · rw [h.tick_of_waits hexpires, ih (h.waited hexpires) hmode (by omega)]
        simp only [show timer.timeCount + 1 + k + 1 = timer.timeCount + (k + 1) + 1 by omega]

/-- A single timer fires when its count comes to its length, and not again. -/
theorem firingsAlone_of_once (h : Counting timer) (hmode : timer.timerMode = timerModeOnce)
    (hk : k < n) :
    (firingsAlone timeNumber (List.replicate n .tick) timer)[k]? =
      some (if timer.timeCount + k + 1 = timer.timeLen then timer.callback.toList else []) := by
  induction n generalizing timer k with
  | zero => omega
  | succ n ih =>
    rw [List.replicate_succ, firingsAlone]
    have hbelow := h.below
    cases k with
    | zero =>
      simp only [List.getElem?_cons_zero, Nat.add_zero, h.expires_iff, eq_comm]
    | succ k =>
      rw [List.getElem?_cons_succ]
      by_cases hexpires : Expires timer
      · have hlen := h.expires_iff.mp hexpires
        have hoff : (tickAlone timer).timeswitch ≠ timrOn := by
          rw [tick_of_expires_once hexpires hmode]
          change timrOff ≠ timrOn
          decide
        rw [firingsAlone_of_off hoff, List.getElem?_replicate, if_pos (by omega),
          if_neg (by omega)]
      · rw [h.tick_of_waits hexpires, ih (h.waited hexpires) hmode (by omega)]
        simp only [show timer.timeCount + 1 + k + 1 = timer.timeCount + (k + 1) + 1 by omega]

end Ticking

end VehicleTerminal.ApiTimers
