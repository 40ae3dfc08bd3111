import VehicleTerminal.Timer.ApiTimerLaws

/-! The mode that should stop a timer at the first success of its callback. The field of the
mode is one bit wide: the mode is stored as the repeating one, and nothing stops the timer. -/
namespace VehicleTerminal.ApiTimers

variable {γ : Type*}

section Stop

/-- What the callback of a timer returns in each tick, if it runs. -/
def results (i : ℕ) : List (Event γ) → List ErrorStatus
  | [] => []
  | .call _ :: events => results i events
  | .tick callbacks :: events => (callbacks i).result :: results i events

/-- The callback runs at the multiples of the length, up to its first success. -/
def StopsAtSuccess (timeLen : ℕ) (callBack : γ) (results : List ErrorStatus)
    (fired : List (List γ)) : Prop :=
  ∀ k < results.length, fired[k]? = some
    (if timeLen ∣ k + 1 ∧ ∀ m < k, timeLen ∣ m + 1 → results[m]? ≠ some .success
      then [callBack] else [])

instance [DecidableEq γ] (timeLen : ℕ) (callBack : γ) (results : List ErrorStatus)
    (fired : List (List γ)) : Decidable (StopsAtSuccess timeLen callBack results fired) :=
  inferInstanceAs (Decidable (∀ k < _, _))

variable {i timeLen : ℕ} {callBack : γ}

theorem results_length (events : List (Event γ)) : (results i events).length = ticks events := by
  induction events with
  | nil => rfl
  | cons event events ih =>
    cases event with
    | call c => exact ih
    | tick callbacks => exact congrArg Nat.succ ih

/-- The timer that should stop repeats. -/
theorem firings_of_stopWhenSuccess {before rest after : List (Event γ)}
    (hi : i < maxTimenum10ms) (hlen : 0 < timeLen)
    (typed : ∀ e ∈ before ++
      .call (.start i timeLen timerModeStopWhenSuccess (some callBack)) :: (rest ++ after), e.typed)
    (alone : ∀ e ∈ rest, e.undisturbed i) (spares : ∀ e ∈ rest, e.spares i) {k : ℕ}
    (hk : k < ticks rest) :
    (firings maxTimenum10ms i rest (tableAfter maxTimenum10ms
      (before ++ [.call (.start i timeLen timerModeStopWhenSuccess (some callBack))])
      timerInit))[k]? = some (if timeLen ∣ k + 1 then [callBack] else []) := by
  rw [firings_of_started hi hlen typed alone spares hk]
  simp [timerModeStopWhenSuccess, timerModeOnce]

/-- A timer started to stop at a success does so exactly if no run of its callback succeeds
while there are ticks left for another. -/
theorem stopsAtSuccess_iff (before rest after : List (Event γ)) (hi : i < maxTimenum10ms)
    (hlen : 0 < timeLen)
    (typed : ∀ e ∈ before ++
      .call (.start i timeLen timerModeStopWhenSuccess (some callBack)) :: (rest ++ after), e.typed)
    (alone : ∀ e ∈ rest, e.undisturbed i) (spares : ∀ e ∈ rest, e.spares i) :
    StopsAtSuccess timeLen callBack (results i rest)
        (firings maxTimenum10ms i rest (tableAfter maxTimenum10ms
          (before ++ [.call (.start i timeLen timerModeStopWhenSuccess (some callBack))])
          timerInit)) ↔
      ∀ m, timeLen ∣ m + 1 → (results i rest)[m]? = some .success →
        ticks rest ≤ m + timeLen := by
  have hfires := fun (k : ℕ) (hk : k < ticks rest) =>
    firings_of_stopWhenSuccess hi hlen typed alone spares hk
  constructor
  · intro hstops m hm hsuccess
    by_contra hlater
    -- the next run of the callback is the one that should not be
    have hk : m + timeLen < ticks rest := by omega
    have hdvd : timeLen ∣ m + timeLen + 1 := by
      rw [show m + timeLen + 1 = m + 1 + timeLen by omega]
      exact Nat.dvd_add_self_right.mpr hm
    have hstopped := hstops (m + timeLen) (by rwa [results_length])
    rw [hfires _ hk, if_pos hdvd, if_neg fun h => h.2 m (by omega) hm hsuccess] at hstopped
    simp at hstopped
  · intro hlast k hk
    rw [results_length] at hk
    rw [hfires k hk]
    by_cases hdvd : timeLen ∣ k + 1
    · have hearlier : ∀ m < k, timeLen ∣ m + 1 → (results i rest)[m]? ≠ some .success := by
        intro m hmk hm hsuccess
        have hgap : timeLen ∣ k - m := by
          rw [show k - m = k + 1 - (m + 1) by omega]
          exact Nat.dvd_sub hdvd hm
        have := Nat.le_of_dvd (by omega) hgap
        have := hlast m hm hsuccess
        omega
      simp only [hdvd, true_and, if_true, if_pos hearlier]
    · simp only [hdvd, false_and, if_false]

/-- A timer of length 2 whose callback succeeds at its only run. -/
theorem stopsAtSuccess_iff_one_run :
    StopsAtSuccess 2 () [.error, .success, .error]
        (firings maxTimenum10ms 0 [.tick fun _ => ⟨[], .error⟩, .tick fun _ => ⟨[], .success⟩,
            .tick fun _ => ⟨[], .error⟩]
          (tableAfter maxTimenum10ms [.call (.start 0 2 timerModeStopWhenSuccess (some ()))]
            timerInit)) ↔
      ∀ m, 2 ∣ m + 1 → ([.error, .success, .error] : List ErrorStatus)[m]? = some .success →
        3 ≤ m + 2 :=
  stopsAtSuccess_iff [] [.tick fun _ => ⟨[], .error⟩, .tick fun _ => ⟨[], .success⟩,
    .tick fun _ => ⟨[], .error⟩] [] (by decide : 0 < maxTimenum10ms) (by decide : 0 < 2)
    (by simp [Event.typed, Call.typed]) (by simp [Event.undisturbed]) (by simp [Event.spares])

/-- The callback of a timer of length 1 succeeds at the first tick, and runs again at the
second. -/
theorem not_stopsAtSuccess :
    ¬ StopsAtSuccess 1 () [.success, .success]
        (firings maxTimenum10ms 0 [.tick fun _ => ⟨[], .success⟩, .tick fun _ => ⟨[], .success⟩]
          (tableAfter maxTimenum10ms [.call (.start 0 1 timerModeStopWhenSuccess (some ()))]
            timerInit)) := by
  decide

end Stop

end VehicleTerminal.ApiTimers
