import VehicleTerminal.Timer.ApiTimerLaws

/-! A timer that its own callback arms anew. The loop looks at the mode of a slot after its
callback has run, so a slot that the callback armed for a single run is switched off again. -/
namespace VehicleTerminal.ApiTimers

variable {γ : Type*}

section Waiting

variable {max i : ℕ} {t : Table γ}

theorem timerManage_waits {callbacks : ℕ → Behaviour γ} (hi : i < max)
    (h : (Event.tick callbacks).spares i) (hwaits : ¬ Expires (t i)) :
    (timerManage max callbacks t max).table i = tickAlone (t i) := by
  have hreached : (timerManage max callbacks t i).table i = t i := timerManage_reached h le_rfl
  rw [timerManage_passed (fun j hj => h j (Nat.ne_of_gt hj)) hi, timerManage,
    timerManageSlot_waits (by rwa [hreached]), hreached]

theorem fires_of_spares {callbacks : ℕ → Behaviour γ} (hi : i < max)
    (h : (Event.tick callbacks).spares i) :
    fires max i callbacks t = if Expires (t i) then (t i).callback.toList else [] := by
  rw [fires_eq hi, timerManage_reached h le_rfl]

/-- A timer that is switched off, and that nothing else touches. -/
theorem firings_of_off (hi : i < max) (hoff : (t i).timeswitch ≠ timrOn)
    {events : List (Event γ)} (spares : ∀ e ∈ events, e.spares i) :
    firings max i events t = List.replicate (ticks events) [] := by
  induction events generalizing t with
  | nil => rfl
  | cons event events ih =>
    have hrest := fun (t : Table γ) (hoff : (t i).timeswitch ≠ timrOn) => ih hoff
      fun e he => spares e (List.mem_cons_of_mem _ he)
    have hspares := spares event List.mem_cons_self
    cases event with
    | call c =>
      refine hrest _ ?_
      rwa [Call.effect_other hspares]
    | tick callbacks =>
      have hwaits : ¬ Expires (t i) := fun hexpires => hoff hexpires.1
      have hnext : ((Event.tick callbacks).effect max t i).timeswitch ≠ timrOn := by
        rw [Event.effect, timerManage_waits hi hspares hwaits, tick_of_off hoff]
        exact hoff
      rw [firings, hrest _ hnext, fires_of_spares hi hspares, if_neg hwaits, ticks,
        List.replicate_succ]

/-- A counting timer up to its next firing; what its callback does then is left open. -/
theorem firings_of_counting (hi : i < max) (counting : Counting (t i))
    {events : List (Event γ)} (spares : ∀ e ∈ events, e.spares i) {k : ℕ} (hk : k < ticks events)
    (hlen : (t i).timeCount + k + 1 ≤ (t i).timeLen) :
    (firings max i events t)[k]? =
      some (if (t i).timeCount + k + 1 = (t i).timeLen then (t i).callback.toList else []) := by
  induction events generalizing t k with
  | nil => exact absurd hk (Nat.not_lt_zero _)
  | cons event events ih =>
    have hspares := spares event List.mem_cons_self
    have hrest : ∀ e ∈ events, e.spares i := fun e he => spares e (List.mem_cons_of_mem _ he)
    cases event with
    | call c =>
      have hslot : c.effect max t i = t i := Call.effect_other hspares
      rw [firings, ih (hslot ▸ counting) hrest hk (hslot ▸ hlen), hslot]
    | tick callbacks =>
      rw [firings]
      cases k with
      | zero =>
        rw [List.getElem?_cons_zero, fires_of_spares hi hspares]
        simp only [counting.expires_iff, Nat.add_zero, eq_comm]
      | succ k =>
        have hwaits : ¬ Expires (t i) := by
          rw [counting.expires_iff]
          omega
        have hslot : (Event.tick callbacks).effect max t i =
            { t i with timeCount := (t i).timeCount + 1 } :=
          (timerManage_waits hi hspares hwaits).trans (counting.tick_of_waits hwaits)
        rw [List.getElem?_cons_succ, ih (hslot ▸ counting.waited hwaits) hrest
          (Nat.lt_of_succ_lt_succ hk) (by rw [hslot]; dsimp only; omega), hslot]
        simp only [show (t i).timeCount + 1 + k + 1 = (t i).timeCount + (k + 1) + 1 by omega]

end Waiting

section Rearm

/-- Mode, length and callback with which a call arms the slot it finds, if it does. -/
def Call.arming (timer : StrTimer γ) : Call γ → Option (ℕ × ℕ × Option γ)
  | .start _ timeLen mode callBack =>
    if 0 < timeLen then some (mode % 2 ^ 1, timeLen, callBack) else none
  | .restart _ => some timer.setting
  | .close _ => none

/-- The slot that a call of its own callback finds, after the earlier calls of the callback. -/
def slotInCallback (max i : ℕ) (callbacks : ℕ → Behaviour γ) (earlier : List (Call γ))
    (t : Table γ) : StrTimer γ :=
  let reached := (timerManage max callbacks t i).table
  callAll max earlier (Function.update reached i { reached i with timeCount := 0 }) i

/-- The first firing comes with the tick that completes the length. -/
def FiresAgain (timeLen : ℕ) (callBack : γ) (fired : List (List γ)) : Prop :=
  ∀ k < timeLen, fired[k]? = some (if k + 1 = timeLen then [callBack] else [])

variable {max i timeLen mode : ℕ} {t : Table γ} {callbacks : ℕ → Behaviour γ}
  {earlier later : List (Call γ)} {c : Call γ} {f callBack : γ}

theorem Call.effect_of_arming {timer : StrTimer γ} (hc : c.timeNumber = i)
    (harming : c.arming timer = some (mode, timeLen, some callBack)) :
    (c.act.effect i timer).timeswitch = timrOn ∧ (c.act.effect i timer).timeCount = 0 ∧
      (c.act.effect i timer).setting = (mode, timeLen, some callBack) := by
  subst hc
  cases c with
  | start timeNumber timeLen' mode' callBack' =>
    simp only [Call.arming, Option.ite_none_right_eq_some, Option.some_inj] at harming
    simp only [Call.act, Act.effect, harming.1, if_true, StrTimer.setting, true_and]
    exact harming.2
  | restart timeNumber => exact ⟨rfl, rfl, Option.some_inj.mp harming⟩
  | close timeNumber => simp [Call.arming] at harming

theorem expire_of_callback {s : Progress γ} (hcallback : (s.table i).callback = some f) :
    (expire max callbacks i s).table = callAll max (callbacks i).calls
      (Function.update s.table i { s.table i with timeCount := 0 }) := by
  unfold expire
  split
  · rfl
  · next hnone => exact absurd (hnone.symm.trans hcallback) nofun

/-- A callback that a tick runs belongs to a slot that expires when the loop reaches it. -/
theorem expires_of_fires (hfires : fires max i callbacks t = [f]) :
    i < max ∧ Expires ((timerManage max callbacks t i).table i) ∧
      ((timerManage max callbacks t i).table i).callback = some f := by
  have hi : i < max := by
    by_contra hout
    rw [fires, timerManage_ran_before (Nat.le_of_not_lt hout)] at hfires
    cases hfires
  rw [fires_eq hi] at hfires
  split_ifs at hfires with hexpires
  refine ⟨hi, hexpires, ?_⟩
  cases hcallback : ((timerManage max callbacks t i).table i).callback with
  | none => simp [hcallback] at hfires
  | some g => simpa [hcallback] using hfires

/-- What the callback leaves of the slot is what the arming call made of it. -/
theorem expire_of_rearming (hi : i < max)
    (hcallback : ((timerManage max callbacks t i).table i).callback = some f)
    (hcalls : (callbacks i).calls = earlier ++ c :: later) (hc : c.timeNumber = i)
    (hown : ∀ d ∈ later, d.timeNumber ≠ i) :
    (expire max callbacks i (timerManage max callbacks t i)).table i =
      c.act.effect i (slotInCallback max i callbacks earlier t) := by
  have hsplit : ∀ cleared : Table γ, callAll max (earlier ++ c :: later) cleared =
      callAll max later (c.effect max (callAll max earlier cleared)) := fun cleared =>
    List.foldl_append
  rw [expire_of_callback hcallback, hcalls, hsplit, callAll_other hown, Call.effect_self hc hi]
  rfl

/-- The slot after the tick in which its callback armed it. -/
theorem slot_after_rearming (h : ∀ j, Stored (t j)) (typed : (Event.tick callbacks).typed)
    (hfires : fires max i callbacks t = [f])
    (hcalls : (callbacks i).calls = earlier ++ c :: later) (hc : c.timeNumber = i)
    (harming : c.arming (slotInCallback max i callbacks earlier t) =
      some (mode, timeLen, some callBack))
    (hown : ∀ d ∈ later, d.timeNumber ≠ i)
    (hlater : ∀ j, i < j → ∀ d ∈ (callbacks j).calls, d.timeNumber ≠ i) :
    ((Event.tick callbacks).effect max t i).setting = (mode, timeLen, some callBack) ∧
      ((Event.tick callbacks).effect max t i).timeCount = 0 ∧
      ((Event.tick callbacks).effect max t i).timeswitch =
        if mode = timerModeOnce then timrOff else timrOn := by
  obtain ⟨hi, hexpires, hcallback⟩ := expires_of_fires hfires
  obtain ⟨hon, hcount, hsetting⟩ := Call.effect_of_arming hc harming
  have hran := expire_of_rearming hi hcallback hcalls hc hown
  have hstored : ∀ j, Stored ((timerManage max callbacks t i).table j) :=
    timerManage_stored h typed i
  have hbit := (expire_stored max hstored (typed i) i).bit
  have hslot : (Event.tick callbacks).effect max t i = settle
      (expire max callbacks i (timerManage max callbacks t i)).err
      (c.act.effect i (slotInCallback max i callbacks earlier t)) := by
    rw [Event.effect, timerManage_passed hlater hi, timerManage,
      timerManageSlot_expires hexpires, hran]
  rw [hran] at hbit
  rw [hslot, settle_of_bit _ hbit]
  have hmode : (c.act.effect i (slotInCallback max i callbacks earlier t)).timerMode = mode :=
    congrArg Prod.fst hsetting
  by_cases honce : mode = timerModeOnce
  · rw [if_pos (hmode.trans honce), if_pos honce]
    exact ⟨hsetting, hcount, rfl⟩
  · rw [if_neg fun h => honce (hmode.symm.trans h), if_neg honce]
    exact ⟨hsetting, hcount, hon⟩

/-- A timer whose setting is known, with its count at 0, runs again after its length exactly when
it is switched on. -/
theorem firesAgain_of_slot (hi : i < max) (h : Stored (t i))
    (hsetting : (t i).setting = (mode, timeLen, some callBack)) (hcount : (t i).timeCount = 0)
    (hswitch : (t i).timeswitch = if mode = timerModeOnce then timrOff else timrOn)
    {rest : List (Event γ)} (spares : ∀ e ∈ rest, e.spares i) (hticks : timeLen ≤ ticks rest) :
    FiresAgain timeLen callBack (firings max i rest t) ↔ mode ≠ timerModeOnce := by
  simp only [StrTimer.setting, Prod.mk.injEq] at hsetting
  obtain ⟨-, hlen, hcallback⟩ := hsetting
  have hpositive : 0 < timeLen := by
    rw [← hlen]
    exact h.started (by simp [hcallback])
  by_cases honce : mode = timerModeOnce
  · rw [if_pos honce] at hswitch
    have hoff := firings_of_off hi (by rw [hswitch]; decide) spares
    refine iff_of_false (fun hagain => ?_) (not_not_intro honce)
    have hfired := hagain (timeLen - 1) (by omega)
    rw [hoff, List.getElem?_replicate, if_pos (by omega), if_pos (by omega)] at hfired
    simp at hfired
  · rw [if_neg honce] at hswitch
    refine iff_of_true (fun k hk => ?_) honce
    have counting : Counting (t i) :=
      ⟨hswitch, by rw [hcount, hlen]; exact hpositive, h.fits⟩
    rw [firings_of_counting hi counting spares (by omega) (by rw [hcount, hlen]; omega), hcount,
      hlen, hcallback, Nat.zero_add, Option.toList_some]

/-- A timer that its callback arms runs again after its length unless the armed mode is single;
`earlier` are the calls the callback makes before, `later` those it makes afterwards. -/
theorem firesAgain_iff (before rest : List (Event γ)) (callbacks : ℕ → Behaviour γ) (i : ℕ)
    (earlier later : List (Call γ)) (c : Call γ) {f callBack : γ} {timeLen mode : ℕ}
    (typed : ∀ e ∈ before ++ .tick callbacks :: rest, e.typed)
    (hfires : fires maxTimenum10ms i callbacks (tableAfter maxTimenum10ms before timerInit) = [f])
    (hcalls : (callbacks i).calls = earlier ++ c :: later) (hc : c.timeNumber = i)
    (harming : c.arming (slotInCallback maxTimenum10ms i callbacks earlier
      (tableAfter maxTimenum10ms before timerInit)) = some (mode, timeLen, some callBack))
    (hown : ∀ d ∈ later, d.timeNumber ≠ i)
    (hlater : ∀ j, i < j → ∀ d ∈ (callbacks j).calls, d.timeNumber ≠ i)
    (spares : ∀ e ∈ rest, e.spares i) (hticks : timeLen ≤ ticks rest) :
    FiresAgain timeLen callBack (firings maxTimenum10ms i rest
      (tableAfter maxTimenum10ms (before ++ [.tick callbacks]) timerInit)) ↔
      mode ≠ timerModeOnce := by
  rw [List.append_cons] at typed
  have htick : ∀ e ∈ before ++ [.tick callbacks], e.typed := fun e he =>
    typed e (List.mem_append_left _ he)
  have hbefore : ∀ e ∈ before, e.typed := fun e he => htick e (List.mem_append_left _ he)
  have hi := (expires_of_fires hfires).1
  obtain ⟨hsetting, hcount, hswitch⟩ := slot_after_rearming
    (tableAfter_stored maxTimenum10ms timerInit_stored hbefore)
    (htick (.tick callbacks) (by simp)) hfires hcalls hc harming hown hlater
  have hstored := tableAfter_stored maxTimenum10ms timerInit_stored htick i
  rw [tableAfter_append, tableAfter, tableAfter] at hstored ⊢
  exact firesAgain_of_slot hi hstored hsetting hcount hswitch spares hticks

end Rearm

section Resend

def timer10msIdCommResend : ℕ := 1

inductive Callback
  | commParamResendData
  deriving DecidableEq

/-- `CommParam_ResendData`: what it does to the timers and returns, and the resend counter it
leaves. `sent` is what `CommParam_StartSendData` returns. -/
def commParamResendData (sent resendCnt : ℕ) : Behaviour Callback × ℕ :=
  if sent = 0 then (⟨[], .success⟩, 0)
  else if resendCnt ≠ 0 then
    (⟨[.start timer10msIdCommResend 15 timerModeOnce (some .commParamResendData)], .error⟩,
      resendCnt - 1)
  else (⟨[], .success⟩, resendCnt)

/-- The resend timer from its start to the tick before its callback runs. -/
def resendRun : List (Event Callback) :=
  .call (.start timer10msIdCommResend 15 timerModeOnce (some .commParamResendData)) ::
    List.replicate 14 (.tick fun _ => ⟨[], .success⟩)

/-- The callback of the resend timer finds the line busy and arms its timer anew. -/
def resendCallbacks (j : ℕ) : Behaviour Callback :=
  if j = timer10msIdCommResend then (commParamResendData 1 4).1 else ⟨[], .success⟩

theorem resendCallbacks_typed : (Event.tick resendCallbacks).typed := by
  intro j c hc
  unfold resendCallbacks at hc
  split_ifs at hc with hj
  · obtain rfl := List.mem_singleton.mp hc
    simp [Call.typed]
  · exact absurd hc List.not_mem_nil

set_option maxRecDepth 20000 in
theorem firesAgain_iff_resend :
    FiresAgain 15 Callback.commParamResendData
        (firings maxTimenum10ms timer10msIdCommResend
          (List.replicate 15 (.tick fun _ => ⟨[], .success⟩))
          (tableAfter maxTimenum10ms
            (resendRun ++ [.tick resendCallbacks]) timerInit)) ↔
      timerModeOnce ≠ timerModeOnce :=
  firesAgain_iff resendRun (List.replicate 15 (.tick fun _ => ⟨[], .success⟩))
    resendCallbacks timer10msIdCommResend [] []
    (.start timer10msIdCommResend 15 timerModeOnce (some .commParamResendData))
    (by simpa [resendRun, Event.typed, Call.typed] using resendCallbacks_typed)
    (show _ = [Callback.commParamResendData] by decide) rfl rfl (by decide) (by simp)
    (fun j hj => by simp [resendCallbacks, Nat.ne_of_gt hj]) (by simp [Event.spares]) (by decide)

set_option maxRecDepth 20000 in
/-- The second resend never comes. -/
theorem resend_not_firesAgain :
    ¬ FiresAgain 15 Callback.commParamResendData
      (firings maxTimenum10ms timer10msIdCommResend
        (List.replicate 15 (.tick fun _ => ⟨[], .success⟩))
        (tableAfter maxTimenum10ms
          (resendRun ++ [.tick resendCallbacks]) timerInit)) := by
  intro h
  have := h 14 (by decide)
  revert this
  decide

end Resend

end VehicleTerminal.ApiTimers
