import VehicleTerminal.Timer.LzmTimer

/-! Runs of the software timers. A run is flattened to the calls and the firings in their
order; what a timer does between two calls that touch it is read off that trace. -/
namespace VehicleTerminal.LzmTimers

variable {γ : Type*}

section Trace

def Occurrence.effect : Occurrence γ → Table γ → Table γ
  | .call now c, t => c.effect now t
  | .fired i timerVal _, t => Function.update t i (advance timerVal (t i))

/-- One call from the program, or one run of the handler with what its callbacks do. -/
inductive Event (γ : Type*)
  | call (now : ℕ) (c : Call γ)
  | handler (timerVal maxtimes : ℕ) (calls : ℕ → List (ℕ × Call γ))

def Event.effect : Event γ → Table γ → Table γ
  | .call now c, t => c.effect now t
  | .handler timerVal maxtimes calls, t => (lzmPublicTimerHandler timerVal calls t maxtimes).table

def Event.trace : Event γ → Table γ → List (Occurrence γ)
  | .call now c, _ => [.call now c]
  | .handler timerVal maxtimes calls, t => (lzmPublicTimerHandler timerVal calls t maxtimes).trace

def tableAfter : List (Event γ) → Table γ → Table γ
  | [], t => t
  | event :: events, t => tableAfter events (event.effect t)

def trace : List (Event γ) → Table γ → List (Occurrence γ)
  | [], _ => []
  | event :: events, t => event.trace t ++ trace events (event.effect t)

/-- From a table through a trace to a table; only a slot that is due fires, with its callback. -/
inductive Legal : Table γ → List (Occurrence γ) → Table γ → Prop
  | nil (t : Table γ) : Legal t [] t
  | call {t t' : Table γ} {os : List (Occurrence γ)} (now : ℕ) (c : Call γ)
      (rest : Legal (c.effect now t) os t') : Legal t (.call now c :: os) t'
  | fired {t t' : Table γ} {os : List (Occurrence γ)} {i timerVal : ℕ} (due : Due timerVal (t i))
      (rest : Legal (Function.update t i (advance timerVal (t i))) os t') :
      Legal t (.fired i timerVal (t i).operate :: os) t'

theorem Legal.append {t t' t'' : Table γ} {os os' : List (Occurrence γ)} (h : Legal t os t')
    (h' : Legal t' os' t'') : Legal t (os ++ os') t'' := by
  induction h with
  | nil => exact h'
  | call now c _ ih => exact .call now c (ih h')
  | fired due _ ih => exact .fired due (ih h')

theorem Legal.split {t t'' : Table γ} {os os' : List (Occurrence γ)} (h : Legal t (os ++ os') t'') :
    ∃ t', Legal t os t' ∧ Legal t' os' t'' := by
  induction os generalizing t with
  | nil => exact ⟨t, .nil t, h⟩
  | cons o os ih =>
    cases h with
    | call now c rest =>
      obtain ⟨t', hfirst, hsecond⟩ := ih rest
      exact ⟨t', .call now c hfirst, hsecond⟩
    | fired due rest =>
      obtain ⟨t', hfirst, hsecond⟩ := ih rest
      exact ⟨t', .fired due hfirst, hsecond⟩

end Trace

section Slot

/-- The slot that a call asks for, if it arms this one: switched on, with its deadline on a clock
that does not wrap. -/
def Call.armed (now i : ℕ) : Call γ → Option (LzmTimer γ)
  | .setCycTimer j value function =>
    if j = i then some ⟨now + value, value, timerEnable, function⟩ else none
  | .setOnceTimer j value function =>
    if j = i then some ⟨now + value, once, timerEnable, function⟩ else none
  | .killTimer _ => none
  | .killTimerAll _ => none

/-- The deadline that the call writes does not exceed 32 bits. -/
def Call.noWrap (now : ℕ) : Call γ → Prop
  | .setCycTimer _ value _ => value + now < 2 ^ 32
  | .setOnceTimer _ value _ => value + now < 2 ^ 32
  | .killTimer _ => True
  | .killTimerAll _ => True

/-- The call switches the slot off. -/
def Call.kills (i : ℕ) : Call γ → Prop
  | .setCycTimer _ _ _ => False
  | .setOnceTimer _ _ _ => False
  | .killTimer j => j = i
  | .killTimerAll maxtimes => i < maxtimes

/-- The call leaves the slot alone. -/
def Call.spares (i : ℕ) (c : Call γ) : Prop := c.armed 0 i = none ∧ ¬ c.kills i

/-- Not a call that arms the slot. -/
def Occurrence.notArming (i : ℕ) : Occurrence γ → Prop
  | .call _ c => c.armed 0 i = none
  | .fired _ _ _ => True

/-- Neither a call that touches the slot nor its firing. -/
def Occurrence.spares (i : ℕ) : Occurrence γ → Prop
  | .call _ c => c.spares i
  | .fired j _ _ => j ≠ i

/-- The ticks at which a slot fires, in the order of the trace. -/
def firings (i : ℕ) (os : List (Occurrence γ)) : List ℕ :=
  os.filterMap fun o => match o with
    | .call _ _ => none
    | .fired j timerVal _ => if j = i then some timerVal else none

variable {t t' : Table γ} {os : List (Occurrence γ)} {i now timerVal : ℕ} {c : Call γ}
  {operate : Option γ}

@[simp] theorem firings_nil : firings i ([] : List (Occurrence γ)) = [] := rfl

@[simp] theorem firings_call : firings i (.call now c :: os) = firings i os := rfl

theorem firings_fired_other {j : ℕ} (h : j ≠ i) :
    firings i (.fired j timerVal operate :: os) = firings i os := by
  simp [firings, h]

theorem Call.effect_of_spares (h : c.spares i) : c.effect now t i = t i := by
  obtain ⟨harmed, hkills⟩ := h
  cases c <;> simp only [Call.armed, Call.kills, ite_eq_right_iff, reduceCtorEq, imp_false]
    at harmed hkills
  · exact Function.update_of_ne (Ne.symm harmed) _ _
  · exact Function.update_of_ne (Ne.symm harmed) _ _
  · exact Function.update_of_ne (Ne.symm hkills) _ _
  · exact if_neg hkills

/-- A call that does not arm the slot changes its switch at most to off. -/
theorem Call.effect_of_notArming (now : ℕ) (h : c.armed 0 i = none) :
    c.effect now t i = t i ∨ c.effect now t i = lzmPublicKillTimer (t i) := by
  by_cases hkills : c.kills i
  · right
    cases c with
    | setCycTimer => exact hkills.elim
    | setOnceTimer => exact hkills.elim
    | killTimer j =>
      obtain rfl : j = i := hkills
      exact Function.update_self _ _ _
    | killTimerAll maxtimes => exact if_pos hkills
  · exact .inl (Call.effect_of_spares ⟨h, hkills⟩)

theorem Occurrence.effect_of_spares {o : Occurrence γ} (h : o.spares i) :
    o.effect t i = t i := by
  cases o with
  | call now c => exact Call.effect_of_spares h
  | fired j timerVal operate => exact Function.update_of_ne (Ne.symm h) _ _

end Slot

section Laws

variable {t t' : Table γ} {os : List (Occurrence γ)} {i timerVal maxtimes : ℕ}
  {calls : ℕ → List (ℕ × Call γ)}

/-- No deadline that this occurrence writes exceeds 32 bits. -/
def Occurrence.noWrap (t : Table γ) : Occurrence γ → Prop
  | .call now c => c.noWrap now
  | .fired i _ _ => (t i).interval = once ∨ (t i).counter + (t i).interval < 2 ^ 32

def InRange : Table γ → List (Occurrence γ) → Prop
  | _, [] => True
  | t, o :: os => o.noWrap t ∧ InRange (o.effect t) os

/-- A repeating slot: while its switch is on, it has this interval and no earlier deadline. -/
def Waits (value earliest : ℕ) (stTimer : LzmTimer γ) : Prop :=
  stTimer.enabled = timerEnable → stTimer.interval = value ∧ earliest ≤ stTimer.counter

theorem InRange.split {os' : List (Occurrence γ)} (legal : Legal t os t')
    (h : InRange t (os ++ os')) : InRange t os ∧ InRange t' os' := by
  induction legal with
  | nil => exact ⟨trivial, h⟩
  | call now c _ ih => exact ⟨⟨h.1, (ih h.2).1⟩, (ih h.2).2⟩
  | fired due _ ih => exact ⟨⟨h.1, (ih h.2).1⟩, (ih h.2).2⟩

theorem InRange.call {now : ℕ} {c : Call γ} (h : InRange t os) (hc : .call now c ∈ os) :
    c.noWrap now := by
  induction os generalizing t with
  | nil => exact absurd hc List.not_mem_nil
  | cons o os ih =>
    rcases List.mem_cons.mp hc with rfl | hc
    · exact h.1
    · exact ih h.2 hc

theorem lzmPublicKillTimer_off (stTimer : LzmTimer γ) :
    (lzmPublicKillTimer stTimer).enabled ≠ timerEnable := by
  change timerDisenable ≠ timerEnable
  decide

/-- A call that does not arm the slot leaves it as it is or switches it off. -/
theorem Call.preserves_of_notArming {c : Call γ} {P : LzmTimer γ → Prop} (now : ℕ)
    (hoff : ∀ stTimer, stTimer.enabled ≠ timerEnable → P stTimer) (h : c.armed 0 i = none)
    (hslot : P (t i)) : P (c.effect now t i) := by
  rcases Call.effect_of_notArming (t := t) now h with heq | heq
  · rwa [heq]
  · rw [heq]
    exact hoff _ (lzmPublicKillTimer_off (t i))

/-- A repeating slot that fires waits for one interval more. -/
theorem Waits.advance {value earliest : ℕ} {stTimer : LzmTimer γ} (hvalue : value ≠ once)
    (h : Waits value earliest stTimer) (hdue : Due timerVal stTimer)
    (hrange : stTimer.interval = once ∨ stTimer.counter + stTimer.interval < 2 ^ 32) :
    Waits value (earliest + value) (advance timerVal stTimer) := by
  obtain ⟨hinterval, hcounter⟩ := h hdue.1
  have hfits := hrange.resolve_left (hinterval ▸ hvalue)
  intro _
  rw [LzmTimers.advance, if_neg (hinterval ▸ hvalue)]
  simp only [Nat.mod_eq_of_lt hfits]
  refine ⟨hinterval, ?_⟩
  split_ifs <;> omega

/-- A slot that is switched off does not fire before it is armed. -/
theorem Legal.firings_of_off (legal : Legal t os t') (hoff : (t i).enabled ≠ timerEnable)
    (hquiet : ∀ o ∈ os, o.notArming i) : firings i os = [] := by
  induction legal with
  | nil => rfl
  | @call t _ _ now c _ ih =>
    refine ih ?_ fun o ho => hquiet o (List.mem_cons_of_mem _ ho)
    exact Call.preserves_of_notArming (P := fun stTimer => stTimer.enabled ≠ timerEnable) now
      (fun _ hslot => hslot) (hquiet _ List.mem_cons_self) hoff
  | @fired t _ _ j timerVal due _ ih =>
    have hj : j ≠ i := fun hj => hoff (hj ▸ due.1)
    rw [firings_fired_other hj]
    refine ih ?_ fun o ho => hquiet o (List.mem_cons_of_mem _ ho)
    rwa [Function.update_of_ne (Ne.symm hj)]

/-- The slots that fire, with the callbacks that run unless they are null, in the order of the
trace. -/
def fired (os : List (Occurrence γ)) : List (ℕ × Option γ) :=
  os.filterMap fun o => match o with
    | .call _ _ => none
    | .fired i _ operate => some (i, operate)

variable {cs cs' : List (ℕ × Call γ)} {now : ℕ} {c : Call γ} {timer : LzmTimer γ}

end Laws

section Correctness

variable {t t' t'' : Table γ} {events : List (Event γ)}

theorem tableAfter_append (before after : List (Event γ)) :
    tableAfter (before ++ after) t = tableAfter after (tableAfter before t) := by
  induction before generalizing t with
  | nil => rfl
  | cons event before ih => exact ih

end Correctness

end VehicleTerminal.LzmTimers
