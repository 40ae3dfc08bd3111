import VehicleTerminal.Io.Words

/-! The driving alarms of `Io.c`, each of which has several sources. A control word holds one bit
for each source, and the alarm bit is written after the control word. -/
namespace VehicleTerminal.Io

section Model

def overSpeedBitMax : ℕ := 5

def overTimeBitMax : ℕ := 2

def preOverTimeBitMax : ℕ := 2

def writeControl (bitMax bit : ℕ) (state : FlagStatus) (control : BitVec 8) : BitVec 8 :=
  if bit < bitMax then writeBit control bit state else control

/-- The state to which an alarm bit is written, from its control word. -/
def controlState (control : BitVec 8) : FlagStatus := if 0 = control then .reset else .set

def ioWriteOverSpeedConrtolBit (bit : ℕ) (state : FlagStatus) (s : IoState) : IoState :=
  let control := writeControl overSpeedBitMax bit state s.overSpeedControl
  ioWriteAlarmBit alarmBitOverSpeed (controlState control) { s with overSpeedControl := control }

def ioWritePreOvertimeConrtolBit (bit : ℕ) (state : FlagStatus) (s : IoState) : IoState :=
  let control := writeControl preOverTimeBitMax bit state s.preOvertimeControl
  ioWriteAlarmBit alarmBitTiredDrivePreAlarm (controlState control)
    { s with preOvertimeControl := control }

def ioWriteOvertimeConrtolBit (bit : ℕ) (state : FlagStatus) (s : IoState) : IoState :=
  let control := writeControl overTimeBitMax bit state s.overtimeControl
  ioWriteAlarmBit alarmBitTiredDrive (controlState control) { s with overtimeControl := control }

inductive Call
  | overSpeed (bit : ℕ) (state : FlagStatus)
  | preOvertime (bit : ℕ) (state : FlagStatus)
  | overtime (bit : ℕ) (state : FlagStatus)
  | clearAlarmWord

def call (s : IoState) : Call → IoState
  | .overSpeed bit state => ioWriteOverSpeedConrtolBit bit state s
  | .preOvertime bit state => ioWritePreOvertimeConrtolBit bit state s
  | .overtime bit state => ioWriteOvertimeConrtolBit bit state s
  | .clearAlarmWord => ioClearAlarmWord s

def run (s : IoState) (calls : List Call) : IoState := calls.foldl call s

@[simp] theorem run_append (s : IoState) (calls : List Call) (c : Call) :
    run s (calls ++ [c]) = call (run s calls) c := by
  rw [run, List.foldl_append, List.foldl_cons, List.foldl_nil, ← run]

end Model

section Mirror

variable {s : IoState} {calls : List Call}

/-- An alarm bit says whether its control word has a source. -/
def Mirrored (s : IoState) (bit : ℕ) (control : BitVec 8) : Prop :=
  s.alarm.getLsbD bit = true ↔ control ≠ 0

structure Mirrors (s : IoState) : Prop where
  overSpeed : Mirrored s alarmBitOverSpeed s.overSpeedControl
  preOvertime : Mirrored s alarmBitTiredDrivePreAlarm s.preOvertimeControl
  overtime : Mirrored s alarmBitTiredDrive s.overtimeControl

/-- No source of a driving alarm is left. -/
structure Released (s : IoState) : Prop where
  overSpeed : s.overSpeedControl = 0
  preOvertime : s.preOvertimeControl = 0
  overtime : s.overtimeControl = 0

theorem mirrored_written {bit : ℕ} (hbit : bit < 32) (control : BitVec 8) (s : IoState) :
    Mirrored (ioWriteAlarmBit bit (controlState control) s) bit control := by
  rw [Mirrored, ioWriteAlarmBit_eq hbit, getLsbD_writeBit_self hbit, decide_eq_true_iff,
    controlState]
  split_ifs with hzero
  · simp [← hzero]
  · exact iff_of_true rfl (Ne.symm hzero)

theorem mirrored_other {bit bit' : ℕ} {control : BitVec 8} (hbit : bit < 32) (hne : bit' ≠ bit)
    (state : FlagStatus) (h : Mirrored s bit' control) :
    Mirrored (ioWriteAlarmBit bit state s) bit' control := by
  rwa [Mirrored, ioWriteAlarmBit_eq hbit, getLsbD_writeBit_of_ne hbit state hne]

/-- A control word that is written leaves the other two alarms alone. -/
theorem Mirrors.write (h : Mirrors s) (c : Call) (hclear : c = .clearAlarmWord → Released s) :
    Mirrors (call s c) := by
  cases c with
  | overSpeed bit state =>
    exact ⟨mirrored_written (by decide) _ _,
      mirrored_other (by decide) (by decide) _ h.preOvertime,
      mirrored_other (by decide) (by decide) _ h.overtime⟩
  | preOvertime bit state =>
    exact ⟨mirrored_other (by decide) (by decide) _ h.overSpeed,
      mirrored_written (by decide) _ _, mirrored_other (by decide) (by decide) _ h.overtime⟩
  | overtime bit state =>
    exact ⟨mirrored_other (by decide) (by decide) _ h.overSpeed,
      mirrored_other (by decide) (by decide) _ h.preOvertime, mirrored_written (by decide) _ _⟩
  | clearAlarmWord =>
    obtain ⟨hover, hpre, hovertime⟩ := hclear rfl
    have hzero (bit : ℕ) {control : BitVec 8} (hcontrol : control = 0) :
        Mirrored (ioClearAlarmWord s) bit control :=
      iff_of_false (by simp [ioClearAlarmWord]) (not_not_intro hcontrol)
    exact ⟨hzero _ hover, hzero _ hpre, hzero _ hovertime⟩

/-- Behind a cleared alarm word only released alarms are right. -/
theorem released_of_mirrors_clear (h : Mirrors (ioClearAlarmWord s)) : Released s := by
  have hzero {bit : ℕ} {control : BitVec 8} (hm : Mirrored (ioClearAlarmWord s) bit control) :
      control = 0 := by
    by_contra hcontrol
    have hbit := hm.mpr hcontrol
    simp [ioClearAlarmWord] at hbit
  exact ⟨hzero h.overSpeed, hzero h.preOvertime, hzero h.overtime⟩

theorem mirrors_initial : Mirrors .initial :=
  ⟨iff_of_false (by decide) (not_not_intro rfl), iff_of_false (by decide) (not_not_intro rfl),
    iff_of_false (by decide) (not_not_intro rfl)⟩

/-- The alarm bits are right after every call exactly when the alarm word is cleared only while
no source of a driving alarm is left. -/
theorem mirrors_iff (calls : List Call) :
    (∀ front, front <+: calls → Mirrors (run .initial front)) ↔
      ∀ front, front ++ [.clearAlarmWord] <+: calls → Released (run .initial front) := by
  constructor
  · intro h front hfront
    have hmirrors := h _ hfront
    rw [run_append] at hmirrors
    exact released_of_mirrors_clear hmirrors
  · intro h front
    induction front using List.reverseRecOn with
    | nil => exact fun _ => mirrors_initial
    | append_singleton front c ih =>
      intro hfront
      rw [run_append]
      refine (ih ((List.prefix_append front [c]).trans hfront)).write c fun hclear => ?_
      subst hclear
      exact h front hfront

/-- An over-speed that lasts, and the alarm word cleared. -/
theorem not_mirrors_cleared :
    ¬ ∀ (calls : List Call) (front : List Call), front <+: calls →
      Mirrors (run .initial front) := by
  intro h
  have hmirrors := h [.overSpeed 0 .set, .clearAlarmWord] _ List.prefix_rfl
  have hbit := hmirrors.overSpeed.mpr (by decide)
  exact absurd hbit (by decide)

end Mirror

end VehicleTerminal.Io
