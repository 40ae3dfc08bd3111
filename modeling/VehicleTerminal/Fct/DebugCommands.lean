import VehicleTerminal.Library.Simulation
import VehicleTerminal.Fct.DebugFrame

/-! The commands of the debug port in `fct_app.c`. All messages in `fct_app_msg` are the same text,
so the queue is their number. A deferral timer is the callback that it calls when it expires. -/
namespace VehicleTerminal.FctCommands
open CString FctDebug PartialRun

section Model

inductive Handler
  | nvicSystemReset
  | appEyeDebugAck
  | appCheckMyself
  | appCheckCount
  | appCheckDigitalInput
  | appCheckDigitalOutput
  | appCheckAnalogInput
  | appCheckAnalogOutput
  | appCheckAntenna
  | gnssAnswer
  | appCheckGsmGprs
  | appCheckComunication
  | apiCheckPower
  | apiCheckBattery
  | apiCheckPwm
  deriving DecidableEq, Repr

/-- What `Task_DebugCommIncode` does with the text in the buffer. -/
inductive Reaction
  | calls (function : Handler)
  | publicSetTestTimer (function : Handler)
  | timer10msStart (callBack : Handler)
  | unknown
  deriving DecidableEq, Repr

/-- The difference of two characters is 0 as a byte only if it is 0. -/
def taskDebugCommstrncmp (src : String) (buf : List UInt8) : Bool :=
  strncmpEq (ascii src) buf 0 = some true

def taskDebugCommIncode (debugF : UInt8) (buf : List UInt8) : Reaction :=
  if taskDebugCommstrncmp "EYE+RESET" buf then .calls .nvicSystemReset
  else if debugF = 0 then
    if taskDebugCommstrncmp "EYE+DEBUG" buf then .publicSetTestTimer .appEyeDebugAck
    else .unknown
  else if taskDebugCommstrncmp "EYE+CHECKSELF" buf then .calls .appCheckMyself
  else if taskDebugCommstrncmp "EYE+COUNT" buf then .calls .appCheckCount
  else if taskDebugCommstrncmp "EYE+SIN" buf then .timer10msStart .appCheckDigitalInput
  else if taskDebugCommstrncmp "EYE+SOUT" buf then .calls .appCheckDigitalOutput
  else if taskDebugCommstrncmp "EYE+VIN=" buf then .publicSetTestTimer .appCheckAnalogInput
  else if taskDebugCommstrncmp "EYE+VOUT=" buf then .calls .appCheckAnalogOutput
  else if taskDebugCommstrncmp "EYE+GNSSANTE=" buf then .publicSetTestTimer .appCheckAntenna
  else if taskDebugCommstrncmp "EYE+GNSS=" buf then .calls .gnssAnswer
  else if taskDebugCommstrncmp "EYE+MBCOM=" buf then .calls .appCheckGsmGprs
  else if taskDebugCommstrncmp "EYE+COM=" buf then .calls .appCheckComunication
  else if taskDebugCommstrncmp "EYE+POWER=" buf then .publicSetTestTimer .apiCheckPower
  else if taskDebugCommstrncmp "EYE+BATTERY=" buf then .calls .apiCheckBattery
  else if taskDebugCommstrncmp "EYE+PWM=" buf then .calls .apiCheckPwm
  else if taskDebugCommstrncmp "EYE+DEBUG" buf then .calls .appEyeDebugAck
  else .unknown

structure System where
  recv : PrtlRecDebug
  fctAppMsg : ℕ
  testTimer : Option Handler
  timer10ms : Option Handler
  debugF : UInt8
  deriving DecidableEq, Repr

/-- The texts of posted commands, and the runs of handlers with the buffer that they read. -/
structure Output where
  posted : List (List UInt8)
  ran : List (Handler × List UInt8)
  deriving DecidableEq, Repr

/-- The next step: bytes of the debug port, a receive of the thread, or an expiry. -/
inductive Action
  | appDisposeDebugRecvData (chunk : Chunk)
  | fctAppThread
  | testTimerExpires
  | timer10msExpires

def fctAppMsgs : ℕ := 5

def restarted : System :=
  ⟨⟨0, 0, List.replicate (fctRecvLen + 1) 0⟩, 0, none, none, 0⟩

def runHandler (function : Handler) (s : System) : System × Output :=
  (match function with
    | .nvicSystemReset => restarted
    | .appEyeDebugAck => { s with debugF := 1 }
    | _ => s, ⟨[], [(function, s.recv.buf)]⟩)

def react (s : System) : Reaction → System × Output
  | .calls function => runHandler function s
  | .publicSetTestTimer function => ({ s with testTimer := some function }, ⟨[], []⟩)
  | .timer10msStart callBack => ({ s with timer10ms := some callBack }, ⟨[], []⟩)
  | .unknown => (s, ⟨[], []⟩)

/-- `rt_mq_send` drops the message when the queue is full. -/
def rtMqSend (messages : ℕ) : ℕ := if messages < fctAppMsgs then messages + 1 else messages

/-- A thread without a message, and a timer that is not set, do nothing. -/
def step (s : System) : Action → Option (System × Output)
  | .appDisposeDebugRecvData chunk =>
    (fctAppDisposeDebugRecvData s.recv chunk).bind fun r =>
      if InsideBuf r.written then
        if r.posted then
          some ({ s with recv := r.recv, fctAppMsg := rtMqSend s.fctAppMsg }, ⟨[r.recv.buf], []⟩)
        else some ({ s with recv := r.recv }, ⟨[], []⟩)
      else none
  | .fctAppThread =>
    if s.fctAppMsg = 0 then some (s, ⟨[], []⟩)
    else
      some (react { s with fctAppMsg := s.fctAppMsg - 1 }
        (taskDebugCommIncode s.debugF s.recv.buf))
  | .testTimerExpires =>
    match s.testTimer with
    | none => some (s, ⟨[], []⟩)
    | some function => some (runHandler function { s with testTimer := none })
  | .timer10msExpires =>
    match s.timer10ms with
    | none => some (s, ⟨[], []⟩)
    | some callBack => some (runHandler callBack { s with timer10ms := none })

/-- In debug mode, with nothing to do. -/
def initial (recv : PrtlRecDebug) : System := ⟨recv, 0, none, none, 1⟩

end Model

section Property

/-- The handlers of the keywords. -/
def keywords : List (String × Handler) :=
  [("EYE+RESET", .nvicSystemReset), ("EYE+CHECKSELF", .appCheckMyself),
    ("EYE+COUNT", .appCheckCount), ("EYE+SIN", .appCheckDigitalInput),
    ("EYE+SOUT", .appCheckDigitalOutput), ("EYE+VIN=", .appCheckAnalogInput),
    ("EYE+VOUT=", .appCheckAnalogOutput), ("EYE+GNSSANTE=", .appCheckAntenna),
    ("EYE+GNSS=", .gnssAnswer), ("EYE+MBCOM=", .appCheckGsmGprs),
    ("EYE+COM=", .appCheckComunication), ("EYE+POWER=", .apiCheckPower),
    ("EYE+BATTERY=", .apiCheckBattery), ("EYE+PWM=", .apiCheckPwm),
    ("EYE+DEBUG", .appEyeDebugAck)]

def handlerOf (buf : List UInt8) : Option Handler :=
  (keywords.find? fun k => ascii k.1 <+: buf).map Prod.snd

/-- The run that a text asks for. -/
def command (buf : List UInt8) : Option (Handler × List UInt8) :=
  (handlerOf buf).map fun function => (function, buf)

def Output.commands (o : Output) : List (Handler × List UInt8) := o.posted.filterMap command

/-- Nothing is left to do. -/
def Idle (s : System) : Prop := s.fctAppMsg = 0 ∧ s.testTimer = none ∧ s.timer10ms = none

instance (s : System) : Decidable (Idle s) := inferInstanceAs (Decidable (_ ∧ _ ∧ _))

def Action.IsFrame : Action → Prop
  | .appDisposeDebugRecvData _ => True
  | _ => False

/-- The handlers' runs are what the commands ask for, up to order. -/
def Answered (os : List Output) : Prop :=
  (os.flatMap Output.commands).Perm (os.flatMap Output.ran)

instance (os : List Output) : Decidable (Answered os) := inferInstanceAs (Decidable (List.Perm ..))

/-- Whenever nothing is left to do, the commands are answered, and without further frames this
comes about. -/
def AnsweredOnce (s : System) (actions : List Action) : Prop :=
  ∃ t os, run step s actions = some (t, os) ∧ (Idle t → Answered os) ∧
    ∃ rest t' os', (∀ a ∈ rest, ¬ a.IsFrame) ∧ run step t rest = some (t', os') ∧ Idle t' ∧
      Answered (os ++ os')

section Commands

variable {buf : List UInt8} {debugF : UInt8} {s : System}

def Reaction.handler : Reaction → Option Handler
  | .calls function => some function
  | .publicSetTestTimer function => some function
  | .timer10msStart callBack => some callBack
  | .unknown => none

theorem taskDebugCommstrncmp_eq (src : String) :
    taskDebugCommstrncmp src buf = decide (ascii src <+: buf) := by
  rw [taskDebugCommstrncmp, decide_eq_decide, strncmpEq_iff, List.drop_zero]

theorem find_keyword (keyword : String × Handler) (rest : List (String × Handler)) :
    ((keyword :: rest).find? fun k => ascii k.1 <+: buf).map Prod.snd =
      if ascii keyword.1 <+: buf then some keyword.2
      else (rest.find? fun k => ascii k.1 <+: buf).map Prod.snd := by
  by_cases h : ascii keyword.1 <+: buf
  · rw [List.find?_cons_of_pos (by simpa using h), if_pos h, Option.map_some]
  · rw [List.find?_cons_of_neg (by simpa using h), if_neg h]

/-- In debug mode each keyword leads to its handler. -/
theorem incode_handler (h : debugF ≠ 0) :
    (taskDebugCommIncode debugF buf).handler = handlerOf buf := by
  simp only [taskDebugCommIncode, taskDebugCommstrncmp_eq, decide_eq_true_eq, h, if_false,
    apply_ite Reaction.handler]
  simp only [handlerOf, keywords, find_keyword, Reaction.handler, List.find?_nil,
    Option.map_none]

end Commands

section Steps

variable {s s' : System} {o : Output}

/-- The runs that are still due, if the buffer stays as it is. -/
def waiting (s : System) : List (Handler × List UInt8) :=
  (List.replicate s.fctAppMsg s.recv.buf).filterMap command ++
    (s.testTimer.toList ++ s.timer10ms.toList).map fun function => (function, s.recv.buf)

/-- At most one thing is left to do, and a message is left only in debug mode. -/
structure Inv (s : System) : Prop where
  single : s.fctAppMsg + s.testTimer.toList.length + s.timer10ms.toList.length ≤ 1
  debugging : s.fctAppMsg ≠ 0 → s.debugF = 1

/-- A frame arrives in debug mode when nothing is left to do, and fits the buffer. -/
def Undisturbed (s : System) : Action → Prop
  | .appDisposeDebugRecvData chunk =>
    s.debugF = 1 ∧ (firstHeader chunk = none ∨ Idle s ∧ FitsBuf chunk)
  | _ => True

instance (s : System) : (a : Action) → Decidable (Undisturbed s a)
  | .appDisposeDebugRecvData _ => inferInstanceAs (Decidable (_ ∧ (_ ∨ _ ∧ _)))
  | .fctAppThread => isTrue trivial
  | .testTimerExpires => isTrue trivial
  | .timer10msExpires => isTrue trivial

theorem Idle.waiting_nil (h : Idle s) : waiting s = [] := by
  simp [waiting, h.1, h.2.1, h.2.2]

theorem Idle.inv (h : Idle s) : Inv s := by
  constructor
  · simp [h.1, h.2.1, h.2.2]
  · intro hmessage
    exact absurd h.1 hmessage

theorem idle_restarted : Idle restarted := ⟨rfl, rfl, rfl⟩

theorem idle_initial (recv : PrtlRecDebug) : Idle (initial recv) := ⟨rfl, rfl, rfl⟩

/-- A handler that runs with nothing else left to do. -/
theorem runHandler_idle (h : Idle s) (function : Handler) :
    Idle (runHandler function s).1 ∧
      (runHandler function s).2 = ⟨[], [(function, s.recv.buf)]⟩ := by
  cases function <;> first | exact ⟨h, rfl⟩ | exact ⟨idle_restarted, rfl⟩

/-- What a step leaves: what was due and what a command asks for is what ran and what is due. -/
structure Conserves (s : System) (o : Output) (s' : System) : Prop where
  inv : Inv s'
  conserved : waiting s ++ o.commands = o.ran ++ waiting s'

theorem conserves_self (hinv : Inv s) : Conserves s ⟨[], []⟩ s := by
  refine ⟨hinv, ?_⟩
  rw [Output.commands, List.filterMap_nil, List.append_nil, List.nil_append]

/-- The only thing that is left to do runs. -/
theorem Idle.conserves_run {function : Handler} (h : Idle s')
    (hdue : waiting s = [(function, s'.recv.buf)]) :
    Conserves s (runHandler function s').2 (runHandler function s').1 := by
  obtain ⟨hidle, hran⟩ := runHandler_idle h function
  refine ⟨hidle.inv, ?_⟩
  rw [hidle.waiting_nil, hran, hdue]
  rfl

theorem step_frame {chunk : Chunk} {r : Received}
    (h : fctAppDisposeDebugRecvData s.recv chunk = some r) (hinside : InsideBuf r.written) :
    step s (.appDisposeDebugRecvData chunk) = some (if r.posted then
        ({ s with recv := r.recv, fctAppMsg := rtMqSend s.fctAppMsg }, ⟨[r.recv.buf], []⟩)
      else ({ s with recv := r.recv }, ⟨[], []⟩)) := by
  rw [step, h, Option.bind_some, if_pos hinside]
  split_ifs <;> rfl

theorem Idle.withRecv (h : Idle s) (recv : PrtlRecDebug) : Idle { s with recv := recv } := h

theorem waiting_message (h : s.fctAppMsg = 1 ∧ s.testTimer = none ∧ s.timer10ms = none) :
    waiting s = (command s.recv.buf).toList := by
  cases hcommand : command s.recv.buf <;> simp [waiting, h.1, h.2.1, h.2.2, hcommand]

theorem commands_posted (buf : List UInt8) :
    Output.commands ⟨[buf], []⟩ = (command buf).toList := by
  cases hcommand : command buf <;> simp [Output.commands, hcommand]

theorem Idle.conserves_posted (h : Idle s) (hdebug : s.debugF = 1) (recv : PrtlRecDebug) :
    Conserves s ⟨[recv.buf], []⟩ { s with recv := recv, fctAppMsg := rtMqSend s.fctAppMsg } := by
  have hone : rtMqSend s.fctAppMsg = 1 := by rw [h.1]; rfl
  refine ⟨⟨?_, fun _ => hdebug⟩, ?_⟩
  · simp [hone, h.2.1, h.2.2]
  · have hwaiting : waiting { s with recv := recv, fctAppMsg := rtMqSend s.fctAppMsg } =
        (command recv.buf).toList := waiting_message ⟨hone, h.2⟩
    rw [h.waiting_nil, commands_posted, hwaiting]

theorem frame_conserves (hinv : Inv s) {chunk : Chunk}
    (h : Undisturbed s (.appDisposeDebugRecvData chunk)) :
    ∃ s' o, step s (.appDisposeDebugRecvData chunk) = some (s', o) ∧ Conserves s o s' := by
  cases hheader : firstHeader chunk with
  | none =>
    have hinside : InsideBuf [] := fun j hj => absurd hj List.not_mem_nil
    exact ⟨s, ⟨[], []⟩, step_frame (dispose_none hheader) hinside, conserves_self hinv⟩
  | some i =>
    obtain ⟨hdebug, hnone | ⟨hidle, hfits⟩⟩ := h
    · rw [hheader] at hnone
      cases hnone
    · obtain ⟨written, posted, hrun, -, hinside⟩ := @dispose_some s.recv chunk i hheader
      rw [step_frame hrun (hinside.mpr (hfits.not_overruns hheader))]
      cases posted with
      | false =>
        refine ⟨_, _, rfl, (hidle.withRecv _).inv, ?_⟩
        exact (congrArg (· ++ []) hidle.waiting_nil).trans
          (congrArg ([] ++ ·) (hidle.withRecv _).waiting_nil).symm
      | true => exact ⟨_, _, rfl, hidle.conserves_posted hdebug _⟩

/-- The reaction to the only message that is left. -/
theorem Idle.conserves_react (h : Idle s') {reaction : Reaction}
    (hdue : waiting s = (reaction.handler.map fun function => (function, s'.recv.buf)).toList) :
    Conserves s (react s' reaction).2 (react s' reaction).1 := by
  have hmessage (debugF : UInt8) : s'.fctAppMsg ≠ 0 → debugF = 1 := fun hne => absurd h.1 hne
  cases reaction with
  | calls function => exact h.conserves_run hdue
  | publicSetTestTimer function =>
    refine ⟨⟨?_, hmessage _⟩, ?_⟩
    · simp [react, h.1, h.2.2]
    · rw [hdue]
      simp [react, waiting, Output.commands, Reaction.handler, h.1, h.2.2]
  | timer10msStart callBack =>
    refine ⟨⟨?_, hmessage _⟩, ?_⟩
    · simp [react, h.1, h.2.1]
    · rw [hdue]
      simp [react, waiting, Output.commands, Reaction.handler, h.1, h.2.1]
  | unknown =>
    refine ⟨h.inv, ?_⟩
    simp [hdue, react, h.waiting_nil, Output.commands, Reaction.handler]

theorem Inv.of_message (hinv : Inv s) (h : s.fctAppMsg ≠ 0) :
    s.fctAppMsg = 1 ∧ s.testTimer = none ∧ s.timer10ms = none := by
  have hsingle := hinv.single
  refine ⟨by omega, ?_, ?_⟩
  · simpa using (by omega : s.testTimer.toList.length = 0)
  · simpa using (by omega : s.timer10ms.toList.length = 0)

theorem receive_conserves (hinv : Inv s) :
    ∃ s' o, step s .fctAppThread = some (s', o) ∧ Conserves s o s' := by
  by_cases hmessage : s.fctAppMsg = 0
  · exact ⟨s, ⟨[], []⟩, if_pos hmessage, conserves_self hinv⟩
  · have hone := hinv.of_message hmessage
    have hidle : Idle { s with fctAppMsg := s.fctAppMsg - 1 } := by
      refine ⟨?_, hone.2⟩
      simp only [hone.1]
    have hdebug : s.debugF ≠ 0 := by
      rw [hinv.debugging hmessage]
      decide
    refine ⟨_, _, if_neg hmessage, hidle.conserves_react ?_⟩
    rw [incode_handler hdebug, waiting_message hone, command]

theorem Inv.of_testTimer (hinv : Inv s) {function : Handler} (h : s.testTimer = some function) :
    Idle { s with testTimer := none } := by
  have hsingle := hinv.single
  rw [h, Option.toList_some, List.length_singleton] at hsingle
  refine ⟨?_, rfl, ?_⟩
  · simp only
    omega
  · simpa using (by omega : s.timer10ms.toList.length = 0)

theorem Inv.of_timer10ms (hinv : Inv s) {callBack : Handler} (h : s.timer10ms = some callBack) :
    Idle { s with timer10ms := none } := by
  have hsingle := hinv.single
  rw [h, Option.toList_some, List.length_singleton] at hsingle
  refine ⟨?_, ?_, rfl⟩
  · simp only
    omega
  · simpa using (by omega : s.testTimer.toList.length = 0)

theorem step_testTimer {function : Handler} (h : s.testTimer = some function) :
    step s .testTimerExpires = some (runHandler function { s with testTimer := none }) := by
  rw [step, h]

theorem step_timer10ms {callBack : Handler} (h : s.timer10ms = some callBack) :
    step s .timer10msExpires = some (runHandler callBack { s with timer10ms := none }) := by
  rw [step, h]

theorem testTimer_conserves (hinv : Inv s) :
    ∃ s' o, step s .testTimerExpires = some (s', o) ∧ Conserves s o s' := by
  cases htest : s.testTimer with
  | none => exact ⟨s, ⟨[], []⟩, by rw [step, htest], conserves_self hinv⟩
  | some function =>
    have hidle := hinv.of_testTimer htest
    refine ⟨_, _, step_testTimer htest, hidle.conserves_run ?_⟩
    have hmessage : s.fctAppMsg = 0 := hidle.1
    have h10ms : s.timer10ms = none := hidle.2.2
    simp [waiting, hmessage, htest, h10ms]

theorem timer10ms_conserves (hinv : Inv s) :
    ∃ s' o, step s .timer10msExpires = some (s', o) ∧ Conserves s o s' := by
  cases h10ms : s.timer10ms with
  | none => exact ⟨s, ⟨[], []⟩, by rw [step, h10ms], conserves_self hinv⟩
  | some callBack =>
    have hidle := hinv.of_timer10ms h10ms
    refine ⟨_, _, step_timer10ms h10ms, hidle.conserves_run ?_⟩
    have hmessage : s.fctAppMsg = 0 := hidle.1
    have htest : s.testTimer = none := hidle.2.1
    simp [waiting, hmessage, htest, h10ms]

theorem step_conserves (hinv : Inv s) {a : Action} (h : Undisturbed s a) :
    ∃ s' o, step s a = some (s', o) ∧ Conserves s o s' := by
  cases a with
  | appDisposeDebugRecvData chunk => exact frame_conserves hinv h
  | fctAppThread => exact receive_conserves hinv
  | testTimerExpires => exact testTimer_conserves hinv
  | timer10msExpires => exact timer10ms_conserves hinv

end Steps

section Runs

variable {s : System} {actions : List Action}

theorem run_conserves (hinv : Inv s) (h : Guarded step Undisturbed s actions) :
    ∃ t os, run step s actions = some (t, os) ∧ Inv t ∧
      waiting s ++ os.flatMap Output.commands = os.flatMap Output.ran ++ waiting t :=
  run_conserved_of_inv (fun _ _ hinv h => by
    obtain ⟨s', o, hstep, hconserves⟩ := step_conserves hinv h
    exact ⟨s', o, hstep, hconserves.inv, hconserves.conserved⟩) hinv h

theorem undisturbed_of_not_isFrame {a : Action} (h : ¬ a.IsFrame) (s : System) :
    Undisturbed s a := by
  cases a with
  | appDisposeDebugRecvData chunk => exact absurd trivial h
  | _ => trivial

theorem react_fctAppMsg (h : s.fctAppMsg = 0) (reaction : Reaction) :
    (react s reaction).1.fctAppMsg = 0 := by
  cases reaction with
  | calls function => cases function <;> first | exact h | rfl
  | _ => exact h

/-- The state can come to rest without further frames. -/
def Drains (s : System) : Prop :=
  ∃ rest t os, (∀ a ∈ rest, ¬ a.IsFrame) ∧ run step s rest = some (t, os) ∧ Idle t

theorem Drains.of_step {a : Action} {s' : System} {o : Output} (h : Drains s')
    (ha : ¬ a.IsFrame) (hstep : step s a = some (s', o)) : Drains s := by
  obtain ⟨rest, t, os, hrest, hrun, hidle⟩ := h
  refine ⟨a :: rest, t, o :: os, List.forall_mem_cons.mpr ⟨ha, hrest⟩, ?_, hidle⟩
  rw [run_cons_of_step hstep, hrun, Option.map_some]

theorem drains_of_idle (h : Idle s) : Drains s := ⟨[], s, [], by simp, rfl, h⟩

theorem drains_timers (hinv : Inv s) (hmessage : s.fctAppMsg = 0) : Drains s := by
  cases htest : s.testTimer with
  | some function =>
    have hidle := runHandler_idle (hinv.of_testTimer htest) function
    exact (drains_of_idle hidle.1).of_step id (step_testTimer htest)
  | none =>
    cases h10ms : s.timer10ms with
    | some callBack =>
      have hidle := runHandler_idle (hinv.of_timer10ms h10ms) callBack
      exact (drains_of_idle hidle.1).of_step id (step_timer10ms h10ms)
    | none => exact drains_of_idle ⟨hmessage, htest, h10ms⟩

theorem drains (hinv : Inv s) : Drains s := by
  by_cases hmessage : s.fctAppMsg = 0
  · exact drains_timers hinv hmessage
  · obtain ⟨s', o, hstep, hconserves⟩ := receive_conserves hinv
    have hone := (hinv.of_message hmessage).1
    have hreact : step s .fctAppThread = some (react { s with fctAppMsg := s.fctAppMsg - 1 }
        (taskDebugCommIncode s.debugF s.recv.buf)) := if_neg hmessage
    have hs' : s'.fctAppMsg = 0 := by
      have hsame : s' = (react { s with fctAppMsg := s.fctAppMsg - 1 }
          (taskDebugCommIncode s.debugF s.recv.buf)).1 :=
        congrArg Prod.fst (Option.some.inj (hstep.symm.trans hreact))
      rw [hsame]
      exact react_fctAppMsg (by simp only [hone]) _
    exact (drains_timers hconserves.inv hs').of_step id hstep

/-- Frames that arrive in debug mode with nothing left to do, and that fit the buffer, are answered
once each, by runs that read their texts. -/
theorem commands_answered (recv : PrtlRecDebug)
    (h : Guarded step Undisturbed (initial recv) actions) :
    AnsweredOnce (initial recv) actions := by
  obtain ⟨t, os, hrun, hinv, hconserved⟩ := run_conserves (idle_initial recv).inv h
  rw [(idle_initial recv).waiting_nil, List.nil_append] at hconserved
  obtain ⟨rest, t', os', hrest, hdrain, hidle⟩ := drains hinv
  refine ⟨t, os, hrun, ?_, rest, t', os', hrest, hdrain, hidle, ?_⟩
  · intro ht
    rw [Answered, hconserved, ht.waiting_nil, List.append_nil]
  · obtain ⟨_, _, hdrain', -, hconserved'⟩ := run_conserves hinv
      (guarded_of_forall_mem (fun a ha => undisturbed_of_not_isFrame (hrest a ha)) t)
    obtain ⟨rfl, rfl⟩ := Prod.mk.inj (Option.some.inj (hdrain.symm.trans hdrain'))
    rw [Answered, List.flatMap_append, List.flatMap_append, hconserved, List.append_assoc,
      hconserved', hidle.waiting_nil, List.append_nil]

/-- The bytes of a command with its carriage return. -/
def frame (text : String) (h : (ascii text ++ [0x0d]).length < 65536) : Action :=
  .appDisposeDebugRecvData ⟨ascii text ++ [0x0d], h⟩

def cleared : PrtlRecDebug := ⟨0, 0, List.replicate 129 0⟩

/-- A deferred command and an immediate one. -/
def inTurn : List Action :=
  [frame "EYE+SIN" (by decide +kernel), .fctAppThread, .timer10msExpires,
    frame "EYE+COUNT" (by decide +kernel), .fctAppThread]

theorem commands_answered_inTurn :
    Guarded step Undisturbed (initial cleared) inTurn ∧ AnsweredOnce (initial cleared) inTurn :=
  ⟨by decide +kernel, commands_answered cleared (by decide +kernel)⟩

/-- A second command arrives before the thread has received the first message. -/
def overtaken : List Action :=
  [frame "EYE+COUNT" (by decide +kernel), frame "EYE+SOUT" (by decide +kernel),
    .fctAppThread, .fctAppThread]

theorem not_answeredOnce : ¬ ∀ recv actions,
    Guarded step (fun s _ => s.debugF = 1) (initial recv) actions →
      AnsweredOnce (initial recv) actions := by
  intro h
  obtain ⟨t, os, hrun, hanswered, -⟩ := h cleared overtaken (by decide +kernel)
  have hwrong : ∀ r ∈ run step (initial cleared) overtaken, Idle r.1 ∧ ¬ Answered r.2 := by
    decide +kernel
  obtain ⟨hidle, hnot⟩ := hwrong _ hrun
  exact hnot (hanswered hidle)

end Runs

end Property

end VehicleTerminal.FctCommands
