import VehicleTerminal.Io.Words

/-! The input detectors of `Io.c`. Each channel of a detector has two counters, one for each
level, and a bit in the word of the detector. -/
namespace VehicleTerminal.Io
open Debounce

section Model

def detectStatusHighDelay : List ℕ :=
  [20, 0, 0, 0, 0, 0, 0, 0,
    0, 0, 0, 0, 0, 20, 20, 20,
    20, 20, 0, 0, 0, 0, 0, 0,
    0, 0, 0, 0, 0, 0, 0, 0]

def detectStatusLowDelay : List ℕ :=
  [20, 0, 0, 0, 0, 0, 0, 0,
    0, 0, 0, 0, 0, 20, 20, 20,
    20, 20, 0, 0, 0, 0, 0, 0,
    0, 0, 0, 0, 0, 0, 0, 0]

def detectExtCarStatusHighDelay : List ℕ :=
  [3, 3, 3, 3, 3, 20, 3, 3,
    3, 20, 0, 0, 0, 0, 0, 0,
    0, 0, 0, 0, 0, 0, 0, 0,
    0, 0, 0, 0, 0, 0, 0, 0]

def detectExtCarStatusLowDelay : List ℕ :=
  [3, 3, 3, 3, 3, 20, 3, 3,
    3, 20, 0, 0, 0, 0, 0, 0,
    0, 0, 0, 0, 0, 0, 0, 0,
    0, 0, 0, 0, 0, 0, 0, 0]

def detectAlarmHighDelay : List ℕ :=
  [40, 0, 0, 0, 0, 20, 20, 0,
    0, 0, 0, 0, 0, 0, 0, 0,
    0, 0, 0, 0, 0, 0, 0, 0,
    0, 0, 0, 0, 0, 0, 0, 0]

def detectAlarmLowDelay : List ℕ :=
  [40, 0, 0, 0, 0, 20, 20, 0,
    0, 0, 0, 0, 0, 0, 0, 0,
    0, 0, 0, 0, 0, 0, 0, 0,
    0, 0, 0, 0, 0, 0, 0, 0]

/-- The level that makes a bit, for each word: 1 is high. -/
structure HighValid where
  alarmHighValid : BitVec 32
  statusHighValid : BitVec 32
  extCarStatusHighValid : BitVec 32

/-- The first part of every detector: the counters after a sample. -/
def Counts.sample (highDelay lowDelay : List ℕ) (index : Fin 32) (state : UInt8) (c : Counts) :
    Counts :=
  if 1 = state then
    ⟨Function.update c.highCount index (saturate (highDelay.getD index 0) (c.highCount index)),
      Function.update c.lowCount index 0⟩
  else
    ⟨Function.update c.highCount index 0,
      Function.update c.lowCount index (saturate (lowDelay.getD index 0) (c.lowCount index))⟩

/-- The two comparisons of every detector: the level that the counters confirm. -/
def Counts.confirmed (highDelay lowDelay : List ℕ) (index : Fin 32) (c : Counts) : Option Bool :=
  if c.highCount index ≥ highDelay.getD index 0 then some true
  else if c.lowCount index ≥ lowDelay.getD index 0 then some false
  else none

/-- The state that a confirmed level gives to a bit. -/
def stateOf (highValid : BitVec 32) (index : Fin 32) : Bool → FlagStatus
  | true => if 1 = readBit highValid index then .set else .reset
  | false => if 0 = readBit highValid index then .set else .reset

def detectBit (highValid : BitVec 32) (index : Fin 32) (word : BitVec 32) :
    Option Bool → BitVec 32
  | some level => writeBit word index (stateOf highValid index level)
  | none => word

def ioStatusBitSleep : ℕ := 1

def statusBitAcc : ℕ := 0

def ioReadStatusBit (bit : ℕ) (s : IoState) : BitVec 32 :=
  if bit < 32 then readBit s.status bit else 0

def ioWriteIoStatusBit (bit : ℕ) (state : FlagStatus) (s : IoState) : IoState :=
  if bit < 16 then { s with ioStatus := writeBit s.ioStatus bit state } else s

def ioDetectStatus (valid : HighValid) (bbgnTestFlag bbxyTestFlag : UInt8) (index : Fin 32)
    (state : UInt8) (s : IoState) : IoState :=
  let counts := s.detectStatus.sample detectStatusHighDelay detectStatusLowDelay index state
  let confirmed := counts.confirmed detectStatusHighDelay detectStatusLowDelay index
  let s := { s with
    detectStatus := counts
    status := detectBit valid.statusHighValid index s.status confirmed }
  if 1 = bbgnTestFlag ∨ 1 = bbxyTestFlag then
    if 1 = ioReadStatusBit statusBitAcc s then ioWriteIoStatusBit ioStatusBitSleep .reset s
    else ioWriteIoStatusBit ioStatusBitSleep .set s
  else s

def ioDetectExtCarStatus (valid : HighValid) (index : Fin 32) (state : UInt8) (s : IoState) :
    IoState :=
  let counts :=
    s.detectExtCarStatus.sample detectExtCarStatusHighDelay detectExtCarStatusLowDelay index state
  let confirmed := counts.confirmed detectExtCarStatusHighDelay detectExtCarStatusLowDelay index
  { s with
    detectExtCarStatus := counts
    extCarStatus := detectBit valid.extCarStatusHighValid index s.extCarStatus confirmed }

/-- The emergency alarm is cleared by the centre only. It is stored when a low level sets it. -/
def ioDetectAlarm (valid : HighValid) (index : Fin 32) (state : UInt8) (s : IoState) : IoState :=
  let counts := s.detectAlarm.sample detectAlarmHighDelay detectAlarmLowDelay index state
  let s := { s with detectAlarm := counts }
  match counts.confirmed detectAlarmHighDelay detectAlarmLowDelay index with
  | some true =>
    if 1 = readBit valid.alarmHighValid index then
      { s with alarm := writeBit s.alarm index .set }
    else if alarmBitEmergency = index then s
    else { s with alarm := writeBit s.alarm index .reset }
  | some false =>
    if 0 = readBit valid.alarmHighValid index then
      let s := { s with alarm := writeBit s.alarm index .set }
      if alarmBitEmergency = index then
        { s with framWrites := s.framWrites ++ [(framEmergencyFlagAddr, [1])] }
      else s
    else if alarmBitEmergency = index then s
    else { s with alarm := writeBit s.alarm index .reset }
  | none => s

inductive Detector
  | status
  | extCarStatus
  | alarm
  deriving DecidableEq, Repr

/-- A call of a detector: the channel, the level of its pin, and the test flags. -/
structure Sample where
  detector : Detector
  index : Fin 32
  state : UInt8
  bbgnTestFlag : UInt8
  bbxyTestFlag : UInt8
  deriving DecidableEq, Repr

def detect (valid : HighValid) (s : IoState) (x : Sample) : IoState :=
  match x.detector with
  | .status => ioDetectStatus valid x.bbgnTestFlag x.bbxyTestFlag x.index x.state s
  | .extCarStatus => ioDetectExtCarStatus valid x.index x.state s
  | .alarm => ioDetectAlarm valid x.index x.state s

/-- The samples since the counters were initialised. -/
def detectAll (valid : HighValid) (s : IoState) (samples : List Sample) : IoState :=
  samples.foldl (detect valid)
    { s with detectStatus := .cleared, detectExtCarStatus := .cleared, detectAlarm := .cleared }

end Model

section Channels

variable {valid : HighValid} {s : IoState} {d : Detector} {index : Fin 32}

def IoState.word (s : IoState) : Detector → BitVec 32
  | .status => s.status
  | .extCarStatus => s.extCarStatus
  | .alarm => s.alarm

def IoState.counts (s : IoState) : Detector → Counts
  | .status => s.detectStatus
  | .extCarStatus => s.detectExtCarStatus
  | .alarm => s.detectAlarm

def HighValid.word (valid : HighValid) : Detector → BitVec 32
  | .status => valid.statusHighValid
  | .extCarStatus => valid.extCarStatusHighValid
  | .alarm => valid.alarmHighValid

def highDelay : Detector → List ℕ
  | .status => detectStatusHighDelay
  | .extCarStatus => detectExtCarStatusHighDelay
  | .alarm => detectAlarmHighDelay

def lowDelay : Detector → List ℕ
  | .status => detectStatusLowDelay
  | .extCarStatus => detectExtCarStatusLowDelay
  | .alarm => detectAlarmLowDelay

def delay (d : Detector) (index : Fin 32) : Bool → ℕ
  | true => (highDelay d).getD index 0
  | false => (lowDelay d).getD index 0

/-- The active level of a channel: high is `true`. -/
def HighValid.active (valid : HighValid) (d : Detector) (index : Fin 32) : Bool :=
  (valid.word d).getLsbD index

def IoState.bit (s : IoState) (d : Detector) (index : Fin 32) : Bool := (s.word d).getLsbD index

def Emergency (d : Detector) (index : Fin 32) : Prop := d = .alarm ∧ alarmBitEmergency = index

instance : Decidable (Emergency d index) := inferInstanceAs (Decidable (_ ∧ _))

/-- The levels that a channel was sampled at. -/
def levels (d : Detector) (index : Fin 32) (samples : List Sample) : List Bool :=
  samples.filterMap fun x => if x.detector = d ∧ x.index = index then some (1 == x.state) else none

theorem levels_of_channel {x : Sample} (hdetector : x.detector = d) (hindex : x.index = index) :
    levels d index [x] = [1 == x.state] :=
  List.filterMap_cons_some (if_pos ⟨hdetector, hindex⟩)

theorem levels_of_ne {x : Sample} (hne : ¬ (x.detector = d ∧ x.index = index)) :
    levels d index [x] = [] :=
  List.filterMap_cons_none (if_neg hne)

/-- What the emergency alarm becomes. -/
def latchBit (highValid : BitVec 32) (index : Fin 32) (word : BitVec 32) :
    Option Bool → BitVec 32
  | some level => if stateOf highValid index level = .set then writeBit word index .set else word
  | none => word

/-- The level that the sample confirms on its channel. -/
def confirms (s : IoState) (d : Detector) (index : Fin 32) (state : UInt8) : Option Bool :=
  ((s.counts d).sample (highDelay d) (lowDelay d) index state).confirmed (highDelay d)
    (lowDelay d) index

theorem stateOf_eq (highValid : BitVec 32) (index : Fin 32) (level : Bool) :
    stateOf highValid index level = if level = highValid.getLsbD index then .set else .reset := by
  cases level with
  | true => rw [stateOf, readBit_eq index.isLt]; cases highValid.getLsbD index <;> rfl
  | false => rw [stateOf, readBit_eq index.isLt]; cases highValid.getLsbD index <;> rfl

theorem getLsbD_detectBit (highValid word : BitVec 32) (index : Fin 32) (i : ℕ)
    (confirmed : Option Bool) :
    (detectBit highValid index word confirmed).getLsbD i =
      if i = index then nextBit (highValid.getLsbD index) (word.getLsbD i) confirmed
      else word.getLsbD i := by
  cases confirmed with
  | none => exact (ite_self _).symm
  | some level =>
    rw [detectBit, getLsbD_writeBit index.isLt, stateOf_eq, nextBit]
    cases level <;> cases highValid.getLsbD index <;> rfl

theorem getLsbD_latchBit (highValid word : BitVec 32) (index : Fin 32) (i : ℕ)
    (confirmed : Option Bool) :
    (latchBit highValid index word confirmed).getLsbD i =
      if i = index then nextLatch (highValid.getLsbD index) (word.getLsbD i) confirmed
      else word.getLsbD i := by
  cases confirmed with
  | none => exact (ite_self _).symm
  | some level =>
    rw [latchBit, stateOf_eq, nextLatch]
    by_cases hactive : level = highValid.getLsbD index
    · rw [if_pos hactive, if_pos rfl, getLsbD_writeBit index.isLt, hactive, beq_self_eq_true,
        Bool.or_true]
      rfl
    · rw [if_neg hactive, if_neg (by decide), beq_eq_false_iff_ne.mpr hactive, Bool.or_false,
        ite_self]

theorem ioDetectStatus_word (bbgnTestFlag bbxyTestFlag state : UInt8) :
    (ioDetectStatus valid bbgnTestFlag bbxyTestFlag index state s).word d =
      if .status = d then detectBit (valid.word d) index (s.word d) (confirms s d index state)
      else s.word d := by
  unfold ioDetectStatus ioWriteIoStatusBit
  cases d <;> dsimp only <;> split_ifs <;> first | rfl | contradiction

theorem ioDetectStatus_counts (bbgnTestFlag bbxyTestFlag state : UInt8) :
    (ioDetectStatus valid bbgnTestFlag bbxyTestFlag index state s).counts d =
      if .status = d then (s.counts d).sample (highDelay d) (lowDelay d) index state
      else s.counts d := by
  unfold ioDetectStatus ioWriteIoStatusBit
  cases d <;> dsimp only <;> split_ifs <;> first | rfl | contradiction

theorem ioDetectExtCarStatus_word (state : UInt8) :
    (ioDetectExtCarStatus valid index state s).word d =
      if .extCarStatus = d then
        detectBit (valid.word d) index (s.word d) (confirms s d index state)
      else s.word d := by
  cases d <;> rfl

theorem ioDetectExtCarStatus_counts (state : UInt8) :
    (ioDetectExtCarStatus valid index state s).counts d =
      if .extCarStatus = d then (s.counts d).sample (highDelay d) (lowDelay d) index state
      else s.counts d := by
  cases d <;> rfl

/-- The body of `Io_DetectAlarm` writes the bit as its siblings do, but for the emergency. -/
theorem ioDetectAlarm_eq (valid : HighValid) (index : Fin 32) (s : IoState) (state : UInt8) :
    ∃ framWrites, ioDetectAlarm valid index state s =
      { s with
        detectAlarm := s.detectAlarm.sample (highDelay .alarm) (lowDelay .alarm) index state
        alarm :=
          if alarmBitEmergency = index then
            latchBit valid.alarmHighValid index s.alarm (confirms s .alarm index state)
          else detectBit valid.alarmHighValid index s.alarm (confirms s .alarm index state)
        framWrites := framWrites } := by
  unfold ioDetectAlarm confirms
  dsimp only [IoState.counts, highDelay, lowDelay]
  generalize Counts.confirmed _ _ index _ = confirmed
  by_cases hemergency : alarmBitEmergency = index
  · simp only [if_pos hemergency]
    cases confirmed with
    | none => exact ⟨_, rfl⟩
    | some level =>
      cases level with
      | true => rw [latchBit, stateOf]; split_ifs <;> first | exact ⟨_, rfl⟩ | contradiction
      | false => rw [latchBit, stateOf]; split_ifs <;> first | exact ⟨_, rfl⟩ | contradiction
  · simp only [if_neg hemergency]
    cases confirmed with
    | none => exact ⟨_, rfl⟩
    | some level =>
      cases level with
      | true => rw [detectBit, stateOf]; split_ifs <;> exact ⟨_, rfl⟩
      | false => rw [detectBit, stateOf]; split_ifs <;> exact ⟨_, rfl⟩

/-- A sample counts on its own detector only. -/
theorem detect_counts (valid : HighValid) (s : IoState) (x : Sample) (d : Detector) :
    (detect valid s x).counts d =
      if x.detector = d then (s.counts d).sample (highDelay d) (lowDelay d) x.index x.state
      else s.counts d := by
  obtain ⟨detector, index, state, bbgn, bbxy⟩ := x
  cases detector with
  | status => exact ioDetectStatus_counts bbgn bbxy state
  | extCarStatus => exact ioDetectExtCarStatus_counts state
  | alarm =>
    obtain ⟨framWrites, heq⟩ := ioDetectAlarm_eq valid index s state
    rw [detect, heq]
    cases d <;> rfl

theorem detect_word (valid : HighValid) (s : IoState) (x : Sample) (d : Detector) :
    (detect valid s x).word d =
      if x.detector = d then
        if Emergency d x.index then
          latchBit (valid.word d) x.index (s.word d) (confirms s d x.index x.state)
        else detectBit (valid.word d) x.index (s.word d) (confirms s d x.index x.state)
      else s.word d := by
  obtain ⟨detector, index, state, bbgn, bbxy⟩ := x
  cases detector with
  | status =>
    rw [detect, ioDetectStatus_word]
    cases d <;> rfl
  | extCarStatus =>
    rw [detect, ioDetectExtCarStatus_word]
    cases d <;> rfl
  | alarm =>
    obtain ⟨framWrites, heq⟩ := ioDetectAlarm_eq valid index s state
    rw [detect, heq]
    cases d with
    | status => rfl
    | extCarStatus => rfl
    | alarm => simp only [if_true, Emergency, true_and]; rfl

/-- A sample writes the bit of its own channel only. -/
theorem detect_bit_of_ne {x : Sample} (hne : ¬ (x.detector = d ∧ x.index = index)) :
    (detect valid s x).bit d index = s.bit d index := by
  rw [IoState.bit, detect_word, IoState.bit]
  by_cases hdetector : x.detector = d
  · have hindex : (index : ℕ) ≠ x.index := fun h => hne ⟨hdetector, Fin.ext h.symm⟩
    rw [if_pos hdetector]
    split_ifs
    · rw [getLsbD_latchBit, if_neg hindex]
    · rw [getLsbD_detectBit, if_neg hindex]
  · rw [if_neg hdetector]

theorem detect_bit {x : Sample} (hdetector : x.detector = d) (hindex : x.index = index) :
    (detect valid s x).bit d index =
      if Emergency d index then
        nextLatch (valid.active d index) (s.bit d index) (confirms s d index x.state)
      else nextBit (valid.active d index) (s.bit d index) (confirms s d index x.state) := by
  subst hindex
  rw [IoState.bit, detect_word, if_pos hdetector]
  split_ifs
  · rw [getLsbD_latchBit, if_pos rfl, HighValid.active, IoState.bit]
  · rw [getLsbD_detectBit, if_pos rfl, HighValid.active, IoState.bit]

end Channels

section Law

variable {valid : HighValid} {s : IoState} {d : Detector} {index : Fin 32} {hist : List Bool}
  {samples : List Sample}

/-- The counters of a channel, from the levels it was sampled at. -/
structure Tracks (c : Counts) (d : Detector) (index : Fin 32) (hist : List Bool) : Prop where
  high : c.highCount index = min (delay d index true) (trailing (· == true) hist)
  low : c.lowCount index = min (delay d index false) (trailing (· == false) hist)

theorem delay_lt (d : Detector) (index : Fin 32) (level : Bool) : delay d index level < 255 := by
  revert index
  cases d <;> cases level <;> decide

/-- The counters know the end of the history, and stop at the delays. -/
theorem Tracks.sample {c : Counts} (h : Tracks c d index hist) (state : UInt8) :
    Tracks (c.sample (highDelay d) (lowDelay d) index state) d index (hist ++ [1 == state]) := by
  rw [Counts.sample]
  by_cases hstate : 1 = state
  · rw [if_pos hstate, beq_iff_eq.mpr hstate]
    constructor
    · rw [trailing_append_of_pos rfl, ← saturate_min (delay_lt d index true), ← h.high]
      exact Function.update_self ..
    · rw [trailing_append_of_neg rfl, Nat.min_zero]
      exact Function.update_self ..
  · rw [if_neg hstate, beq_eq_false_iff_ne.mpr hstate]
    constructor
    · rw [trailing_append_of_neg rfl, Nat.min_zero]
      exact Function.update_self ..
    · rw [trailing_append_of_pos rfl, ← saturate_min (delay_lt d index false), ← h.low]
      exact Function.update_self ..

theorem Tracks.sample_of_ne {c : Counts} (h : Tracks c d index hist) {index' : Fin 32}
    (hne : index ≠ index') (state : UInt8) :
    Tracks (c.sample (highDelay d) (lowDelay d) index' state) d index hist := by
  rw [Counts.sample]
  split_ifs
  · exact ⟨(Function.update_of_ne hne ..).trans h.high, (Function.update_of_ne hne ..).trans h.low⟩
  · exact ⟨(Function.update_of_ne hne ..).trans h.high, (Function.update_of_ne hne ..).trans h.low⟩

/-- The two comparisons find the run that ends the history. -/
theorem Tracks.confirms {c : Counts} (h : Tracks c d index hist)
    (hdelay : ∀ level, 0 < delay d index level) :
    Confirms (delay d index) hist (c.confirmed (highDelay d) (lowDelay d) index) := by
  have hhigh : c.highCount index ≥ (highDelay d).getD index 0 ↔
      Run (delay d index) hist true [] := by
    rw [run_nil_iff, h.high]
    exact min_eq_delay_iff _ _
  have hlow : c.lowCount index ≥ (lowDelay d).getD index 0 ↔
      Run (delay d index) hist false [] := by
    rw [run_nil_iff, h.low]
    exact min_eq_delay_iff _ _
  have hone : ¬ (Run (delay d index) hist true [] ∧ Run (delay d index) hist false []) := by
    rw [run_nil_iff, run_nil_iff]
    have htrue := hdelay true
    have hfalse := hdelay false
    rcases trailing_true_or_false hist with hnone | hnone <;> omega
  intro level
  rw [Counts.confirmed]
  split_ifs with htrue hfalse
  · cases level with
    | true => exact iff_of_true rfl (hhigh.mp htrue)
    | false => exact iff_of_false (by decide) fun hrun => hone ⟨hhigh.mp htrue, hrun⟩
  · cases level with
    | true => exact iff_of_false (by decide) fun hrun => hone ⟨hrun, hlow.mp hfalse⟩
    | false => exact iff_of_true rfl (hlow.mp hfalse)
  · cases level with
    | true => exact iff_of_false (by decide) (hhigh.not.mp htrue)
    | false => exact iff_of_false (by decide) (hlow.not.mp hfalse)

/-- What is known of a channel after some samples. -/
structure Detected (valid : HighValid) (initial : Bool) (s : IoState) (d : Detector)
    (index : Fin 32) (hist : List Bool) : Prop where
  tracks : Tracks (s.counts d) d index hist
  debounced : ¬ Emergency d index →
    Debounced (delay d index) (valid.active d index) initial hist (s.bit d index)
  latched : Emergency d index →
    Latched (delay d index) (valid.active d index) initial hist (s.bit d index)

theorem Detected.sample {initial : Bool} (h : Detected valid initial s d index hist)
    (hdelay : ∀ level, 0 < delay d index level) (x : Sample) :
    Detected valid initial (detect valid s x) d index (hist ++ levels d index [x]) := by
  by_cases hchannel : x.detector = d ∧ x.index = index
  · obtain ⟨hdetector, hindex⟩ := hchannel
    have htracks := h.tracks.sample x.state
    have hconfirms := htracks.confirms hdelay
    rw [levels_of_channel hdetector hindex]
    refine ⟨?_, fun hnormal => ?_, fun hemergency => ?_⟩
    · rwa [detect_counts, if_pos hdetector, hindex]
    · rw [detect_bit hdetector hindex, if_neg hnormal]
      exact (h.debounced hnormal).append hconfirms
    · rw [detect_bit hdetector hindex, if_pos hemergency]
      exact (h.latched hemergency).append hconfirms
  · rw [levels_of_ne hchannel, List.append_nil]
    refine ⟨?_, fun hnormal => ?_, fun hemergency => ?_⟩
    · rw [detect_counts]
      split_ifs with hdetector
      · exact h.tracks.sample_of_ne (fun heq => hchannel ⟨hdetector, heq.symm⟩) x.state
      · exact h.tracks
    · rw [detect_bit_of_ne hchannel]
      exact h.debounced hnormal
    · rw [detect_bit_of_ne hchannel]
      exact h.latched hemergency

theorem detectAll_append (valid : HighValid) (s : IoState) (samples : List Sample) (x : Sample) :
    detectAll valid s (samples ++ [x]) = detect valid (detectAll valid s samples) x := by
  rw [detectAll, List.foldl_append, List.foldl_cons, List.foldl_nil, detectAll]

/-- No sample clears the emergency alarm. -/
theorem detect_bit_emergency (hemergency : Emergency d index) (hbit : s.bit d index = true)
    (x : Sample) : (detect valid s x).bit d index = true := by
  by_cases hchannel : x.detector = d ∧ x.index = index
  · rw [detect_bit hchannel.1 hchannel.2, if_pos hemergency]
    exact nextLatch_eq_true.mpr (.inl hbit)
  · rwa [detect_bit_of_ne hchannel]

/-- Every channel that has delays is debounced, whatever the other channels do, and the
emergency alarm is debounced until it is set. -/
theorem detectAll_debounces (valid : HighValid) (s : IoState) (samples : List Sample)
    (d : Detector) (index : Fin 32) (hdelay : ∀ level, 1 ≤ delay d index level) :
    (¬ Emergency d index → Debounced (delay d index) (valid.active d index) (s.bit d index)
        (levels d index samples) ((detectAll valid s samples).bit d index)) ∧
      (Emergency d index → Latched (delay d index) (valid.active d index) (s.bit d index)
        (levels d index samples) ((detectAll valid s samples).bit d index)) ∧
      ∀ x : Sample,
        (¬ (x.detector = d ∧ x.index = index) → (detectAll valid s (samples ++ [x])).bit d index =
          (detectAll valid s samples).bit d index) ∧
        (Emergency d index → (detectAll valid s samples).bit d index = true →
          (detectAll valid s (samples ++ [x])).bit d index = true) := by
  have hdetected : Detected valid (s.bit d index) (detectAll valid s samples) d index
      (levels d index samples) := by
    induction samples using List.reverseRecOn with
    | nil =>
      refine ⟨?_, fun _ => ?_, fun _ => ?_⟩
      · cases d <;> exact ⟨(Nat.min_zero _).symm, (Nat.min_zero _).symm⟩
      · cases d <;> exact debounced_nil hdelay
      · cases d <;> exact latched_nil hdelay
    | append_singleton samples x ih =>
      rw [detectAll_append, levels, List.filterMap_append]
      exact ih.sample hdelay x
  refine ⟨hdetected.debounced, hdetected.latched, fun x => ?_⟩
  rw [detectAll_append]
  exact ⟨detect_bit_of_ne, fun hemergency hbit => detect_bit_emergency hemergency hbit x⟩

/-- Three low samples of the brake, which is active at the low level. -/
theorem detectAll_debounces_brake :
    Debounced (delay .extCarStatus 4) false false [false, false, false]
      ((detectAll ⟨0xffffffff, 0, 0⟩ .initial
        (List.replicate 3 ⟨.extCarStatus, 4, 0, 0, 0⟩)).bit .extCarStatus 4) :=
  (detectAll_debounces ⟨0xffffffff, 0, 0⟩ .initial (List.replicate 3 ⟨.extCarStatus, 4, 0, 0, 0⟩)
    .extCarStatus 4 (by decide)).1 (by decide)

end Law

end VehicleTerminal.Io
