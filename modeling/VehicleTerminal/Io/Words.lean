import VehicleTerminal.Library.Debounce

/-! The status and alarm words of `Io.c`, and the static variables of the functions that write
them. -/
namespace VehicleTerminal.Io
open Debounce

section Bits

variable {w : ℕ} {word : BitVec w} {bit i : ℕ}

inductive FlagStatus
  | reset
  | set
  deriving DecidableEq, Repr

/-- `word |= 1<<bit` and `word &= ~(1<<bit)`. -/
def writeBit (word : BitVec w) (bit : ℕ) : FlagStatus → BitVec w
  | .set => word ||| 1#w <<< bit
  | .reset => word &&& ~~~(1#w <<< bit)

/-- `(word & (1<<bit)) >> bit`. -/
def readBit (word : BitVec w) (bit : ℕ) : BitVec w := (word &&& 1#w <<< bit) >>> bit

theorem getLsbD_one_shiftLeft (hbit : bit < w) (i : ℕ) :
    (1#w <<< bit).getLsbD i = decide (bit = i) := by
  rw [← BitVec.twoPow_eq, BitVec.getLsbD_twoPow, decide_eq_true hbit, Bool.true_and]

/-- A write changes its own bit only. -/
theorem getLsbD_writeBit (hbit : bit < w) (state : FlagStatus) (i : ℕ) :
    (writeBit word bit state).getLsbD i =
      if i = bit then decide (state = .set) else word.getLsbD i := by
  cases state with
  | set =>
    rw [writeBit, BitVec.getLsbD_or, getLsbD_one_shiftLeft hbit]
    split_ifs with hi
    · simp [hi]
    · simp [Ne.symm hi]
  | reset =>
    rw [writeBit, BitVec.getLsbD_and, BitVec.getLsbD_not, getLsbD_one_shiftLeft hbit]
    split_ifs with hi
    · simp [hi]
    · by_cases hlt : i < w
      · simp [Ne.symm hi, hlt]
      · simp [BitVec.getLsbD_of_ge word i (Nat.le_of_not_lt hlt)]

theorem getLsbD_writeBit_self (hbit : bit < w) (state : FlagStatus) :
    (writeBit word bit state).getLsbD bit = decide (state = .set) := by
  rw [getLsbD_writeBit hbit, if_pos rfl]

theorem getLsbD_writeBit_of_ne (hbit : bit < w) (state : FlagStatus) (hi : i ≠ bit) :
    (writeBit word bit state).getLsbD i = word.getLsbD i := by
  rw [getLsbD_writeBit hbit, if_neg hi]

theorem readBit_eq (hbit : bit < w) (word : BitVec w) :
    readBit word bit = if word.getLsbD bit then 1#w else 0#w := by
  rw [readBit, ← BitVec.twoPow_eq, BitVec.and_twoPow]
  split_ifs with hset
  · apply BitVec.eq_of_toNat_eq
    rw [BitVec.toNat_ushiftRight, BitVec.toNat_twoPow_of_lt hbit, Nat.shiftRight_eq_div_pow,
      Nat.div_self (Nat.two_pow_pos bit), BitVec.toNat_ofNat,
      Nat.mod_eq_of_lt (Nat.one_lt_two_pow (by omega))]
  · exact BitVec.zero_ushiftRight

end Bits

section Counter

/-- A counter of type `u8` that is incremented and stays at its delay. -/
def saturate (delay count : ℕ) : ℕ :=
  let count := (count + 1) % 256
  if count ≥ delay then delay else count

theorem saturate_min {delay : ℕ} (hdelay : delay < 255) (n : ℕ) :
    saturate delay (min delay n) = min delay (n + 1) := by
  rw [saturate, Nat.mod_eq_of_lt (by omega)]
  exact countUp_min delay n

end Counter

section State

/-- The static counters of one of the input detectors. -/
structure Counts where
  highCount : Fin 32 → ℕ
  lowCount : Fin 32 → ℕ

/-- The static variables of `Io_DetectMainPower`. -/
structure MainPower where
  lowAlarmCount : ℕ
  noLowAlarmCount : ℕ
  shutAlarmCount : ℕ
  noShutAlarmCount : ℕ
  adSum : ℕ
  adMin : ℕ
  adMax : ℕ
  adCount : ℕ
  deriving DecidableEq, Repr

/-- `framWrites` are the blocks handed to `FRAM_BufferWrite`, with their addresses. -/
structure IoState where
  status : BitVec 32
  alarm : BitVec 32
  extCarStatus : BitVec 32
  ioStatus : BitVec 32
  overSpeedControl : BitVec 8
  overtimeControl : BitVec 8
  preOvertimeControl : BitVec 8
  detectStatus : Counts
  detectExtCarStatus : Counts
  detectAlarm : Counts
  mainPower : MainPower
  framWrites : List (ℕ × List UInt8)

def Counts.cleared : Counts := ⟨fun _ => 0, fun _ => 0⟩

def MainPower.initial : MainPower := ⟨0, 0, 0, 0, 0, 0xffff, 0, 0⟩

/-- The variables as they are initialised. -/
def IoState.initial : IoState :=
  ⟨0, 0, 0, 0, 0, 0, 0, .cleared, .cleared, .cleared, .initial, []⟩

end State

section Alarm

def alarmBitEmergency : ℕ := 0

def alarmBitOverSpeed : ℕ := 1

def alarmBitTiredDrive : ℕ := 2

def alarmBitPowerLow : ℕ := 7

def alarmBitPowerShut : ℕ := 8

def alarmBitTiredDrivePreAlarm : ℕ := 14

def framEmergencyFlagAddr : ℕ := 75

def ioWriteAlarmBit (bit : ℕ) (state : FlagStatus) (s : IoState) : IoState :=
  if bit < 32 then { s with alarm := writeBit s.alarm bit state } else s

def ioClearAlarmWord (s : IoState) : IoState :=
  { s with alarm := 0, framWrites := s.framWrites ++ [(framEmergencyFlagAddr, [0])] }

theorem ioWriteAlarmBit_eq {bit : ℕ} (hbit : bit < 32) (state : FlagStatus) (s : IoState) :
    ioWriteAlarmBit bit state s = { s with alarm := writeBit s.alarm bit state } :=
  if_pos hbit

end Alarm

end VehicleTerminal.Io
