import VehicleTerminal.Io.Words

/-! The supervision of the main power supply in `Io.c`: windows of ten samples, and two alarms
that are confirmed over fifteen windows each. -/
namespace VehicleTerminal.Io
open Debounce

section Model

def alarmCountMax : ℕ := 15

def noAlarmCountMax : ℕ := 15

def adCountMax : ℕ := 10

/-- Arithmetic of type `u32`. -/
def addU32 (a b : ℕ) : ℕ := (a + b) % 2 ^ 32

def subU32 (a b : ℕ) : ℕ := (a + 2 ^ 32 - b) % 2 ^ 32

def mulU32 (a b : ℕ) : ℕ := a * b % 2 ^ 32

/-- The part of `Io_DetectMainPower` that every sample runs through. -/
def MainPower.collect (ad : UInt16) (p : MainPower) : MainPower :=
  { p with
    adCount := (p.adCount + 1) % 256
    adMin := if p.adMin > ad.toNat then ad.toNat else p.adMin
    adMax := if p.adMax < ad.toNat then ad.toNat else p.adMax
    adSum := addU32 p.adSum ad.toNat }

/-- The mean of a window without its least and its greatest sample. -/
def MainPower.average (p : MainPower) : ℕ := subU32 (subU32 p.adSum p.adMin) p.adMax >>> 3

/-- A mean in units of 0.1 V. -/
def convertAd (mean : ℕ) : ℕ := mulU32 (mulU32 mean 33) 9 / 0xfff

def isPowerLow (powerLowMaxValue powerShutValue : UInt16) (value : ℕ) : Bool :=
  value < powerLowMaxValue.toNat ∧ value > powerShutValue.toNat

def isPowerShut (powerShutValue : UInt16) (value : ℕ) : Bool := value < powerShutValue.toNat

def countPowerLow (inRange : Bool) (p : MainPower) : MainPower :=
  if inRange then
    { p with
      lowAlarmCount := saturate alarmCountMax p.lowAlarmCount
      noLowAlarmCount := 0 }
  else
    { p with
      lowAlarmCount := 0
      noLowAlarmCount := saturate noAlarmCountMax p.noLowAlarmCount }

def countPowerShut (inRange : Bool) (p : MainPower) : MainPower :=
  if inRange then
    { p with
      shutAlarmCount := saturate alarmCountMax p.shutAlarmCount
      noShutAlarmCount := 0 }
  else
    { p with
      shutAlarmCount := 0
      noShutAlarmCount := saturate noAlarmCountMax p.noShutAlarmCount }

def writePowerLow (s : IoState) : IoState :=
  if s.mainPower.lowAlarmCount ≥ alarmCountMax then
    ioWriteAlarmBit alarmBitPowerShut .reset (ioWriteAlarmBit alarmBitPowerLow .set s)
  else if s.mainPower.noLowAlarmCount ≥ noAlarmCountMax then
    ioWriteAlarmBit alarmBitPowerLow .reset s
  else s

def writePowerShut (s : IoState) : IoState :=
  if s.mainPower.shutAlarmCount ≥ alarmCountMax then
    ioWriteAlarmBit alarmBitPowerLow .reset (ioWriteAlarmBit alarmBitPowerShut .set s)
  else if s.mainPower.noShutAlarmCount ≥ noAlarmCountMax then
    ioWriteAlarmBit alarmBitPowerShut .reset s
  else s

/-- The two alarms of a complete window, from whether its voltage is in their ranges. -/
def confirmPower (lowInRange shutInRange : Bool) (s : IoState) : IoState :=
  let s := writePowerLow { s with mainPower := countPowerLow lowInRange s.mainPower }
  writePowerShut { s with mainPower := countPowerShut shutInRange s.mainPower }

def MainPower.cleared (p : MainPower) : MainPower :=
  { p with adCount := 0, adMin := 0xffff, adMax := 0, adSum := 0 }

/-- The part of `Io_DetectMainPower` that a complete window runs through. -/
def judge (powerLowMaxValue powerShutValue : UInt16) (s : IoState) : IoState :=
  let adSum := convertAd s.mainPower.average
  let s := confirmPower (isPowerLow powerLowMaxValue powerShutValue adSum)
    (isPowerShut powerShutValue adSum) s
  { s with mainPower := s.mainPower.cleared }

def ioDetectMainPower (powerLowMaxValue powerShutValue : UInt16) (s : IoState) (ad : UInt16) :
    IoState :=
  let s := { s with mainPower := s.mainPower.collect ad }
  if s.mainPower.adCount ≥ adCountMax then judge powerLowMaxValue powerShutValue s else s

/-- The samples since the variables were initialised. -/
def supervise (powerLowMaxValue powerShutValue : UInt16) (s : IoState) (ads : List UInt16) :
    IoState :=
  ads.foldl (ioDetectMainPower powerLowMaxValue powerShutValue) { s with mainPower := .initial }

/-- The exact results of the additions, subtractions and multiplications of one call. -/
def exactResults (p : MainPower) (ad : UInt16) : List ℤ :=
  let q := p.collect ad
  [(p.adSum : ℤ) + ad.toNat] ++
    if q.adCount ≥ adCountMax then
      [(q.adSum : ℤ) - q.adMin, (subU32 q.adSum q.adMin : ℤ) - q.adMax, (q.average : ℤ) * 33,
        (mulU32 q.average 33 : ℤ) * 9]
    else []

end Model

section Alarms

variable {s : IoState} {powerLowMaxValue powerShutValue : UInt16}

def IoState.low (s : IoState) : Bool := s.alarm.getLsbD alarmBitPowerLow

def IoState.shut (s : IoState) : Bool := s.alarm.getLsbD alarmBitPowerShut

@[simp] theorem low_ioWriteAlarmBit_powerLow (state : FlagStatus) (s : IoState) :
    (ioWriteAlarmBit alarmBitPowerLow state s).low = decide (state = .set) := by
  have hbit : alarmBitPowerLow < 32 := by decide
  rw [IoState.low, ioWriteAlarmBit_eq hbit]
  exact getLsbD_writeBit_self hbit state

@[simp] theorem low_ioWriteAlarmBit_powerShut (state : FlagStatus) (s : IoState) :
    (ioWriteAlarmBit alarmBitPowerShut state s).low = s.low := by
  have hbit : alarmBitPowerShut < 32 := by decide
  rw [IoState.low, ioWriteAlarmBit_eq hbit]
  exact getLsbD_writeBit_of_ne hbit state (by decide)

@[simp] theorem shut_ioWriteAlarmBit_powerShut (state : FlagStatus) (s : IoState) :
    (ioWriteAlarmBit alarmBitPowerShut state s).shut = decide (state = .set) := by
  have hbit : alarmBitPowerShut < 32 := by decide
  rw [IoState.shut, ioWriteAlarmBit_eq hbit]
  exact getLsbD_writeBit_self hbit state

@[simp] theorem shut_ioWriteAlarmBit_powerLow (state : FlagStatus) (s : IoState) :
    (ioWriteAlarmBit alarmBitPowerLow state s).shut = s.shut := by
  have hbit : alarmBitPowerLow < 32 := by decide
  rw [IoState.shut, ioWriteAlarmBit_eq hbit]
  exact getLsbD_writeBit_of_ne hbit state (by decide)

theorem writePowerLow_low (s : IoState) :
    (writePowerLow s).low =
      if s.mainPower.lowAlarmCount ≥ alarmCountMax then true
      else if s.mainPower.noLowAlarmCount ≥ noAlarmCountMax then false else s.low := by
  rw [writePowerLow]
  split_ifs
  · simp
  · simp
  · rfl

theorem writePowerLow_shut (s : IoState) :
    (writePowerLow s).shut =
      if s.mainPower.lowAlarmCount ≥ alarmCountMax then false else s.shut := by
  rw [writePowerLow]
  split_ifs
  · simp
  · simp
  · rfl

theorem writePowerShut_shut (s : IoState) :
    (writePowerShut s).shut =
      if s.mainPower.shutAlarmCount ≥ alarmCountMax then true
      else if s.mainPower.noShutAlarmCount ≥ noAlarmCountMax then false else s.shut := by
  rw [writePowerShut]
  split_ifs
  · simp
  · simp
  · rfl

theorem writePowerShut_low (s : IoState) :
    (writePowerShut s).low =
      if s.mainPower.shutAlarmCount ≥ alarmCountMax then false else s.low := by
  rw [writePowerShut]
  split_ifs
  · simp
  · simp
  · rfl

theorem writePowerLow_mainPower (s : IoState) : (writePowerLow s).mainPower = s.mainPower := by
  rw [writePowerLow]
  split_ifs <;> rfl

theorem writePowerShut_mainPower (s : IoState) : (writePowerShut s).mainPower = s.mainPower := by
  rw [writePowerShut]
  split_ifs <;> rfl

theorem countPowerShut_low (inRange : Bool) (p : MainPower) :
    (countPowerShut inRange p).lowAlarmCount = p.lowAlarmCount ∧
      (countPowerShut inRange p).noLowAlarmCount = p.noLowAlarmCount := by
  cases inRange <;> exact ⟨rfl, rfl⟩

theorem confirmPower_mainPower (lowInRange shutInRange : Bool) (s : IoState) :
    (confirmPower lowInRange shutInRange s).mainPower =
      countPowerShut shutInRange (countPowerLow lowInRange s.mainPower) := by
  simp only [confirmPower, writePowerShut_mainPower, writePowerLow_mainPower]

/-- The power-off alarm is judged last, and goes before the low-power alarm. -/
theorem confirmPower_low (lowInRange shutInRange : Bool) (s : IoState) :
    (confirmPower lowInRange shutInRange s).low =
      let p := (confirmPower lowInRange shutInRange s).mainPower
      if p.shutAlarmCount ≥ alarmCountMax then false
      else if p.lowAlarmCount ≥ alarmCountMax then true
      else if p.noLowAlarmCount ≥ noAlarmCountMax then false else s.low := by
  dsimp only
  rw [confirmPower_mainPower, (countPowerShut_low _ _).1, (countPowerShut_low _ _).2, confirmPower,
    writePowerShut_low]
  dsimp only
  rw [writePowerLow_mainPower]
  exact congrArg (ite _ false) (writePowerLow_low _)

theorem confirmPower_shut (lowInRange shutInRange : Bool) (s : IoState) :
    (confirmPower lowInRange shutInRange s).shut =
      let p := (confirmPower lowInRange shutInRange s).mainPower
      if p.shutAlarmCount ≥ alarmCountMax then true
      else if p.noShutAlarmCount ≥ noAlarmCountMax then false
      else if p.lowAlarmCount ≥ alarmCountMax then false else s.shut := by
  dsimp only
  rw [confirmPower_mainPower, (countPowerShut_low _ _).1, confirmPower, writePowerShut_shut]
  dsimp only
  rw [writePowerLow_mainPower]
  exact congrArg (ite _ true) (congrArg (ite _ false) (writePowerLow_shut _))

end Alarms

section Window

variable {p : MainPower} {w : List ℕ}

/-- The variables that describe the window, from the samples that are in it. -/
structure MainPower.Holds (p : MainPower) (w : List ℕ) : Prop where
  count : p.adCount = w.length
  least : p.adMin = lowest 0xffff w
  greatest : p.adMax = highest w
  sum : p.adSum = w.sum

theorem sum_le_of_bounded (hbound : ∀ x ∈ w, x ≤ 0xffff) : w.sum ≤ w.length * 0xffff :=
  List.sum_le_card_nsmul w 0xffff hbound

theorem bounded_append (hbound : ∀ x ∈ w, x ≤ 0xffff) (ad : UInt16) :
    ∀ x ∈ w ++ [ad.toNat], x ≤ 0xffff := by
  intro x hx
  rcases List.mem_append.mp hx with hx | hx
  · exact hbound x hx
  · rw [List.mem_singleton.mp hx]
    exact Nat.le_of_lt_succ ad.toNat_lt

theorem MainPower.Holds.collect (h : p.Holds w) (hlength : w.length < 10)
    (hbound : ∀ x ∈ w, x ≤ 0xffff) (ad : UInt16) : (p.collect ad).Holds (w ++ [ad.toNat]) := by
  have hsum := sum_le_of_bounded hbound
  have had := ad.toNat_lt
  constructor
  · rw [MainPower.collect, h.count, List.length_append, List.length_singleton]
    exact Nat.mod_eq_of_lt (by omega)
  · rw [MainPower.collect, h.least, lowest_append]
    dsimp only
    split_ifs <;> omega
  · rw [MainPower.collect, h.greatest, highest_append]
    dsimp only
    split_ifs <;> omega
  · rw [MainPower.collect, h.sum, addU32, List.sum_append, List.sum_singleton]
    exact Nat.mod_eq_of_lt (by omega)

/-- The two subtractions stay above zero. -/
theorem lowest_add_highest_le (hlength : w.length = 10) :
    lowest 0xffff w + highest w ≤ w.sum := by
  have hsum := lowest_le_sum 0xffff (List.ne_nil_of_length_pos (by omega) : w ≠ [])
  rw [hlength] at hsum
  omega

theorem MainPower.Holds.subU32_adMin (h : p.Holds w) (hlength : w.length = 10)
    (hbound : ∀ x ∈ w, x ≤ 0xffff) : subU32 p.adSum p.adMin = w.sum - lowest 0xffff w := by
  have hle := lowest_add_highest_le hlength
  have hsum := sum_le_of_bounded hbound
  rw [subU32, h.sum, h.least]
  omega

theorem MainPower.Holds.average (h : p.Holds w) (hlength : w.length = 10)
    (hbound : ∀ x ∈ w, x ≤ 0xffff) : p.average = trimmedMean 0xffff w := by
  have hle := lowest_add_highest_le hlength
  have hsum := sum_le_of_bounded hbound
  rw [MainPower.average, h.subU32_adMin hlength hbound, h.greatest, subU32, trimmedMean,
    Nat.shiftRight_eq_div_pow]
  congr 1
  omega

theorem trimmedMean_le (hlength : w.length = 10) (hbound : ∀ x ∈ w, x ≤ 0xffff) :
    trimmedMean 0xffff w ≤ 0xffff :=
  (trimmedMean_bounds hlength hbound).2.trans
    (hbound _ (highest_mem (List.ne_nil_of_length_pos (by omega))))

/-- No operation of a call leaves the numbers below 2^32. -/
theorem MainPower.Holds.exactResults (h : p.Holds w) (hlength : w.length < 10)
    (hbound : ∀ x ∈ w, x ≤ 0xffff) (ad : UInt16) :
    ∀ v ∈ exactResults p ad, 0 ≤ v ∧ v < 2 ^ 32 := by
  have hsum := sum_le_of_bounded hbound
  have had := ad.toNat_lt
  have hnext := h.collect hlength hbound ad
  have hall := bounded_append hbound ad
  intro v hv
  rw [VehicleTerminal.Io.exactResults, List.mem_append] at hv
  rcases hv with hv | hv
  · rw [List.mem_singleton.mp hv, h.sum]
    omega
  · split_ifs at hv with hfull
    · have hten : (w ++ [ad.toNat]).length = 10 := by
        rw [ge_iff_le, hnext.count, adCountMax, List.length_append, List.length_singleton] at hfull
        rw [List.length_append, List.length_singleton]
        omega
      have hle := lowest_add_highest_le hten
      have hmean := trimmedMean_le hten hall
      have htotal := sum_le_of_bounded hall
      rw [hten] at htotal
      simp only [List.mem_cons, List.not_mem_nil, or_false] at hv
      rcases hv with rfl | rfl | rfl | rfl
      · rw [hnext.sum, hnext.least]
        omega
      · rw [hnext.subU32_adMin hten hall, hnext.greatest]
        omega
      · rw [hnext.average hten hall]
        omega
      · rw [hnext.average hten hall, mulU32, Nat.mod_eq_of_lt (by omega)]
        omega
    · exact absurd hv List.not_mem_nil

/-- The voltage of a window in units of 0.1 V. -/
def voltage (w : List ℕ) : ℕ := trimmedMean 0xffff w * 33 * 9 / 0xfff

theorem MainPower.Holds.convertAd (h : p.Holds w) (hlength : w.length = 10)
    (hbound : ∀ x ∈ w, x ≤ 0xffff) : convertAd p.average = voltage w := by
  have hmean := trimmedMean_le hlength hbound
  rw [VehicleTerminal.Io.convertAd, h.average hlength hbound, mulU32, mulU32, voltage,
    Nat.mod_eq_of_lt (by omega : trimmedMean 0xffff w * 33 < 2 ^ 32),
    Nat.mod_eq_of_lt (by omega : trimmedMean 0xffff w * 33 * 9 < 2 ^ 32)]

end Window

section Supervision

variable {p : MainPower} {s : IoState} {powerLowMaxValue powerShutValue : UInt16}
  {ads : List UInt16} {ws : List (List ℕ)} {w : List ℕ}

/-- The samples as numbers. -/
def readings (ads : List UInt16) : List ℕ := ads.map UInt16.toNat

def lowWindow (powerLowMaxValue powerShutValue : UInt16) (w : List ℕ) : Bool :=
  isPowerLow powerLowMaxValue powerShutValue (voltage w)

def shutWindow (powerShutValue : UInt16) (w : List ℕ) : Bool :=
  isPowerShut powerShutValue (voltage w)

/-- The confirmation counters, from the complete windows. -/
structure MainPower.Confirms (powerLowMaxValue powerShutValue : UInt16) (p : MainPower)
    (ws : List (List ℕ)) : Prop where
  low : p.lowAlarmCount = min 15 (trailing (lowWindow powerLowMaxValue powerShutValue) ws)
  noLow : p.noLowAlarmCount =
    min 15 (trailing (fun w => !lowWindow powerLowMaxValue powerShutValue w) ws)
  shut : p.shutAlarmCount = min 15 (trailing (shutWindow powerShutValue) ws)
  noShut : p.noShutAlarmCount = min 15 (trailing (fun w => !shutWindow powerShutValue w) ws)

/-- A counter of windows counts the last ones that have its property. -/
theorem saturate_trailing {q : List ℕ → Bool} {n : ℕ} (h : n = min 15 (trailing q ws))
    (w : List ℕ) : (if q w then saturate 15 n else 0) = min 15 (trailing q (ws ++ [w])) := by
  cases hq : q w with
  | true =>
    rw [if_pos rfl, h, saturate_min (by decide), trailing_append_of_pos hq]
  | false =>
    rw [if_neg Bool.false_ne_true, trailing_append_of_neg hq]
    rfl

theorem endsWith_of_count {q : List ℕ → Bool} {n : ℕ} (h : n = min 15 (trailing q ws))
    (hfull : n ≥ 15) : EndsWith 15 q ws :=
  le_trailing_iff.mp ((min_eq_delay_iff 15 _).mp (h ▸ hfull))

theorem MainPower.Confirms.append (h : p.Confirms powerLowMaxValue powerShutValue ws)
    (w : List ℕ) :
    (countPowerShut (shutWindow powerShutValue w)
      (countPowerLow (lowWindow powerLowMaxValue powerShutValue w) p)).Confirms powerLowMaxValue
        powerShutValue (ws ++ [w]) := by
  constructor
  · rw [← saturate_trailing h.low]
    cases lowWindow powerLowMaxValue powerShutValue w <;> cases shutWindow powerShutValue w <;> rfl
  · rw [← saturate_trailing h.noLow]
    cases lowWindow powerLowMaxValue powerShutValue w <;> cases shutWindow powerShutValue w <;> rfl
  · rw [← saturate_trailing h.shut]
    cases lowWindow powerLowMaxValue powerShutValue w <;> cases shutWindow powerShutValue w <;> rfl
  · rw [← saturate_trailing h.noShut]
    cases lowWindow powerLowMaxValue powerShutValue w <;> cases shutWindow powerShutValue w <;> rfl

/-- What fifteen equal windows allow the alarm bits to do. -/
structure Justified (lowRange shutRange : List ℕ → Bool) (ws : List (List ℕ))
    (before after : IoState) : Prop where
  lowSet : before.low = false → after.low = true → EndsWith 15 lowRange ws
  lowCleared : before.low = true → after.low = false →
    EndsWith 15 (fun w => !lowRange w) ws ∨ (before.shut = false ∧ after.shut = true)
  shutSet : before.shut = false → after.shut = true → EndsWith 15 shutRange ws
  shutCleared : before.shut = true → after.shut = false →
    EndsWith 15 (fun w => !shutRange w) ws ∨ (before.low = false ∧ after.low = true)

theorem justified_of_eq {lowRange shutRange : List ℕ → Bool} {before after : IoState}
    (hlow : after.low = before.low) (hshut : after.shut = before.shut) :
    Justified lowRange shutRange ws before after := by
  constructor
  · intro hbefore hafter
    exact absurd (hafter.symm.trans (hlow.trans hbefore)) (by decide)
  · intro hbefore hafter
    exact absurd (hafter.symm.trans (hlow.trans hbefore)) (by decide)
  · intro hbefore hafter
    exact absurd (hafter.symm.trans (hshut.trans hbefore)) (by decide)
  · intro hbefore hafter
    exact absurd (hafter.symm.trans (hshut.trans hbefore)) (by decide)

/-- Every change of an alarm bit has a counter at its end. -/
theorem confirmPower_justified {lowInRange shutInRange : Bool} (hexclusive : ¬ (s.low ∧ s.shut))
    (hcounts : (confirmPower lowInRange shutInRange s).mainPower.Confirms powerLowMaxValue
      powerShutValue ws) :
    Justified (lowWindow powerLowMaxValue powerShutValue) (shutWindow powerShutValue) ws s
        (confirmPower lowInRange shutInRange s) ∧
      ¬ ((confirmPower lowInRange shutInRange s).low ∧
        (confirmPower lowInRange shutInRange s).shut) := by
  have hlow := confirmPower_low lowInRange shutInRange s
  have hshut := confirmPower_shut lowInRange shutInRange s
  dsimp only at hlow hshut
  generalize confirmPower lowInRange shutInRange s = after at hcounts hlow hshut ⊢
  have hlowRun := endsWith_of_count hcounts.low
  have hnoLowRun := endsWith_of_count hcounts.noLow
  have hshutRun := endsWith_of_count hcounts.shut
  have hnoShutRun := endsWith_of_count hcounts.noShut
  by_cases hs : after.mainPower.shutAlarmCount ≥ alarmCountMax
  · rw [if_pos hs] at hlow hshut
    refine ⟨⟨?_, ?_, ?_, ?_⟩, ?_⟩
    · simp [hlow]
    · intro hbefore _
      exact .inr ⟨by simpa [hbefore] using hexclusive, hshut⟩
    · exact fun _ _ => hshutRun hs
    · simp [hshut]
    · simp [hlow]
  · rw [if_neg hs] at hlow hshut
    by_cases hl : after.mainPower.lowAlarmCount ≥ alarmCountMax
    · rw [if_pos hl] at hlow hshut
      rw [ite_self] at hshut
      refine ⟨⟨?_, ?_, ?_, ?_⟩, ?_⟩
      · exact fun _ _ => hlowRun hl
      · simp [hlow]
      · simp [hshut]
      · intro hbefore _
        exact .inr ⟨by simpa [hbefore] using hexclusive, hlow⟩
      · simp [hshut]
    · rw [if_neg hl] at hlow hshut
      refine ⟨⟨?_, ?_, ?_, ?_⟩, ?_⟩
      · intro hbefore hafter
        rw [hlow, hbefore, ite_self] at hafter
        exact absurd hafter Bool.false_ne_true
      · intro hbefore hafter
        rw [hlow, hbefore] at hafter
        exact .inl (hnoLowRun (by simpa [noAlarmCountMax] using hafter))
      · intro hbefore hafter
        rw [hshut, hbefore, ite_self] at hafter
        exact absurd hafter Bool.false_ne_true
      · intro hbefore hafter
        rw [hshut, hbefore] at hafter
        exact .inl (hnoShutRun (by simpa [noAlarmCountMax] using hafter))
      · rw [hlow, hshut]
        split_ifs <;> simp [hexclusive]

/-- The state that the samples lead to. -/
structure Supervised (powerLowMaxValue powerShutValue : UInt16) (s : IoState)
    (ads : List UInt16) : Prop where
  holds : s.mainPower.Holds (pending 10 (readings ads))
  confirms : s.mainPower.Confirms powerLowMaxValue powerShutValue (windows 10 (readings ads))
  exclusive : ¬ (s.low ∧ s.shut)

theorem readings_le (ads : List UInt16) : ∀ x ∈ readings ads, x ≤ 0xffff := by
  intro x hx
  obtain ⟨ad, -, rfl⟩ := List.mem_map.mp hx
  exact Nat.le_of_lt_succ ad.toNat_lt

theorem pending_readings_le (ads : List UInt16) : ∀ x ∈ pending 10 (readings ads), x ≤ 0xffff :=
  fun x hx => readings_le ads x (mem_of_mem_pending hx)

theorem length_pending_readings (ads : List UInt16) :
    (pending 10 (readings ads)).length = ads.length % 10 := by
  rw [length_pending, readings, List.length_map]

theorem readings_append (ads : List UInt16) (ad : UInt16) :
    readings (ads ++ [ad]) = readings ads ++ [ad.toNat] := List.map_append

theorem MainPower.Holds.cleared (p : MainPower) : p.cleared.Holds [] :=
  ⟨rfl, rfl, rfl, rfl⟩

/-- A complete window is counted, and its variables start again. -/
theorem judge_supervised (hholds : s.mainPower.Holds w) (hlength : w.length = 10)
    (hbound : ∀ x ∈ w, x ≤ 0xffff)
    (hconfirms : s.mainPower.Confirms powerLowMaxValue powerShutValue ws)
    (hexclusive : ¬ (s.low ∧ s.shut)) :
    (judge powerLowMaxValue powerShutValue s).mainPower.Holds [] ∧
      (judge powerLowMaxValue powerShutValue s).mainPower.Confirms powerLowMaxValue powerShutValue
        (ws ++ [w]) ∧
      ¬ ((judge powerLowMaxValue powerShutValue s).low ∧
        (judge powerLowMaxValue powerShutValue s).shut) ∧
      Justified (lowWindow powerLowMaxValue powerShutValue) (shutWindow powerShutValue) (ws ++ [w])
        s (judge powerLowMaxValue powerShutValue s) := by
  have hcounts : (confirmPower (lowWindow powerLowMaxValue powerShutValue w)
      (shutWindow powerShutValue w) s).mainPower.Confirms powerLowMaxValue powerShutValue
        (ws ++ [w]) := by
    rw [confirmPower_mainPower]
    exact hconfirms.append w
  obtain ⟨hjustified, hafter⟩ := confirmPower_justified hexclusive hcounts
  rw [judge, hholds.convertAd hlength hbound, ← lowWindow, ← shutWindow]
  refine ⟨.cleared _, ?_, hafter, ?_⟩
  · exact ⟨hcounts.low, hcounts.noLow, hcounts.shut, hcounts.noShut⟩
  · exact ⟨hjustified.lowSet, hjustified.lowCleared, hjustified.shutSet, hjustified.shutCleared⟩

/-- One sample: it waits in its window, or the window is judged. -/
theorem Supervised.sample (h : Supervised powerLowMaxValue powerShutValue s ads) (ad : UInt16) :
    Supervised powerLowMaxValue powerShutValue
        (ioDetectMainPower powerLowMaxValue powerShutValue s ad) (ads ++ [ad]) ∧
      Justified (lowWindow powerLowMaxValue powerShutValue) (shutWindow powerShutValue)
        (windows 10 (readings (ads ++ [ad]))) s
        (ioDetectMainPower powerLowMaxValue powerShutValue s ad) := by
  have hlength := length_pending_readings ads
  have hbound := pending_readings_le ads
  have hcollect := h.holds.collect (by omega) hbound ad
  have hcount := hcollect.count
  have hnext : (pending 10 (readings ads) ++ [ad.toNat]).length = ads.length % 10 + 1 := by
    rw [List.length_append, List.length_singleton, hlength]
  have hreadings : (readings ads).length = ads.length := List.length_map ..
  have hsame : (s.mainPower.collect ad).Confirms powerLowMaxValue powerShutValue
      (windows 10 (readings ads)) :=
    ⟨h.confirms.low, h.confirms.noLow, h.confirms.shut, h.confirms.noShut⟩
  rw [ioDetectMainPower]
  dsimp only
  rw [hnext] at hcount
  by_cases hfull : (s.mainPower.collect ad).adCount ≥ adCountMax
  · rw [if_pos hfull]
    rw [ge_iff_le, hcount, adCountMax] at hfull
    have hten : (readings ads).length % 10 + 1 = 10 := by
      rw [hreadings]
      omega
    obtain ⟨hwindows, hpending⟩ := windows_append_of_eq (x := ad.toNat) hten
    obtain ⟨hstart, hconfirms, hexclusive, hjustified⟩ :=
      judge_supervised (s := { s with mainPower := s.mainPower.collect ad }) hcollect
        (by omega) (bounded_append hbound ad) hsame h.exclusive
    rw [← readings_append] at hwindows hpending
    refine ⟨⟨?_, ?_, hexclusive⟩, ?_⟩
    · rwa [hpending]
    · rwa [hwindows]
    · rw [hwindows]
      exact ⟨hjustified.lowSet, hjustified.lowCleared, hjustified.shutSet, hjustified.shutCleared⟩
  · rw [if_neg hfull]
    rw [ge_iff_le, hcount, adCountMax] at hfull
    have hfew : (readings ads).length % 10 + 1 < 10 := by
      rw [hreadings]
      omega
    obtain ⟨hwindows, hpending⟩ := windows_append_of_lt (x := ad.toNat) hfew
    rw [← readings_append] at hwindows hpending
    refine ⟨⟨?_, ?_, h.exclusive⟩, justified_of_eq rfl rfl⟩
    · rwa [hpending]
    · rwa [hwindows]

theorem supervise_append (powerLowMaxValue powerShutValue : UInt16) (s : IoState)
    (ads : List UInt16) (ad : UInt16) :
    supervise powerLowMaxValue powerShutValue s (ads ++ [ad]) =
      ioDetectMainPower powerLowMaxValue powerShutValue
        (supervise powerLowMaxValue powerShutValue s ads) ad := by
  rw [supervise, List.foldl_append, List.foldl_cons, List.foldl_nil, supervise]

theorem supervised_supervise (powerLowMaxValue powerShutValue : UInt16)
    (hexclusive : ¬ (s.low ∧ s.shut)) (ads : List UInt16) :
    Supervised powerLowMaxValue powerShutValue
      (supervise powerLowMaxValue powerShutValue s ads) ads := by
  induction ads using List.reverseRecOn with
  | nil => exact ⟨⟨rfl, rfl, rfl, rfl⟩, ⟨rfl, rfl, rfl, rfl⟩, hexclusive⟩
  | append_singleton ads ad ih =>
    rw [supervise_append]
    exact (ih.sample ad).1

/-- The alarms of the main power exclude each other, and change only behind fifteen windows; the
mean of a window is between its samples, and no calculation overflows. -/
theorem supervise_confirms (powerLowMaxValue powerShutValue : UInt16) (s : IoState)
    (hexclusive : ¬ (s.low ∧ s.shut)) (ads : List UInt16) (ad : UInt16) :
    ¬ ((supervise powerLowMaxValue powerShutValue s ads).low ∧
        (supervise powerLowMaxValue powerShutValue s ads).shut) ∧
      Justified (lowWindow powerLowMaxValue powerShutValue) (shutWindow powerShutValue)
        (windows 10 (readings (ads ++ [ad]))) (supervise powerLowMaxValue powerShutValue s ads)
        (supervise powerLowMaxValue powerShutValue s (ads ++ [ad])) ∧
      (10 ∣ ads.length + 1 → ∃ front w, windows 10 (readings (ads ++ [ad])) = front ++ [w] ∧
        lowest 0xffff w ≤
          ((supervise powerLowMaxValue powerShutValue s ads).mainPower.collect ad).average ∧
        ((supervise powerLowMaxValue powerShutValue s ads).mainPower.collect ad).average ≤
          highest w) ∧
      ∀ v ∈ exactResults (supervise powerLowMaxValue powerShutValue s ads).mainPower ad,
        0 ≤ v ∧ v < 2 ^ 32 := by
  have hsupervised := supervised_supervise powerLowMaxValue powerShutValue hexclusive ads
  have hlength := length_pending_readings ads
  have hbound := pending_readings_le ads
  refine ⟨hsupervised.exclusive, ?_, fun hfull => ?_,
    hsupervised.holds.exactResults (by omega) hbound ad⟩
  · rw [supervise_append]
    exact (hsupervised.sample ad).2
  · have hten : (readings ads).length % 10 + 1 = 10 := by
      rw [readings, List.length_map]
      omega
    have hfill : (pending 10 (readings ads) ++ [ad.toNat]).length = 10 := by
      rw [List.length_append, List.length_singleton, hlength]
      omega
    have hall := bounded_append hbound ad
    have hcollect := hsupervised.holds.collect (by omega) hbound ad
    refine ⟨windows 10 (readings ads), pending 10 (readings ads) ++ [ad.toNat], ?_, ?_⟩
    · rw [readings_append]
      exact (windows_append_of_eq hten).1
    · rw [hcollect.average hfill hall]
      exact trimmedMean_bounds hfill hall

/-- Fifteen windows of 14.5 V under a limit of 22 V: the last sample of the last one sets the
low-power alarm. -/
theorem supervise_confirms_low :
    (supervise 220 50 .initial (List.replicate 149 2000)).low = false ∧
      (supervise 220 50 .initial (List.replicate 149 2000 ++ [2000])).low = true ∧
      ¬ ((supervise 220 50 .initial (List.replicate 149 2000)).low ∧
        (supervise 220 50 .initial (List.replicate 149 2000)).shut) ∧
      Justified (lowWindow 220 50) (shutWindow 50)
        (windows 10 (readings (List.replicate 149 2000 ++ [2000])))
        (supervise 220 50 .initial (List.replicate 149 2000))
        (supervise 220 50 .initial (List.replicate 149 2000 ++ [2000])) ∧
      (10 ∣ (List.replicate 149 (2000 : UInt16)).length + 1 → ∃ front w,
        windows 10 (readings (List.replicate 149 2000 ++ [2000])) = front ++ [w] ∧
        lowest 0xffff w ≤
          ((supervise 220 50 .initial (List.replicate 149 2000)).mainPower.collect 2000).average ∧
        ((supervise 220 50 .initial (List.replicate 149 2000)).mainPower.collect 2000).average ≤
          highest w) ∧
      ∀ v ∈ exactResults (supervise 220 50 .initial (List.replicate 149 2000)).mainPower 2000,
        0 ≤ v ∧ v < 2 ^ 32 :=
  ⟨by decide +kernel, by decide +kernel,
    supervise_confirms 220 50 .initial (by decide) (List.replicate 149 2000) 2000⟩

end Supervision

end VehicleTerminal.Io
