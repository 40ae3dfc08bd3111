import VehicleTerminal.Public.Decimal

/-! The BCD bytes of a time in `Public.c`. The text is converted with its length in characters for
the number of pairs, so the conversion goes on behind the array that holds the text. -/
namespace VehicleTerminal.Public
open BlockMemory CString E2ParamApp Printf

section Model

/-- The fields in the order of the format `%02d%02d%02d%02d%02d%02d`. -/
def timeFields (stTime : TimeT) : List ℤ :=
  [stTime.year, stTime.month, stTime.day, stTime.hour, stTime.min, stTime.sec]

/-- The body of both conversions, with what the format has in front of the fields, and the number
of bytes that are copied. The arrays may be of any length. -/
def timeToBCD (front : List UInt8) (count : ℕ) (stTime : TimeT)
    (buffer buffer1 data : List UInt8) : Option (List UInt8) :=
  (sprintf buffer (front ++ (timeFields stTime).flatMap (zeroPadded 2))).bind fun buffer =>
    (strlen buffer).bind fun len =>
      (publicConvertAscToBCD buffer1 buffer (UInt8.ofNat len)).bind fun buffer1 =>
        copyIn data 0 buffer1 count

def publicConvertTimeToBCD : TimeT → List UInt8 → List UInt8 → List UInt8 →
    Option (List UInt8) := timeToBCD (ascii "20") 7

def publicConvertTimeToBCDEx : TimeT → List UInt8 → List UInt8 → List UInt8 →
    Option (List UInt8) := timeToBCD [] 6

end Model

section Text

theorem flatMap_zeroPadded {fields : List ℕ} (h : ∀ n ∈ fields, n < 100) :
    (fields.map Nat.cast).flatMap (zeroPadded 2) = fields.flatMap (digits 2) := by
  induction fields with
  | nil => rfl
  | cons n fields ih =>
    have hn : n < 10 ^ 2 := h n List.mem_cons_self
    rw [List.map_cons, List.flatMap_cons, List.flatMap_cons, zeroPadded_natCast two_pos hn,
      ih fun m hm => h m (List.mem_cons_of_mem n hm)]

theorem packed_fields {fields : List ℕ} (h : ∀ n ∈ fields, n < 100) :
    packed (fields.flatMap (digits 2)) = fields.map bcdByte := by
  induction fields with
  | nil => rfl
  | cons n fields ih =>
    have hn : n < 100 := h n List.mem_cons_self
    rw [List.flatMap_cons, packed_append (digits_length (2 * 1) n),
      ih fun m hm => h m (List.mem_cons_of_mem n hm), packed_digits 1 n, bcdDigits, bcdDigits,
      Nat.mod_eq_of_lt hn]
    rfl

/-- The text of an accepted time: twelve digits, two for each BCD byte. -/
theorem exists_timeText {stTime : TimeT} (h : checkTimeStruct stTime = true) :
    ∃ text, (timeFields stTime).flatMap (zeroPadded 2) = text ∧ text.length = 12 ∧ 0 ∉ text ∧
      packed text = E2ParamApp.publicConvertTimeToBCDEx stTime := by
  obtain ⟨year, month, day, hour, min, sec, rfl, hyear, hmonth, hday, hhour, hmin, hsec⟩ :=
    exists_fields h
  have hfields : ∀ n ∈ [year, month, day, hour, min, sec], n < 100 := by
    simp only [List.forall_mem_cons]
    exact ⟨hyear, hmonth, hday, hhour, hmin, hsec, List.forall_mem_nil _⟩
  refine ⟨[year, month, day, hour, min, sec].flatMap (digits 2), flatMap_zeroPadded hfields, ?_,
    ?_, ?_⟩
  · exact BlockLoop.length_flatMap (digits_length 2) _
  · intro hzero
    obtain ⟨n, -, hmem⟩ := List.mem_flatMap.mp hzero
    exact zero_notMem_digits 2 n hmem
  · rw [packed_fields hfields, convertTimeToBCDEx_eq hyear hmonth hday hhour hmin hsec]
    rfl

end Text

section Convert

variable {front buffer buffer1 data : List UInt8} {stTime : TimeT} {k : ℕ}

/-- What the conversion does once the text is printed. -/
theorem timeToBCD_printed (h : checkTimeStruct stTime = true) (hfront : 0 ∉ front)
    (hroom : front.length + 12 < buffer.length) (buffer1 data : List UInt8) (count : ℕ) :
    ∃ text, text.length = 12 ∧ packed text = E2ParamApp.publicConvertTimeToBCDEx stTime ∧
      timeToBCD front count stTime buffer buffer1 data =
        (publicConvertAscToBCD buffer1 (blit buffer 0 (front ++ text ++ [0]))
          (UInt8.ofNat (front.length + 12))).bind fun buffer1 => copyIn data 0 buffer1 count := by
  obtain ⟨text, htext, hlength, hnul, hpacked⟩ := exists_timeText h
  have hwhole : (front ++ text).length = front.length + 12 := by
    rw [List.length_append, hlength]
  have hterminated : 0 ∉ front ++ text := by
    rw [List.mem_append]
    exact not_or.mpr ⟨hfront, hnul⟩
  refine ⟨text, hlength, hpacked, ?_⟩
  rw [timeToBCD, htext, sprintf_of_lt (by omega), Option.bind_some, strlen_sprintf hterminated,
    Option.bind_some, hwhole]

/-- In an array with room for twice the text the bytes are those of the fields. -/
theorem timeToBCD_eq (h : checkTimeStruct stTime = true) (hfront : 0 ∉ front)
    (hlength : front.length = 2 * k) (hk : k ≤ 1) (hbuffer : 2 * (2 * k + 12) ≤ buffer.length)
    (hbuffer1 : 2 * k + 12 ≤ buffer1.length) (hdata : k + 6 ≤ data.length) :
    timeToBCD front (k + 6) stTime buffer buffer1 data =
      some (blit data 0 (packed front ++ E2ParamApp.publicConvertTimeToBCDEx stTime)) := by
  obtain ⟨text, htext, hpacked, hconvert⟩ := timeToBCD_printed h hfront
    (by omega : front.length + 12 < buffer.length) buffer1 data (k + 6)
  have hlen : (UInt8.ofNat (front.length + 12)).toNat = front.length + 12 :=
    toNat_ofNat_of_le (by omega)
  have hwhole : (front ++ text).length = 2 * (k + 6) := by
    rw [List.length_append]
    omega
  rw [hconvert, convert_printed (by omega) hwhole.ge (by omega) (by omega) (by omega) hdata,
    ← hwhole, List.take_length, packed_append hlength, hpacked]

/-- A shorter array is written or read behind its end. -/
theorem timeToBCD_eq_none (h : checkTimeStruct stTime = true) (hfront : 0 ∉ front)
    (hlength : front.length ≤ 2) (hbuffer : buffer.length < 2 * (front.length + 12)) (count : ℕ) :
    timeToBCD front count stTime buffer buffer1 data = none := by
  rcases lt_or_ge (front.length + 12) buffer.length with hroom | hshort
  · obtain ⟨text, htext, -, hconvert⟩ := timeToBCD_printed h hfront hroom buffer1 data count
    have hlen : (UInt8.ofNat (front.length + 12)).toNat = front.length + 12 :=
      toNat_ofNat_of_le (by omega)
    have hterminated : (front ++ text ++ [0]).length = front.length + 13 := by
      rw [List.length_append, List.length_append, htext]
      rfl
    have hprinted : (blit buffer 0 (front ++ text ++ [0])).length = buffer.length :=
      blit_length _ _ _ (by omega)
    rw [hconvert, convertAscToBCD_eq_none (by omega), Option.bind_none]
  · obtain ⟨text, htext, hlength, -⟩ := exists_timeText h
    have hwhole : buffer.length ≤ (front ++ text).length := by
      rw [List.length_append, hlength]
      exact hshort
    rw [timeToBCD, htext, sprintf_eq_none hwhole, Option.bind_none]

end Convert

section Inside

/-- With arrays of `size` characters both are accessed inside their bounds, and `k + 6` bytes are
written: the front, and the digits of the fields. -/
def WritesBCD (front : List UInt8) (k size : ℕ) (stTime : TimeT) : Prop :=
  ∀ buffer buffer1 data : List UInt8, buffer.length = size → buffer1.length = size →
    k + 6 ≤ data.length → timeToBCD front (k + 6) stTime buffer buffer1 data =
      some (blit data 0 (packed front ++ E2ParamApp.publicConvertTimeToBCDEx stTime))

variable {stTime : TimeT}

theorem writesBCD_iff (front : List UInt8) (k : ℕ) (h : checkTimeStruct stTime = true)
    (hfront : 0 ∉ front) (hlength : front.length = 2 * k) (hk : k ≤ 1) (size : ℕ) :
    WritesBCD front k size stTime ↔ 4 * k + 24 ≤ size := by
  constructor
  · intro hwrites
    by_contra hshort
    have hwritten := hwrites (List.replicate size 0) (List.replicate size 0)
      (List.replicate (k + 6) 0) List.length_replicate List.length_replicate
      List.length_replicate.ge
    rw [timeToBCD_eq_none h hfront (by omega) (by rw [List.length_replicate]; omega)] at hwritten
    cases hwritten
  · intro hsize buffer buffer1 data hbuffer hbuffer1 hdata
    exact timeToBCD_eq h hfront hlength hk (by omega) (by omega) hdata

/-- `Public_ConvertTimeToBCD` with local arrays of `size` bytes: no access outside them, and seven
bytes are written, 0x20 and the digits of the fields. -/
def InsideBCD (size : ℕ) (stTime : TimeT) : Prop :=
  ∀ buffer buffer1 data : List UInt8, buffer.length = size → buffer1.length = size →
    7 ≤ data.length → publicConvertTimeToBCD stTime buffer buffer1 data =
      some (blit data 0 (0x20 :: E2ParamApp.publicConvertTimeToBCDEx stTime))

/-- The same for `Public_ConvertTimeToBCDEx` and the six bytes of the fields. -/
def InsideBCDEx (size : ℕ) (stTime : TimeT) : Prop :=
  ∀ buffer buffer1 data : List UInt8, buffer.length = size → buffer1.length = size →
    6 ≤ data.length → publicConvertTimeToBCDEx stTime buffer buffer1 data =
      some (blit data 0 (E2ParamApp.publicConvertTimeToBCDEx stTime))

theorem insideBCD_iff_le (h : checkTimeStruct stTime = true) (size : ℕ) :
    InsideBCD size stTime ↔ 28 ≤ size :=
  writesBCD_iff (ascii "20") 1 h (by decide) rfl le_rfl size

theorem insideBCDEx_iff_le (h : checkTimeStruct stTime = true) (size : ℕ) :
    InsideBCDEx size stTime ↔ 24 ≤ size :=
  writesBCD_iff [] 0 h List.not_mem_nil rfl (Nat.zero_le 1) size

/-- The arrays of 20 bytes are too short for every time. They had to have 28 and 24 bytes. -/
theorem timeToBCD_outside (h : checkTimeStruct stTime = true) :
    (¬ InsideBCD 20 stTime ∧ ¬ InsideBCDEx 20 stTime) ∧
    ∀ size, (InsideBCD size stTime ↔ 28 ≤ size) ∧ (InsideBCDEx size stTime ↔ 24 ≤ size) := by
  refine ⟨⟨?_, ?_⟩, fun size => ⟨insideBCD_iff_le h size, insideBCDEx_iff_le h size⟩⟩
  · rw [insideBCD_iff_le h]
    decide
  · rw [insideBCDEx_iff_le h]
    decide

/-- Noon on 29 February 2024. -/
theorem timeToBCD_outside_noon :
    ¬ InsideBCD 20 ⟨24, 2, 29, 12, 0, 0⟩ ∧ ¬ InsideBCDEx 20 ⟨24, 2, 29, 12, 0, 0⟩ :=
  (timeToBCD_outside (by decide)).1

theorem not_insideBCD : ¬ ∀ stTime : TimeT, checkTimeStruct stTime = true →
    InsideBCD 20 stTime ∧ InsideBCDEx 20 stTime := by
  intro h
  have hinside := (h ⟨24, 2, 29, 12, 0, 0⟩ (by decide)).1
  rw [insideBCD_iff_le (by decide)] at hinside
  exact absurd hinside (by decide)

end Inside

end VehicleTerminal.Public
