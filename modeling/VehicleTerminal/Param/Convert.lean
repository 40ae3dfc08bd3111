import VehicleTerminal.Library.MachineInt
import VehicleTerminal.Eeprom.Layout

/-! What `E2ParamApp.c` converts before it looks a parameter up: big-endian numbers in
buffers, as in `Public.c`, and the parameter IDs of two older numberings. -/
namespace VehicleTerminal.E2ParamApp

section Numbers

/-- The first four bytes as a number, high byte first. -/
def publicConvertBufferToLong : List UInt8 → Option ℕ
  | a :: b :: c :: d :: _ =>
    some (a.toNat * 0x1000000 + b.toNat * 0x10000 + c.toNat * 0x100 + d.toNat)
  | _ => none

def publicConvertBufferToShort : List UInt8 → Option ℕ
  | a :: b :: _ => some (a.toNat * 0x100 + b.toNat)
  | _ => none

def publicConvertLongToBuffer (value : ℕ) : List UInt8 :=
  [UInt8.ofNat (value / 0x1000000), UInt8.ofNat (value / 0x10000), UInt8.ofNat (value / 0x100),
    UInt8.ofNat value]

def publicConvertShortToBuffer (value : ℕ) : List UInt8 :=
  [UInt8.ofNat (value / 0x100), UInt8.ofNat value]

@[simp] theorem convertLongToBuffer_length (value : ℕ) :
    (publicConvertLongToBuffer value).length = 4 := rfl

theorem convertBufferToLong_eq_none_iff {p : List UInt8} :
    publicConvertBufferToLong p = none ↔ p.length < 4 := by
  match p with
  | [] | [_] | [_, _] | [_, _, _] => simp [publicConvertBufferToLong]
  | _ :: _ :: _ :: _ :: _ => simp [publicConvertBufferToLong]

theorem convertBufferToLong_of_le {p : List UInt8} (h : 4 ≤ p.length) :
    ∃ value, publicConvertBufferToLong p = some value := by
  match p with
  | [] | [_] | [_, _] | [_, _, _] => simp at h
  | _ :: _ :: _ :: _ :: _ => exact ⟨_, rfl⟩

theorem convertBufferToLong_lt {p : List UInt8} {value : ℕ}
    (h : publicConvertBufferToLong p = some value) : value < 2 ^ 32 := by
  match p with
  | [] | [_] | [_, _] | [_, _, _] => simp [publicConvertBufferToLong] at h
  | a :: b :: c :: d :: _ =>
    have ha := a.toNat_lt
    have hb := b.toNat_lt
    have hc := c.toNat_lt
    have hd := d.toNat_lt
    simp only [publicConvertBufferToLong, Option.some_inj] at h
    omega

/-- A number depends on the first four bytes only. -/
theorem convertBufferToLong_append {p : List UInt8} (h : 4 ≤ p.length) (tail : List UInt8) :
    publicConvertBufferToLong (p ++ tail) = publicConvertBufferToLong p := by
  match p with
  | [] | [_] | [_, _] | [_, _, _] => simp at h
  | _ :: _ :: _ :: _ :: _ => rfl

theorem convertBufferToLong_convertLongToBuffer {value : ℕ} (h : value < 2 ^ 32)
    (tail : List UInt8) :
    publicConvertBufferToLong (publicConvertLongToBuffer value ++ tail) = some value := by
  simp only [publicConvertLongToBuffer, List.cons_append, List.nil_append,
    publicConvertBufferToLong, UInt8.toNat_ofNat', Option.some_inj]
  omega

theorem convertBufferToLong_of_convertLongToBuffer {value : ℕ} (h : value < 2 ^ 32) :
    publicConvertBufferToLong (publicConvertLongToBuffer value) = some value := by
  have hread := convertBufferToLong_convertLongToBuffer h []
  rwa [List.append_nil] at hread

theorem convertLongToBuffer_inj {m n : ℕ} (hm : m < 2 ^ 32) (hn : n < 2 ^ 32) :
    publicConvertLongToBuffer m = publicConvertLongToBuffer n ↔ m = n := by
  refine ⟨fun h => ?_, fun h => h ▸ rfl⟩
  have hread := convertBufferToLong_of_convertLongToBuffer hm
  rw [h, convertBufferToLong_of_convertLongToBuffer hn] at hread
  exact (Option.some_inj.mp hread).symm

theorem convertBufferToShort_convertShortToBuffer (value : ℕ) (tail : List UInt8) :
    publicConvertBufferToShort (publicConvertShortToBuffer value ++ tail) =
      some (value % 65536) := by
  simp only [publicConvertShortToBuffer, List.cons_append, List.nil_append,
    publicConvertBufferToShort, UInt8.toNat_ofNat', Option.some_inj]
  omega

end Numbers

section Identifiers

/-- Numbers from 0x0200 on, as the first firmware had them. -/
def convertOldSelfDefinePramID (usParamID : ℕ) : ℕ :=
  if 0x0200 ≤ usParamID ∧ usParamID ≤ 0x23B then usParamID + 0xF000
  else if usParamID = 0x0241 ∨ usParamID = 0x242 then usParamID + 0xF03F
  else if usParamID = 0x0243 then 0xF240
  else if usParamID = 0x0244 then 0xF243
  else if usParamID = 0x0246 then 0xF24C
  else if 0x0247 ≤ usParamID ∧ usParamID ≤ 0x249 then usParamID + 0xF000 - 1
  else if usParamID = 0x024A ∨ usParamID = 0x24B then usParamID + 0xF000
  else usParamID

def e2PramSuomeiStartId : ℕ := 0xC000

def e2PramSuomeiEndId : ℕ := 0xD000

/-- The Suomei numbers with the number each one stands for. Numbers that need special
handling, such as 0xC115, stay as they are. -/
def suomeiPramIDs : List (ℕ × ℕ) :=
  [(0xC100, 0xF251), (0xC101, 0xF255), (0xC110, 0xF257), (0xC111, 0xF256), (0xC112, 0xF250),
    (0xC113, 0xF252), (0xC114, 0xF253), (0xC220, 0xF261), (0xC221, 0xF263), (0xC223, 0xF25B),
    (0xC226, 0xF270), (0xC227, 0xF26F), (0xC228, 0xF274), (0xC229, 0xF273), (0xC230, 0xF262),
    (0xC231, 0xF265), (0xC232, 0xF264), (0xC234, 0xF267), (0xC235, 0xF266), (0xC236, 0xF25C),
    (0xC237, 0xF25D), (0xC238, 0xF25F), (0xC239, 0xF25E), (0xC250, 0xF268), (0xC251, 0xF269),
    (0xC252, 0xF27A), (0xC253, 0xF27B), (0xC254, 0xF27C), (0xC257, 0xF26B), (0xC258, 0xF26C),
    (0xC259, 0xF26E), (0xC25A, 0xF272), (0xC25C, 0xF259)]

def convertSuomeiPramID (usParamID : ℕ) : ℕ :=
  if e2PramSuomeiStartId > usParamID ∨ usParamID > e2PramSuomeiEndId then usParamID
  else (suomeiPramIDs.lookup usParamID).getD usParamID

/-- The argument is an `unsigned short`. -/
def convertPramID (usParamID : ℕ) : ℕ :=
  convertSuomeiPramID (convertOldSelfDefinePramID (usParamID % 65536))

end Identifiers

end VehicleTerminal.E2ParamApp
