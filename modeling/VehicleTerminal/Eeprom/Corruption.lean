import VehicleTerminal.Eeprom.Pram
import VehicleTerminal.Library.Checksum
import Mathlib.Data.UInt

/-! A byte of a stored parameter that changes in the EEPROM. The check byte covers the data; the
length byte of a string decides where the reader looks for it. -/
namespace VehicleTerminal.EepromPram
open ByteStore Checksum

section Reader

variable {pramID : ℕ} {e : Eeprom} {d : List UInt8}

theorem sumCheck_eq_sum (xs : List UInt8) : sumCheck xs = xs.sum := by
  rw [sumCheck, List.sum_eq_foldl]

theorem readChecked_eq_sealed (e : Eeprom) (a k : ℕ) :
    readChecked e a k = if Sealed e a k then readBytes e a k else [] := by
  rw [readChecked_eq, sumCheck_eq_sum]
  rfl

/-- The reader returns nothing exactly if there is nothing to return or the check fails. -/
theorem readChecked_eq_nil_iff (e : Eeprom) (a k : ℕ) :
    readChecked e a k = [] ↔ ¬ (0 < k ∧ Sealed e a k) := by
  rw [readChecked_eq_sealed]
  by_cases hsealed : Sealed e a k
  · rw [if_pos hsealed, ← List.length_eq_zero_iff, readBytes_length]
    simp [hsealed]
  · simp [hsealed]

theorem readPram_of_string (hin : e2ParamAppConvertPramIDToGroupIndex pramID < e2PramIdIndexMax)
    (hknown : e2ParamAppConvertPramIDToGroupIndex pramID ≠ 0)
    (hlength : lengthOf (e2ParamAppConvertPramIDToGroupIndex pramID) ≠ 0)
    (hvalue : ¬ IsValue (e2ParamAppConvertPramIDToGroupIndex pramID))
    (hchecked : ¬ Unchecked pramID) (e : Eeprom) :
    eepromPramReadPram pramID e = some
      (if (e (addressOf (e2ParamAppConvertPramIDToGroupIndex pramID))).toNat > 49 then []
        else readChecked e (addressOf (e2ParamAppConvertPramIDToGroupIndex pramID) + 1)
          (e (addressOf (e2ParamAppConvertPramIDToGroupIndex pramID))).toNat) := by
  have hlengths := not_or.mp hvalue
  have hcheckedIds : ¬ (pramID = e2AllDriverInformationId ∨ pramID = e2UpdataUrlId) := hchecked
  simp only [eepromPramReadPram, hknown, if_false, eepromPramLength_getElem? hin, Option.map_some,
    hlength, hlengths.1, (not_or.mp hlengths.2).1, (not_or.mp hlengths.2).2, hcheckedIds]

end Reader

/-- A parameter that was written and reads back, under an ID that is read with a check. -/
structure StoredRecord where
  pramID : ℕ
  pBuffer : List UInt8
  bufferLen : ℕ
  before : Eeprom
  stored : Eeprom
  checked : ¬ Unchecked pramID
  positive : 0 < bufferLen
  written : eepromPramWritePram pramID pBuffer bufferLen before = some (bufferLen, stored)
  readable : eepromPramReadPram pramID stored = some (pBuffer.take bufferLen)

namespace StoredRecord

variable (r : StoredRecord)

def index : ℕ := e2ParamAppConvertPramIDToGroupIndex r.pramID

def address : ℕ := addressOf r.index

/-- How many bytes the record has in the EEPROM. -/
def size : ℕ := (record r.index (r.pBuffer.take r.bufferLen)).length

variable {r}

theorem admits : Admits r.pramID r.bufferLen := (writePram_success r.written r.positive).2.1

theorem data_length : (r.pBuffer.take r.bufferLen).length = r.bufferLen :=
  List.length_take_of_le (writePram_success r.written r.positive).2.2.1

theorem data_ne_nil : r.pBuffer.take r.bufferLen ≠ [] := by
  rw [← List.length_pos_iff, data_length]
  exact r.positive

theorem size_of_value (h : IsValue r.index) : r.size = r.bufferLen + 1 := by
  have hswitch : switchOf r.index ≠ 1 := fun hs => ((formats_agree admits.inTable).1.mp hs).2 h
  rw [size, record, if_neg hswitch, List.nil_append, List.length_append, data_length,
    List.length_singleton]

theorem size_of_string (h : ¬ IsValue r.index) : r.size = r.bufferLen + 2 := by
  have hlength : lengthOf r.index ≠ 0 := (r.positive.trans_le admits.fits).ne'
  have hswitch : switchOf r.index = 1 := (formats_agree admits.inTable).1.mpr ⟨hlength, h⟩
  rw [size, record, if_pos hswitch, List.length_append, List.length_append, data_length,
    List.length_singleton, List.length_singleton]
  omega

theorem read_value (h : IsValue r.index) (e : Eeprom) :
    eepromPramReadPram r.pramID e = some (readChecked e r.address (lengthOf r.index)) :=
  readPram_of_value admits.inTable admits.known h e

theorem read_string (h : ¬ IsValue r.index) (e : Eeprom) :
    eepromPramReadPram r.pramID e = some
      (if (e r.address).toNat > 49 then []
        else readChecked e (r.address + 1) (e r.address).toNat) :=
  readPram_of_string admits.inTable admits.known (r.positive.trans_le admits.fits).ne' h
    r.checked e

theorem value_sealed (h : IsValue r.index) :
    lengthOf r.index = r.bufferLen ∧ Sealed r.stored r.address r.bufferLen := by
  have hread := r.readable
  have hlength : r.bufferLen = lengthOf r.index := by
    rw [← data_length (r := r)]
    exact (readPram_value_length h hread).resolve_left data_ne_nil
  have hne := data_ne_nil (r := r)
  rw [read_value h, Option.some.injEq, ← hlength] at hread
  rw [← hread, ne_eq, readChecked_eq_nil_iff, not_not] at hne
  exact ⟨hlength.symm, hne.2⟩

theorem string_sealed (h : ¬ IsValue r.index) :
    (r.stored r.address).toNat = r.bufferLen ∧ r.bufferLen ≤ 49 ∧
      Sealed r.stored (r.address + 1) r.bufferLen := by
  have hread := r.readable
  rw [read_string h, Option.some.injEq] at hread
  have hne := data_ne_nil (r := r)
  rw [← hread] at hne
  by_cases hlong : (r.stored r.address).toNat > 49
  · rw [if_pos hlong] at hne
    exact absurd rfl hne
  · rw [if_neg hlong] at hread hne
    rw [ne_eq, readChecked_eq_nil_iff, not_not] at hne
    rw [readChecked_eq_sealed, if_pos hne.2] at hread
    have hlength : (r.stored r.address).toNat = r.bufferLen := by
      rw [← data_length, ← hread, readBytes_length]
    exact ⟨hlength, by omega, hlength ▸ hne.2⟩

end StoredRecord

/-- Another value in one byte of a stored record. -/
structure Corruption extends StoredRecord where
  cell : ℕ
  value : UInt8
  address_le : toStoredRecord.address ≤ cell
  cell_lt : cell < toStoredRecord.address + toStoredRecord.size
  changes : value ≠ stored cell

namespace Corruption

variable (c : Corruption)

def corrupted : Eeprom := Function.update c.stored c.cell c.value

/-- The reader refuses the record. -/
def Detected : Prop := eepromPramReadPram c.pramID c.corrupted = some []

/-- The length byte of a string has become another length, up to the 49 that the reader accepts,
at which the byte behind so many bytes happens to be their sum. -/
def MovesCheck : Prop :=
  ¬ IsValue c.index ∧ c.cell = c.address ∧ 0 < c.value.toNat ∧ c.value.toNat ≤ 49 ∧
    sumCheck (readBytes c.stored (c.address + 1) c.value.toNat) =
      c.stored (c.address + 1 + c.value.toNat)

variable {c}

theorem detected_of_value (h : IsValue c.index) : c.Detected := by
  obtain ⟨hlength, hsealed⟩ := StoredRecord.value_sealed h
  have hcell := c.cell_lt
  rw [StoredRecord.size_of_value h] at hcell
  rw [Detected, corrupted, StoredRecord.read_value h, hlength, Option.some.injEq,
    readChecked_eq_nil_iff, not_and]
  exact fun _ => hsealed.not_update c.address_le (by omega) c.changes

theorem detected_of_length (h : ¬ IsValue c.index) (hcell : c.cell = c.address) :
    c.Detected ↔ ¬ c.MovesCheck := by
  have houtside := sealed_update_outside (m := c.stored) (v := c.value) (k := c.value.toNat)
    (.inl (Nat.lt_succ_self c.address))
  rw [Detected, corrupted, hcell, StoredRecord.read_string h, Option.some.injEq,
    Function.update_self, MovesCheck, sumCheck_eq_sum]
  by_cases hlong : c.value.toNat > 49
  · rw [if_pos hlong]
    simp only [true_iff, not_and]
    intro _ _ _ hle
    omega
  · rw [if_neg hlong, readChecked_eq_nil_iff, houtside]
    simp only [h, hcell, not_false_eq_true, true_and, not_lt.mp hlong]
    rfl

theorem detected_of_data (h : ¬ IsValue c.index) (hcell : c.cell ≠ c.address) : c.Detected := by
  obtain ⟨hlength, hle, hsealed⟩ := StoredRecord.string_sealed h
  have hlt := c.cell_lt
  have hge := c.address_le
  rw [StoredRecord.size_of_string h] at hlt
  rw [Detected, corrupted, StoredRecord.read_string h, Option.some.injEq,
    Function.update_of_ne hcell.symm, hlength, if_neg (by omega), readChecked_eq_nil_iff, not_and]
  exact fun _ => hsealed.not_update (by omega) (by omega) c.changes

/-- A changed byte is refused unless it is a length byte that moves the check. -/
theorem detected_iff : c.Detected ↔ ¬ c.MovesCheck := by
  by_cases hvalue : IsValue c.index
  · exact iff_of_true (detected_of_value hvalue) fun hmoves => hmoves.1 hvalue
  by_cases hcell : c.cell = c.address
  · exact detected_of_length hvalue hcell
  · exact iff_of_true (detected_of_data hvalue hcell) fun hmoves => hcell hmoves.2.1

end Corruption

end VehicleTerminal.EepromPram
