import VehicleTerminal.Eeprom.Corruption
import VehicleTerminal.Storage.FramRoundTrip

/-! A byte of a stored record that changes, in the FRAM or in the EEPROM. In the FRAM the length
comes from the caller, and the check byte sees every change. -/
namespace VehicleTerminal
open BlockMemory Checksum

namespace Fram

section View

variable {cells : List UInt8} {addr n : ℕ}

/-- The cells as a store without an end. -/
def view (cells : List UInt8) : ℕ → UInt8 := fun i => cells.getD i 0

theorem view_of_lt (h : n < cells.length) : view cells n = cells[n] := by
  rw [view, List.getD_eq_getElem?_getD, List.getElem?_eq_getElem h, Option.getD_some]

theorem view_set {v : UInt8} (h : n < cells.length) :
    view (cells.set n v) = Function.update (view cells) n v := by
  funext i
  by_cases hi : i = n
  · subst hi
    simp [view, h]
  · rw [Function.update_of_ne hi]
    simp [view, List.getElem?_set_ne (Ne.symm hi)]

theorem slice_eq_readBytes (h : addr + n ≤ cells.length) :
    slice cells addr n = ByteStore.readBytes (view cells) addr n := by
  apply List.ext_getElem
  · rw [slice_length _ _ _ h, ByteStore.readBytes_length]
  · intro i hi hread
    rw [ByteStore.readBytes_length] at hread
    simp [slice, ByteStore.readBytes, view_of_lt (show addr + i < cells.length by omega)]

theorem checkByte_eq_sum (data : List UInt8) : checkByte data = data.sum := by
  rw [checkByte, List.sum_eq_foldl]

end View

/-- A read gives a result other than 0 only if the check byte is the sum of the data. -/
theorem framBufferRead_result {c : Chip} {addr n : ℕ} (haddr : addr < 2 ^ 16)
    (hfits : addr + n < c.cells.length) :
    ∃ result, framBufferRead n addr c =
        some ({ c with phase := .deselected }, result, slice c.cells addr n) ∧
      (result ≠ 0 → Sealed (view c.cells) addr n) := by
  refine ⟨_, framBufferRead_eq n haddr hfits, fun hresult => ?_⟩
  by_contra hsealed
  refine hresult ?_
  have hcheck : c.cells[addr + n] ≠ (sumAndZeros (slice c.cells addr n)).1 := by
    rw [sumAndZeros_sum, checkByte_eq_sum, slice_eq_readBytes hfits.le, ← view_of_lt hfits]
    exact Ne.symm hsealed
  rw [if_neg hcheck, ite_self]

/-- A record of 1 to 255 bytes that was written and reads back. -/
structure StoredRecord where
  addr : ℕ
  data : List UInt8
  before : Chip
  chip : Chip
  read : Chip
  count : UInt8
  count' : UInt8
  addr_lt : addr < 2 ^ 16
  positive : 0 < data.length
  length_le : data.length ≤ 255
  fits : addr + data.length < chip.cells.length
  written : framBufferWrite addr data data.length count before = some (chip, count')
  readable : framBufferRead data.length addr chip =
    some (read, UInt8.ofNat data.length, data)

theorem StoredRecord.stays_sealed (r : StoredRecord) :
    r.read.cells = r.chip.cells ∧ Sealed (view r.chip.cells) r.addr r.data.length := by
  obtain ⟨result, hread, hresult⟩ := framBufferRead_result r.addr_lt r.fits
  rw [r.readable, Option.some.injEq, Prod.mk.injEq, Prod.mk.injEq] at hread
  obtain ⟨hchip, rfl, -⟩ := hread
  refine ⟨by rw [hchip], hresult fun hzero => ?_⟩
  have hlength := congrArg UInt8.toNat hzero
  have hpos := r.positive
  have hle := r.length_le
  rw [UInt8.toNat_ofNat', UInt8.toNat_zero] at hlength
  omega

/-- Another value in one byte of a stored record. -/
structure Corruption extends StoredRecord where
  cell : ℕ
  value : UInt8
  addr_le : addr ≤ cell
  cell_le : cell ≤ addr + data.length
  changes : chip.cells[cell]? ≠ some value

/-- The reader refuses the record. -/
def Corruption.Detected (c : Corruption) : Prop :=
  ∃ read' out, framBufferRead c.data.length c.addr
    { c.read with cells := c.read.cells.set c.cell c.value } = some (read', 0, out)

theorem Corruption.detected (c : Corruption) : c.Detected := by
  obtain ⟨hcells, hsealed⟩ := c.stays_sealed
  have hlt : c.cell < c.chip.cells.length := c.cell_le.trans_lt c.fits
  have hne : c.value ≠ view c.chip.cells c.cell := by
    intro hsame
    refine c.changes ?_
    rw [hsame, view_of_lt hlt, List.getElem?_eq_getElem hlt]
  have hfits : c.addr + c.data.length < (c.read.cells.set c.cell c.value).length := by
    rw [List.length_set, hcells]
    exact c.fits
  obtain ⟨result, hread, hresult⟩ := framBufferRead_result
    (c := { c.read with cells := c.read.cells.set c.cell c.value }) c.addr_lt hfits
  obtain rfl : result = 0 := by
    by_contra hnonzero
    have hstill := hresult hnonzero
    simp only [hcells, view_set hlt] at hstill
    exact hsealed.not_update c.addr_le c.cell_le hne hstill
  exact ⟨_, _, hread⟩

end Fram

/-- The reader of the EEPROM refuses a record with a changed byte unless this is the length byte
of a string and moves the check; the reader of the FRAM always does. -/
theorem corruption_detected : (∀ c : EepromPram.Corruption, c.Detected ↔ ¬ c.MovesCheck) ∧
    ∀ c : Fram.Corruption, c.Detected :=
  ⟨fun _ => EepromPram.Corruption.detected_iff, Fram.Corruption.detected⟩

/-- Three bytes in a chip of sixteen, the first of which changes. -/
theorem corruption_detected_three_bytes :
    ∃ c : Fram.Corruption, c.data = [1, 255, 1] ∧ c.cell = c.addr ∧ c.Detected := by
  let before : Fram.Chip := ⟨List.replicate 16 0, 0, .deselected⟩
  let r : Fram.StoredRecord :=
    { addr := 5, data := [1, 255, 1], before := before
      chip := Fram.recorded before 5 [1, 255, 1]
      read := { Fram.recorded before 5 [1, 255, 1] with phase := .deselected }
      count := 0, count' := 0
      addr_lt := by decide
      positive := by decide
      length_le := by decide
      fits := by decide
      written := Fram.framBufferWrite_eq _ _ (by decide) (by decide) (by decide)
      readable := Fram.framBufferRead_recorded (by decide) (by decide) ⟨1, by simp, by decide⟩ }
  let c : Fram.Corruption :=
    { r with
      cell := 5, value := 2
      addr_le := by decide
      cell_le := by decide
      changes := by decide }
  exact ⟨c, rfl, rfl, corruption_detected.2 c⟩

/-- A string of two bytes 1 reads as one byte 1 after its length has changed to 1. -/
theorem not_corruption_detected :
    ¬ ((∀ c : EepromPram.Corruption, c.Detected) ∧ ∀ c : Fram.Corruption, c.Detected) := by
  rintro ⟨hdetected, -⟩
  let r : EepromPram.StoredRecord :=
    { pramID := 0x10, pBuffer := [1, 1], bufferLen := 2, before := fun _ => 0
      stored := ByteStore.writeBytes (fun _ => 0) 45 [2, 1, 1, 2]
      checked := by decide
      positive := by decide
      written := EepromPram.writePram_admitted
        ⟨by decide, by decide, by decide, by decide, by decide⟩ (by decide)
      readable := by decide }
  let c : EepromPram.Corruption :=
    { r with
      cell := 45, value := 1
      address_le := by decide
      cell_lt := by decide
      changes := by decide }
  have hrefused := hdetected c
  rw [EepromPram.Corruption.detected_iff] at hrefused
  exact hrefused ⟨by decide, rfl, by decide, by decide, by decide⟩

end VehicleTerminal
