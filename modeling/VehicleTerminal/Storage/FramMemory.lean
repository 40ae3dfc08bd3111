import VehicleTerminal.Storage.FramRoundTrip

/-! The FRAM as the rest of the program finds it: a chip of its size that no command is under way
to, and the static counter of its driver. Calls that stay inside the chip have a result. -/
namespace VehicleTerminal.Fram
open BlockMemory

/-- The bytes of an FM25C160. -/
def framSize : ℕ := 2048

section Bus

variable {c c' : Chip}

/-- No byte to the chip changes the number of its cells. -/
theorem sFlashSendByte_cells_length {byte : UInt8} (h : sFlashSendByte byte c = some c') :
    c'.cells.length = c.cells.length := by
  unfold sFlashSendByte at h
  split at h
  · split_ifs at h <;> cases h <;> rfl
  · cases h
    rfl
  · dsimp only at h
    split_ifs at h <;> cases h <;> rfl
  · obtain ⟨cells, hstore, rfl⟩ := Option.map_eq_some_iff.mp h
    exact store_length hstore
  · cases h

theorem sendBytes_cells_length {bytes : List UInt8} (h : sendBytes bytes c = some c') :
    c'.cells.length = c.cells.length := by
  induction bytes generalizing c with
  | nil =>
    cases h
    rfl
  | cons byte bytes ih =>
    obtain ⟨next, hbyte, hrest⟩ := Option.bind_eq_some_iff.mp h
    exact (ih hrest).trans (sFlashSendByte_cells_length hbyte)

theorem framCsHigh_cells (c : Chip) : (framCsHigh c).cells = c.cells := by
  unfold framCsHigh
  split <;> rfl

theorem framCsHigh_phase (c : Chip) : (framCsHigh c).phase = .deselected := by
  unfold framCsHigh
  split <;> rfl

theorem framWriteDisable_eq (c : Chip) :
    framWriteDisable c = some { c with
      statusRegister := c.statusRegister &&& ~~~framWelBit
      phase := .deselected } := rfl

/-- Whatever a write does, the chip keeps its size and is left deselected. -/
theorem framBufferWrite_keeps {addr n : ℕ} {data : List UInt8} {count count' : UInt8}
    (h : framBufferWrite addr data n count c = some (c', count')) :
    c'.cells.length = c.cells.length ∧ c'.phase = .deselected := by
  rw [framBufferWrite, framReadStatusRegister_eq, Option.bind_some] at h
  split_ifs at h
  · rw [framWriteDisable_eq] at h
    cases h
    exact ⟨rfl, rfl⟩
  · cases h
    exact ⟨rfl, rfl⟩
  · obtain ⟨bytes, -, hwrite⟩ := Option.bind_eq_some_iff.mp h
    rw [framWriteEnable_eq, Option.bind_some] at hwrite
    obtain ⟨sent, hsent, heq⟩ := Option.map_eq_some_iff.mp hwrite
    have hlength : sent.cells.length = c.cells.length := by
      have hsame := sendBytes_cells_length hsent
      exact hsame
    cases heq
    exact ⟨(congrArg List.length (framCsHigh_cells sent)).trans hlength, framCsHigh_phase sent⟩

end Bus

/-- The chip and the static `count` between two calls of the driver. -/
structure Memory where
  chip : Chip
  count : UInt8
  cells_length : chip.cells.length = framSize
  deselected : chip.phase = .deselected

section Memory

variable {m : Memory}

/-- A chip without a single set bit. -/
def Memory.erased : Memory where
  chip := ⟨List.replicate framSize 0, 0, .deselected⟩
  count := 0
  cells_length := List.length_replicate
  deselected := rfl

/-- `FRAM_BufferWrite`. -/
def Memory.bufferWrite (writeAddr : ℕ) (pBuffer : List UInt8) (numBytesToWrite : ℕ) (m : Memory) :
    Option Memory :=
  match h : framBufferWrite writeAddr pBuffer numBytesToWrite m.count m.chip with
  | none => none
  | some (chip, count) => some {
      chip := chip
      count := count
      cells_length := (framBufferWrite_keeps h).1.trans m.cells_length
      deselected := (framBufferWrite_keeps h).2 }

/-- The bytes that `FRAM_BufferRead` leaves in the buffer; the chip stays as it is. -/
def Memory.bufferRead (numBytesToRead readAddr : ℕ) (m : Memory) : Option (List UInt8) :=
  (framBufferRead numBytesToRead readAddr m.chip).map fun r => r.2.2

/-- A record and its check byte inside the chip are written, or skipped while the latch is set. -/
theorem Memory.bufferWrite_ne_none {writeAddr : ℕ} {data : List UInt8}
    (hfits : writeAddr + data.length + 1 ≤ framSize) :
    m.bufferWrite writeAddr data data.length ≠ none := by
  have hcells : writeAddr + data.length + 1 ≤ m.chip.cells.length := m.cells_length ▸ hfits
  have hsome : framBufferWrite writeAddr data data.length m.count m.chip ≠ none := by
    by_cases hwel : m.chip.wel
    · have hset : m.chip.statusRegister &&& framWelBit = framWelBit := hwel
      rw [framBufferWrite, framReadStatusRegister_eq, Option.bind_some, if_pos hset]
      split_ifs
      · rw [framWriteDisable_eq]
        exact Option.some_ne_none _
      · exact Option.some_ne_none _
    · have haddr : writeAddr < 2 ^ 16 := by
        unfold framSize at hfits
        omega
      rw [framBufferWrite_eq data m.count hwel haddr hcells]
      exact Option.some_ne_none _
  unfold bufferWrite
  split
  · next hnone => exact absurd hnone hsome
  · exact Option.some_ne_none _

theorem Memory.bufferRead_eq {n readAddr : ℕ} (hfits : readAddr + n < framSize) :
    m.bufferRead n readAddr = some (slice m.chip.cells readAddr n) ∧
      ∃ result, framBufferRead n readAddr m.chip =
        some (m.chip, result, slice m.chip.cells readAddr n) := by
  have haddr : readAddr < 2 ^ 16 := by
    unfold framSize at hfits
    omega
  have hread := framBufferRead_eq n haddr (m.cells_length ▸ hfits)
  have hsame : { m.chip with phase := .deselected } = m.chip := by
    rw [← m.deselected]
  rw [hsame] at hread
  exact ⟨by rw [bufferRead, hread, Option.map_some], _, hread⟩

/-- The two bytes behind each other: the datum and the sum of the data. -/
example : (Memory.erased.bufferWrite 58 [3] 1).map (fun m => slice m.chip.cells 57 4) =
    some [0, 3, 3, 0] := by decide +kernel

end Memory

end VehicleTerminal.Fram
