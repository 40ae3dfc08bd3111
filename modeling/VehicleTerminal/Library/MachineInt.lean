import VehicleTerminal.Library.Memory

/-! Two's-complement machine integers as integers, and arrays indexed by them. -/
namespace MachineInt
open BlockMemory

variable {α : Type*}

/-- Wrap to a signed 32-bit integer. -/
def int32 (x : ℤ) : ℤ := (x + 2147483648) % 4294967296 - 2147483648

/-- Wrap to a signed 16-bit integer. -/
def int16 (x : ℤ) : ℤ := (x + 32768) % 65536 - 32768

/-- Wrap to a signed 8-bit integer. -/
def int8 (x : ℤ) : ℤ := (x + 128) % 256 - 128

/-- Wrap to an unsigned 32-bit integer. -/
def uint32 (x : ℤ) : ℕ := (x % 4294967296).toNat

/-- Wrap to an unsigned 16-bit integer. -/
def uint16 (x : ℤ) : ℕ := (x % 65536).toNat

/-- The unsigned 32-bit size that a signed integer converts to. -/
def sizeT (x : ℤ) : ℕ := (x % 4294967296).toNat

/-- `mem[i] = x` with a signed index. -/
def storeAt (mem : List α) (i : ℤ) (x : α) : Option (List α) :=
  if 0 ≤ i then store mem i.toNat x else none

/-- `mem[i]` with a signed index. -/
def loadAt (mem : List α) (i : ℤ) : Option α :=
  if 0 ≤ i then mem[i.toNat]? else none

/-- `memcpy(&mem[pos], src + off, k)` with signed positions and count. -/
def memcpyIn (mem : List α) (pos : ℤ) (src : List α) (off k : ℤ) : Option (List α) :=
  if 0 ≤ pos ∧ 0 ≤ off then copyIn mem pos.toNat (src.drop off.toNat) (sizeT k) else none

/-- The block that `memcpy(dst, &mem[pos], k)` copies out. -/
def memcpyOut (mem : List α) (pos k : ℤ) : Option (List α) :=
  if 0 ≤ pos then copyOut mem pos.toNat (sizeT k) else none

theorem int32_of_range {x : ℤ} (hlo : -2147483648 ≤ x) (hhi : x < 2147483648) : int32 x = x := by
  unfold int32
  omega

theorem int32_natAbs_lt (x : ℤ) : (int32 x).natAbs < 10 ^ 10 := by
  unfold int32
  omega

theorem int32_natCast {a : ℕ} (h : a < 2147483648) : int32 (a : ℤ) = a :=
  int32_of_range (by omega) (by omega)

theorem int32_natCast_add {a b : ℕ} (h : a + b < 2147483648) :
    int32 ((a : ℤ) + b) = ((a + b : ℕ) : ℤ) := by
  rw [← Nat.cast_add, int32_natCast h]

theorem int32_natCast_sub {a b : ℕ} (hle : b ≤ a) (h : a < 2147483648) :
    int32 ((a : ℤ) - b) = ((a - b : ℕ) : ℤ) := by
  rw [← Nat.cast_sub hle, int32_natCast (by omega)]

theorem uint16_natCast {a : ℕ} (h : a < 65536) : uint16 (a : ℤ) = a := by
  unfold uint16
  omega

theorem uint16_natCast_add {a b : ℕ} (h : a + b < 65536) : uint16 ((a : ℤ) + b) = a + b := by
  rw [← Nat.cast_add, uint16_natCast h]

theorem uint16_natCast_sub {a b : ℕ} (hle : b ≤ a) (h : a < 65536) :
    uint16 ((a : ℤ) - b) = a - b := by
  rw [← Nat.cast_sub hle, uint16_natCast (by omega)]

theorem uint32_natCast {a : ℕ} (h : a < 4294967296) : uint32 (a : ℤ) = a := by
  unfold uint32
  omega

theorem uint32_natCast_add {a b : ℕ} (h : a + b < 4294967296) : uint32 ((a : ℤ) + b) = a + b := by
  rw [← Nat.cast_add, uint32_natCast h]

theorem uint32_natCast_sub {a b : ℕ} (hle : b ≤ a) (h : a < 4294967296) :
    uint32 ((a : ℤ) - b) = a - b := by
  rw [← Nat.cast_sub hle, uint32_natCast (by omega)]

/-- What lies behind an offset. -/
theorem uint32_offset {a r : ℕ} (h : a + r < 4294967296) :
    uint32 (((a + r : ℕ) : ℤ) - a) = r := by
  rw [uint32_natCast_sub (Nat.le_add_right a r) h, Nat.add_sub_cancel_left]

theorem sizeT_natCast_sub {a b : ℕ} (hle : b ≤ a) (h : a < 4294967296) :
    sizeT ((a : ℤ) - b) = a - b := by
  unfold sizeT
  omega

theorem sizeT_natCast {a : ℕ} (h : a < 4294967296) : sizeT (a : ℤ) = a := by
  unfold sizeT
  omega

theorem natCast_tmod (a n : ℕ) : Int.tmod (a : ℤ) (n : ℤ) = ((a % n : ℕ) : ℤ) :=
  (Int.ofNat_tmod a n).symm

theorem storeAt_natCast {mem : List α} {i : ℕ} (x : α) (h : i < mem.length) :
    storeAt mem (i : ℤ) x = some (blit mem i [x]) := by
  simp [storeAt, store_of_lt x h]

theorem loadAt_natCast (mem : List α) (i : ℕ) : loadAt mem (i : ℤ) = mem[i]? := by
  simp [loadAt]

theorem memcpyIn_natCast {mem src : List α} {p o k : ℕ} (hpos : p + k ≤ mem.length)
    (hsrc : o + k ≤ src.length) (hk : k < 4294967296) :
    memcpyIn mem (p : ℤ) src (o : ℤ) (k : ℤ) =
      some (blit mem p ((src.drop o).take k)) := by
  have hfits : k ≤ (src.drop o).length := by
    rw [List.length_drop]
    omega
  simp [memcpyIn, sizeT_natCast hk, copyIn_of_le hpos hfits]

theorem memcpyOut_natCast {mem : List α} {p k : ℕ} (hpos : p + k ≤ mem.length)
    (hk : k < 4294967296) :
    memcpyOut mem (p : ℤ) (k : ℤ) = some (slice mem p k) := by
  simp [memcpyOut, sizeT_natCast hk, copyOut_of_le hpos]

end MachineInt
