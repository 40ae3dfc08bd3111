import VehicleTerminal.Library.ByteStore
import VehicleTerminal.Library.MachineInt
import Mathlib.Logic.Function.Basic

/-! The heap of `mem.c`. A pointer is the offset from `heap_ptr`, and every block begins with a
`struct heap_mem`. A failed assertion, and a loop of more than `rounds` rounds, have no result. -/
namespace VehicleTerminal.Kernel.Mem
open ByteStore MachineInt

section Model

/-- `RT_ALIGN` in 32 bits, to `2 ^ alignBits`. -/
def rtAlign (alignBits size : ℕ) : ℕ :=
  (size + 2 ^ alignBits - 1) % 2 ^ 32 / 2 ^ alignBits * 2 ^ alignBits

def rtAlignDown (alignBits size : ℕ) : ℕ := size / 2 ^ alignBits * 2 ^ alignBits

/-- `RT_ALIGN_SIZE`, `SIZEOF_STRUCT_MEM` and the range of the heap, with room for the smallest
block. -/
structure Config where
  alignBits : ℕ
  sizeofStructMem : ℕ
  beginAddr : ℕ
  endAddr : ℕ
  sizeof_aligned : 2 ^ alignBits ∣ sizeofStructMem
  sizeof_fields : 12 ≤ sizeofStructMem
  end_lt : endAddr < 2 ^ 32
  fits : rtAlign alignBits beginAddr + 2 * sizeofStructMem + rtAlign alignBits 12 ≤
    rtAlignDown alignBits endAddr

def Config.minSizeAligned (c : Config) : ℕ := rtAlign c.alignBits 12

def Config.memSizeAligned (c : Config) : ℕ :=
  rtAlignDown c.alignBits c.endAddr - rtAlign c.alignBits c.beginAddr - 2 * c.sizeofStructMem

/-- `heap_end`, behind the last block. -/
def Config.heapEnd (c : Config) : ℕ := c.memSizeAligned + c.sizeofStructMem

def heapMagic : ℕ := 0x1ea0

/-- The fields of `struct heap_mem` without the name of a thread. -/
@[ext]
structure HeapMem where
  magic : ℕ
  used : ℕ
  next : ℕ
  prev : ℕ
  deriving Repr, DecidableEq

structure Heap where
  ram : ℕ → UInt8
  lfree : ℕ
  usedMem : ℕ
  maxMem : ℕ

namespace Heap

variable (h : Heap) (ptr : ℕ)

def head (h : Heap) (ptr : ℕ) : HeapMem :=
  ⟨load h.ram ptr 2, load h.ram (ptr + 2) 2, load h.ram (ptr + 4) 4, load h.ram (ptr + 8) 4⟩

def setMagic : Heap := { h with ram := store h.ram ptr 2 heapMagic }

def setUsed (used : ℕ) : Heap := { h with ram := store h.ram (ptr + 2) 2 used }

def setNext (next : ℕ) : Heap := { h with ram := store h.ram (ptr + 4) 4 next }

def setPrev (prev : ℕ) : Heap := { h with ram := store h.ram (ptr + 8) 4 prev }

/-- A whole `struct heap_mem`. -/
def create (used next prev : ℕ) : Heap :=
  (((h.setMagic ptr).setUsed ptr used).setNext ptr next).setPrev ptr prev

/-- The statistics for a block that is taken. -/
def addUsed (size : ℕ) : Heap :=
  let usedMem := uint32 ((h.usedMem : ℤ) + size)
  { h with usedMem := usedMem, maxMem := if h.maxMem < usedMem then usedMem else h.maxMem }

def subUsed (size : ℕ) : Heap := { h with usedMem := uint32 ((h.usedMem : ℤ) - size) }

/-- The block `q` behind `p` becomes a part of `p`. -/
def combine (p q : ℕ) : Heap :=
  let h := { h with lfree := if h.lfree = q then p else h.lfree }
  let h := h.setNext p (h.head q).next
  h.setPrev (h.head q).next p

end Heap

/-- `rt_system_heap_init`, with what the memory holds before. -/
def rtSystemHeapInit (c : Config) (ram : ℕ → UInt8) : Heap :=
  let h : Heap := ⟨ram, 0, 0, 0⟩
  let h := h.create 0 0 c.heapEnd 0
  h.create c.heapEnd 1 c.heapEnd c.heapEnd

/-- `plug hole forward`. -/
def plugForward (c : Config) (h : Heap) (mem : ℕ) : Heap :=
  let nmem := (h.head mem).next
  if mem ≠ nmem ∧ (h.head nmem).used = 0 ∧ nmem ≠ c.heapEnd then h.combine mem nmem else h

/-- `plug hole backward`. -/
def plugBackward (h : Heap) (mem : ℕ) : Heap :=
  let pmem := (h.head mem).prev
  if pmem ≠ mem ∧ (h.head pmem).used = 0 then h.combine pmem mem else h

def plugHoles (c : Config) (h : Heap) (mem : ℕ) : Option Heap :=
  if mem < c.heapEnd ∧ (h.head mem).used = 0 then some (plugBackward (plugForward c h mem) mem)
  else none

/-- The size of a block without its `struct heap_mem`. -/
def dataSize (c : Config) (h : Heap) (ptr : ℕ) : ℕ :=
  uint32 ((h.head ptr).next - (ptr + c.sizeofStructMem))

/-- The loop of `rt_malloc`. -/
def findFit (c : Config) (h : Heap) (size : ℕ) : ℕ → ℕ → Option (Option ℕ)
  | 0, _ => none
  | rounds + 1, ptr =>
    if ptr < uint32 ((c.memSizeAligned : ℤ) - size) then
      if (h.head ptr).used = 0 ∧ size ≤ dataSize c h ptr then some (some ptr)
      else findFit c h size rounds (h.head ptr).next
    else some none

/-- `while (lfree->used && lfree != heap_end) lfree = …`. -/
def nextFree (c : Config) (h : Heap) : ℕ → ℕ → Option ℕ
  | 0, _ => none
  | rounds + 1, lfree =>
    if (h.head lfree).used ≠ 0 ∧ lfree ≠ c.heapEnd then nextFree c h rounds (h.head lfree).next
    else some lfree

/-- The head of a block of `size` bytes that is cut off behind `mem`. -/
def splitBlock (c : Config) (h : Heap) (mem size : ℕ) : Heap :=
  let ptr2 := mem + c.sizeofStructMem + size
  let h := h.create ptr2 0 (h.head mem).next mem
  let h := h.setNext mem ptr2
  if (h.head ptr2).next ≠ c.heapEnd then h.setPrev (h.head ptr2).next ptr2 else h

/-- What `rt_malloc` does to the block that it has found. -/
def takeBlock (c : Config) (h : Heap) (mem size : ℕ) : Heap :=
  let h :=
    if size + c.sizeofStructMem + c.minSizeAligned ≤ dataSize c h mem then
      ((splitBlock c h mem size).setUsed mem 1).addUsed (size + c.sizeofStructMem)
    else (h.setUsed mem 1).addUsed ((h.head mem).next - mem)
  h.setMagic mem

/-- The pointer that `rt_malloc` returns, `none` for `RT_NULL`. -/
def rtMalloc (c : Config) (rounds : ℕ) (h : Heap) (size : ℕ) : Option (Heap × Option ℕ) :=
  let aligned := rtAlign c.alignBits size
  if size = 0 ∨ c.memSizeAligned < aligned then some (h, none)
  else
    let size := max aligned c.minSizeAligned
    (findFit c h size rounds h.lfree).bind fun
      | none => some (h, none)
      | some mem =>
        let h := takeBlock c h mem size
        (if mem = h.lfree then nextFree c h rounds mem else some h.lfree).bind fun lfree =>
          if mem + c.sizeofStructMem + size ≤ c.heapEnd ∧ 2 ^ c.alignBits ∣ mem then
            some ({ h with lfree := lfree }, some (mem + c.sizeofStructMem))
          else none

def rtFree (c : Config) (h : Heap) (rmem : ℕ) : Option Heap :=
  let mem := rmem - c.sizeofStructMem
  if 2 ^ c.alignBits ∣ rmem ∧ rmem < c.heapEnd ∧ (h.head mem).used ≠ 0 ∧
      (h.head mem).magic = heapMagic then
    let h := (h.setUsed mem 0).setMagic mem
    let h := { h with lfree := if mem < h.lfree then mem else h.lfree }
    plugHoles c (h.subUsed ((h.head mem).next - mem)) mem
  else none

/-- What `rt_realloc` does up to the end of its critical section, with the size of a block that it
will move. -/
inductive Resize
  | null
  | freed (h : Heap)
  | same
  | shrunk (h : Heap)
  | grows (size : ℕ)

/-- `rt_realloc` of a block up to the end of its critical section, with the aligned size. -/
def rtRealloc (c : Config) (h : Heap) (rmem newsize : ℕ) : Option Resize :=
  if c.memSizeAligned < newsize then some .null
  else if newsize = 0 then (rtFree c h rmem).map .freed
  else if c.heapEnd ≤ rmem then some .same
  else
    let mem := rmem - c.sizeofStructMem
    let size := dataSize c h mem
    if size = newsize then some .same
    else if newsize + c.sizeofStructMem + 12 < size then
      let h := splitBlock c (h.subUsed (size - newsize)) mem newsize
      (plugHoles c h (mem + c.sizeofStructMem + newsize)).map .shrunk
    else some (.grows size)

end Model

end VehicleTerminal.Kernel.Mem
