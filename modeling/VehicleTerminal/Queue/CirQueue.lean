import VehicleTerminal.Library.MachineInt

/-! The circular byte queue of `queue.c`. All fields are C `int`s, so positions and
lengths wrap at 32 bits; an access outside `m_pQueue` or outside the caller's
buffer leaves a function without result. -/
namespace VehicleTerminal.Queue
open MachineInt

inductive QState
  | success
  | failed
  | enqueueOverflow
  | dequeueOverflow
  deriving Repr, DecidableEq

def minQueueSize : ℕ := 10

structure CirQueue where
  iHead : ℤ
  iTail : ℤ
  iQueueLenth : ℤ
  iQueueCapacity : ℤ
  pQueue : List UInt8
  deriving Repr, DecidableEq

def isCirQueueEmpty (c : CirQueue) : QState :=
  if c.iQueueLenth = 0 then .success else .failed

def isCirQueueFull (c : CirQueue) : QState :=
  if c.iQueueLenth = c.iQueueCapacity then .success else .failed

def enCirQueue (element : UInt8) (c : CirQueue) : Option (CirQueue × QState) :=
  if isCirQueueFull c = .success then some (c, .failed)
  else
    (storeAt c.pQueue c.iTail element).map fun pQueue =>
      ({ c with
        pQueue := pQueue
        iTail := Int.tmod (int32 (c.iTail + 1)) c.iQueueCapacity
        iQueueLenth := int32 (c.iQueueLenth + 1) }, .success)

def bufferEnCirQueue (pBuffer : List UInt8) (bufferLen : ℤ) (c : CirQueue) :
    Option (CirQueue × ℤ) :=
  let residueLen := int32 (c.iQueueCapacity - c.iQueueLenth)
  let preZeroLen := int32 (c.iQueueCapacity - c.iTail)
  if bufferLen = 0 then some (c, 0)
  else
    let increaseLens := if bufferLen > residueLen then residueLen else bufferLen
    let copied :=
      if preZeroLen ≥ increaseLens then memcpyIn c.pQueue c.iTail pBuffer 0 increaseLens
      else
        (memcpyIn c.pQueue c.iTail pBuffer 0 preZeroLen).bind fun pQueue =>
          memcpyIn pQueue 0 pBuffer preZeroLen (int32 (increaseLens - preZeroLen))
    copied.map fun pQueue =>
      ({ c with
        pQueue := pQueue
        iTail := Int.tmod (int32 (c.iTail + increaseLens)) c.iQueueCapacity
        iQueueLenth := int32 (c.iQueueLenth + increaseLens) }, increaseLens)

/-- The element that is written through the caller's pointer, if the queue has one. -/
def deCirQueue (c : CirQueue) : Option (CirQueue × QState × Option UInt8) :=
  if isCirQueueEmpty c = .success then some (c, .failed, none)
  else
    (loadAt c.pQueue c.iHead).map fun element =>
      ({ c with
        iHead := Int.tmod (int32 (c.iHead + 1)) c.iQueueCapacity
        iQueueLenth := int32 (c.iQueueLenth - 1) }, .success, some element)

/-- `length` bytes from the head on, in two copies when they run over the physical end.
`split` tells whether the second copy is made. -/
def copyFromHead (c : CirQueue) (preZeroLen length : ℤ) (split : Bool) :
    Option (List UInt8) :=
  if split then
    (memcpyOut c.pQueue c.iHead preZeroLen).bind fun first =>
      (memcpyOut c.pQueue 0 (int32 (length - preZeroLen))).map fun rest => first ++ rest
  else memcpyOut c.pQueue c.iHead length

def bufferDeCirQueue (bufferLen : ℤ) (c : CirQueue) : Option (CirQueue × ℤ × List UInt8) :=
  let preZeroLen := int32 (c.iQueueCapacity - c.iHead)
  if isCirQueueEmpty c = .success then some (c, 0, [])
  else if bufferLen = 0 then some (c, 0, [])
  else
    let returnLength := if bufferLen > c.iQueueLenth then c.iQueueLenth else bufferLen
    (copyFromHead c preZeroLen returnLength (!decide (preZeroLen ≥ returnLength))).map
      fun pBuffer =>
        ({ c with
          iHead := Int.tmod (int32 (c.iHead + returnLength)) c.iQueueCapacity
          iQueueLenth := int32 (c.iQueueLenth - returnLength) }, returnLength, pBuffer)

/-- The length is cleared before it is returned, so the answer is 0 also after a copy. -/
def allBufferDeCirQueue (c : CirQueue) : Option (CirQueue × ℤ × List UInt8) :=
  let preZeroLen := int32 (c.iQueueCapacity - c.iHead)
  if isCirQueueEmpty c = .success then some (c, 0, [])
  else
    (copyFromHead c preZeroLen c.iQueueLenth (!decide (preZeroLen > c.iQueueLenth))).map
      fun pBuffer =>
        ({ c with
          iHead := Int.tmod (int32 (c.iHead + c.iQueueLenth)) c.iQueueCapacity
          iQueueLenth := 0 }, 0, pBuffer)

def vCirQueueGenericClear (c : CirQueue) : CirQueue :=
  { c with iHead := 0, iTail := 0, iQueueLenth := 0 }

/-- A buffer that the caller hands over for a queue of `n` bytes. -/
def QueueBuffer (n : ℕ) : Type := { pQueue : List UInt8 // pQueue.length = n }

def xCirQueueGenericCreate (uxQueueLength : ℕ) : Option CirQueue :=
  if uxQueueLength < minQueueSize then none
  else some ⟨0, 0, 0, int32 uxQueueLength, List.replicate uxQueueLength 0⟩

/-- `memset` overwrites every byte of the caller's buffer. -/
def xCirQueueGenericStaticCreate (uxQueueLength : ℕ) (pxQueueBuffer : QueueBuffer uxQueueLength) :
    Option CirQueue :=
  if uxQueueLength < minQueueSize then none
  else some ⟨0, 0, 0, int32 uxQueueLength, pxQueueBuffer.val.map fun _ => 0⟩

/-- A block or a length that a C `int` can count. -/
structure IntBlock where
  bytes : List UInt8
  counted : bytes.length < 2147483648

structure IntLength where
  value : ℕ
  counted : value < 2147483648

inductive Operation
  | enCirQueue (element : UInt8)
  | bufferEnCirQueue (pBuffer : IntBlock)
  | deCirQueue
  | bufferDeCirQueue (bufferLen : IntLength)
  | allBufferDeCirQueue
  | vCirQueueGenericClear

/-- What an operation returns together with what it writes into the caller's buffer. -/
inductive Reply
  | state (returned : QState)
  | lens (returned : ℤ)
  | element (returned : QState) (element : Option UInt8)
  | buffer (returned : ℤ) (pBuffer : List UInt8)
  | unit
  deriving Repr, DecidableEq

def step (c : CirQueue) : Operation → Option (CirQueue × Reply)
  | .enCirQueue element => (enCirQueue element c).map fun r => (r.1, .state r.2)
  | .bufferEnCirQueue pBuffer =>
    (bufferEnCirQueue pBuffer.bytes pBuffer.bytes.length c).map fun r => (r.1, .lens r.2)
  | .deCirQueue => (deCirQueue c).map fun r => (r.1, .element r.2.1 r.2.2)
  | .bufferDeCirQueue bufferLen =>
    (bufferDeCirQueue bufferLen.value c).map fun r => (r.1, .buffer r.2.1 r.2.2)
  | .allBufferDeCirQueue => (allBufferDeCirQueue c).map fun r => (r.1, .buffer r.2.1 r.2.2)
  | .vCirQueueGenericClear => some (vCirQueueGenericClear c, .unit)

end VehicleTerminal.Queue
