import VehicleTerminal.Queue.CirQueue

/-! The queue of `queue.c` with `QUEUE_HAVE_NODE`: a second ring holds the length of every block
in the byte ring. -/
namespace VehicleTerminal.Queue
open MachineInt

/-- The nodes of `m_pNode` are their field `lens`, a `u16`. -/
structure NodeQueue extends CirQueue where
  iNodeHead : ℤ
  iNodeTail : ℤ
  iNodeNum : ℤ
  iMaxNodeNum : ℤ
  pNode : List ℕ
  deriving Repr, DecidableEq

/-- The node buffer that a caller hands over. -/
def NodeBuffer (m : ℕ) : Type := { pNode : List ℕ // pNode.length = m }

def eCirQueueGenericStaticCreate (queueCapacity nodeNum : ℤ) (pQBuffer : List UInt8)
    (pNodeBuffer : List ℕ) : Option NodeQueue :=
  if queueCapacity < minQueueSize then none
  else
    (storeAt pNodeBuffer 0 0).map fun pNode =>
      { iHead := 0
        iTail := 0
        iQueueLenth := 0
        iQueueCapacity := queueCapacity
        pQueue := pQBuffer
        iNodeHead := 0
        iNodeTail := 0
        iNodeNum := 0
        iMaxNodeNum := nodeNum
        pNode := pNode }

/-- Behind its two guards the function repeats the text of `BufferEnCirQueue`. -/
def bufferNodeEnCirQueue (pBuffer : List UInt8) (bufferLen : ℤ) (c : NodeQueue) :
    Option (NodeQueue × ℤ) :=
  if bufferLen = 0 then some (c, 0)
  else if int32 (c.iNodeNum + 1) ≥ c.iMaxNodeNum then some (c, 0)
  else
    (bufferEnCirQueue pBuffer bufferLen c.toCirQueue).bind fun r =>
      let increaseLens := r.2
      (storeAt c.pNode c.iNodeTail (uint16 increaseLens)).map fun pNode =>
        ({ c with
          toCirQueue := r.1
          pNode := pNode
          iNodeTail := Int.tmod (int32 (c.iNodeTail + 1)) c.iMaxNodeNum
          iNodeNum := int32 (c.iNodeNum + 1) }, increaseLens)

def bufferNodeDeCirQueue (c : NodeQueue) : Option (NodeQueue × ℤ × List UInt8) :=
  let preZeroLen := int32 (c.iQueueCapacity - c.iHead)
  if isCirQueueEmpty c.toCirQueue = .success then some (c, 0, [])
  else if 0 = c.iNodeNum then some (c, 0, [])
  else
    (loadAt c.pNode c.iNodeHead).bind fun lens =>
      let deBufferLen : ℤ := lens
      (copyFromHead c.toCirQueue preZeroLen deBufferLen
          (!decide (preZeroLen ≥ deBufferLen))).bind fun pBuffer =>
        (storeAt c.pNode c.iNodeHead 0).map fun pNode =>
          ({ c with
            iHead := Int.tmod (int32 (c.iHead + deBufferLen)) c.iQueueCapacity
            iQueueLenth := int32 (c.iQueueLenth - deBufferLen)
            iNodeHead := Int.tmod (int32 (c.iNodeHead + 1)) c.iMaxNodeNum
            iNodeNum := int32 (c.iNodeNum - 1)
            pNode := pNode }, deBufferLen, pBuffer)

/-- The part of `vCirQueueGenericClear` for this build is empty. -/
def NodeQueue.vCirQueueGenericClear (c : NodeQueue) : NodeQueue :=
  { c with iHead := 0, iTail := 0, iQueueLenth := 0 }

inductive NodeOperation
  | bufferNodeEnCirQueue (pBuffer : IntBlock)
  | bufferNodeDeCirQueue
  | vCirQueueGenericClear

def nodeStep (c : NodeQueue) : NodeOperation → Option (NodeQueue × Reply)
  | .bufferNodeEnCirQueue pBuffer =>
    (bufferNodeEnCirQueue pBuffer.bytes pBuffer.bytes.length c).map fun r => (r.1, .lens r.2)
  | .bufferNodeDeCirQueue =>
    (bufferNodeDeCirQueue c).map fun r => (r.1, .buffer r.2.1 r.2.2)
  | .vCirQueueGenericClear => some (c.vCirQueueGenericClear, .unit)

end VehicleTerminal.Queue
