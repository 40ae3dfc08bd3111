import VehicleTerminal.Library.MachineInt

/-! The ring queue of `Public.c`. Fields are 16-bit, and comparisons are made in `int`;
an access outside `data` leaves a function without result. -/
namespace VehicleTerminal.LzmQueue
open BlockMemory MachineInt

structure StQueue where
  datalen : ℕ
  front : ℕ
  rear : ℕ
  count : ℕ
  data : List UInt8
  deriving Repr, DecidableEq

def lzmQueueClear (pq : StQueue) : StQueue := { pq with front := 0, rear := 0, count := 0 }

def lzmQueueEmpty (pq : StQueue) : Bool := 0 == pq.count

def lzmQueueFull (pq : StQueue) : Bool := pq.count == pq.datalen

def lzmQueueDataFreeSpace (pq : StQueue) : ℕ := uint16 ((pq.datalen : ℤ) - pq.count)

def lzmQueueInsert (pq : StQueue) (qdata : UInt8) : Option StQueue :=
  if lzmQueueFull pq then some pq
  else
    (store pq.data pq.rear qdata).map fun data =>
      let rear := uint16 (pq.rear + 1)
      { pq with
        data := data
        rear := if rear ≥ pq.datalen then 0 else rear
        count := uint16 (pq.count + 1) }

def lzmQueueDataBatchInsert (pq : StQueue) (dest : List UInt8) (datalen : ℕ) :
    Option (StQueue × ℕ) :=
  if lzmQueueFull pq then some (pq, 0)
  else
    let count :=
      if pq.count + datalen > pq.datalen then uint16 ((pq.datalen : ℤ) - pq.count) else datalen
    if pq.rear + count > pq.datalen then
      let count1 := uint16 ((pq.datalen : ℤ) - pq.rear)
      (copyIn pq.data pq.rear dest count1).bind fun data =>
        (copyIn data 0 (dest.drop count1) (sizeT ((count : ℤ) - count1))).map fun data =>
          ({ pq with
            data := data
            rear := uint16 ((count : ℤ) - count1)
            count := uint16 (pq.count + count) }, count)
    else
      (copyIn pq.data pq.rear dest count).map fun data =>
        ({ pq with
          data := data
          rear := uint16 (pq.rear + count)
          count := uint16 (pq.count + count) }, count)

/-- The returned byte is 0 when there is none to take. -/
def lzmQueueDelete (pq : StQueue) : Option (StQueue × UInt8) :=
  if lzmQueueEmpty pq then some (pq, 0)
  else
    (pq.data[pq.front]?).map fun data =>
      let front := uint16 (pq.front + 1)
      ({ pq with
        front := if front ≥ pq.datalen then 0 else front
        count := uint16 ((pq.count : ℤ) - 1) }, data)

def lzmQueueDataBatchDelete (pq : StQueue) (maxcount : ℕ) :
    Option (StQueue × ℕ × List UInt8) :=
  if lzmQueueEmpty pq then some (pq, 0, [])
  else
    let count := if pq.count > maxcount then maxcount else pq.count
    let left := uint16 ((pq.count : ℤ) - count)
    if pq.front + count > pq.datalen then
      let count1 := uint16 ((pq.datalen : ℤ) - pq.front)
      let front := uint16 ((count : ℤ) - count1)
      (copyOut pq.data pq.front count1).bind fun first =>
        (copyOut pq.data 0 front).map fun rest =>
          ({ pq with front := front, count := left }, count, first ++ rest)
    else
      (copyOut pq.data pq.front count).map fun dest =>
        ({ pq with front := uint16 (pq.front + count), count := left }, count, dest)

def lzmQueueDataInit (data : List UInt8) (dataLen : ℤ) : StQueue :=
  lzmQueueClear ⟨uint16 dataLen, 0, 0, 0, data⟩

/-- A block whose length an `unsigned short` can count. -/
structure Batch where
  bytes : List UInt8
  counted : bytes.length < 65536

inductive Operation
  | insert (qdata : UInt8)
  | dataBatchInsert (dest : Batch)
  | delete
  | dataBatchDelete (maxcount : UInt16)
  | clear

/-- What an operation answers. The single-byte operations are read together with the
`LZM_QueueFull` or `LZM_QueueEmpty` test that decides what they do. -/
inductive Reply
  | inserted (full : Bool)
  | batchInserted (count : ℕ)
  | deleted (empty : Bool) (data : UInt8)
  | batchDeleted (count : ℕ) (dest : List UInt8)
  | cleared
  deriving Repr, DecidableEq

def step (pq : StQueue) : Operation → Option (StQueue × Reply)
  | .insert qdata => (lzmQueueInsert pq qdata).map fun r => (r, .inserted (lzmQueueFull pq))
  | .dataBatchInsert dest =>
    (lzmQueueDataBatchInsert pq dest.bytes dest.bytes.length).map fun r =>
      (r.1, .batchInserted r.2)
  | .delete => (lzmQueueDelete pq).map fun r => (r.1, .deleted (lzmQueueEmpty pq) r.2)
  | .dataBatchDelete maxcount =>
    (lzmQueueDataBatchDelete pq maxcount.toNat).map fun r => (r.1, .batchDeleted r.2.1 r.2.2)
  | .clear => some (lzmQueueClear pq, .cleared)

end VehicleTerminal.LzmQueue
