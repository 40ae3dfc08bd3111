import VehicleTerminal.Library.Ring
import VehicleTerminal.Library.Fifo
import VehicleTerminal.Queue.LzmQueue

/-! The ring queue as a bounded first-in first-out queue. The batch operations may leave
`front` or `rear` on the physical end of the array, and the single-byte operations use
the position as it stands; every other step refines the abstract queue. -/
namespace VehicleTerminal.LzmQueue
open BlockMemory MachineInt CircularBuffer BoundedFifo PartialRun

/-- What an operation is for, on the list of queued bytes. -/
def Follows (n : ℕ) (q : List UInt8) : Operation → Reply → List UInt8 → Prop
  | .insert qdata, reply, q' =>
    reply = .inserted (q.length == n) ∧ q' = q ++ fitting n q [qdata]
  | .dataBatchInsert dest, reply, q' =>
    reply = .batchInserted (fitting n q dest.bytes).length ∧ q' = q ++ fitting n q dest.bytes
  | .delete, reply, q' =>
    match q with
    | [] => reply = .deleted true 0 ∧ q' = []
    | data :: rest => reply = .deleted false data ∧ q' = rest
  | .dataBatchDelete maxcount, reply, q' =>
    reply = .batchDeleted (min maxcount.toNat q.length) (q.take maxcount.toNat) ∧
      q' = q.drop maxcount.toNat
  | .clear, reply, q' => reply = .cleared ∧ q' = []

/-- The bytes that an answered operation accepted or handed out. -/
def moveOf : Operation → Reply → Move UInt8
  | .insert qdata, .inserted full => .accept (if full then [] else [qdata])
  | .dataBatchInsert dest, .batchInserted count => .accept (dest.bytes.take count)
  | _, .deleted empty data => .hand (if empty then [] else [data])
  | _, .batchDeleted _ dest => .hand dest
  | _, _ => .clear

/-- A single-byte operation that touches the array does so at a position inside it. -/
def InsideEnd (pq : StQueue) : Operation → Prop
  | .insert _ => lzmQueueFull pq ∨ pq.rear < pq.datalen
  | .delete => lzmQueueEmpty pq ∨ pq.front < pq.datalen
  | _ => True

/-- The fields of `pq` describe the abstract queue `q` in the first `n` bytes of an array of
`size` bytes. Both positions may stand on the end `n`. -/
structure Coupled (n size : ℕ) (pq : StQueue) (q : List UInt8) : Prop where
  room : q.length ≤ n
  datalen : pq.datalen = n
  count : pq.count = q.length
  front_le : pq.front ≤ n
  rear_le : pq.rear ≤ n
  rear : pq.rear % n = (pq.front + q.length) % n
  allocated : pq.data.length = size
  covers : n ≤ size
  content : Holds pq.data n pq.front q

/-- A run stays inside the array, follows the abstract queue, and hands out in order
exactly what was accepted since the last clear and is not queued any more. -/
def RunsAsFifo (n : ℕ) (pq : StQueue) (ops : List Operation) : Prop :=
  ∃ pq' replies q, run step pq ops = some (pq', replies) ∧
    Allowed (Follows n) [] ops replies q ∧ q.length ≤ n ∧
    (ledger (List.zipWith moveOf ops replies)).Balanced q

section Execution

variable {n front rear count : ℕ} {data : List UInt8}

theorem lzmQueueInsert_eq (qdata : UInt8) (hn : n < 65536) (hd : n ≤ data.length)
    (hc : count < n) (hr : rear < n) :
    lzmQueueInsert ⟨n, front, rear, count, data⟩ qdata =
      some ⟨n, front, if rear + 1 ≥ n then 0 else rear + 1, count + 1,
        wrapWrite data n rear [qdata]⟩ := by
  have hfull : ¬ count = n := by omega
  have hfits : rear + [qdata].length ≤ n := hr
  have hrear : uint16 ((rear : ℤ) + 1) = rear + 1 := uint16_natCast_add (b := 1) (by omega)
  have hcount : uint16 ((count : ℤ) + 1) = count + 1 := uint16_natCast_add (b := 1) (by omega)
  simp only [lzmQueueInsert, lzmQueueFull, beq_iff_eq, hfull, if_false,
    store_of_lt qdata (hr.trans_le hd), Option.map_some, hrear, hcount, wrapWrite, if_pos hfits]

theorem lzmQueueInsert_full (qdata : UInt8) :
    lzmQueueInsert ⟨n, front, rear, n, data⟩ qdata = some ⟨n, front, rear, n, data⟩ := by
  simp [lzmQueueInsert, lzmQueueFull]

/-- A store at the physical end leaves the array. -/
theorem lzmQueueInsert_at_end (qdata : UInt8) (hd : data.length = n) (hc : count < n)
    (hr : n ≤ rear) : lzmQueueInsert ⟨n, front, rear, count, data⟩ qdata = none := by
  have hfull : ¬ count = n := by omega
  simp only [lzmQueueInsert, lzmQueueFull, beq_iff_eq, hfull, if_false,
    store_eq_none_iff.mpr (hd.symm ▸ hr), Option.map_none]

theorem lzmQueueDataBatchInsert_full (dest : List UInt8) (datalen : ℕ) :
    lzmQueueDataBatchInsert ⟨n, front, rear, n, data⟩ dest datalen =
      some (⟨n, front, rear, n, data⟩, 0) := by
  simp [lzmQueueDataBatchInsert, lzmQueueFull]

theorem lzmQueueDataBatchInsert_eq {dest : List UInt8} {k : ℕ}
    (hk : k = min dest.length (n - count)) (hn : n < 65536) (hd : n ≤ data.length)
    (hc : count < n) (hr : rear ≤ n) :
    lzmQueueDataBatchInsert ⟨n, front, rear, count, data⟩ dest dest.length =
      some (⟨n, front, if rear + k > n then k - (n - rear) else rear + k, count + k,
        wrapWrite data n rear (dest.take k)⟩, k) := by
  have hfull : ¬ count = n := by omega
  have hmoved : (if count + dest.length > n then uint16 ((n : ℤ) - count) else dest.length) =
      k := by
    rw [uint16_natCast_sub hc.le hn]
    split_ifs <;> omega
  have htaken : (dest.take k).length = k := by
    rw [List.length_take]
    omega
  have hcount : uint16 ((count : ℤ) + k) = count + k := uint16_natCast_add (by omega)
  simp only [lzmQueueDataBatchInsert, lzmQueueFull, beq_iff_eq, hfull, if_false, hmoved]
  by_cases hwrap : rear + k > n
  · have hcount1 : uint16 ((n : ℤ) - rear) = n - rear := uint16_natCast_sub hr hn
    have hrest : uint16 ((k : ℤ) - (n - rear : ℕ)) = k - (n - rear) :=
      uint16_natCast_sub (by omega) (by omega)
    have hsize : sizeT ((k : ℤ) - (n - rear : ℕ)) = k - (n - rear) :=
      sizeT_natCast_sub (by omega) (by omega)
    have hfirst : copyIn data rear dest (n - rear) = some (blit data rear (dest.take (n - rear))) :=
      copyIn_of_le (by omega) (by omega)
    have hlength : (blit data rear (dest.take (n - rear))).length = data.length :=
      blit_length _ _ _ (by rw [List.length_take]; omega)
    have hsecond : copyIn (blit data rear (dest.take (n - rear))) 0 (dest.drop (n - rear))
        (k - (n - rear)) = some (wrapWrite data n rear (dest.take k)) := by
      rw [copyIn_of_le (by omega) (by rw [List.length_drop]; omega), wrapWrite,
        if_neg (by omega), List.take_take, List.drop_take, Nat.min_eq_left (by omega)]
    simp only [hwrap, if_true, hcount1, hrest, hsize, hfirst, Option.bind_some, hsecond,
      Option.map_some, hcount]
  · have hone : copyIn data rear dest k = some (wrapWrite data n rear (dest.take k)) := by
      rw [copyIn_of_le (by omega) (by omega), wrapWrite, if_pos (by omega)]
    have hrear : uint16 ((rear : ℤ) + k) = rear + k := uint16_natCast_add (by omega)
    simp only [hwrap, if_false, hone, Option.map_some, hcount, hrear]

theorem lzmQueueDelete_eq {byte : UInt8} (hn : n < 65536) (hc : 0 < count) (hle : count ≤ n)
    (hf : front < n) (hb : data[front]? = some byte) :
    lzmQueueDelete ⟨n, front, rear, count, data⟩ =
      some (⟨n, if front + 1 ≥ n then 0 else front + 1, rear, count - 1, data⟩, byte) := by
  have hempty : ¬ 0 = count := by omega
  have hfront : uint16 ((front : ℤ) + 1) = front + 1 := uint16_natCast_add (b := 1) (by omega)
  have hcount : uint16 ((count : ℤ) - 1) = count - 1 :=
    uint16_natCast_sub (b := 1) (by omega) (by omega)
  simp only [lzmQueueDelete, lzmQueueEmpty, beq_iff_eq, hempty, if_false, hb, Option.map_some,
    hfront, hcount]

/-- A load at the physical end leaves the array. -/
theorem lzmQueueDelete_at_end (hd : data.length = n) (hc : 0 < count) (hf : n ≤ front) :
    lzmQueueDelete ⟨n, front, rear, count, data⟩ = none := by
  have hempty : ¬ 0 = count := by omega
  simp only [lzmQueueDelete, lzmQueueEmpty, beq_iff_eq, hempty, if_false,
    List.getElem?_eq_none (hd.symm ▸ hf), Option.map_none]

theorem lzmQueueDataBatchDelete_empty (maxcount : ℕ) :
    lzmQueueDataBatchDelete ⟨n, front, rear, 0, data⟩ maxcount =
      some (⟨n, front, rear, 0, data⟩, 0, []) := by
  simp [lzmQueueDataBatchDelete, lzmQueueEmpty]

theorem lzmQueueDataBatchDelete_eq {maxcount k : ℕ} (hk : k = min maxcount count)
    (hn : n < 65536) (hd : n ≤ data.length) (hc : 0 < count) (hle : count ≤ n) (hf : front ≤ n) :
    lzmQueueDataBatchDelete ⟨n, front, rear, count, data⟩ maxcount =
      some (⟨n, if front + k > n then k - (n - front) else front + k, rear, count - k, data⟩, k,
        wrapRead data n front k) := by
  have hempty : ¬ 0 = count := by omega
  have hmoved : (if count > maxcount then maxcount else count) = k := by
    split_ifs <;> omega
  have hleft : uint16 ((count : ℤ) - k) = count - k := uint16_natCast_sub (by omega) (by omega)
  simp only [lzmQueueDataBatchDelete, lzmQueueEmpty, beq_iff_eq, hempty, if_false, hmoved, hleft]
  by_cases hwrap : front + k > n
  · have hcount1 : uint16 ((n : ℤ) - front) = n - front := uint16_natCast_sub hf hn
    have hrest : uint16 ((k : ℤ) - (n - front : ℕ)) = k - (n - front) :=
      uint16_natCast_sub (by omega) (by omega)
    have hfirst : copyOut data front (n - front) = some (slice data front (n - front)) :=
      copyOut_of_le (by omega)
    have hsecond : copyOut data 0 (k - (n - front)) = some (slice data 0 (k - (n - front))) :=
      copyOut_of_le (by omega)
    simp only [hwrap, if_true, hcount1, hrest, hfirst, hsecond, Option.bind_some,
      Option.map_some, wrapRead, if_neg (show ¬ front + k ≤ n by omega)]
  · have hfront : uint16 ((front : ℤ) + k) = front + k := uint16_natCast_add (by omega)
    simp only [hwrap, if_false, copyOut_of_le (show front + k ≤ data.length by omega),
      Option.map_some, hfront, wrapRead, if_pos (show front + k ≤ n by omega)]

end Execution

section Steps

variable {n size front rear count : ℕ} {data q : List UInt8}

theorem Coupled.allocates {pq : StQueue} (h : Coupled n size pq q) : n ≤ pq.data.length :=
  h.allocated.symm ▸ h.covers

theorem Coupled.full_eq {pq : StQueue} (h : Coupled n size pq q) :
    lzmQueueFull pq = (q.length == n) := by
  rw [lzmQueueFull, h.count, h.datalen]

theorem Coupled.empty_eq {pq : StQueue} (h : Coupled n size pq q) :
    lzmQueueEmpty pq = q.isEmpty := by
  rw [lzmQueueEmpty, h.count]
  cases q <;> rfl

theorem Coupled.freeSpace_eq {pq : StQueue} (h : Coupled n size pq q) (hn : n < 65536) :
    lzmQueueDataFreeSpace pq = n - q.length := by
  rw [lzmQueueDataFreeSpace, h.count, h.datalen, uint16_natCast_sub h.room hn]

/-- The bytes that the ring holds, from the front on. -/
def queued (pq : StQueue) : List UInt8 :=
  (List.range pq.count).map fun i => pq.data.getD ((pq.front + i) % pq.datalen) 0

theorem Coupled.queued_eq {pq : StQueue} (h : Coupled n size pq q) : queued pq = q := by
  apply List.ext_getElem
  · rw [queued, List.length_map, List.length_range, h.count]
  · intro i hi hq
    have hcell := h.content i hq
    simp only [queued, List.getElem_map, List.getElem_range, h.datalen, List.getD_eq_getElem?_getD,
      hcell, List.getElem?_eq_getElem hq, Option.getD_some]

theorem fitting_full {xs : List UInt8} (h : q.length = n) : fitting n q xs = [] := by
  simp [fitting, h]

/-- Both ways to bring a position back from the physical end keep it modulo `n`. -/
theorem batch_advance {pos k : ℕ} (hpos : pos ≤ n) (hk : k ≤ n) :
    (if pos + k > n then k - (n - pos) else pos + k) ≤ n ∧
      (if pos + k > n then k - (n - pos) else pos + k) % n = (pos + k) % n := by
  split_ifs with h
  · refine ⟨by omega, ?_⟩
    rw [show pos + k = k - (n - pos) + n by omega, Nat.add_mod_right]
  · exact ⟨by omega, rfl⟩

theorem single_advance {pos : ℕ} (hpos : pos < n) :
    (if pos + 1 ≥ n then 0 else pos + 1) ≤ n ∧
      (if pos + 1 ≥ n then 0 else pos + 1) % n = (pos + 1) % n := by
  split_ifs with h
  · refine ⟨Nat.zero_le n, ?_⟩
    rw [show pos + 1 = n by omega, Nat.mod_self, Nat.zero_mod]
  · exact ⟨by omega, rfl⟩

/-- Appending at the rear. -/
theorem Coupled.append {xs : List UInt8} {rear' : ℕ}
    (h : Coupled n size ⟨n, front, rear, count, data⟩ q) (hx : q.length + xs.length ≤ n)
    (hr : rear' ≤ n ∧ rear' % n = (rear + xs.length) % n) :
    Coupled n size ⟨n, front, rear', count + xs.length, wrapWrite data n rear xs⟩ (q ++ xs) where
  room := by rwa [List.length_append]
  datalen := rfl
  count := by rw [List.length_append, ← h.count]
  front_le := h.front_le
  rear_le := hr.1
  rear := by
    rw [hr.2, List.length_append, ← Nat.add_assoc]
    exact add_mod_congr h.rear _
  allocated := (wrapWrite_length h.allocates h.rear_le (by omega)).trans h.allocated
  covers := h.covers
  content := h.content.append h.allocates h.rear_le h.rear hx

/-- Dropping at the front. -/
theorem Coupled.drop {k front' : ℕ} (h : Coupled n size ⟨n, front, rear, count, data⟩ q)
    (hk : k ≤ q.length) (hf : front' ≤ n ∧ front' % n = (front + k) % n) :
    Coupled n size ⟨n, front', rear, count - k, data⟩ (q.drop k) where
  room := by
    rw [List.length_drop]
    exact (Nat.sub_le _ _).trans h.room
  datalen := rfl
  count := by
    rw [List.length_drop]
    exact congrArg (· - k) h.count
  front_le := hf.1
  rear_le := h.rear_le
  rear := by
    rw [add_mod_congr hf.2, List.length_drop, show front + k + (q.length - k) = front + q.length
      by omega]
    exact h.rear
  allocated := h.allocated
  covers := h.covers
  content := h.content.drop hf.2

theorem Coupled.read {k : ℕ} (h : Coupled n size ⟨n, front, rear, count, data⟩ q)
    (hk : k ≤ q.length) : wrapRead data n front k = q.take k :=
  h.content.read h.allocates h.front_le hk h.room

theorem insert_refines {pq : StQueue} (h : Coupled n size pq q) (hn : n < 65536)
    (qdata : UInt8) (hg : lzmQueueFull pq ∨ pq.rear < pq.datalen) :
    ∃ pq', lzmQueueInsert pq qdata = some pq' ∧
      Coupled n size pq' (q ++ fitting n q [qdata]) := by
  obtain ⟨datalen, front, rear, count, data⟩ := pq
  obtain rfl : datalen = n := h.datalen
  have hcount : count = q.length := h.count
  by_cases hfull : q.length = datalen
  · obtain rfl : count = datalen := hcount.trans hfull
    exact ⟨_, lzmQueueInsert_full qdata, by rwa [fitting_full hfull, List.append_nil]⟩
  · have hroom : q.length < datalen := lt_of_le_of_ne h.room hfull
    have hfit : fitting datalen q [qdata] = [qdata] := List.take_of_length_le (by simp; omega)
    have hrear : rear < datalen := by
      simp only [lzmQueueFull, beq_iff_eq] at hg
      exact hg.resolve_left (by omega)
    refine ⟨_, lzmQueueInsert_eq qdata hn h.allocates (by omega) hrear, ?_⟩
    rw [hfit]
    have hadvance : q.length + [qdata].length ≤ datalen := by simpa using hroom
    exact h.append hadvance (single_advance hrear)

theorem dataBatchInsert_refines {pq : StQueue} (h : Coupled n size pq q) (hn : n < 65536)
    (dest : List UInt8) :
    ∃ pq', lzmQueueDataBatchInsert pq dest dest.length =
      some (pq', (fitting n q dest).length) ∧ Coupled n size pq' (q ++ fitting n q dest) ∧
      pq'.front = pq.front := by
  obtain ⟨datalen, front, rear, count, data⟩ := pq
  obtain rfl : datalen = n := h.datalen
  have hcount : count = q.length := h.count
  by_cases hfull : q.length = datalen
  · obtain rfl : count = datalen := hcount.trans hfull
    rw [fitting_full hfull, List.append_nil]
    exact ⟨_, lzmQueueDataBatchInsert_full dest dest.length, h, rfl⟩
  · have hroom : q.length < datalen := lt_of_le_of_ne h.room hfull
    have hk : (fitting datalen q dest).length = min dest.length (datalen - count) := by
      rw [fitting_length, hcount]
    have htake : dest.take (fitting datalen q dest).length = fitting datalen q dest := by
      rw [hk, hcount, fitting, List.take_eq_take_iff]
      omega
    refine ⟨_, lzmQueueDataBatchInsert_eq hk hn h.allocates (by omega) h.rear_le, ?_, rfl⟩
    rw [htake]
    exact h.append (by omega) (batch_advance h.rear_le (by omega))

theorem delete_refines {pq : StQueue} {byte : UInt8} {rest : List UInt8}
    (h : Coupled n size pq (byte :: rest)) (hn : n < 65536) (hf : pq.front < n) :
    ∃ pq', lzmQueueDelete pq = some (pq', byte) ∧ Coupled n size pq' rest ∧ pq'.front < n := by
  obtain ⟨datalen, front, rear, count, data⟩ := pq
  obtain rfl : datalen = n := h.datalen
  have hcount : count = rest.length + 1 := h.count
  have hroom : rest.length + 1 ≤ datalen := h.room
  have hfirst : data[front]? = some byte := by
    have h0 := h.content 0 (by simp)
    rwa [Nat.add_zero, Nat.mod_eq_of_lt hf] at h0
  refine ⟨_, lzmQueueDelete_eq hn (by omega) (by omega) hf hfirst,
    h.drop (k := 1) (by simp) (single_advance hf), ?_⟩
  simp only at hf ⊢
  split_ifs <;> omega

theorem dataBatchDelete_refines {pq : StQueue} (h : Coupled n size pq q) (hn : n < 65536)
    (maxcount : ℕ) :
    ∃ pq', lzmQueueDataBatchDelete pq maxcount =
      some (pq', min maxcount q.length, q.take maxcount) ∧
      Coupled n size pq' (q.drop maxcount) := by
  obtain ⟨datalen, front, rear, count, data⟩ := pq
  obtain rfl : datalen = n := h.datalen
  have hcount : count = q.length := h.count
  cases hq : q with
  | nil =>
    obtain rfl : count = 0 := by rw [hcount, hq, List.length_nil]
    rw [hq] at h
    exact ⟨_, by simpa using lzmQueueDataBatchDelete_empty maxcount, by simpa using h⟩
  | cons byte rest =>
    rw [← hq]
    have hpos : 0 < q.length := by simp [hq]
    have hk : min maxcount q.length = min maxcount count := by rw [hcount]
    have htake : q.take (min maxcount q.length) = q.take maxcount := by
      rw [List.take_eq_take_iff]
      omega
    have hroom := h.room
    refine ⟨_, by rw [lzmQueueDataBatchDelete_eq hk hn h.allocates (by omega) (by omega)
      h.front_le, h.read (by omega), htake], ?_⟩
    rw [List.drop_eq_drop_min, Nat.min_comm]
    exact h.drop (by omega) (batch_advance h.front_le (by omega))

theorem clear_coupled {pq : StQueue} (h : Coupled n size pq q) :
    Coupled n size (lzmQueueClear pq) [] where
  room := Nat.zero_le n
  datalen := h.datalen
  count := rfl
  front_le := Nat.zero_le n
  rear_le := Nat.zero_le n
  rear := rfl
  allocated := h.allocated
  covers := h.covers
  content := holds_nil _ _ _

theorem init_coupled (hn : n < 65536) (hd : data.length = size) (hs : n ≤ size) :
    Coupled n size (lzmQueueDataInit data n) [] where
  room := Nat.zero_le n
  datalen := uint16_natCast hn
  count := rfl
  front_le := Nat.zero_le n
  rear_le := Nat.zero_le n
  rear := rfl
  allocated := hd
  covers := hs
  content := holds_nil _ _ _

/-- One operation that keeps its position inside the array, by cases on the operation. -/
theorem step_refines (hn : n < 65536) :
    StepRefines step (Follows n) (Coupled n size) InsideEnd := by
  intro pq q op h hg
  cases op with
  | insert qdata =>
    obtain ⟨pq', hrun, hc⟩ := insert_refines h hn qdata hg
    exact ⟨pq', _, _, by rw [step, hrun, Option.map_some], ⟨by rw [h.full_eq], rfl⟩, hc⟩
  | dataBatchInsert dest =>
    obtain ⟨pq', hrun, hc, -⟩ := dataBatchInsert_refines h hn dest.bytes
    exact ⟨pq', _, _, by rw [step, hrun, Option.map_some], ⟨rfl, rfl⟩, hc⟩
  | delete =>
    cases q with
    | nil =>
      have hempty : lzmQueueEmpty pq = true := h.empty_eq
      have hrun : lzmQueueDelete pq = some (pq, 0) := by simp [lzmQueueDelete, hempty]
      exact ⟨pq, .deleted true 0, [], by rw [step, hrun, Option.map_some, hempty], ⟨rfl, rfl⟩, h⟩
    | cons byte rest =>
      have hempty : lzmQueueEmpty pq = false := h.empty_eq
      have hfront : pq.front < n := by simpa [InsideEnd, hempty, h.datalen] using hg
      obtain ⟨pq', hrun, hc, -⟩ := delete_refines h hn hfront
      exact ⟨pq', .deleted false byte, rest, by rw [step, hrun, Option.map_some, hempty],
        ⟨rfl, rfl⟩, hc⟩
  | dataBatchDelete maxcount =>
    obtain ⟨pq', hrun, hc⟩ := dataBatchDelete_refines h hn maxcount.toNat
    exact ⟨pq', _, _, by rw [step, hrun, Option.map_some], ⟨rfl, rfl⟩, hc⟩
  | clear => exact ⟨_, .cleared, [], rfl, ⟨rfl, rfl⟩, clear_coupled h⟩

/-- In an array of exactly `n` bytes a step with a result kept its position inside. -/
theorem insideEnd_of_step {pq : StQueue} (h : Coupled n n pq q) {op : Operation}
    (hs : step pq op ≠ none) : InsideEnd pq op := by
  obtain ⟨datalen, front, rear, count, data⟩ := pq
  obtain rfl : datalen = n := h.datalen
  have hcount : count = q.length := h.count
  have hroom := h.room
  cases op with
  | insert qdata =>
    by_contra hg
    simp only [InsideEnd, lzmQueueFull, beq_iff_eq, not_or, not_lt] at hg
    exact hs (by rw [step, lzmQueueInsert_at_end qdata h.allocated (by omega) hg.2,
      Option.map_none])
  | delete =>
    by_contra hg
    simp only [InsideEnd, lzmQueueEmpty, beq_iff_eq, not_or, not_lt] at hg
    exact hs (by rw [step, lzmQueueDelete_at_end h.allocated (by omega) hg.2, Option.map_none])
  | dataBatchInsert dest => trivial
  | dataBatchDelete maxcount => trivial
  | clear => trivial

theorem follows_moves : MovesBy n (Follows n) moveOf := by
  intro q op reply q' hq h
  have hfit (xs : List UInt8) : Moves n q (.accept (fitting n q xs)) (q ++ fitting n q xs) :=
    ⟨rfl, append_fitting_length hq xs⟩
  cases op with
  | insert qdata =>
    obtain ⟨rfl, rfl⟩ := h
    have haccepted : (if q.length == n then [] else [qdata]) = fitting n q [qdata] := by
      by_cases hfull : q.length = n
      · simp [hfull, fitting_full]
      · have hone : fitting n q [qdata] = [qdata] := List.take_of_length_le (by simp; omega)
        simp [hfull, hone]
    rw [moveOf, haccepted]
    exact hfit [qdata]
  | dataBatchInsert dest =>
    obtain ⟨rfl, rfl⟩ := h
    have htake : dest.bytes.take (fitting n q dest.bytes).length = fitting n q dest.bytes := by
      rw [fitting_length, fitting, List.take_eq_take_iff]
      omega
    rw [moveOf, htake]
    exact hfit dest.bytes
  | delete =>
    cases q with
    | nil =>
      obtain ⟨rfl, rfl⟩ := h
      rfl
    | cons byte rest =>
      obtain ⟨rfl, rfl⟩ := h
      rfl
  | dataBatchDelete maxcount =>
    obtain ⟨rfl, rfl⟩ := h
    exact (List.take_append_drop _ _).symm
  | clear =>
    obtain ⟨rfl, rfl⟩ := h
    rfl

end Steps

/-- A run from the initial queue is a first-in first-out run inside the array exactly when
each single-byte step that touches the array finds its position inside it. -/
theorem runsAsFifo_iff {n : ℕ} {data : List UInt8} (hn : n < 65536) (hd : data.length = n)
    (ops : List Operation) :
    RunsAsFifo n (lzmQueueDataInit data n) ops ↔
      Guarded step InsideEnd (lzmQueueDataInit data n) ops := by
  have hinit : Coupled n n (lzmQueueDataInit data n) [] := init_coupled hn hd le_rfl
  constructor
  · rintro ⟨pq', replies, q, hrun, -⟩
    exact (step_refines hn).guarded_of_run (fun _ _ _ hc hs => insideEnd_of_step hc hs) hinit hrun
  · intro hguarded
    obtain ⟨pq', replies, q, hrun, hallowed, hcoupled⟩ := (step_refines hn).run hinit hguarded
    exact ⟨pq', replies, q, hrun, hallowed, hcoupled.room, follows_moves.ledger_balanced hallowed⟩

/-- Filling a one-byte queue in a batch, emptying it in a batch, and inserting one byte. -/
def batchThenInsert : List Operation :=
  [.dataBatchInsert ⟨[7], by decide⟩, .dataBatchDelete 1, .insert 8]

/-- The array and a batch together stay in the 16-bit range. -/
def BatchFits (n : ℕ) : Operation → Prop
  | .dataBatchInsert dest => n + dest.bytes.length < 65536
  | .dataBatchDelete maxcount => n + maxcount.toNat < 65536
  | _ => True

theorem runsAsFifo_iff_batch : 1 < 65536 ∧ [(0 : UInt8)].length = 1 ∧
    (RunsAsFifo 1 (lzmQueueDataInit [0] 1) batchThenInsert ↔
      Guarded step InsideEnd (lzmQueueDataInit [0] 1) batchThenInsert) :=
  ⟨by decide, rfl, runsAsFifo_iff (by decide) rfl batchThenInsert⟩

theorem not_runsAsFifo_batch :
    ¬ ∀ (n : ℕ) (data : List UInt8) (ops : List Operation), 1 ≤ n → n < 65536 →
      data.length = n → (∀ op ∈ ops, BatchFits n op) →
        RunsAsFifo n (lzmQueueDataInit data n) ops := by
  intro h
  have hfits : ∀ op ∈ batchThenInsert, BatchFits 1 op := by simp [batchThenInsert, BatchFits]
  obtain ⟨pq', replies, q, hrun, -⟩ := h 1 [0] batchThenInsert le_rfl (by decide) rfl hfits
  have hnone : run step (lzmQueueDataInit [0] 1) batchThenInsert = none := by decide
  rw [Nat.cast_one, hnone] at hrun
  cases hrun

end VehicleTerminal.LzmQueue
