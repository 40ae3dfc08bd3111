import VehicleTerminal.Library.MachineInt

/-! The receivers of the test ports in `CommParam.c`, `CommTest4.c` and `CommTest5.c`. The driver
hands out any front part of the bytes waiting; an access outside `recvBuff` leaves a call without
result. -/
namespace VehicleTerminal.Receive
open BlockMemory MachineInt

section Model

/-- The fields of `ST_COMM` that the receivers use. -/
structure StComm where
  recvlen : ℕ
  recvfreeCnt : ℕ
  recvBuff : List UInt8
  deriving Repr, DecidableEq

/-- What a call did: the block of `recvBuff` that it lent to the driver, the bytes that were read,
and those that were handed to the parser. -/
structure Checked where
  start : ℕ
  size : ℕ
  read : List UInt8
  parsed : Option (List UInt8)
  deriving Repr, DecidableEq

def protocolParse (comm : StComm) (checked : Checked) : Option (StComm × Checked) :=
  (copyOut comm.recvBuff 0 comm.recvlen).map fun block =>
    ({ comm with recvlen := 0, recvfreeCnt := 0 }, { checked with parsed := some block })

/-- The three receivers differ in the length of the buffer and in the type of the size. -/
def checkReadData (maxRecLen : ℕ) (sizeType : ℤ → ℕ) (read : ℕ → List UInt8) (comm : StComm) :
    Option (StComm × Checked) :=
  let size := sizeType ((maxRecLen : ℤ) - comm.recvlen)
  let bytes := read size
  (copyIn comm.recvBuff comm.recvlen bytes bytes.length).bind fun recvBuff =>
    let checked : Checked := ⟨comm.recvlen, size, bytes, none⟩
    let datalen := uint16 bytes.length
    let comm := { comm with recvlen := uint16 (comm.recvlen + datalen), recvBuff := recvBuff }
    if 0 = datalen then
      if comm.recvlen ≠ 0 then
        let comm := { comm with recvfreeCnt := (comm.recvfreeCnt + 1) % 256 }
        if comm.recvfreeCnt > 1 then protocolParse comm checked
        else some (comm, checked)
      else some (comm, checked)
    else if comm.recvlen + 10 > maxRecLen then protocolParse comm checked
    else some ({ comm with recvfreeCnt := 0 }, checked)

def comparamMaxRecLen : ℕ := 128

def comtest4MaxRecLen : ℕ := 128

def comtest5MaxRecLen : ℕ := 128

/-- The size of `stm32_serial1_read` is an `rt_size_t`. -/
def commParamCheckReadData := checkReadData comparamMaxRecLen sizeT

/-- The size of `COMM_ReadData` is an `unsigned short`. -/
def commTest4CheckReadData := checkReadData comtest4MaxRecLen uint16

/-- The size of `stm32_serial5_read` is an `rt_size_t`. -/
def commTest5CheckReadData := checkReadData comtest5MaxRecLen sizeT

inductive Port
  | commParam
  | commTest4
  | commTest5
  deriving Repr, DecidableEq

def Port.maxRecLen : Port → ℕ
  | .commParam => comparamMaxRecLen
  | .commTest4 => comtest4MaxRecLen
  | .commTest5 => comtest5MaxRecLen

def Port.checkReadData : Port → (ℕ → List UInt8) → StComm → Option (StComm × Checked)
  | .commParam => commParamCheckReadData
  | .commTest4 => commTest4CheckReadData
  | .commTest5 => commTest5CheckReadData

/-- A receiver, the bytes that have arrived and were not read, and the log of the calls. -/
structure Line where
  comm : StComm
  waiting : List UInt8
  calls : List Checked
  deriving Repr, DecidableEq

/-- Bytes arrive, or the receiver is called and the driver has at most `k` bytes for it. -/
inductive Event
  | arrive (bytes : List UInt8)
  | checkReadData (k : ℕ)
  deriving Repr, DecidableEq

def event (port : Port) (line : Line) : Event → Option Line
  | .arrive bytes => some { line with waiting := line.waiting ++ bytes }
  | .checkReadData k =>
    (port.checkReadData (fun size => line.waiting.take (min k size)) line.comm).map fun r =>
      ⟨r.1, line.waiting.drop r.2.read.length, line.calls ++ [r.2]⟩

/-- The receiver after its initialisation. -/
def init (port : Port) : Line := ⟨⟨0, 0, List.replicate (port.maxRecLen + 1) 0⟩, [], []⟩

def run (port : Port) (line : Line) (events : List Event) : Option Line :=
  events.foldlM (event port) line

end Model

section Property

def StComm.pending (comm : StComm) : List UInt8 := comm.recvBuff.take comm.recvlen

def Checked.handed (c : Checked) : List UInt8 := c.parsed.getD []

/-- The driver is asked for 1 to 128 bytes inside the buffer, no byte is lost, and two calls in
succession that read nothing leave nothing pending. -/
structure Receives (port : Port) (line : Line) : Prop where
  asked : ∀ c ∈ line.calls, 1 ≤ c.size ∧ c.size ≤ 128 ∧ c.start + c.size ≤ line.comm.recvBuff.length
  kept : line.calls.flatMap Checked.handed ++ line.comm.pending = line.calls.flatMap Checked.read
  handed : ∀ cs c c', line.calls = cs ++ [c, c'] → c.read = [] → c'.read = [] →
    line.comm.pending = []

/-- The bytes that arrive. -/
def Event.bytes : Event → List UInt8
  | .arrive bytes => bytes
  | .checkReadData _ => []

/-- The calls of these events read what the driver has for them, and leave the rest waiting. -/
def Reads : List UInt8 → List Event → List Checked → List UInt8 → Prop
  | waiting, [], calls, rest => calls = [] ∧ rest = waiting
  | waiting, .arrive bytes :: events, calls, rest => Reads (waiting ++ bytes) events calls rest
  | waiting, .checkReadData k :: events, calls, rest => ∃ c later, calls = c :: later ∧
    c.read = waiting.take (min k c.size) ∧ Reads (waiting.drop c.read.length) events later rest

/-- What has arrived was read or waits. -/
theorem Reads.arrived {waiting rest : List UInt8} {events : List Event} {calls : List Checked}
    (h : Reads waiting events calls rest) :
    waiting ++ events.flatMap Event.bytes = calls.flatMap Checked.read ++ rest := by
  induction events generalizing waiting calls with
  | nil =>
    obtain ⟨rfl, rfl⟩ := h
    simp
  | cons e events ih =>
    cases e with
    | arrive bytes =>
      have hrest := ih h
      simpa only [List.flatMap_cons, Event.bytes, List.append_assoc] using hrest
    | checkReadData k =>
      obtain ⟨c, later, rfl, hread, hlater⟩ := h
      have hfront : c.read ++ waiting.drop c.read.length = waiting := by
        rw [hread, List.length_take, List.take_eq_take_min, List.take_append_drop]
      have hrest := ih hlater
      simp only [List.flatMap_cons, Event.bytes, List.nil_append, List.append_assoc]
      rw [← hrest, ← List.append_assoc, hfront]

/-- Between two calls at least ten bytes of the buffer are free and at most one idle call is
counted. -/
structure Ready (maxRecLen : ℕ) (comm : StComm) : Prop where
  room : comm.recvlen + 10 ≤ maxRecLen
  idle : comm.recvfreeCnt ≤ 1
  allocated : comm.recvBuff.length = maxRecLen + 1

/-- What one call on a ready receiver does. -/
structure Handles (maxRecLen : ℕ) (bytes : List UInt8) (comm comm' : StComm) (c : Checked) :
    Prop where
  ready : Ready maxRecLen comm'
  start : c.start = comm.recvlen
  size : c.size = maxRecLen - comm.recvlen
  read : c.read = bytes
  kept : c.handed ++ comm'.pending = comm.pending ++ bytes
  counted : bytes = [] → comm'.recvlen = 0 ∨ comm'.recvfreeCnt = 1
  flushed : bytes = [] → comm.recvlen = 0 ∨ comm.recvfreeCnt = 1 → comm'.recvlen = 0

section Calls

variable {maxRecLen : ℕ} {sizeType : ℤ → ℕ} {comm : StComm} {bytes : List UInt8}

theorem pending_eq_nil (h : comm.recvlen = 0) : comm.pending = [] := by
  rw [StComm.pending, h, List.take_zero]

/-- The bytes that the driver writes behind the pending ones. -/
theorem pending_blit (hfits : comm.recvlen ≤ comm.recvBuff.length) (recvfreeCnt : ℕ) :
    StComm.pending ⟨comm.recvlen + bytes.length, recvfreeCnt,
      blit comm.recvBuff comm.recvlen bytes⟩ = comm.pending ++ bytes :=
  take_blit _ _ _ hfits

/-- The parser gets all that is pending. -/
theorem protocolParse_eq (h : comm.recvlen ≤ comm.recvBuff.length) (c : Checked) :
    protocolParse comm c =
      some ({ comm with recvlen := 0, recvfreeCnt := 0 }, { c with parsed := comm.pending }) := by
  rw [protocolParse, copyOut_of_le (by omega), Option.map_some, StComm.pending, slice,
    List.drop_zero]

/-- The driver has written `bytes` behind the pending ones. -/
theorem checkReadData_eq (hready : Ready maxRecLen comm) (hmax : maxRecLen ≤ 128)
    (hsize : ∀ k ≤ maxRecLen, sizeType (k : ℤ) = k) {read : ℕ → List UInt8}
    (hread : read (maxRecLen - comm.recvlen) = bytes)
    (hshort : bytes.length ≤ maxRecLen - comm.recvlen) :
    checkReadData maxRecLen sizeType read comm =
      (let checked : Checked := ⟨comm.recvlen, maxRecLen - comm.recvlen, bytes, none⟩
      let comm' : StComm := ⟨comm.recvlen + bytes.length, comm.recvfreeCnt,
        blit comm.recvBuff comm.recvlen bytes⟩
      if 0 = bytes.length then
        if comm'.recvlen ≠ 0 then
          if comm'.recvfreeCnt = 1 then protocolParse { comm' with recvfreeCnt := 2 } checked
          else some ({ comm' with recvfreeCnt := 1 }, checked)
        else some (comm', checked)
      else if comm'.recvlen + 10 > maxRecLen then protocolParse comm' checked
      else some ({ comm' with recvfreeCnt := 0 }, checked)) := by
  obtain ⟨hroom, hidle, halloc⟩ := hready
  have hasked : sizeType ((maxRecLen : ℤ) - comm.recvlen) = maxRecLen - comm.recvlen := by
    rw [← Nat.cast_sub (by omega), hsize _ (by omega)]
  have hdatalen : uint16 (bytes.length : ℤ) = bytes.length := uint16_natCast (by omega)
  have hrecvlen : uint16 ((comm.recvlen : ℤ) + bytes.length) = comm.recvlen + bytes.length :=
    uint16_natCast_add (by omega)
  have hcopy : copyIn comm.recvBuff comm.recvlen bytes bytes.length =
      some (blit comm.recvBuff comm.recvlen bytes) := by
    rw [copyIn_of_le (by omega) le_rfl, List.take_length]
  simp only [checkReadData, hasked, hread, hcopy, Option.bind_some, hdatalen, hrecvlen]
  rcases Nat.le_one_iff_eq_zero_or_eq_one.mp hidle with hzero | hone
  · simp [hzero]
  · simp [hone]

/-- A call that reads nothing counts itself, and hands over what is pending when it is the
second one. -/
theorem checkReadData_idle (hready : Ready maxRecLen comm) (hmax : maxRecLen ≤ 128)
    (hsize : ∀ k ≤ maxRecLen, sizeType (k : ℤ) = k) {read : ℕ → List UInt8}
    (hread : read (maxRecLen - comm.recvlen) = []) :
    ∃ comm' c, checkReadData maxRecLen sizeType read comm = some (comm', c) ∧
      Handles maxRecLen [] comm comm' c := by
  rw [checkReadData_eq hready hmax hsize hread (Nat.zero_le _)]
  obtain ⟨hroom, hidle, halloc⟩ := hready
  simp only [List.length_nil, if_true, Nat.add_zero, blit_nil, ne_eq]
  by_cases hnone : comm.recvlen = 0
  · rw [if_neg (not_not.mpr hnone)]
    exact ⟨_, _, rfl, ⟨hroom, hidle, halloc⟩, rfl, rfl, rfl, by simp [Checked.handed],
      fun _ => .inl hnone, fun _ _ => hnone⟩
  · rw [if_pos hnone]
    by_cases hcount : comm.recvfreeCnt = 1
    · rw [if_pos hcount, protocolParse_eq (by simp only; omega)]
      refine ⟨_, _, rfl, ⟨?_, Nat.zero_le 1, halloc⟩, rfl, rfl, rfl, ?_, fun _ => .inl rfl,
        fun _ _ => rfl⟩
      · simp only
        omega
      · simp [Checked.handed, StComm.pending]
    · rw [if_neg hcount]
      refine ⟨_, _, rfl, ⟨hroom, le_rfl, halloc⟩, rfl, rfl, rfl,
        by simp [Checked.handed, StComm.pending],
        fun _ => .inr rfl, fun _ h => absurd (h.resolve_left hnone) hcount⟩

/-- A call that reads something hands everything over when less than ten bytes are free. -/
theorem checkReadData_busy (hready : Ready maxRecLen comm) (hmax : maxRecLen ≤ 128)
    (hsize : ∀ k ≤ maxRecLen, sizeType (k : ℤ) = k) {read : ℕ → List UInt8}
    (hread : read (maxRecLen - comm.recvlen) = bytes)
    (hshort : bytes.length ≤ maxRecLen - comm.recvlen) (hsome : bytes ≠ []) :
    ∃ comm' c, checkReadData maxRecLen sizeType read comm = some (comm', c) ∧
      Handles maxRecLen bytes comm comm' c := by
  rw [checkReadData_eq hready hmax hsize hread hshort]
  obtain ⟨hroom, hidle, halloc⟩ := hready
  have hlength : ¬ 0 = bytes.length := fun h => hsome (List.length_eq_zero_iff.mp h.symm)
  have hfits : comm.recvlen ≤ comm.recvBuff.length := by omega
  have hblit : (blit comm.recvBuff comm.recvlen bytes).length = maxRecLen + 1 := by
    rw [blit_length _ _ _ (by omega), halloc]
  simp only [hlength, if_false]
  split_ifs with hfull
  · rw [protocolParse_eq (by simp only [hblit]; omega)]
    refine ⟨_, _, rfl, ⟨?_, Nat.zero_le 1, hblit⟩, rfl, rfl, rfl, ?_, fun h => absurd h hsome,
      fun h => absurd h hsome⟩
    · simp only
      omega
    · have hpending := @pending_blit comm bytes hfits comm.recvfreeCnt
      simpa [Checked.handed, StComm.pending] using hpending
  · refine ⟨_, _, rfl, ⟨by simp only; omega, Nat.zero_le 1, hblit⟩, rfl, rfl, rfl, ?_,
      fun h => absurd h hsome, fun h => absurd h hsome⟩
    exact pending_blit hfits 0

/-- One call on a ready receiver, with the driver's answer no longer than what was asked for. -/
theorem checkReadData_handles (hready : Ready maxRecLen comm) (hmax : maxRecLen ≤ 128)
    (hsize : ∀ k ≤ maxRecLen, sizeType (k : ℤ) = k) {read : ℕ → List UInt8}
    (hread : read (maxRecLen - comm.recvlen) = bytes)
    (hshort : bytes.length ≤ maxRecLen - comm.recvlen) :
    ∃ comm' c, checkReadData maxRecLen sizeType read comm = some (comm', c) ∧
      Handles maxRecLen bytes comm comm' c := by
  by_cases hnone : bytes = []
  · subst hnone
    exact checkReadData_idle hready hmax hsize hread
  · exact checkReadData_busy hready hmax hsize hread hshort hnone

end Calls

section Runs

variable {port : Port} {line : Line}

theorem maxRecLen_eq (port : Port) : port.maxRecLen = 128 := by cases port <;> rfl

/-- Both size types can hold the free space. -/
theorem Port.checkReadData_handles (port : Port) {comm : StComm} {bytes : List UInt8}
    (hready : Ready 128 comm) {read : ℕ → List UInt8} (hread : read (128 - comm.recvlen) = bytes)
    (hshort : bytes.length ≤ 128 - comm.recvlen) :
    ∃ comm' c, port.checkReadData read comm = some (comm', c) ∧ Handles 128 bytes comm comm' c := by
  have hsizeT (k : ℕ) (hk : k ≤ 128) : sizeT (k : ℤ) = k := sizeT_natCast (by omega)
  have huint16 (k : ℕ) (hk : k ≤ 128) : uint16 (k : ℤ) = k := uint16_natCast (by omega)
  cases port with
  | commParam => exact Receive.checkReadData_handles hready le_rfl hsizeT hread hshort
  | commTest4 => exact Receive.checkReadData_handles hready le_rfl huint16 hread hshort
  | commTest5 => exact Receive.checkReadData_handles hready le_rfl hsizeT hread hshort

/-- The property together with what it needs from the state between two calls. -/
structure Inv (port : Port) (line : Line) : Prop extends Receives port line where
  ready : Ready 128 line.comm
  counted : ∀ cs c, line.calls = cs ++ [c] → c.read = [] →
    line.comm.recvlen = 0 ∨ line.comm.recvfreeCnt = 1

theorem init_inv (port : Port) : Inv port (init port) where
  asked := by simp [init]
  kept := by simp [init, StComm.pending]
  handed := by simp [init]
  ready := ⟨by simp [init], by simp [init], by simp [init, maxRecLen_eq]⟩
  counted := by simp [init]

/-- The events keep the property: arriving bytes touch neither the receiver nor the log. -/
theorem event_inv (h : Inv port line) (e : Event) :
    ∃ line' calls, event port line e = some line' ∧ Inv port line' ∧
      line'.calls = line.calls ++ calls ∧ Reads line.waiting [e] calls line'.waiting := by
  cases e with
  | arrive bytes =>
    exact ⟨_, [], rfl, ⟨⟨h.asked, h.kept, h.handed⟩, h.ready, h.counted⟩,
      (List.append_nil _).symm, rfl, rfl⟩
  | checkReadData k =>
    have hshort : (line.waiting.take (min k (128 - line.comm.recvlen))).length ≤
        128 - line.comm.recvlen := by simp
    obtain ⟨comm', c, hcall, hc⟩ := @Port.checkReadData_handles port _ _ h.ready
      (fun size => line.waiting.take (min k size)) rfl hshort
    have hlength : comm'.recvBuff.length = line.comm.recvBuff.length := by
      rw [hc.ready.allocated, h.ready.allocated]
    have hroom := h.ready.room
    have halloc := h.ready.allocated
    refine ⟨_, [c], by rw [event, hcall, Option.map_some], ⟨⟨?_, ?_, ?_⟩, hc.ready, ?_⟩, rfl,
      c, [], rfl, by rw [hc.read, hc.size], rfl, rfl⟩
    · intro d hd
      rw [hlength]
      rcases List.mem_append.mp hd with hold | hnew
      · exact h.asked d hold
      · obtain rfl := List.mem_singleton.mp hnew
        rw [hc.start, hc.size]
        omega
    · have hkept := h.kept
      simp only [List.flatMap_append, List.flatMap_singleton, List.append_assoc]
      rw [hc.kept, hc.read, ← hkept, List.append_assoc]
    · -- the last call is the new one, the one before it was the last of the log
      intro cs d d' hcalls hd hd'
      obtain ⟨hlog, hlast⟩ := List.append_inj' (hcalls.trans (by simp : cs ++ [d, d'] =
        (cs ++ [d]) ++ [d'])) rfl
      obtain rfl : c = d' := by simpa using hlast
      rw [hc.read] at hd'
      exact pending_eq_nil (hc.flushed hd' (h.counted cs d hlog hd))
    · intro cs d hcalls hd
      obtain ⟨-, hlast⟩ := List.append_inj' hcalls rfl
      obtain rfl : c = d := by simpa using hlast
      rw [hc.read] at hd
      exact hc.counted hd

theorem reads_cons {waiting mid rest : List UInt8} {e : Event} {events : List Event}
    {calls calls' : List Checked} (h : Reads waiting [e] calls mid)
    (h' : Reads mid events calls' rest) : Reads waiting (e :: events) (calls ++ calls') rest := by
  cases e with
  | arrive bytes =>
    obtain ⟨rfl, rfl⟩ := h
    exact h'
  | checkReadData k =>
    obtain ⟨c, later, rfl, hread, rfl, rfl⟩ := h
    exact ⟨c, calls', rfl, hread, h'⟩

theorem run_inv (h : Inv port line) (events : List Event) :
    ∃ line' calls, run port line events = some line' ∧ Inv port line' ∧
      line'.calls = line.calls ++ calls ∧ Reads line.waiting events calls line'.waiting := by
  induction events generalizing line with
  | nil => exact ⟨line, [], rfl, h, (List.append_nil _).symm, rfl, rfl⟩
  | cons e events ih =>
    obtain ⟨line', calls, hevent, hinv, hlog, hreads⟩ := event_inv h e
    obtain ⟨line'', calls', hrun, hend, hlog', hreads'⟩ := ih hinv
    exact ⟨line'', calls ++ calls', by rw [run, List.foldlM_cons, hevent]; exact hrun, hend,
      by rw [hlog', hlog, List.append_assoc], reads_cons hreads hreads'⟩

end Runs

/-- On every port, every history of arriving bytes and calls stays inside the buffer, reads what
the driver has, and keeps every byte that was read. -/
theorem run_receives (port : Port) (events : List Event) :
    ∃ line, run port (init port) events = some line ∧ Receives port line ∧
      Reads [] events line.calls line.waiting ∧
      events.flatMap Event.bytes = line.calls.flatMap Checked.read ++ line.waiting := by
  obtain ⟨line, calls, hrun, hinv, hlog, hreads⟩ := run_inv (init_inv port) events
  rw [show (init port).calls ++ calls = calls from rfl] at hlog
  rw [show (init port).waiting = [] from rfl] at hreads
  subst hlog
  exact ⟨line, hrun, hinv.toReceives, hreads, hreads.arrived⟩

end Property

end VehicleTerminal.Receive
