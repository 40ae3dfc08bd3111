import VehicleTerminal.Library.ByteStore
import VehicleTerminal.Library.Fifo
import VehicleTerminal.Timer.ApiTimer

/-! The sender of `CommParam.c`. The resend buffer is reached through a pointer in the variable
`s_stCommParam`, so the variable lies in the memory that the copies write. The device takes all
of what it is given or nothing, and answers with the number of bytes. -/
namespace VehicleTerminal.CommParam
open ByteStore BoundedFifo
open ApiTimers (ErrorStatus)

section Model

def comparamMaxSendLen : ℕ := 1024

/-- The addresses of the static variables: `s_stCommParam` with its 16 bytes, and the buffers. -/
structure Layout where
  stCommParam : ℕ
  ucCommrecvBuff : ℕ
  ucCommresendBuff : ℕ
  apart : stCommParam + 16 ≤ ucCommresendBuff ∨
    ucCommresendBuff + comparamMaxSendLen + 1 ≤ stCommParam

/-- The fields of `ST_COMM` at their offsets. -/
def Layout.recvlen (l : Layout) : ℕ := l.stCommParam

def Layout.resendlen (l : Layout) : ℕ := l.stCommParam + 2

def Layout.resendCnt (l : Layout) : ℕ := l.stCommParam + 4

def Layout.recvfreeCnt (l : Layout) : ℕ := l.stCommParam + 5

def Layout.recvBuff (l : Layout) : ℕ := l.stCommParam + 8

def Layout.resendBuff (l : Layout) : ℕ := l.stCommParam + 12

/-- `resendTimer` says whether the resend timer has been started. The other fields are logs: the
blocks that the device took, the copies with their address and length, and the messages with
their answers. -/
structure Sender where
  ram : ℕ → UInt8
  resendTimer : Bool
  transmitted : List (List UInt8)
  copies : List (ℕ × ℕ)
  answers : List (List UInt8 × ℕ)

def Sender.memcpy (s : Sender) (destination : ℕ) (bytes : List UInt8) : Sender :=
  { s with
    ram := writeBytes s.ram destination bytes
    copies := s.copies ++ [(destination, bytes.length)] }

/-- `Timer10msStart` with the callback `CommParam_ResendData`. -/
def Sender.startTimer (s : Sender) : Sender := { s with resendTimer := true }

def commParamInit (l : Layout) (ram : ℕ → UInt8) : Sender where
  ram :=
    store (store (store (store (store (store ram l.recvlen 2 0) l.resendlen 2 0) l.resendCnt 1 0)
      l.recvfreeCnt 1 0) l.recvBuff 4 l.ucCommrecvBuff) l.resendBuff 4 l.ucCommresendBuff
  resendTimer := false
  transmitted := []
  copies := []
  answers := []

/-- The device takes the block if it `accepts`. -/
def commParamStartSendData (accepts : Bool) (bytes : List UInt8) (s : Sender) : ℕ × Sender :=
  if accepts then (bytes.length, { s with transmitted := s.transmitted ++ [bytes] }) else (0, s)

def commParamResendData (l : Layout) (accepts : Bool) (s : Sender) : ErrorStatus × Sender :=
  let block := readBytes s.ram (load s.ram l.resendBuff 4) (load s.ram l.resendlen 2)
  let r := commParamStartSendData accepts block s
  let s := r.2
  if 0 = r.1 then (.success, { s with ram := store s.ram l.resendCnt 1 0 })
  else
    let resendCnt := load s.ram l.resendCnt 1
    if resendCnt ≠ 0 then
      (.error, { s with ram := store s.ram l.resendCnt 1 (resendCnt - 1) }.startTimer)
    else (.success, s)

/-- The first copy goes to the pointer itself, the later ones to where it points. -/
def commParamSendData (l : Layout) (accepts : Bool) (bytes : List UInt8) (s : Sender) :
    ℕ × Sender :=
  if bytes.length > comparamMaxSendLen then (0xff, s)
  else
    let r := commParamStartSendData accepts bytes s
    let s := r.2
    if 0 = r.1 then (0, s)
    else
      let resendlen := load s.ram l.resendlen 2
      if 0 = load s.ram l.resendCnt 1 then
        let s := { s with ram := store s.ram l.resendlen 2 bytes.length }
        let s := s.memcpy l.resendBuff (bytes.take (load s.ram l.resendlen 2))
        (1, { s with ram := store s.ram l.resendCnt 1 4 }.startTimer)
      else if resendlen + bytes.length < comparamMaxSendLen then
        let s := s.memcpy ((load s.ram l.resendBuff 4 + resendlen) % 2 ^ 32) bytes
        (1, { s with ram := store s.ram l.resendlen 2 (load s.ram l.resendlen 2 + bytes.length) })
      else (2, s)

/-- A message whose length is an `unsigned short`. -/
structure Message where
  bytes : List UInt8
  counted : bytes.length < 65536

/-- A call, or the resend timer, with the answer of the device. -/
inductive Event
  | sendData (message : Message) (accepts : Bool)
  | resendTimer (accepts : Bool)

/-- The timer calls back only if it has been started. -/
def event (l : Layout) (s : Sender) : Event → Sender
  | .sendData message accepts =>
    let r := commParamSendData l accepts message.bytes s
    { r.2 with answers := r.2.answers ++ [(message.bytes, r.1)] }
  | .resendTimer accepts =>
    if s.resendTimer then (commParamResendData l accepts { s with resendTimer := false }).2 else s

def run (l : Layout) (ram : ℕ → UInt8) (events : List Event) : Sender :=
  events.foldl (event l) (commParamInit l ram)

end Model

section Property

variable {l : Layout} {s : Sender} {events : List Event} {bytes : List UInt8}

/-- The bytes of the messages that were answered 0 or 1, in the order of the calls. -/
def answered : List (List UInt8 × ℕ) → List UInt8 := selected fun a => a.2 = 0 ∨ a.2 = 1

def InsideResendBuff (l : Layout) (copy : ℕ × ℕ) : Prop :=
  l.ucCommresendBuff ≤ copy.1 ∧ copy.1 + copy.2 ≤ l.ucCommresendBuff + comparamMaxSendLen + 1

/-- What the device took is what was answered 0 or 1, and the copies stay in the buffer. -/
structure Delivers (l : Layout) (s : Sender) : Prop where
  transmitted : s.transmitted.flatten = answered s.answers
  inside : ∀ copy ∈ s.copies, InsideResendBuff l copy

/-- A message without bytes, or one that is refused for its length. -/
def Idle (bytes : List UInt8) : Prop := bytes.length = 0 ∨ comparamMaxSendLen < bytes.length

def Event.message : Event → Option (List UInt8)
  | .sendData message _ => some message.bytes
  | .resendTimer _ => none

/-- The messages of the calls. -/
def messages (events : List Event) : List (List UInt8) := events.filterMap Event.message

/-- Nothing has been taken by the device, and nothing is pending. -/
structure Quiet (l : Layout) (s : Sender) : Prop where
  resendlen : load s.ram l.resendlen 2 = 0
  resendCnt : load s.ram l.resendCnt 1 = 0
  transmitted : s.transmitted.flatten = []
  copies : s.copies = []

theorem quiet_commParamInit (l : Layout) (ram : ℕ → UInt8) : Quiet l (commParamInit l ram) := by
  refine ⟨?_, ?_, rfl, rfl⟩
  · rw [commParamInit]
    dsimp only
    rw [load_store_disjoint (.inl (by simp only [Layout.resendlen, Layout.resendBuff]; omega)),
      load_store_disjoint (.inl (by simp only [Layout.resendlen, Layout.recvBuff]; omega)),
      load_store_disjoint (.inl (by simp only [Layout.resendlen, Layout.recvfreeCnt]; omega)),
      load_store_disjoint (.inl (by simp only [Layout.resendlen, Layout.resendCnt]; omega)),
      load_store]
    rfl
  · rw [commParamInit]
    dsimp only
    rw [load_store_disjoint (.inl (by simp only [Layout.resendCnt, Layout.resendBuff]; omega)),
      load_store_disjoint (.inl (by simp only [Layout.resendCnt, Layout.recvBuff]; omega)),
      load_store_disjoint (.inl (by simp only [Layout.resendCnt, Layout.recvfreeCnt]; omega)),
      load_store]
    rfl

theorem copies_commParamStartSendData (accepts : Bool) (bytes : List UInt8) (s : Sender) :
    (commParamStartSendData accepts bytes s).2.copies = s.copies := by
  cases accepts <;> rfl

theorem copies_commParamResendData (l : Layout) (accepts : Bool) (s : Sender) :
    (commParamResendData l accepts s).2.copies = s.copies := by
  rw [commParamResendData]
  dsimp only
  split_ifs
  · exact copies_commParamStartSendData _ _ _
  · exact copies_commParamStartSendData _ _ _
  · exact copies_commParamStartSendData _ _ _

theorem copies_commParamSendData (l : Layout) (accepts : Bool) (bytes : List UInt8) (s : Sender) :
    s.copies <+: (commParamSendData l accepts bytes s).2.copies := by
  rw [commParamSendData]
  dsimp only [Sender.memcpy, Sender.startTimer]
  split_ifs
  · exact List.prefix_rfl
  · rw [copies_commParamStartSendData]
  · rw [copies_commParamStartSendData]
    exact List.prefix_append _ _
  · rw [copies_commParamStartSendData]
    exact List.prefix_append _ _
  · rw [copies_commParamStartSendData]

/-- The log of copies only grows. -/
theorem copies_event (l : Layout) (s : Sender) (e : Event) :
    s.copies <+: (event l s e).copies := by
  cases e with
  | sendData message accepts => exact copies_commParamSendData l accepts message.bytes s
  | resendTimer accepts =>
    rw [event]
    split_ifs
    · rw [copies_commParamResendData]
    · exact List.prefix_rfl

/-- The pointer itself is no part of the buffer. -/
theorem not_insideResendBuff (l : Layout) (k : ℕ) : ¬ InsideResendBuff l (l.resendBuff, k) := by
  rintro ⟨hlow, hhigh⟩
  have hapart := l.apart
  simp only [Layout.resendBuff, comparamMaxSendLen] at hlow hhigh hapart
  omega

/-- A block that the device declines, or that is empty, counts as sent. -/
theorem commParamStartSendData_zero {accepts : Bool}
    (h : (commParamStartSendData accepts bytes s).1 = 0) :
    ∃ blocks, (commParamStartSendData accepts bytes s).2 = { s with transmitted := blocks } ∧
      blocks.flatten = s.transmitted.flatten := by
  cases accepts with
  | true =>
    have hempty : bytes = [] := List.length_eq_zero_iff.mp h
    subst hempty
    exact ⟨s.transmitted ++ [[]], rfl, by simp⟩
  | false => exact ⟨s.transmitted, rfl, rfl⟩

/-- The first message that the device takes is copied over the pointer. -/
theorem commParamSendData_taken {accepts : Bool} (h : Quiet l s)
    (hlength : bytes.length ≤ comparamMaxSendLen)
    (htaken : (commParamStartSendData accepts bytes s).1 ≠ 0) :
    ∃ copy ∈ (commParamSendData l accepts bytes s).2.copies, ¬ InsideResendBuff l copy := by
  have hram : (commParamStartSendData accepts bytes s).2.ram = s.ram := by
    cases accepts <;> rfl
  rw [commParamSendData, if_neg (by omega)]
  dsimp only
  rw [if_neg (Ne.symm htaken), hram, if_pos h.resendCnt.symm]
  exact ⟨_, List.mem_append_right _ (List.mem_singleton_self _), not_insideResendBuff l _⟩

/-- While the device takes nothing, every message is refused or answered 0. -/
theorem Quiet.sendData {accepts : Bool} (h : Quiet l s)
    (hquiet : comparamMaxSendLen < bytes.length ∨
      (commParamStartSendData accepts bytes s).1 = 0) :
    Quiet l (commParamSendData l accepts bytes s).2 ∧
      (commParamSendData l accepts bytes s).2.answers = s.answers ∧
      (commParamSendData l accepts bytes s).1 =
        if bytes.length > comparamMaxSendLen then 0xff else 0 := by
  rw [commParamSendData]
  by_cases hlong : bytes.length > comparamMaxSendLen
  · rw [if_pos hlong, if_pos hlong]
    exact ⟨h, rfl, rfl⟩
  · have hzero := hquiet.resolve_left hlong
    obtain ⟨blocks, heq, hblocks⟩ := commParamStartSendData_zero hzero
    rw [if_neg hlong, if_neg hlong]
    dsimp only
    rw [if_pos hzero.symm, heq]
    exact ⟨⟨h.resendlen, h.resendCnt, hblocks.trans h.transmitted, h.copies⟩, rfl, rfl⟩

/-- A resend with nothing pending. -/
theorem Quiet.resendTimer (h : Quiet l s) (accepts : Bool) :
    Quiet l (event l s (.resendTimer accepts)) ∧
      (event l s (.resendTimer accepts)).answers = s.answers := by
  rw [event]
  split_ifs
  · have hzero : (commParamStartSendData accepts (readBytes s.ram (load s.ram l.resendBuff 4)
        (load s.ram l.resendlen 2)) { s with resendTimer := false }).1 = 0 := by
      rw [h.resendlen]
      cases accepts <;> rfl
    obtain ⟨blocks, heq, hblocks⟩ := commParamStartSendData_zero hzero
    rw [commParamResendData]
    dsimp only
    rw [if_pos hzero.symm, heq]
    refine ⟨⟨?_, ?_, hblocks.trans h.transmitted, h.copies⟩, rfl⟩
    · rw [load_store_disjoint (.inl (by simp only [Layout.resendlen, Layout.resendCnt]; omega))]
      exact h.resendlen
    · rw [load_store]
      rfl
  · exact ⟨h, rfl⟩

theorem run_append (l : Layout) (ram : ℕ → UInt8) (events : List Event) (e : Event) :
    run l ram (events ++ [e]) = event l (run l ram events) e := by
  rw [run, List.foldl_append, List.foldl_cons, List.foldl_nil, run]

theorem messages_append (events : List Event) (e : Event) :
    messages (events ++ [e]) = messages events ++ e.message.toList := by
  rw [messages, List.filterMap_append, ← messages]
  cases e <;> rfl

/-- A message that is refused or answered 0 by a device that takes nothing is only right if it
is idle. -/
theorem idle_iff (bytes : List UInt8) :
    (if decide ((if bytes.length > comparamMaxSendLen then 0xff else 0) = 0 ∨
        (if bytes.length > comparamMaxSendLen then 0xff else 0) = 1) then bytes else []) = [] ↔
      Idle bytes := by
  by_cases hlong : bytes.length > comparamMaxSendLen
  · simp [Idle, hlong]
  · simp [Idle, hlong]

theorem commParamStartSendData_length {accepts : Bool}
    (h : (commParamStartSendData accepts bytes s).1 ≠ 0) : bytes.length ≠ 0 := by
  cases accepts with
  | true => exact h
  | false => exact absurd rfl h

/-- Either the device has taken nothing, or a copy was outside the buffer. -/
theorem quiet_or_outside (l : Layout) (ram : ℕ → UInt8) (events : List Event) :
    (Quiet l (run l ram events) ∧
        (answered (run l ram events).answers = [] ↔ ∀ bytes ∈ messages events, Idle bytes)) ∨
      ((∃ copy ∈ (run l ram events).copies, ¬ InsideResendBuff l copy) ∧
        ∃ bytes ∈ messages events, ¬ Idle bytes) := by
  induction events using List.reverseRecOn with
  | nil =>
    refine .inl ⟨quiet_commParamInit l ram, iff_of_true rfl fun bytes hbytes => ?_⟩
    exact absurd hbytes List.not_mem_nil
  | append_singleton events e ih =>
    rw [run_append, messages_append]
    rcases ih with ⟨hquiet, hanswered⟩ | ⟨⟨copy, hcopy, hout⟩, bytes, hbytes, hidle⟩
    · cases e with
      | resendTimer accepts =>
        obtain ⟨hnext, hanswers⟩ := hquiet.resendTimer accepts
        rw [hanswers, hanswered, Event.message, Option.toList_none, List.append_nil]
        exact .inl ⟨hnext, Iff.rfl⟩
      | sendData message accepts =>
        rw [event, Event.message, Option.toList_some]
        by_cases hnothing : comparamMaxSendLen < message.bytes.length ∨
            (commParamStartSendData accepts message.bytes (run l ram events)).1 = 0
        · obtain ⟨hnext, hanswers, hanswer⟩ := hquiet.sendData hnothing
          dsimp only
          rw [hanswers, hanswer, answered, selected_append, ← answered, List.append_eq_nil_iff,
            hanswered, idle_iff, List.forall_mem_append, List.forall_mem_singleton]
          exact .inl ⟨⟨hnext.resendlen, hnext.resendCnt, hnext.transmitted, hnext.copies⟩, Iff.rfl⟩
        · obtain ⟨hshort, htaken⟩ := not_or.mp hnothing
          have hlength := commParamStartSendData_length htaken
          refine .inr ⟨commParamSendData_taken hquiet (by omega) htaken, message.bytes,
            List.mem_append_right _ (List.mem_singleton_self _), ?_⟩
          exact not_or.mpr ⟨hlength, hshort⟩
    · exact .inr ⟨⟨copy, (copies_event l _ e).subset hcopy, hout⟩, bytes,
        List.mem_append_left _ hbytes, hidle⟩

/-- The sender does what its answers say exactly when it has nothing to send. -/
theorem delivers_iff (l : Layout) (ram : ℕ → UInt8) (events : List Event) :
    Delivers l (run l ram events) ↔ ∀ bytes ∈ messages events, Idle bytes := by
  rcases quiet_or_outside l ram events with
    ⟨hquiet, hanswered⟩ | ⟨⟨copy, hcopy, hout⟩, bytes, hbytes, hidle⟩
  · rw [← hanswered]
    constructor
    · intro h
      rw [← h.transmitted, hquiet.transmitted]
    · intro h
      refine ⟨by rw [hquiet.transmitted, h], fun copy hcopy => ?_⟩
      rw [hquiet.copies] at hcopy
      exact absurd hcopy List.not_mem_nil
  · constructor
    · intro h
      exact absurd (h.inside copy hcopy) hout
    · intro h
      exact absurd (h bytes hbytes) hidle

/-- Whenever a block is pending, the device takes it when the timer calls back later on. -/
def Served (l : Layout) (ram : ℕ → UInt8) (events : List Event) : Prop :=
  ∀ i ≤ events.length, load (run l ram (events.take i)).ram l.resendCnt 1 ≠ 0 →
    ∃ j < events.length, i ≤ j ∧ events[j]? = some (.resendTimer true) ∧
      (run l ram (events.take j)).resendTimer = true

/-- One byte for a device that takes everything, and the callbacks of the timer until no block is
pending. -/
theorem not_delivers_served :
    ¬ ∀ (l : Layout) (ram : ℕ → UInt8) (events : List Event), Served l ram events →
      Delivers l (run l ram events) := by
  intro h
  have hdelivers := h ⟨0x20000000, 0x20000010, 0x20000091, .inl (by decide)⟩ (fun _ => 0)
    (.sendData ⟨[0x41], by decide⟩ true :: List.replicate 4 (.resendTimer true)) (by
      intro i hi hpending
      refine ⟨4, by decide, ?_, rfl, by decide⟩
      by_contra hlast
      have hend : i = 5 := by
        simp only [List.length_cons, List.length_replicate] at hi
        omega
      subst hend
      exact hpending (by decide))
  exact not_insideResendBuff _ 1 (hdelivers.inside (0x2000000c, 1) (by decide))

end Property

end VehicleTerminal.CommParam
