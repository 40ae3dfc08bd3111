import VehicleTerminal.Library.Fifo
import VehicleTerminal.Library.Memory

/-! The transmitter of `VDR_Usart.c`: one buffer, the length of the message in it, and the number
of bytes that the interrupts have handed to the data register. -/
namespace VehicleTerminal.VdrUsart
open BlockMemory BoundedFifo

section Model

def vdrUsartTxBufferSize : ℕ := 1200

/-- The transmit side of `VDR_USART_STRUCT`, with the TXE interrupt enable. `dataRegister` and
`answers` are logs: the bytes that were written, and the messages with what was returned. -/
structure Usart where
  txBuffer : List UInt8
  txLen : ℕ
  txCount : ℕ
  txeEnabled : Bool
  dataRegister : List UInt8
  answers : List (List UInt8 × ℕ)
  deriving Repr, DecidableEq

/-- The variable as it is initialised. -/
def initial : Usart := ⟨List.replicate vdrUsartTxBufferSize 0, 0, 0, false, [], []⟩

def vdrUsartSendData (pBuffer : List UInt8) (u : Usart) : ℕ × Usart :=
  if 0 = u.txCount then
    if pBuffer.length > vdrUsartTxBufferSize then (0, u)
    else
      (pBuffer.length,
        { u with
          txBuffer := blit u.txBuffer 0 pBuffer
          txLen := pBuffer.length
          txeEnabled := true })
  else (0, u)

def stopTx (u : Usart) : Usart := { u with txCount := 0, txLen := 0, txeEnabled := false }

def vdrUsartTxIsr (u : Usart) : Usart :=
  if u.txCount < u.txLen then
    if u.txCount < vdrUsartTxBufferSize then
      { u with
        dataRegister := u.dataRegister ++ [u.txBuffer.getD u.txCount 0]
        txCount := (u.txCount + 1) % 65536 }
    else stopTx u
  else stopTx u

/-- A message whose length is a `u16`. -/
structure Message where
  bytes : List UInt8
  counted : bytes.length < 65536

inductive Event
  | sendData (message : Message)
  | txIsr

/-- The interrupt occurs only while it is enabled. -/
def event (u : Usart) : Event → Usart
  | .sendData message =>
    let r := vdrUsartSendData message.bytes u
    { r.2 with answers := r.2.answers ++ [(message.bytes, r.1)] }
  | .txIsr => if u.txeEnabled then vdrUsartTxIsr u else u

def run (events : List Event) : Usart := events.foldl event initial

end Model

section Order

variable {u : Usart} {events : List Event}

/-- The bytes of the messages for which their length was returned. -/
def accepted : List (List UInt8 × ℕ) → List UInt8 := selected fun a => a.2 = a.1.length

/-- No message waits for its first interrupt when one is sent that fits in the buffer. -/
def Harmless (u : Usart) : Event → Prop
  | .sendData message =>
    message.bytes.length ≤ vdrUsartTxBufferSize → u.txCount ≠ 0 ∨ u.txLen = 0
  | .txIsr => True

instance (u : Usart) : ∀ e, Decidable (Harmless u e)
  | .sendData _ => inferInstanceAs (Decidable (_ → _ ∨ _))
  | .txIsr => inferInstanceAs (Decidable True)

/-- Every event of a run is harmless in the state in which it occurs. -/
def HarmlessFrom : Usart → List Event → Prop
  | _, [] => True
  | u, e :: events => Harmless u e ∧ HarmlessFrom (event u e) events

instance decidableHarmlessFrom : ∀ u events, Decidable (HarmlessFrom u events)
  | _, [] => inferInstanceAs (Decidable True)
  | u, e :: events =>
    have := decidableHarmlessFrom (event u e) events
    inferInstanceAs (Decidable (_ ∧ _))

/-- The buffer holds the last message, and its first part is written. -/
structure Sending (u : Usart) : Prop where
  allocated : u.txBuffer.length = vdrUsartTxBufferSize
  count : u.txCount ≤ u.txLen
  len : u.txLen ≤ vdrUsartTxBufferSize
  written : ∃ before, accepted u.answers = before ++ u.txBuffer.take u.txLen ∧
    u.dataRegister = before ++ u.txBuffer.take u.txCount

/-- A message without bytes adds nothing, whatever is returned. -/
theorem accepted_append_zero (answers : List (List UInt8 × ℕ)) (bytes : List UInt8) :
    accepted (answers ++ [(bytes, 0)]) = accepted answers := by
  rw [accepted, selected_append]
  split_ifs with hempty
  · have hnil : bytes = [] := List.length_eq_zero_iff.mp (of_decide_eq_true hempty).symm
    rw [hnil, List.append_nil]
  · rw [List.append_nil]

theorem sending_initial : Sending initial :=
  ⟨List.length_replicate, le_rfl, Nat.zero_le _, [], rfl, rfl⟩

/-- A message that is refused. -/
theorem Sending.refuse (h : Sending u) (bytes : List UInt8) :
    Sending { u with answers := u.answers ++ [(bytes, 0)] } := by
  refine ⟨h.allocated, h.count, h.len, ?_⟩
  dsimp only
  rw [accepted_append_zero]
  exact h.written

/-- A message that is taken when the one before it is written as a whole. -/
theorem Sending.take (h : Sending u) (hcount : u.txCount = 0) (hlen : u.txLen = 0)
    {bytes : List UInt8} (hfits : bytes.length ≤ vdrUsartTxBufferSize) :
    Sending { u with
      txBuffer := blit u.txBuffer 0 bytes
      txLen := bytes.length
      txeEnabled := true
      answers := u.answers ++ [(bytes, bytes.length)] } := by
  obtain ⟨before, haccepted, hwritten⟩ := h.written
  rw [hlen, List.take_zero, List.append_nil] at haccepted
  rw [hcount, List.take_zero, List.append_nil] at hwritten
  have hlength := h.allocated
  refine ⟨?_, ?_, hfits, before, ?_, ?_⟩
  · exact (blit_length _ _ _ (by omega)).trans hlength
  · dsimp only
    omega
  · have htake := take_blit u.txBuffer 0 bytes (Nat.zero_le _)
    rw [Nat.zero_add, List.take_zero, List.nil_append] at htake
    dsimp only
    rw [accepted, selected_append, if_pos (decide_eq_true rfl), htake, ← accepted, haccepted]
  · dsimp only
    rw [hcount, List.take_zero, List.append_nil, hwritten]

theorem Sending.sendData (h : Sending u) (message : Message)
    (hharmless : Harmless u (.sendData message)) : Sending (event u (.sendData message)) := by
  rw [event, vdrUsartSendData]
  by_cases hcount : 0 = u.txCount
  · by_cases hlong : message.bytes.length > vdrUsartTxBufferSize
    · simp only [if_pos hcount, if_pos hlong]
      exact h.refuse message.bytes
    · have hfits : message.bytes.length ≤ vdrUsartTxBufferSize := Nat.le_of_not_lt hlong
      have hlen := (hharmless hfits).resolve_left (not_not_intro hcount.symm)
      simp only [if_pos hcount, if_neg hlong]
      exact h.take hcount.symm hlen hfits
  · simp only [if_neg hcount]
    exact h.refuse message.bytes

/-- The interrupt writes the next byte, or finds the message written. -/
theorem Sending.txIsr (h : Sending u) : Sending (vdrUsartTxIsr u) := by
  obtain ⟨before, haccepted, hwritten⟩ := h.written
  have hcount := h.count
  have hlen := h.len
  rw [vdrUsartTxIsr]
  by_cases hmore : u.txCount < u.txLen
  · have hinside : u.txCount < u.txBuffer.length := by
      rw [h.allocated]
      omega
    have hnext : (u.txCount + 1) % 65536 = u.txCount + 1 := by
      rw [vdrUsartTxBufferSize] at hlen
      exact Nat.mod_eq_of_lt (by omega)
    rw [if_pos hmore, if_pos (by omega), hnext]
    refine ⟨h.allocated, hmore, hlen, before, haccepted, ?_⟩
    dsimp only
    rw [hwritten, List.append_assoc, List.take_add_one, List.getD_eq_getElem?_getD,
      List.getElem?_eq_getElem hinside, Option.toList_some, Option.getD_some]
  · have hdone : u.txCount = u.txLen := Nat.le_antisymm hcount (Nat.le_of_not_lt hmore)
    rw [if_neg hmore]
    refine ⟨h.allocated, le_rfl, Nat.zero_le _, before ++ u.txBuffer.take u.txLen, ?_, ?_⟩
    · rw [stopTx, List.take_zero, List.append_nil, haccepted]
    · rw [stopTx, List.take_zero, List.append_nil, hwritten, hdone]

theorem Sending.event {e : Event} (h : Sending u) (hharmless : Harmless u e) :
    Sending (event u e) := by
  cases e with
  | sendData message => exact h.sendData message hharmless
  | txIsr =>
    rw [VdrUsart.event]
    split_ifs
    · exact h.txIsr
    · exact h

theorem Sending.run (h : Sending u) (hharmless : HarmlessFrom u events) :
    Sending (events.foldl VdrUsart.event u) := by
  induction events generalizing u with
  | nil => exact h
  | cons e events ih => exact ih (h.event hharmless.1) hharmless.2

/-- Where no message waits for its first interrupt when the next one is sent, the bytes written
are a front part of the accepted messages. -/
theorem writes_accepted (events : List Event) (hharmless : HarmlessFrom initial events) :
    (run events).dataRegister <+: accepted (run events).answers := by
  have hsending : Sending (run events) := sending_initial.run hharmless
  obtain ⟨before, haccepted, hwritten⟩ := hsending.written
  rw [haccepted, hwritten]
  exact (List.prefix_append_right_inj before).mpr (List.take_prefix_take_left hsending.count)

/-- Two messages, the second one behind the last interrupt of the first. -/
theorem writes_accepted_two :
    (run [.sendData ⟨[1], by decide⟩, .txIsr, .txIsr, .sendData ⟨[2], by decide⟩,
        .txIsr]).dataRegister <+:
      accepted (run [.sendData ⟨[1], by decide⟩, .txIsr, .txIsr, .sendData ⟨[2], by decide⟩,
        .txIsr]).answers :=
  writes_accepted _ (by decide)

/-- Two messages before the first interrupt: the first one is lost. -/
theorem not_writes_accepted :
    ¬ ∀ events : List Event, (run events).dataRegister <+: accepted (run events).answers := by
  intro h
  have hlost := h [.sendData ⟨[1], by decide⟩, .sendData ⟨[2], by decide⟩, .txIsr]
  exact absurd hlost (by decide)

end Order

end VehicleTerminal.VdrUsart
