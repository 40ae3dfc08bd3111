import VehicleTerminal.Library.CString
import VehicleTerminal.Library.Memory

/-! The packets of `TTSDevApp.c` to the speech chip, and a receiver that trusts the length field.
A write outside `VoiceData` leaves the packing without result. -/
namespace VehicleTerminal.Tts
open BlockMemory CString

section Model

def ttsVoiceSize : ℕ := 180

structure SttsPro where
  head : UInt8
  lenHigh : UInt8
  lenLow : UInt8
  cmd : UInt8
  fontStyle : UInt8
  voiceData : List UInt8
  pageLen : ℕ
  deriving Repr, DecidableEq

/-- The packed structure in memory. -/
def SttsPro.bytes (pro : SttsPro) : List UInt8 :=
  [pro.head, pro.lenHigh, pro.lenLow, pro.cmd, pro.fontStyle] ++ pro.voiceData ++
    [UInt8.ofNat pro.pageLen, UInt8.ofNat (pro.pageLen / 256)]

/-- The bytes before the member `PageLen`. -/
def bytesBeforePageLen : ℕ := 5 + ttsVoiceSize

def ttsMaxSendLen : ℕ := bytesBeforePageLen + 2

def ttsValue : List ℕ := [0, 1, 3, 5, 7, 9, 11, 13, 16]

/-- The text printed by `"[v%d]"`. -/
def volumeMarker (value : ℕ) : List UInt8 := ascii "[v" ++ decimal value ++ ascii "]"

/-- An answer without a packet, or the packet with the bytes that are handed to the port and
the seconds until the power is turned off. -/
inductive Packed
  | returned (result : ℕ)
  | sent (pro : SttsPro) (uartData : List UInt8) (time : ℕ)
  deriving Repr, DecidableEq

/-- `rdy` is the pin of the chip. -/
def ttsAppPackVoiceStr (rdy : Bool) (ttsVolume : ℕ) (ptr : List UInt8) (datalen : ℕ) :
    Option Packed :=
  if datalen = 0 then some (.returned 1)
  else if rdy then
    let len := if datalen > ttsVoiceSize - 5 then ttsVoiceSize - 5 else datalen
    (ttsValue[ttsVolume]?).bind fun value =>
      let printed := volumeMarker value
      (copyIn (List.replicate ttsVoiceSize 0) 0 (printed ++ [0]) (printed.length + 1)).bind
        fun voiceData =>
        (strlen voiceData).bind fun vlen =>
          (copyIn voiceData vlen ptr len).bind fun voiceData =>
            let len := len + vlen
            let pageLen := if len + 5 > ttsMaxSendLen then ttsMaxSendLen else len + 5
            let pro : SttsPro :=
              ⟨0xFD, UInt8.ofNat ((2 + len) / 256), UInt8.ofNat (2 + len), 1, 0, voiceData, pageLen⟩
            (copyOut pro.bytes 0 pageLen).map fun uartData =>
              .sent pro uartData (pageLen / 5 + 6)
  else some (.returned 0)

end Model

section Receiver

/-- A receiver takes as many bytes behind the length field as the field says; what is left
belongs to the next packet. -/
def receive : List UInt8 → Option (List UInt8 × List UInt8)
  | head :: lenHigh :: lenLow :: rest =>
    let len := 256 * lenHigh.toNat + lenLow.toNat
    if head = 0xFD ∧ len ≤ rest.length then some (rest.take len, rest.drop len) else none
  | _ => none

end Receiver

/-- A text that is handed over with its length in one byte. -/
structure VoiceText where
  bytes : List UInt8
  nonempty : 0 < bytes.length
  counted : bytes.length < 256

/-- The part of a text that one packet carries. -/
def VoiceText.carried (text : VoiceText) : List UInt8 := text.bytes.take (ttsVoiceSize - 5)

/-- The marker of a volume setting. -/
def markerOf (volume : Fin ttsValue.length) : List UInt8 := volumeMarker (ttsValue.get volume)

/-- A marker is at most five characters long, none of them NUL. -/
theorem markerOf_fits (volume : Fin ttsValue.length) :
    (markerOf volume).length ≤ 5 ∧ 0 ∉ markerOf volume := by
  revert volume
  decide +kernel

/-- What a packet has to be for a text and a volume. -/
structure Framed (volume : Fin ttsValue.length) (text : VoiceText) (pro : SttsPro)
    (uartData : List UInt8) : Prop where
  voiceData_size : pro.voiceData.length = ttsVoiceSize
  voiceData : markerOf volume ++ text.carried <+: pro.voiceData
  len : 256 * pro.lenHigh.toNat + pro.lenLow.toNat + 3 = pro.pageLen
  pageLen : pro.pageLen ≤ bytesBeforePageLen
  consumed : ∀ behind, receive (uartData ++ behind) =
    some (pro.cmd :: pro.fontStyle :: (markerOf volume ++ text.carried), behind)

section Packing

variable {marker : List UInt8}

/-- The cleared buffer with the marker in front. -/
theorem copyIn_marker (hlen : marker.length ≤ 5) :
    ∃ behind, copyIn (List.replicate ttsVoiceSize 0) 0 (marker ++ [0]) (marker.length + 1) =
      some (marker ++ 0 :: behind) ∧ (marker ++ 0 :: behind).length = ttsVoiceSize := by
  refine ⟨(List.replicate ttsVoiceSize 0).drop (marker.length + 1), ?_, ?_⟩
  · rw [copyIn_of_le (by rw [List.length_replicate, ttsVoiceSize]; omega) (by simp)]
    rw [List.take_of_length_le (by simp)]
    simp [blit]
  · rw [List.length_append, List.length_cons, List.length_drop, List.length_replicate,
      ttsVoiceSize]
    omega

/-- The text directly behind the marker. -/
theorem copyIn_text {voiceData text : List UInt8} {len : ℕ} (hlen : marker.length ≤ 5)
    (hsize : voiceData.length = ttsVoiceSize) (hfront : marker <+: voiceData)
    (htext : len ≤ text.length) (hroom : len ≤ ttsVoiceSize - 5) :
    ∃ voiceData', copyIn voiceData marker.length text len = some voiceData' ∧
      voiceData'.length = ttsVoiceSize ∧
      voiceData'.take (marker.length + len) = marker ++ text.take len := by
  have hcarried : (text.take len).length = len := List.length_take_of_le htext
  unfold ttsVoiceSize at *
  refine ⟨_, copyIn_of_le (by omega) htext, ?_, ?_⟩
  · rw [blit_length _ _ _ (by omega), hsize]
  · have htake := take_blit voiceData marker.length (text.take len) (by omega)
    rw [hcarried] at htake
    rw [htake, ← List.prefix_iff_eq_take.mp hfront]

/-- A packet whose length field counts the bytes behind it is consumed as a whole. -/
theorem receive_packet {payload : List UInt8} {lenHigh lenLow : UInt8} (behind : List UInt8)
    (h : 256 * lenHigh.toNat + lenLow.toNat = payload.length) :
    receive (0xFD :: lenHigh :: lenLow :: payload ++ behind) = some (payload, behind) := by
  simp only [List.cons_append, receive, h, List.length_append, Nat.le_add_right, and_self, if_true,
    List.take_left', List.drop_left']

/-- Both bytes of a number below 65536. -/
theorem bytes_toNat {n : ℕ} (h : n < 65536) :
    256 * (UInt8.ofNat (n / 256)).toNat + (UInt8.ofNat n).toNat = n := by
  rw [UInt8.toNat_ofNat', UInt8.toNat_ofNat']
  omega

/-- The packet around `VoiceData` when `len` bytes of it are used. -/
def packetOf (voiceData : List UInt8) (len : ℕ) : SttsPro :=
  ⟨0xFD, UInt8.ofNat ((2 + len) / 256), UInt8.ofNat (2 + len), 1, 0, voiceData, len + 5⟩

@[simp] theorem packetOf_pageLen (voiceData : List UInt8) (len : ℕ) :
    (packetOf voiceData len).pageLen = len + 5 := rfl

/-- Header and used part of `VoiceData` are handed to the port. -/
theorem copyOut_packetOf {voiceData payload : List UInt8} {len : ℕ}
    (hsize : len ≤ voiceData.length) (hfront : voiceData.take len = payload) :
    copyOut (packetOf voiceData len).bytes 0 (len + 5) = some (0xFD ::
      UInt8.ofNat ((2 + len) / 256) :: UInt8.ofNat (2 + len) :: 1 :: 0 :: payload) := by
  have hfits : 0 + (len + 5) ≤ (packetOf voiceData len).bytes.length := by
    simp only [packetOf, SttsPro.bytes, List.length_append, List.length_cons, List.length_nil]
    omega
  rw [copyOut_of_le hfits, slice, List.drop_zero]
  simp only [packetOf, SttsPro.bytes, List.cons_append, List.nil_append, List.take_succ_cons]
  rw [List.take_append_of_le_length hsize, hfront]

/-- How many bytes of a text one packet carries. -/
theorem exists_carried (text : VoiceText) : ∃ len,
    (if text.bytes.length > ttsVoiceSize - 5 then ttsVoiceSize - 5 else text.bytes.length) = len ∧
      len ≤ text.bytes.length ∧ len ≤ ttsVoiceSize - 5 ∧ text.bytes.take len = text.carried := by
  refine ⟨_, rfl, ?_, ?_, ?_⟩
  · split_ifs <;> omega
  · split_ifs <;> omega
  · rw [VoiceText.carried, List.take_eq_take_iff]
    split_ifs <;> omega

/-- What is sent for a text: the marker and the part that is carried, in the first `n` bytes of
`VoiceData`. -/
theorem ttsAppPackVoiceStr_sends (volume : Fin ttsValue.length) (text : VoiceText) :
    ∃ voiceData n, voiceData.length = ttsVoiceSize ∧ n ≤ ttsVoiceSize ∧
      n = (markerOf volume ++ text.carried).length ∧
      voiceData.take n = markerOf volume ++ text.carried ∧
      ttsAppPackVoiceStr true volume text.bytes text.bytes.length =
        some (.sent (packetOf voiceData n) (0xFD :: UInt8.ofNat ((2 + n) / 256) ::
          UInt8.ofNat (2 + n) :: 1 :: 0 :: (markerOf volume ++ text.carried))
          ((n + 5) / 5 + 6)) := by
  obtain ⟨hmarker, hnul⟩ := markerOf_fits volume
  have hpos : text.bytes.length ≠ 0 := text.nonempty.ne'
  obtain ⟨len, hlen, hle, hroom, hcarried⟩ := exists_carried text
  obtain ⟨behind, hprint, hsize⟩ := copyIn_marker hmarker
  have hvlen : strlen (markerOf volume ++ 0 :: behind) = some (markerOf volume).length :=
    strlen_of_terminated behind hnul
  obtain ⟨voiceData, hcopy, hsize', hfront⟩ :=
    copyIn_text hmarker hsize (List.prefix_append _ _) hle hroom
  have hvalue : ttsValue[(volume : ℕ)]? = some (ttsValue.get volume) :=
    List.getElem?_eq_getElem volume.isLt
  obtain ⟨n, hn⟩ : ∃ n, n = len + (markerOf volume).length := ⟨_, rfl⟩
  rw [hcarried, Nat.add_comm, ← hn] at hfront
  have hused : n ≤ ttsVoiceSize := by
    unfold ttsVoiceSize at *
    omega
  have hunclipped : ¬ n + 5 > ttsMaxSendLen := by
    unfold ttsMaxSendLen bytesBeforePageLen
    omega
  have huart := copyOut_packetOf (hused.trans hsize'.ge) hfront
  refine ⟨voiceData, n, hsize', hused, ?_, hfront, ?_⟩
  · rw [List.length_append, ← hcarried, List.length_take_of_le hle, Nat.add_comm, hn]
  · rw [ttsAppPackVoiceStr, if_neg hpos, if_pos rfl]
    simp only [hlen, hvalue, Option.bind_some]
    change (copyIn _ 0 (markerOf volume ++ [0]) ((markerOf volume).length + 1)).bind _ = _
    simp only [hprint, hvlen, hcopy, ← hn, if_neg hunclipped, Option.bind_some]
    rw [packetOf] at huart
    rw [huart]
    rfl

end Packing

/-- Every packet is framed. -/
theorem ttsAppPackVoiceStr_framed (volume : Fin ttsValue.length) (text : VoiceText) :
    ∃ pro uartData time, ttsAppPackVoiceStr true volume text.bytes text.bytes.length =
      some (.sent pro uartData time) ∧ Framed volume text pro uartData := by
  obtain ⟨voiceData, n, hsize, hused, hpayload, hfront, hsent⟩ :=
    ttsAppPackVoiceStr_sends volume text
  have hlenField : 256 * (UInt8.ofNat ((2 + n) / 256)).toNat + (UInt8.ofNat (2 + n)).toNat =
      2 + n := bytes_toNat (by
    unfold ttsVoiceSize at hused
    omega)
  refine ⟨_, _, _, hsent, hsize, hfront ▸ List.take_prefix _ _, ?_, ?_, ?_⟩
  · rw [packetOf_pageLen]
    exact congrArg (fun m => m + 3) (hlenField.trans (Nat.add_comm 2 n))
  · rw [packetOf_pageLen, bytesBeforePageLen]
    omega
  · intro rest
    have hcounted : 256 * (UInt8.ofNat ((2 + n) / 256)).toNat + (UInt8.ofNat (2 + n)).toNat =
        (1 :: 0 :: (markerOf volume ++ text.carried)).length := by
      rw [hlenField, List.length_cons, List.length_cons, ← hpayload]
      omega
    exact receive_packet rest hcounted

def greeting : VoiceText := ⟨[0xC4, 0xFA, 0xBA, 0xC3], by decide, by decide⟩

/-- The third volume has the marker `[v3]`. -/
example : (ttsAppPackVoiceStr true 2 greeting.bytes 4).map (fun packed =>
    match packed with
    | .sent pro uartData _ => (pro.pageLen, receive uartData)
    | .returned _ => (0, none)) =
    some (13, some (1 :: 0 :: (ascii "[v3]" ++ greeting.bytes), [])) := by decide +kernel

end VehicleTerminal.Tts
