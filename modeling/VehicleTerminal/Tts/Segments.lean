import VehicleTerminal.Library.CString
import VehicleTerminal.Library.Memory
import VehicleTerminal.Library.MixedText
import VehicleTerminal.Library.Simulation

/-! The cutting of a stored text into the pieces that are spoken one after the other. A read
outside the data pool, and a scan that does not end, leave a load without result. -/
namespace VehicleTerminal.Tts
open CString MixedText PartialRun

section Model

def voiceDataLen : ℕ := 512

inductive TtsStatus
  | voiceInit
  | voiceLoad
  | voicePlay
  | voiceEnd
  deriving Repr, DecidableEq

/-- `sendPtr` is a place in the data pool. -/
structure SttsAttrib where
  voiceDataLen : ℕ
  sendDataLen : ℕ
  status : TtsStatus
  curSendLen : ℕ
  oneMaxLen : ℕ
  oneMinLen : ℕ
  sendPtr : ℕ
  deriving Repr, DecidableEq

def lead (b : UInt8) : Bool := 0x80 ≤ b

/-- The full-width comma, enumeration comma and full stop. -/
def pauses : List (List UInt8) := [[0xA3, 0xAC], [0xA1, 0xA2], [0xA1, 0xA3]]

/-- Whether one of the marks stands at a place, compared in their order. -/
def pauseAt (pool : List UInt8) (place : ℕ) : List (List UInt8) → Option Bool
  | [] => some false
  | mark :: marks =>
    (strncmpEq mark pool place).bind fun found =>
      if found then some true else pauseAt pool place marks

/-- The loop over `curSendLen`, which is one byte: a loop of more rounds than a byte has values
does not end. -/
def scanVoice (pool : List UInt8) (sendPtr oneMinLen len : ℕ) : ℕ → ℕ → Option ℕ
  | 0, _ => none
  | rounds + 1, cur =>
    if cur < len then
      (pool[sendPtr + cur]?).bind fun chr =>
        if cur < oneMinLen then
          scanVoice pool sendPtr oneMinLen len rounds ((cur + if lead chr then 2 else 1) % 256)
        else if lead chr then
          (pauseAt pool (sendPtr + cur) pauses).bind fun pause =>
            if pause then some ((cur + 2) % 256)
            else scanVoice pool sendPtr oneMinLen len rounds ((cur + 2) % 256)
        else if chr = 0x2c ∨ chr = 0x2e then some ((cur + 1) % 256)
        else scanVoice pool sendPtr oneMinLen len rounds ((cur + 1) % 256)
    else some cur

/-- The piece that is handed to `TTSApp_PackVoiceStrToSend`, if there is one. -/
def ttsAppStatusVoiceLoad (pool : List UInt8) (s : SttsAttrib) :
    Option (SttsAttrib × Option (ℕ × ℕ)) :=
  let s := { s with curSendLen := 0 }
  if s.sendDataLen < s.voiceDataLen then
    let s := { s with sendPtr := s.sendDataLen }
    let s := if 0 = s.oneMaxLen then { s with oneMaxLen := 100, oneMinLen := 64 } else s
    let len := min (s.voiceDataLen - s.sendDataLen) s.oneMaxLen
    (scanVoice pool s.sendPtr s.oneMinLen len 256 s.curSendLen).map fun cur =>
      let s := { s with curSendLen := cur, sendDataLen := (s.sendDataLen + cur) % 65536 }
      let s :=
        if s.sendDataLen > s.voiceDataLen then
          { s with curSendLen := if s.curSendLen > 2 then s.curSendLen - 2 else 0 }
        else s
      if s.curSendLen ≠ 0 then (s, some (s.sendPtr, s.curSendLen))
      else ({ s with status := .voiceEnd }, none)
  else some ({ s with status := .voiceEnd }, none)

end Model

section Scan

variable {pool : List UInt8} {sendPtr oneMinLen len rounds cur : ℕ}

/-- The bytes that a character with this first byte takes. -/
def width (chr : UInt8) : ℕ := if lead chr then 2 else 1

theorem width_bytes (c : Chr lead) (behind : List UInt8) :
    ∃ chr, (c.bytes ++ behind)[0]? = some chr ∧ c.bytes.length = width chr := by
  cases c with
  | single b h => exact ⟨b, rfl, by simp [width, h, Chr.bytes]⟩
  | double b c h => exact ⟨b, rfl, by simp [width, h, Chr.bytes]⟩

theorem pauseAt_ne_none (marks : List (List UInt8)) {place : ℕ}
    (hmarks : ∀ mark ∈ marks, mark.length = 2) (hplace : place + 2 ≤ pool.length) :
    ∃ pause, pauseAt pool place marks = some pause := by
  induction marks with
  | nil => exact ⟨false, rfl⟩
  | cons mark marks ih =>
    have hmark := hmarks mark List.mem_cons_self
    rw [pauseAt, strncmpEq_of_le (by omega), Option.bind_some]
    split_ifs
    · exact ⟨true, rfl⟩
    · exact ih fun m hm => hmarks m (List.mem_cons_of_mem _ hm)

/-- A round goes over one character, and stops behind it or goes on. -/
theorem scanVoice_round (oneMinLen rounds : ℕ) {chr : UInt8} (hlt : cur < len)
    (hread : pool[sendPtr + cur]? = some chr)
    (hplace : lead chr = true → sendPtr + cur + 2 ≤ pool.length) (hbyte : cur + width chr < 256) :
    scanVoice pool sendPtr oneMinLen len (rounds + 1) cur = some (cur + width chr) ∨
      scanVoice pool sendPtr oneMinLen len (rounds + 1) cur =
        scanVoice pool sendPtr oneMinLen len rounds (cur + width chr) := by
  rw [scanVoice, if_pos hlt, hread, Option.bind_some]
  have hwrap : (cur + width chr) % 256 = cur + width chr := Nat.mod_eq_of_lt hbyte
  by_cases hmin : cur < oneMinLen
  · rw [if_pos hmin]
    exact .inr (congrArg _ hwrap)
  · rw [if_neg hmin]
    cases hlead : lead chr with
    | true =>
      have htwo : width chr = 2 := by simp [width, hlead]
      rw [htwo] at hwrap ⊢
      obtain ⟨pause, hpause⟩ :=
        pauseAt_ne_none pauses (by decide) (hplace hlead)
      rw [if_pos rfl, hpause, Option.bind_some, hwrap]
      cases pause with
      | true => exact .inl rfl
      | false => exact .inr rfl
    | false =>
      have hone : width chr = 1 := by simp [width, hlead]
      rw [hone] at hwrap ⊢
      rw [if_neg (by decide), hwrap]
      split_ifs
      · exact .inl rfl
      · exact .inr rfl

theorem scanVoice_stop (h : ¬ cur < len) :
    scanVoice pool sendPtr oneMinLen len (rounds + 1) cur = some cur := by
  rw [scanVoice, if_neg h]

/-- A scan ends behind whole characters, or one place behind an incomplete one. -/
def EndsBehind (cs : List (Chr lead)) (tail : List UInt8) (len cur r : ℕ) : Prop :=
  (∃ taken rest, cs = taken ++ rest ∧ r = cur + (encode taken).length ∧
    (cur < len → taken ≠ [])) ∨
  (tail ≠ [] ∧ r = cur + (encode cs).length + 2)

theorem EndsBehind.cons {c : Chr lead} {cs : List (Chr lead)} {tail : List UInt8} {r : ℕ}
    (h : EndsBehind cs tail len (cur + c.bytes.length) r) :
    EndsBehind (c :: cs) tail len cur r := by
  rcases h with ⟨taken, rest, rfl, rfl, -⟩ | ⟨htail, rfl⟩
  · refine .inl ⟨c :: taken, rest, rfl, ?_, fun _ => List.cons_ne_nil _ _⟩
    rw [encode_cons, List.length_append, Nat.add_assoc]
  · refine .inr ⟨htail, ?_⟩
    rw [encode_cons, List.length_append]
    omega

/-- The scan over the characters from `cur` on. -/
theorem scanVoice_ends {front behind tail : List UInt8} {cs : List (Chr lead)}
    (hpool : pool = front ++ (encode cs ++ (tail ++ behind))) (hbehind : behind ≠ [])
    (htail : Incomplete lead tail) (hfront : front.length = sendPtr + cur)
    (hlen : len ≤ cur + (encode cs).length + tail.length) (hcap : len ≤ 226)
    (hcur : cur ≤ len + 1) (hrounds : len < rounds + cur) (hpos : 0 < rounds) :
    ∃ r, scanVoice pool sendPtr oneMinLen len rounds cur = some r ∧ r ≤ len + 1 ∧
      EndsBehind cs tail len cur r := by
  induction cs generalizing front cur rounds with
  | nil =>
    obtain ⟨rounds, rfl⟩ := Nat.exists_eq_succ_of_ne_zero hpos.ne'
    by_cases hlt : cur < len
    · rcases htail with rfl | ⟨b, rfl, hb⟩
      · simp at hlen
        omega
      · have hone : len = cur + 1 := by
          simp at hlen
          omega
        have hread : pool[sendPtr + cur]? = some b := by
          rw [hpool, ← hfront, List.getElem?_append_right le_rfl, Nat.sub_self]
          rfl
        have hwidth : width b = 2 := by simp [width, hb]
        have hroom : 0 < behind.length := List.length_pos_iff.mpr hbehind
        have hround := scanVoice_round oneMinLen rounds hlt hread
          (fun _ => by rw [hpool]; simp; omega) (by omega)
        rw [hwidth] at hround
        refine ⟨cur + 2, ?_, by omega, .inr ⟨by simp, rfl⟩⟩
        rcases hround with hstop | hgo
        · exact hstop
        · obtain ⟨rounds, rfl⟩ := Nat.exists_eq_succ_of_ne_zero (show rounds ≠ 0 by omega)
          rw [hgo]
          exact scanVoice_stop (by omega)
    · exact ⟨cur, scanVoice_stop hlt, hcur, .inl ⟨[], [], rfl, rfl, fun h => absurd h hlt⟩⟩
  | cons c cs ih =>
    obtain ⟨rounds, rfl⟩ := Nat.exists_eq_succ_of_ne_zero hpos.ne'
    by_cases hlt : cur < len
    · obtain ⟨chr, hchr, hwidth⟩ := width_bytes c (encode cs ++ (tail ++ behind))
      have hc := c.bytes_length_pos
      have hc' := c.bytes_length_le
      have hpool' : pool = (front ++ c.bytes) ++ (encode cs ++ (tail ++ behind)) := by
        rw [hpool, encode_cons, List.append_assoc, List.append_assoc]
      have hread : pool[sendPtr + cur]? = some chr := by
        rw [hpool', List.append_assoc, ← hfront, List.getElem?_append_right le_rfl, Nat.sub_self,
          hchr]
      have hround := scanVoice_round oneMinLen rounds hlt hread
        (fun hlead => by
          have htwo : c.bytes.length = 2 := by rw [hwidth]; simp [width, hlead]
          rw [hpool']
          simp
          omega) (by omega)
      rw [← hwidth] at hround
      rcases hround with hstop | hgo
      · refine ⟨_, hstop, by omega, .inl ⟨[c], cs, rfl, by simp, by simp⟩⟩
      · rw [encode_cons, List.length_append] at hlen
        have hfront' : (front ++ c.bytes).length = sendPtr + (cur + c.bytes.length) := by
          rw [List.length_append]
          omega
        have hrounds' : len < rounds + (cur + c.bytes.length) := by omega
        obtain ⟨r, hr, hle, hend⟩ :=
          ih hpool' hfront' (by omega) (by omega) hrounds' (by omega)
        exact ⟨r, hgo.trans hr, hle, hend.cons⟩
    · exact ⟨cur, scanVoice_stop hlt, hcur,
        .inl ⟨[], c :: cs, rfl, rfl, fun h => absurd h hlt⟩⟩

end Scan

/-- A stored text with the limits for its pieces. -/
structure StoredVoice where
  text : List UInt8
  nonempty : 0 < text.length
  fits : text.length ≤ voiceDataLen
  behind : List UInt8
  pool_size : (text ++ behind).length = voiceDataLen + 1
  oneMaxLen : ℕ
  max_le : oneMaxLen ≤ 226
  oneMinLen : ℕ
  min_pos : 1 ≤ oneMinLen
  min_le : oneMinLen ≤ oneMaxLen

namespace StoredVoice

variable (voice : StoredVoice)

/-- The data pool. -/
def pool : List UInt8 := voice.text ++ voice.behind

/-- The state before the first load, with whatever the last text has left in it. -/
def start (curSendLen sendPtr : ℕ) : SttsAttrib :=
  ⟨voice.text.length, 0, .voiceLoad, curSendLen, voice.oneMaxLen, voice.oneMinLen, sendPtr⟩

/-- One load. -/
def load (s : SttsAttrib) (_ : Unit) : Option (SttsAttrib × Option (ℕ × ℕ)) :=
  ttsAppStatusVoiceLoad voice.pool s

/-- The bytes of a piece. -/
def piece (segment : ℕ × ℕ) : List UInt8 := BlockMemory.slice voice.pool segment.1 segment.2

/-- The pieces that are handed out from the state `s` on, as groups of whole characters, until
the loads end. -/
structure HandsOut (s : SttsAttrib) (segments : List (ℕ × ℕ)) (groups : List (List (Chr lead))) :
    Prop where
  ends : ∃ s', run voice.load s (List.replicate (segments.length + 1) ()) =
    some (s', segments.map some ++ [none]) ∧ s'.status = .voiceEnd
  pieces : segments.map voice.piece = groups.map encode
  lengths : segments.map Prod.snd = groups.map fun group => (encode group).length
  bounded : ∀ group ∈ groups, group ≠ [] ∧ (encode group).length ≤ voice.oneMaxLen + 1

/-- The loads hand out the text, less a lead byte without its second byte. -/
def Segmented (s : SttsAttrib) : Prop :=
  ∃ segments groups tail, voice.HandsOut s segments groups ∧
    voice.text = (segments.map voice.piece).flatten ++ tail ∧ Incomplete lead tail

/-- The state when the text has been handed out up to `sent`. -/
structure At (sent : ℕ) (s : SttsAttrib) : Prop where
  voiceDataLen : s.voiceDataLen = voice.text.length
  sendDataLen : s.sendDataLen = sent
  oneMaxLen : s.oneMaxLen = voice.oneMaxLen
  oneMinLen : s.oneMinLen = voice.oneMinLen

variable {voice} {s : SttsAttrib} {sent : ℕ}

theorem load_end (h : voice.At sent s) (hend : voice.text.length ≤ sent) :
    voice.load s () = some ({ s with curSendLen := 0, status := .voiceEnd }, none) := by
  rw [load, ttsAppStatusVoiceLoad]
  simp only [h.sendDataLen, h.voiceDataLen, not_lt.mpr hend, if_false]

/-- The length of the scan. -/
def scanLen (voice : StoredVoice) (sent : ℕ) : ℕ :=
  min (voice.text.length - sent) voice.oneMaxLen

/-- A load behind its scan. -/
theorem load_of_scan {r : ℕ} (h : voice.At sent s) (hmore : sent < voice.text.length)
    (hscan : scanVoice voice.pool sent voice.oneMinLen (voice.scanLen sent) 256 0 = some r)
    (hr : r ≤ voice.scanLen sent + 1) :
    ∃ s', voice.At (sent + r) s' ∧
      voice.load s () =
        (let cur := if sent + r > voice.text.length then if r > 2 then r - 2 else 0 else r
        if cur ≠ 0 then some ({ s' with curSendLen := cur }, some (sent, cur))
        else some ({ s' with curSendLen := cur, status := .voiceEnd }, none)) := by
  have hfits := voice.fits
  have hmin := voice.min_pos
  have hle := voice.min_le
  have hcap := voice.max_le
  have hword : (sent + r) % 65536 = sent + r := by
    unfold scanLen at hr
    unfold Tts.voiceDataLen at hfits
    omega
  refine ⟨{ s with sendPtr := sent, sendDataLen := sent + r }, ⟨h.voiceDataLen, rfl, h.oneMaxLen,
    h.oneMinLen⟩, ?_⟩
  have hmax : ¬ 0 = voice.oneMaxLen := by omega
  rw [scanLen] at hscan
  rw [load, ttsAppStatusVoiceLoad]
  simp only [h.sendDataLen, h.voiceDataLen, h.oneMinLen, h.oneMaxLen, hmore, if_true, hmax,
    if_false, hscan, Option.map_some, hword]
  split_ifs <;> rfl

/-- The scan of a load over the characters that are left. -/
theorem scan_ends {front tail : List UInt8} {cs : List (Chr lead)}
    (htext : voice.text = front ++ (encode cs ++ tail)) (htail : Incomplete lead tail) :
    ∃ r, scanVoice voice.pool front.length voice.oneMinLen (voice.scanLen front.length) 256 0 =
      some r ∧ r ≤ voice.scanLen front.length + 1 ∧
      EndsBehind cs tail (voice.scanLen front.length) 0 r := by
  have hpool : voice.pool = front ++ (encode cs ++ (tail ++ voice.behind)) := by
    rw [pool, htext]
    simp only [List.append_assoc]
  have hbehind : voice.behind ≠ [] := by
    intro hnil
    have hsize := voice.pool_size
    have hfits := voice.fits
    rw [hnil, List.append_nil] at hsize
    omega
  have hlen : voice.scanLen front.length ≤ 0 + (encode cs).length + tail.length := by
    rw [scanLen, htext]
    simp only [List.length_append]
    omega
  have hcap : voice.scanLen front.length ≤ 226 := (min_le_right _ _).trans voice.max_le
  exact scanVoice_ends hpool hbehind htail rfl hlen hcap (Nat.zero_le _) (by omega) (by decide)

theorem HandsOut.last {s' : SttsAttrib} (h : voice.load s () = some (s', none))
    (hs' : s'.status = .voiceEnd) : voice.HandsOut s [] [] where
  ends := ⟨s', by
    rw [List.length_nil, List.replicate_one, run_cons_of_step h, run_nil]
    rfl, hs'⟩
  pieces := rfl
  lengths := rfl
  bounded := by simp

theorem HandsOut.more {s' : SttsAttrib} {segment : ℕ × ℕ} {segments : List (ℕ × ℕ)}
    {group : List (Chr lead)} {groups : List (List (Chr lead))}
    (h : voice.load s () = some (s', some segment)) (hrest : voice.HandsOut s' segments groups)
    (hpiece : voice.piece segment = encode group) (hlen : segment.2 = (encode group).length)
    (hgroup : group ≠ []) (hbound : (encode group).length ≤ voice.oneMaxLen + 1) :
    voice.HandsOut s (segment :: segments) (group :: groups) where
  ends := by
    obtain ⟨s'', hrun, hend⟩ := hrest.ends
    refine ⟨s'', ?_, hend⟩
    rw [List.length_cons, List.replicate_succ, run_cons_of_step h, hrun]
    rfl
  pieces := by rw [List.map_cons, List.map_cons, hrest.pieces, hpiece]
  lengths := by rw [List.map_cons, List.map_cons, hrest.lengths, hlen]
  bounded := by
    intro g hg
    rcases List.mem_cons.mp hg with rfl | hg
    · exact ⟨hgroup, hbound⟩
    · exact hrest.bounded g hg

theorem piece_eq {front rest : List UInt8} {group : List (Chr lead)}
    (htext : voice.text = front ++ (encode group ++ rest)) :
    voice.piece (front.length, (encode group).length) = encode group := by
  rw [piece, BlockMemory.slice, pool, htext]
  simp

/-- Whole characters in front of the rest are handed out as a piece. -/
theorem load_whole {front rest : List UInt8} {taken : List (Chr lead)} (htaken : taken ≠ [])
    (htext : voice.text = front ++ (encode taken ++ rest)) (hs : voice.At front.length s)
    (hscan : scanVoice voice.pool front.length voice.oneMinLen (voice.scanLen front.length) 256 0 =
      some (encode taken).length)
    (hle : (encode taken).length ≤ voice.scanLen front.length + 1) :
    ∃ s', voice.At (front ++ encode taken).length s' ∧
      voice.load s () = some (s', some (front.length, (encode taken).length)) := by
  have hchars := encode_length_pos htaken
  have hlength : voice.text.length = front.length + ((encode taken).length + rest.length) := by
    rw [htext, List.length_append, List.length_append]
  have hinside : ¬ front.length + (encode taken).length > voice.text.length := by omega
  obtain ⟨s', hs', hload⟩ := load_of_scan hs (by omega) hscan hle
  rw [if_neg hinside] at hload
  simp only [hchars.ne', ne_eq, not_false_eq_true, if_true] at hload
  rw [List.length_append]
  exact ⟨{ s' with curSendLen := (encode taken).length },
    ⟨hs'.voiceDataLen, hs'.sendDataLen, hs'.oneMaxLen, hs'.oneMinLen⟩, hload⟩

/-- A scan over the end, behind an incomplete character, takes it back from the piece. -/
theorem handsOut_cut {front tail : List UInt8} {cs : List (Chr lead)} (hone : tail.length = 1)
    (htext : voice.text = front ++ (encode cs ++ tail)) (hs : voice.At front.length s)
    (hscan : scanVoice voice.pool front.length voice.oneMinLen (voice.scanLen front.length) 256 0 =
      some ((encode cs).length + 2))
    (hle : (encode cs).length + 2 ≤ voice.scanLen front.length + 1) :
    ∃ segments groups, voice.HandsOut s segments groups ∧ groups.flatten = cs := by
  have hmax : voice.scanLen front.length ≤ voice.oneMaxLen := min_le_right _ _
  have hlength : voice.text.length = front.length + ((encode cs).length + tail.length) := by
    rw [htext, List.length_append, List.length_append]
  have hbeyond : front.length + ((encode cs).length + 2) > voice.text.length := by omega
  obtain ⟨s', hs', hload⟩ := load_of_scan hs (by omega) hscan hle
  rw [if_pos hbeyond] at hload
  by_cases hnone : cs = []
  · subst hnone
    rw [encode_nil, List.length_nil, Nat.zero_add, if_neg (lt_irrefl 2)] at hload
    exact ⟨[], [], .last hload rfl, rfl⟩
  · have hchars := encode_length_pos hnone
    have hmore : (encode cs).length + 2 > 2 := Nat.lt_add_of_pos_left hchars
    rw [if_pos hmore, Nat.add_sub_cancel] at hload
    simp only [hchars.ne', ne_eq, not_false_eq_true, if_true] at hload
    have hlast := load_end (s := { s' with curSendLen := (encode cs).length })
      ⟨hs'.voiceDataLen, hs'.sendDataLen, hs'.oneMaxLen, hs'.oneMinLen⟩ hbeyond.le
    exact ⟨_, [cs], .more hload (.last hlast rfl) (piece_eq htext) rfl hnone (by omega), by simp⟩

/-- The loads from a place between two characters on. -/
theorem handsOut_from {front tail : List UInt8} {cs : List (Chr lead)}
    (htext : voice.text = front ++ (encode cs ++ tail)) (htail : Incomplete lead tail)
    (hs : voice.At front.length s) :
    ∃ segments groups, voice.HandsOut s segments groups ∧ groups.flatten = cs := by
  induction hn : cs.length using Nat.strong_induction_on generalizing cs front s with
  | _ n ih =>
    have hlength : voice.text.length = front.length + ((encode cs).length + tail.length) := by
      rw [htext, List.length_append, List.length_append]
    by_cases hmore : front.length < voice.text.length
    · obtain ⟨r, hscan, hle, hends⟩ := scan_ends htext htail
      rw [EndsBehind, Nat.zero_add] at hends
      have hmax : voice.scanLen front.length ≤ voice.oneMaxLen := min_le_right _ _
      have hpos : 0 < voice.scanLen front.length := by
        have hmin := voice.min_pos
        have hle := voice.min_le
        rw [scanLen]
        omega
      rcases hends with ⟨taken, rest, rfl, hr, htaken⟩ | ⟨hne, rfl⟩
      · rw [Nat.zero_add] at hr
        subst hr
        have htext' : voice.text = front ++ (encode taken ++ (encode rest ++ tail)) := by
          rw [htext, encode_append, List.append_assoc]
        have hrest : voice.text = (front ++ encode taken) ++ (encode rest ++ tail) := by
          rw [htext', List.append_assoc]
        have hshorter : rest.length < n := by
          rw [← hn, List.length_append]
          exact Nat.lt_add_of_pos_left (List.length_pos_iff.mpr (htaken hpos))
        obtain ⟨s', hs', hload⟩ := load_whole (htaken hpos) htext' hs hscan hle
        obtain ⟨segments, groups, hhands, hgroups⟩ := ih _ hshorter hrest hs' rfl
        exact ⟨_, taken :: groups, .more hload hhands (piece_eq htext') rfl (htaken hpos)
          (by omega), by rw [List.flatten_cons, hgroups]⟩
      · have hone : tail.length = 1 :=
          le_antisymm htail.length_le (List.length_pos_iff.mpr hne)
        exact handsOut_cut hone htext hs hscan hle
    · have hnone : cs = [] := by
        by_contra hne
        have hchars := encode_length_pos hne
        omega
      subst hnone
      exact ⟨[], [], .last (load_end hs (not_lt.mp hmore)) rfl, rfl⟩

/-- Every stored text is handed out in whole characters until the loads end. -/
theorem segmented (voice : StoredVoice) (curSendLen sendPtr : ℕ) :
    voice.Segmented (voice.start curSendLen sendPtr) := by
  obtain ⟨chars, tail, htext, htail⟩ := exists_parse lead voice.text
  have hfirst : voice.text = [] ++ (encode chars ++ tail) := htext
  obtain ⟨segments, groups, hhands, hgroups⟩ :=
    handsOut_from hfirst htail (s := voice.start curSendLen sendPtr) ⟨rfl, rfl, rfl, rfl⟩
  exact ⟨segments, groups, tail, hhands,
    by rw [hhands.pieces, flatten_encode, hgroups, htext], htail⟩

/-- A wide character, the full-width comma and two letters. -/
def pausing : StoredVoice where
  text := [0xC4, 0xFA, 0xA3, 0xAC, 0x41, 0x42]
  nonempty := by decide
  fits := by decide
  behind := List.replicate 507 0
  pool_size := by rw [List.length_append, List.length_replicate]; rfl
  oneMaxLen := 5
  max_le := by decide
  oneMinLen := 1
  min_pos := by decide
  min_le := by decide

/-- The first piece ends behind the comma. -/
example : (run pausing.load (pausing.start 0 0) [(), (), ()]).map Prod.snd =
    some [some (0, 4), some (4, 2), none] := by decide

end StoredVoice

end VehicleTerminal.Tts
