import VehicleTerminal.Library.CString

/-! The frames of the debug port in `fct_driver.c`. A read outside the chunk has no result. The
positions written in `FCT_recv.buf` are logged; a write outside it changes nothing there. -/
namespace VehicleTerminal.FctDebug
open CString

section Model

def fctRecvLen : ℕ := 128

structure PrtlRecDebug where
  state : UInt8
  length : ℕ
  buf : List UInt8
  deriving Repr, DecidableEq

/-- The bytes of one call, whose number is an `unsigned short`. -/
structure Chunk where
  bytes : List UInt8
  counted : bytes.length < 65536

/-- `FCT_recv`, the positions written in its buffer, and whether a message was posted. -/
structure Received where
  recv : PrtlRecDebug
  written : List ℕ
  posted : Bool
  deriving Repr, DecidableEq

/-- `for(i=0; i<len-3; i++)` up to the header, with the rounds that are left. -/
def headerLoop (pBuffer : List UInt8) : ℕ → ℕ → Option (Option ℕ)
  | 0, _ => some none
  | rounds + 1, i =>
    (pBuffer[i]?).bind fun tmp =>
      if 0x45 = tmp then
        (strncmpEq (ascii "EYE+") pBuffer i).bind fun found =>
          if found then some (some i) else headerLoop pBuffer rounds (i + 1)
      else headerLoop pBuffer rounds (i + 1)

/-- `for( ;i<len; i++)` with the rounds that are left. -/
def copyLoop (pBuffer : List UInt8) : ℕ → ℕ → Received → Option Received
  | 0, _, r => some r
  | rounds + 1, i, r =>
    (pBuffer[i]?).bind fun tmp =>
      if tmp ≠ 0x0d ∧ r.recv.length < fctRecvLen then
        copyLoop pBuffer rounds (i + 1)
          { r with
            recv := { r.recv with
              buf := r.recv.buf.set r.recv.length tmp
              length := (r.recv.length + 1) % 256 }
            written := r.written ++ [r.recv.length] }
      else
        some
          { recv := { r.recv with buf := r.recv.buf.set (r.recv.length + 1) 0 }
            written := r.written ++ [r.recv.length + 1]
            posted := true }

def fctAppDisposeDebugRecvData (recv : PrtlRecDebug) (chunk : Chunk) : Option Received :=
  (headerLoop chunk.bytes (chunk.bytes.length - 3) 0).bind fun header =>
    match header with
    | none => some ⟨recv, [], false⟩
    | some i =>
      let recv := { recv with length := 0, buf := List.replicate (fctRecvLen + 1) 0 }
      copyLoop chunk.bytes (chunk.bytes.length - i) i ⟨recv, [], false⟩

end Model

section Property

/-- The first position of the header. -/
def firstHeader (chunk : Chunk) : Option ℕ :=
  (List.range chunk.bytes.length).find? fun s => ascii "EYE+" <+: chunk.bytes.drop s

/-- The bytes before the carriage return, as far as they fit. -/
def frameText (frame : List UInt8) : List UInt8 :=
  (frame.takeWhile fun b => b ≠ 0x0d).take fctRecvLen

/-- The receiver with a text, and zeros behind it. -/
def holding (state : UInt8) (text : List UInt8) : PrtlRecDebug :=
  ⟨state, text.length, text ++ List.replicate (fctRecvLen + 1 - text.length) 0⟩

section Steps

variable {pBuffer rest text : List UInt8} {state : UInt8} {written : List ℕ} {i : ℕ}

theorem holding_set (h : text.length < fctRecvLen) (b : UInt8) :
    (holding state text).buf.set text.length b = (holding state (text ++ [b])).buf := by
  have hzeros : fctRecvLen + 1 - text.length = fctRecvLen + 1 - (text.length + 1) + 1 := by omega
  simp only [holding, List.length_append, List.length_singleton, hzeros, List.replicate_succ]
  rw [List.set_append_right _ _ le_rfl, Nat.sub_self, List.set_cons_zero, List.append_assoc]
  rfl

/-- The terminator meets a zero, or lies outside the buffer. -/
theorem holding_terminate :
    (holding state text).buf.set (text.length + 1) 0 = (holding state text).buf := by
  simp only [holding]
  rw [List.set_append_right _ _ (by omega), List.set_replicate_self]

/-- The frame behind `text` reaches the end of the buffer before its carriage return. -/
def Overruns (text rest : List UInt8) : Prop :=
  fctRecvLen < text.length + rest.length ∧ 0x0d ∉ rest.take (fctRecvLen - text.length)

/-- A message is due for the frame behind `text`. -/
def Complete (text rest : List UInt8) : Prop :=
  0x0d ∈ rest ∨ fctRecvLen < text.length + rest.length

def InsideBuf (written : List ℕ) : Prop := ∀ j ∈ written, j < fctRecvLen + 1

instance (written : List ℕ) : Decidable (InsideBuf written) := List.decidableBAll ..

theorem insideBuf_concat {j : ℕ} :
    InsideBuf (written ++ [j]) ↔ InsideBuf written ∧ j < fctRecvLen + 1 := by
  simp [InsideBuf, or_imp, forall_and]

theorem complete_cons {b : UInt8} (hb : b ≠ 0x0d) :
    Complete (text ++ [b]) rest ↔ Complete text (b :: rest) := by
  have hlength : (text ++ [b]).length + rest.length = text.length + (b :: rest).length := by
    simp only [List.length_append, List.length_cons, List.length_nil]
    omega
  rw [Complete, Complete, hlength, List.mem_cons, or_iff_right hb.symm]

theorem overruns_cons {b : UInt8} (hstep : b ≠ 0x0d ∧ text.length < fctRecvLen) :
    Overruns (text ++ [b]) rest ↔ Overruns text (b :: rest) := by
  have hlength : (text ++ [b]).length + rest.length = text.length + (b :: rest).length := by
    simp only [List.length_append, List.length_cons, List.length_nil]
    omega
  have hroom : fctRecvLen - text.length = fctRecvLen - (text ++ [b]).length + 1 := by
    have := hstep.2
    rw [List.length_append, List.length_singleton]
    omega
  rw [Overruns, Overruns, hlength, hroom, List.take_succ_cons, List.mem_cons,
    or_iff_right hstep.1.symm]

/-- Where the copy stops, the text does not grow. -/
theorem takeWhile_stop {b : UInt8} (htext : text.length ≤ fctRecvLen)
    (hstop : ¬ (b ≠ 0x0d ∧ text.length < fctRecvLen)) :
    (text ++ (b :: rest).takeWhile fun b => b ≠ 0x0d).take fctRecvLen = text := by
  by_cases hcr : b = 0x0d
  · rw [List.takeWhile_cons_of_neg (by simpa using hcr), List.append_nil,
      List.take_of_length_le htext]
  · have hfull : text.length = fctRecvLen :=
      le_antisymm htext (not_lt.mp fun h => hstop ⟨hcr, h⟩)
    rw [← hfull, List.take_left]

theorem overruns_stop {b : UInt8} (htext : text.length ≤ fctRecvLen)
    (hstop : ¬ (b ≠ 0x0d ∧ text.length < fctRecvLen)) :
    Overruns text (b :: rest) ↔ text.length = fctRecvLen := by
  constructor
  · rintro ⟨-, hnone⟩
    refine le_antisymm htext (not_lt.mp fun hlt => hstop ⟨?_, hlt⟩)
    rintro rfl
    refine hnone ?_
    obtain ⟨n, hn⟩ := Nat.exists_eq_add_of_lt hlt
    rw [show fctRecvLen - text.length = n + 1 by omega, List.take_succ_cons]
    exact List.mem_cons_self
  · intro hfull
    refine ⟨by rw [List.length_cons]; omega, ?_⟩
    rw [hfull, Nat.sub_self, List.take_zero]
    exact List.not_mem_nil

/-- The copy loop behind `text`, by induction on the bytes that are left. -/
theorem copyLoop_spec (hrest : pBuffer.drop i = rest) (htext : text.length ≤ fctRecvLen) :
    ∃ written' posted, copyLoop pBuffer rest.length i ⟨holding state text, written, false⟩ =
        some ⟨holding state ((text ++ rest.takeWhile fun b => b ≠ 0x0d).take fctRecvLen), written',
          posted⟩ ∧
      (posted = true ↔ Complete text rest) ∧
      (InsideBuf written' ↔ InsideBuf written ∧ ¬ Overruns text rest) := by
  induction rest generalizing text written i with
  | nil =>
    refine ⟨written, false, ?_, ?_, ?_⟩
    · rw [List.length_nil, copyLoop, List.takeWhile_nil, List.append_nil,
        List.take_of_length_le htext]
    · simp [Complete]
      exact htext
    · simp [Overruns, htext]
  | cons b rest ih =>
    have hread : pBuffer[i]? = some b := by
      rw [← List.head?_drop, hrest, List.head?_cons]
    have hnext : pBuffer.drop (i + 1) = rest := by
      rw [← List.drop_drop, hrest, List.drop_succ_cons, List.drop_zero]
    rw [List.length_cons, copyLoop, hread, Option.bind_some]
    by_cases hstep : b ≠ 0x0d ∧ text.length < fctRecvLen
    · have hstored : (⟨state, (text.length + 1) % 256,
          (holding state text).buf.set text.length b⟩ : PrtlRecDebug) =
          holding state (text ++ [b]) := by
        have hsmall : text.length + 1 < 256 := by
          have := hstep.2
          unfold fctRecvLen at this
          omega
        rw [holding_set hstep.2, Nat.mod_eq_of_lt hsmall, holding, List.length_append,
          List.length_singleton]
      have hroom : (text ++ [b]).length ≤ fctRecvLen := by
        rw [List.length_append, List.length_singleton]
        exact hstep.2
      obtain ⟨written', posted, hrun, hposted, hinside⟩ :=
        @ih (text ++ [b]) (written ++ [text.length]) (i + 1) hnext hroom
      refine ⟨written', posted, ?_, ?_, ?_⟩
      · refine (if_pos hstep).trans ?_
        refine (congrArg (fun recv => copyLoop pBuffer rest.length (i + 1)
          ⟨recv, written ++ [text.length], false⟩) hstored).trans (hrun.trans ?_)
        rw [List.takeWhile_cons_of_pos (by simpa using hstep.1), List.append_assoc,
          List.singleton_append]
      · rw [hposted, complete_cons hstep.1]
      · have hfits : text.length < fctRecvLen + 1 := Nat.lt_succ_of_lt hstep.2
        rw [hinside, insideBuf_concat, overruns_cons hstep, and_iff_left hfits]
    · refine ⟨written ++ [text.length + 1], true, ?_, ?_, ?_⟩
      · rw [takeWhile_stop htext hstep]
        refine (if_neg hstep).trans ?_
        exact congrArg (fun buf => some (Received.mk ⟨state, text.length, buf⟩
          (written ++ [text.length + 1]) true)) holding_terminate
      · rw [Complete]
        by_cases hcr : b = 0x0d
        · simp [hcr]
        · have hfull := not_lt.mp fun h => hstep ⟨hcr, h⟩
          exact iff_of_true rfl (.inr (by rw [List.length_cons]; omega))
      · rw [insideBuf_concat, overruns_stop htext hstep]
        exact and_congr_right fun _ => by omega

end Steps

section Header

variable {pBuffer : List UInt8} {i rounds : ℕ}

theorem isHeader_head {b : UInt8} (hread : pBuffer[i]? = some b)
    (hheader : ascii "EYE+" <+: pBuffer.drop i) : 0x45 = b := by
  obtain ⟨behind, hbehind⟩ := hheader
  have hhead : (pBuffer.drop i).head? = some 0x45 := by
    rw [← hbehind]
    rfl
  rw [List.head?_drop, hread] at hhead
  exact (Option.some.inj hhead).symm

/-- The search finds the first header among the positions left, by induction on the rounds. -/
theorem headerLoop_spec (hbound : i + rounds + 3 ≤ pBuffer.length) :
    headerLoop pBuffer rounds i =
      some ((List.range' i rounds).find? fun s => ascii "EYE+" <+: pBuffer.drop s) := by
  induction rounds generalizing i with
  | zero => rfl
  | succ rounds ih =>
    have hi : i < pBuffer.length := by omega
    have hread : pBuffer[i]? = some pBuffer[i] := List.getElem?_eq_getElem hi
    have hcompare : strncmpEq (ascii "EYE+") pBuffer i =
        some (decide (ascii "EYE+" <+: pBuffer.drop i)) := by
      refine strncmpEq_of_le ?_
      have hlen : (ascii "EYE+").length = 4 := rfl
      omega
    rw [headerLoop, hread, Option.bind_some, hcompare, Option.bind_some, ih (by omega),
      List.range'_succ]
    by_cases hheader : ascii "EYE+" <+: pBuffer.drop i
    · rw [if_pos (isHeader_head hread hheader), List.find?_cons_of_pos (by simpa using hheader)]
      simp [hheader]
    · rw [List.find?_cons_of_neg (by simpa using hheader)]
      simp [hheader]

/-- No header begins among the last three bytes. -/
theorem firstHeader_eq (chunk : Chunk) : firstHeader chunk =
    (List.range' 0 (chunk.bytes.length - 3)).find? fun s =>
      ascii "EYE+" <+: chunk.bytes.drop s := by
  have hsplit : List.range chunk.bytes.length = List.range' 0 (chunk.bytes.length - 3) ++
      List.range' (chunk.bytes.length - 3) (chunk.bytes.length - (chunk.bytes.length - 3)) := by
    have happend := @List.range'_append_1 0 (chunk.bytes.length - 3)
      (chunk.bytes.length - (chunk.bytes.length - 3))
    rw [Nat.zero_add] at happend
    rw [happend, List.range_eq_range']
    congr 1
    omega
  have hnone : (List.range' (chunk.bytes.length - 3)
      (chunk.bytes.length - (chunk.bytes.length - 3))).find?
      (fun s => decide (ascii "EYE+" <+: chunk.bytes.drop s)) = none := by
    refine List.find?_eq_none.mpr fun s hs => ?_
    rw [decide_eq_true_iff]
    intro hheader
    have hlen : 4 ≤ chunk.bytes.length - s := by
      have := hheader.length_le
      rwa [List.length_drop] at this
    have := (List.mem_range'_1.mp hs).1
    omega
  rw [firstHeader, hsplit, List.find?_append, hnone, Option.or_none]

theorem headerLoop_eq (chunk : Chunk) :
    headerLoop chunk.bytes (chunk.bytes.length - 3) 0 = some (firstHeader chunk) := by
  rw [firstHeader_eq]
  by_cases hshort : chunk.bytes.length < 3
  · rw [Nat.sub_eq_zero_of_le hshort.le]
    rfl
  · exact headerLoop_spec (by omega)

end Header

section Assembly

variable {recv : PrtlRecDebug} {chunk : Chunk} {s : ℕ}

theorem dispose_none (h : firstHeader chunk = none) :
    fctAppDisposeDebugRecvData recv chunk = some ⟨recv, [], false⟩ := by
  rw [fctAppDisposeDebugRecvData, headerLoop_eq, Option.bind_some, h]

theorem dispose_some (h : firstHeader chunk = some s) :
    ∃ written posted, fctAppDisposeDebugRecvData recv chunk =
        some ⟨holding recv.state (frameText (chunk.bytes.drop s)), written, posted⟩ ∧
      (posted = true ↔ Complete [] (chunk.bytes.drop s)) ∧
      (InsideBuf written ↔ ¬ Overruns [] (chunk.bytes.drop s)) := by
  obtain ⟨written, posted, hrun, hposted, hinside⟩ :=
    @copyLoop_spec chunk.bytes _ [] recv.state [] s rfl (Nat.zero_le _)
  refine ⟨written, posted, ?_, hposted, ?_⟩
  · rw [List.length_drop] at hrun
    rw [fctAppDisposeDebugRecvData, headerLoop_eq, Option.bind_some, h]
    exact hrun
  · rw [hinside, and_iff_right]
    exact fun j hj => absurd hj List.not_mem_nil

/-- A message is due from the header on. -/
def Due (chunk : Chunk) : Prop :=
  ∃ s, firstHeader chunk = some s ∧
    (0x0d ∈ chunk.bytes.drop s ∨ fctRecvLen < (chunk.bytes.drop s).length)

/-- What one call leaves, for a chunk it is given. -/
structure Assembled (recv : PrtlRecDebug) (chunk : Chunk) (r : Received) : Prop where
  inside : InsideBuf r.written
  posted : r.posted = true ↔ Due chunk
  text : r.posted = true → ∀ s, firstHeader chunk = some s →
    frameText (chunk.bytes.drop s) ++ [0] <+: r.recv.buf ∧
      r.recv.length = (frameText (chunk.bytes.drop s)).length ∧
      r.recv.buf.length = fctRecvLen + 1
  unchanged : firstHeader chunk = none → r.recv = recv

/-- All bytes are read inside the chunk, and the outcome is the frame's. -/
def Assembles (recv : PrtlRecDebug) (chunk : Chunk) : Prop :=
  ∃ r, fctAppDisposeDebugRecvData recv chunk = some r ∧ Assembled recv chunk r

theorem length_frameText_le (frame : List UInt8) : (frameText frame).length ≤ fctRecvLen :=
  List.length_take_le ..

theorem holding_text {state : UInt8} {text : List UInt8} (htext : text.length ≤ fctRecvLen) :
    text ++ [0] <+: (holding state text).buf ∧
      (holding state text).buf.length = fctRecvLen + 1 := by
  constructor
  · have hzeros : fctRecvLen + 1 - text.length = fctRecvLen - text.length + 1 := by omega
    rw [holding, hzeros, List.replicate_succ]
    exact (List.prefix_append_right_inj text).mpr ⟨_, rfl⟩
  · rw [holding, List.length_append, List.length_replicate]
    omega

theorem assembles_none (h : firstHeader chunk = none) : Assembles recv chunk := by
  refine ⟨_, dispose_none h, ?_, ?_, ?_, ?_⟩
  · exact fun j hj => absurd hj List.not_mem_nil
  · refine iff_of_false Bool.false_ne_true ?_
    rintro ⟨s, hs, -⟩
    rw [h] at hs
    cases hs
  · exact fun hposted => absurd hposted Bool.false_ne_true
  · exact fun _ => rfl

theorem assembles_some (h : firstHeader chunk = some s) :
    Assembles recv chunk ↔ ¬ Overruns [] (chunk.bytes.drop s) := by
  obtain ⟨written, posted, hrun, hposted, hinside⟩ := @dispose_some recv chunk s h
  rw [← hinside]
  constructor
  · rintro ⟨r, hr, hassembled⟩
    obtain rfl := Option.some.inj (hrun.symm.trans hr)
    exact hassembled.inside
  · intro hwritten
    refine ⟨_, hrun, hwritten, ?_, ?_, ?_⟩
    · rw [hposted, Due, Complete, List.length_nil, Nat.zero_add]
      constructor
      · intro hdue
        exact ⟨s, h, hdue⟩
      · rintro ⟨s', hs', hdue⟩
        rwa [Option.some.inj (hs'.symm.trans h)] at hdue
    · intro _ s' hs'
      obtain rfl := Option.some.inj (hs'.symm.trans h)
      obtain ⟨hfront, hlength⟩ := holding_text (length_frameText_le (chunk.bytes.drop s'))
      exact ⟨hfront, rfl, hlength⟩
    · intro hnone
      rw [h] at hnone
      cases hnone

/-- Behind the header there is a carriage return before the buffer is full, or no byte after. -/
def FitsBuf (chunk : Chunk) : Prop :=
  ∀ s, firstHeader chunk = some s →
    0x0d ∈ (chunk.bytes.drop s).take fctRecvLen ∨ (chunk.bytes.drop s).length ≤ fctRecvLen

instance (chunk : Chunk) : Decidable (FitsBuf chunk) :=
  inferInstanceAs (Decidable (∀ s ∈ firstHeader chunk, _ ∨ _))

theorem FitsBuf.not_overruns (h : FitsBuf chunk) (hs : firstHeader chunk = some s) :
    ¬ Overruns [] (chunk.bytes.drop s) := by
  rintro ⟨hlong, hnone⟩
  rw [List.length_nil, Nat.zero_add] at hlong
  rcases h s hs with hcr | hshort
  · exact hnone hcr
  · exact absurd hlong (not_lt.mpr hshort)

/-- The frame is assembled unless 128 bytes of it fill the buffer and more bytes follow: the
terminator is written one position behind the place that the text has left for it. -/
theorem assembles_iff (recv : PrtlRecDebug) (chunk : Chunk) :
    Assembles recv chunk ↔ FitsBuf chunk := by
  rw [FitsBuf]
  cases h : firstHeader chunk with
  | none =>
    refine iff_of_true (assembles_none h) fun s hs => ?_
    cases hs
  | some s =>
    rw [assembles_some h, Overruns, List.length_nil, Nat.zero_add, Nat.sub_zero, not_and_or,
      not_not, not_lt, or_comm]
    constructor
    · rintro hfits s' hs'
      rwa [← Option.some.inj hs']
    · intro hfits
      exact hfits s rfl

/-- The header and 125 zeros, without a carriage return. -/
def overlong : Chunk := ⟨ascii "EYE+" ++ List.replicate 125 0x30, by decide +kernel⟩

theorem not_assembles_overlong : ¬ Assembles ⟨0, 0, List.replicate 129 0⟩ overlong := by
  have hheader : firstHeader overlong = some 0 := by decide +kernel
  rw [assembles_some hheader, not_not]
  constructor <;> decide +kernel

end Assembly

end Property

end VehicleTerminal.FctDebug
