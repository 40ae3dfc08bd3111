import VehicleTerminal.Param.Bounds

/-! Messages that are sequences of well-formed records, and what the parser sees of a record
when more bytes follow it. -/
namespace VehicleTerminal.E2ParamApp
open ByteStore BlockMemory MachineInt EepromPram InputPrefix PartialLoop

/-- An ID, and data that their length byte can count. -/
structure TlvRecord where
  prePramID : ℕ
  data : List UInt8
  id_lt : prePramID < 2 ^ 32
  data_lt : data.length < 256

/-- Four bytes of ID, a length byte, and the data. -/
def TlvRecord.bytes (r : TlvRecord) : List UInt8 :=
  publicConvertLongToBuffer r.prePramID ++ UInt8.ofNat r.data.length :: r.data

def message (rs : List TlvRecord) : List UInt8 := rs.flatMap TlvRecord.bytes

@[simp] theorem TlvRecord.bytes_length (r : TlvRecord) :
    r.bytes.length = 5 + r.data.length := by
  rw [TlvRecord.bytes, List.length_append, convertLongToBuffer_length, List.length_cons]
  omega

@[simp] theorem message_nil : message [] = [] := rfl

@[simp] theorem message_cons (r : TlvRecord) (rs : List TlvRecord) :
    message (r :: rs) = r.bytes ++ message rs := rfl

/-- The heartbeat interval, a number of four bytes, as a record of the given data. -/
def heartbeatRecord (data : List UInt8) (h : data.length < 256) : TlvRecord :=
  ⟨1, data, by decide, h⟩

section Header

variable {env : Environment} {channel : ℕ} {r : TlvRecord} {rest : List UInt8} {d : Device}

/-- What the loop does with the answer to a record. -/
def nextRound (length : ℤ) (pramLen : ℕ) :
    ProtocolACK × List UInt8 × Device → Outcome Parser (ProtocolACK × Device)
  | (.ackError, _, d) => .returns (.ackError, d)
  | (.ackOk, p, d) => .continues ⟨p.drop pramLen, int16 (length - 4 - 1 - pramLen), d⟩

theorem round_bytes {length : ℤ} (hlength : length > 0) :
    round env channel ⟨r.bytes ++ rest, length, d⟩ =
      (disposeRecord env channel r.prePramID (r.data ++ rest) r.data.length d).map
        (nextRound length r.data.length) := by
  have hid : publicConvertBufferToLong (r.bytes ++ rest) = some r.prePramID := by
    rw [TlvRecord.bytes, List.append_assoc]
    exact convertBufferToLong_convertLongToBuffer r.id_lt _
  have hlen : (r.bytes ++ rest)[4]? = some (UInt8.ofNat r.data.length) := rfl
  have hdata : (r.bytes ++ rest).drop 5 = r.data ++ rest := rfl
  have hbyte : (UInt8.ofNat r.data.length).toNat = r.data.length :=
    UInt8.toNat_ofNat_of_lt' r.data_lt
  simp only [round, hlength, if_true, hid, hlen, hdata, hbyte, Option.bind_eq_bind,
    Option.bind_some]
  cases disposeRecord env channel r.prePramID (r.data ++ rest) r.data.length d with
  | none => rfl
  | some answer =>
    obtain ⟨ack, p, d'⟩ := answer
    cases ack <;> rfl

/-- A message of one record has the effect and the answer of that record. -/
theorem disposeWriteParam_bytes :
    disposeWriteParam env channel (r.bytes ++ rest) r.bytes.length d =
      (disposeRecord env channel r.prePramID (r.data ++ rest) r.data.length d).map
        fun answer => (answer.1, answer.2.2) := by
  have hdata := r.data_lt
  have hlength : int16 r.bytes.length = 5 + r.data.length := by
    rw [TlvRecord.bytes_length, int16]
    omega
  have hround : round env channel ⟨r.bytes ++ rest, int16 r.bytes.length, d⟩ = _ :=
    round_bytes (by omega)
  rw [disposeWriteParam]
  cases hdispose : disposeRecord env channel r.prePramID (r.data ++ rest) r.data.length d with
  | none =>
    rw [hdispose] at hround
    exact loop_of_stuck hround
  | some answer =>
    obtain ⟨ack, p, d'⟩ := answer
    rw [hdispose] at hround
    cases ack with
    | ackError => exact loop_of_returns hround
    | ackOk =>
      rw [loop_of_continues hround]
      apply loop_of_returns
      have hdone : ¬ int16 (int16 r.bytes.length - 4 - 1 - r.data.length) > 0 := by
        rw [hlength, int16]
        omega
      exact if_neg hdone

end Header

section Stability

variable {env : Environment} {channel prePramID pramID n flag : ℕ} {p p' : List UInt8}
  {ack : ProtocolACK} {d d' : Device}

theorem getElem?_stable (i : ℕ) : Stable fun p : List UInt8 => p[i]? := by
  intro p tail r h
  obtain ⟨hi, -⟩ := List.getElem?_eq_some_iff.mp h
  exact (List.getElem?_append_left hi).trans h

theorem checkNibbles_stable (k : ℕ) : Stable (checkNibbles k) := by
  intro p tail r h
  induction p generalizing k with
  | nil =>
    cases k with
    | zero => simpa [checkNibbles] using h
    | succ k => cases h
  | cons b p ih =>
    cases k with
    | zero => simpa [checkNibbles] using h
    | succ k =>
      rw [checkNibbles] at h
      rw [List.cons_append, checkNibbles]
      split_ifs at h ⊢
      · exact h
      · exact ih k h

theorem checkPhoneFormatData_stable (n : ℕ) : Stable fun p => checkPhoneFormatData p n := by
  unfold checkPhoneFormatData
  refine (stable_const _).ite ((getElem?_stable 0).bind fun first => .ite ?_ ?_)
  · exact (getElem?_stable 1).bind fun second => (stable_const _).ite (checkNibbles_stable n)
  · exact checkNibbles_stable n

theorem checkArrayValIsEqual_stable (array : List UInt8) :
    Stable (publicCheckArrayValIsEqual array) := by
  intro p tail r h
  induction array generalizing p with
  | nil => simpa [publicCheckArrayValIsEqual] using h
  | cons a array ih =>
    cases p with
    | nil => cases h
    | cons b p =>
      rw [publicCheckArrayValIsEqual] at h
      rw [List.cons_append, publicCheckArrayValIsEqual]
      split_ifs at h ⊢
      · exact h
      · exact ih p h

theorem afterWrite_stable (d : Device) : Stable fun p => afterWrite env channel pramID p n d := by
  unfold afterWrite
  refine .ite ?_ (.ite ?_ (.ite ?_ (.ite ?_ (.ite (stable_const _) (.ite ?_ (stable_const _))))))
  · exact (writePram_stable _ n _).bind fun r => stable_const _
  · exact (writePram_stable _ n _).bind fun r => stable_const _
  · exact (stable_const _).bind fun fram => ((copyOut_stable 4).map _).bind fun e => stable_const _
  · exact (stable_const _).bind fun fram => ((copyOut_stable 4).map _).bind fun e => stable_const _
  · exact (getElem?_stable 0).bind fun first => stable_const _

theorem readBack_stable (e : Eeprom) : Stable fun p => readBack pramID p e := by
  unfold readBack
  refine (stable_const _).bind fun r => ?_
  exact (checkArrayValIsEqual_stable _).bind fun differs => stable_const _

theorem storeParam_stable (d : Device) : Stable fun p => storeParam env channel pramID p n d := by
  unfold storeParam
  refine (writePram_stable _ n _).bind fun r => (afterWrite_stable _).bind fun d => .ite ?_ ?_
  · exact (readBack_stable _).bind fun ack => stable_const _
  · exact stable_const _

theorem forceCCCID_append (h : forceCCCID env pramID p = some p') (tail : List UInt8) :
    p'.length = p.length ∧ forceCCCID env pramID (p ++ tail) = some (p' ++ tail) := by
  rw [forceCCCID_eq] at h ⊢
  split_ifs at h with hshort
  cases h
  have hseven : pramID = e2CarOnlyNumId → 7 ≤ p.length := fun hid => by
    by_contra hlength
    exact hshort ⟨hid, by omega⟩
  refine ⟨withCCCID_length hseven, ?_⟩
  rw [if_neg (fun h => hshort ⟨h.1, by rw [List.length_append] at h; omega⟩), Option.some_inj]
  unfold withCCCID
  split_ifs with hid
  · have hdrop : 0 + env.recorderCCCID.length ≤ p.length := by
      rw [env.recorderCCCID_length, Nat.zero_add]
      exact hseven hid
    simp only [blit, List.take_zero, List.nil_append, List.drop_append_of_le_length hdrop,
      List.append_assoc]
  · rfl

theorem disposeRecognized_append
    (h : disposeRecognized env channel pramID p n flag d = some (ack, p', d'))
    (tail : List UInt8) :
    p'.length = p.length ∧
      disposeRecognized env channel pramID (p ++ tail) n flag d = some (ack, p' ++ tail, d') := by
  have hstable : Stable fun p => checkFormat pramID p n flag := by
    unfold checkFormat
    exact (checkPhoneFormatData_stable n).ite (stable_const _)
  simp only [disposeRecognized, Option.bind_eq_bind] at h ⊢
  obtain ⟨flag', hflag, h⟩ := Option.bind_eq_some_iff.mp h
  obtain ⟨p₁, hforce, h⟩ := Option.bind_eq_some_iff.mp h
  obtain ⟨hlength, hforce'⟩ := forceCCCID_append hforce tail
  have hflag' : checkFormat pramID (p ++ tail) n flag = some flag' := hstable p tail flag' hflag
  rw [hflag', Option.bind_some, hforce', Option.bind_some]
  split_ifs at h ⊢ with hzero
  · obtain ⟨⟨ack₁, d₁⟩, hstore, heq⟩ := Option.bind_eq_some_iff.mp h
    have hstore' : storeParam env channel pramID (p₁ ++ tail) n d = some (ack₁, d₁) :=
      storeParam_stable d p₁ tail _ hstore
    rw [hstore']
    cases heq
    exact ⟨hlength, rfl⟩
  · cases h
    exact ⟨hlength, rfl⟩

theorem Environment.ReadsOwnRecord.driver_stable (hreads : env.ReadsOwnRecord) (d : Device) :
    Stable fun p => disposeDriverInformation env pramID p n d := by
  unfold disposeDriverInformation
  exact (hreads.stable n d).ite (stable_const _)

/-- Bytes behind a record that fits change nothing about what becomes of it, and are left as
they are. -/
theorem disposeRecord_append (hreads : env.ReadsOwnRecord)
    (h : disposeRecord env channel prePramID p n d = some (ack, p', d')) (tail : List UInt8) :
    p'.length = p.length ∧
      disposeRecord env channel prePramID (p ++ tail) n d = some (ack, p' ++ tail, d') := by
  simp only [disposeRecord, Option.bind_eq_bind] at h ⊢
  obtain ⟨special, hspecial, h⟩ := Option.bind_eq_some_iff.mp h
  obtain ⟨kept, hkept, h⟩ := Option.bind_eq_some_iff.mp h
  have hspecial' : writeSpecialParam (prePramID % 65536) (p ++ tail) n d.eeprom = some special :=
    writeSpecialParam_stable _ n _ p tail special hspecial
  have hkept' : disposeDriverInformation env (convertPramID prePramID) (p ++ tail) n
      { d with eeprom := special.2 } = some kept :=
    hreads.driver_stable { d with eeprom := special.2 } p tail kept hkept
  rw [hspecial', Option.bind_some, hkept', Option.bind_some]
  by_cases hrec : Recognized (convertPramID prePramID) n
  · rw [if_pos hrec] at h ⊢
    exact disposeRecognized_append h tail
  · rw [if_neg hrec] at h ⊢
    cases h
    exact ⟨rfl, rfl⟩

end Stability

end VehicleTerminal.E2ParamApp
