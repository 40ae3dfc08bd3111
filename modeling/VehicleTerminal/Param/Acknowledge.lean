import VehicleTerminal.Param.Message

/-! What a positive answer to one record is worth: the parameter then reads as the data of
the record exactly when the record is as long as the number it sets. -/
namespace VehicleTerminal.E2ParamApp
open ByteStore BlockMemory MachineInt EepromPram InputPrefix PartialLoop

section Law

variable {env : Environment} {channel : ℕ} {r : TlvRecord} {rest : List UInt8} {d d' : Device}

/-- A record of a recognized ID without a branch of its own, with data that are read back. -/
structure Ordinary (r : TlvRecord) : Prop where
  recognized : Recognized (convertPramID r.prePramID) r.data.length
  positive : 1 ≤ r.data.length
  short : r.data.length < 30
  not_carOnlyNum : convertPramID r.prePramID ≠ e2CarOnlyNumId
  not_resume : convertPramID r.prePramID ≠ e2ResumeNousedId
  not_driver : ¬ IsDriverInformation (convertPramID r.prePramID)
  phone : convertPramID r.prePramID = e2DevicePhoneId →
    checkPhoneFormatData r.data r.data.length = some 0

/-- Whatever the EEPROM held and whatever lies behind the message in memory: after a positive
answer the parameter reads as the data. -/
def AckMeansStored (env : Environment) (channel : ℕ) (r : TlvRecord) : Prop :=
  ∀ rest d d', disposeWriteParam env channel (r.bytes ++ rest) r.bytes.length d =
      some (.ackOk, d') →
    eepromPramReadPram (convertPramID r.prePramID) d'.eeprom = some r.data

/-- An ordinary record is stored as it is, after a special write if its ID has one. -/
theorem disposeWriteParam_ordinary (h : Ordinary r) :
    disposeWriteParam env channel (r.bytes ++ rest) r.bytes.length d =
      (writeSpecialParam (r.prePramID % 65536) (r.data ++ rest) r.data.length d.eeprom).bind
        fun special => storeParam env channel (convertPramID r.prePramID) (r.data ++ rest)
          r.data.length { d with eeprom := special.2 } := by
  have hdriver (d : Device) : disposeDriverInformation env (convertPramID r.prePramID)
      (r.data ++ rest) r.data.length d = some d := if_neg fun hid => h.not_driver (.inl hid)
  have hforce : forceCCCID env (convertPramID r.prePramID) (r.data ++ rest) =
      some (r.data ++ rest) := if_neg h.not_carOnlyNum
  have hformat : checkFormat (convertPramID r.prePramID) (r.data ++ rest) r.data.length 0 =
      some 0 := by
    unfold checkFormat
    split_ifs with hid
    · exact checkPhoneFormatData_stable _ _ _ _ (h.phone hid)
    · rfl
  simp only [disposeWriteParam_bytes, disposeRecord, hdriver, h.not_driver, h.recognized,
    disposeRecognized, hformat, hforce, if_true, if_false, Option.bind_eq_bind, Option.bind_some,
    Option.map_bind, Function.comp_def]
  congr 1
  funext special
  cases storeParam env channel (convertPramID r.prePramID) (r.data ++ rest) r.data.length
    { d with eeprom := special.2 } <;> rfl

theorem afterWrite_of_storeParam {pramID n : ℕ} {p : List UInt8} {ack : ProtocolACK}
    (h : storeParam env channel pramID p n d = some (ack, d')) (hrec : Recognized pramID n)
    (hdata : n ≤ p.length) :
    afterWrite env channel pramID p n
      { d with eeprom := clearAuthorization env pramID (withRecord pramID n p d.eeprom) } =
        some d' := by
  obtain ⟨k, hw⟩ := writePram_recognized hrec hdata d.eeprom
  simp only [storeParam, hw, Option.bind_eq_bind, Option.bind_some] at h
  obtain ⟨d₁, hafter, h⟩ := Option.bind_eq_some_iff.mp h
  rw [hafter]
  split_ifs at h
  · obtain ⟨_, -, heq⟩ := Option.bind_eq_some_iff.mp h
    cases heq
    rfl
  · cases h
    rfl

/-- Whole records are stored, whatever the answer. -/
theorem ackMeansStored_of_whole (hclear : env.ClearsOnlyCodes) (h : Ordinary r)
    (hwhole : Whole (convertPramID r.prePramID) r.data.length) :
    AckMeansStored env channel r := by
  intro rest d d' hrun
  have hdata : r.data.length ≤ (r.data ++ rest).length := by
    rw [List.length_append]
    omega
  rw [disposeWriteParam_ordinary h] at hrun
  obtain ⟨special, -, hstore⟩ := Option.bind_eq_some_iff.mp hrun
  have hafter := afterWrite_of_storeParam hstore h.recognized hdata
  rw [afterWrite_readPram hclear h.recognized hwhole hdata h.not_resume h.short hafter,
    List.take_left]

theorem readBack_of_nil {pramID : ℕ} {e : Eeprom} (h : eepromPramReadPram pramID e = some [])
    (p : List UInt8) : readBack pramID p e = some .ackOk := by
  simp only [readBack, readInto, h, Option.bind_eq_bind, Option.bind_some]
  rfl

theorem specialExtent_le (usParamID n : ℕ) : specialExtent usParamID n ≤ n + 4 := by
  unfold specialExtent
  split_ifs <;> omega

/-- A number of which the record sets only the first bytes: some EEPROM contents make the
stored check byte fail, and a read that fails is compared as if it had no bytes. -/
theorem not_ackMeansStored_of_short (hclear : env.ClearsOnlyCodes) (h : Ordinary r)
    (hvalue : IsValue (e2ParamAppConvertPramIDToGroupIndex (convertPramID r.prePramID)))
    (hshort : r.data.length <
      lengthOf (e2ParamAppConvertPramIDToGroupIndex (convertPramID r.prePramID))) :
    ¬ AckMeansStored env channel r := by
  intro hlaw
  obtain ⟨hknown, hin, -⟩ := h.recognized
  obtain ⟨e, hunreadable⟩ := exists_unreadable hknown hin hvalue hshort
  have hfour : lengthOf (e2ParamAppConvertPramIDToGroupIndex (convertPramID r.prePramID)) ≤ 4 := by
    rcases hvalue with h | h | h <;> omega
  obtain ⟨d, rfl⟩ : ∃ d : Device, d.eeprom = e := ⟨⟨e, .erased, 0⟩, rfl⟩
  obtain ⟨rest, hrest⟩ : ∃ rest : List UInt8, rest.length = 4 := ⟨List.replicate 4 0, rfl⟩
  have hlength : (r.data ++ rest).length = r.data.length + 4 := by
    rw [List.length_append, hrest]
  have hdata : r.data.length ≤ (r.data ++ rest).length := by omega
  have hfits : writeSpecialParam (r.prePramID % 65536) (r.data ++ rest) r.data.length d.eeprom ≠
      none := by
    rw [ne_eq, writeSpecialParam_eq_none_iff, hlength]
    exact Nat.not_lt.mpr (specialExtent_le _ _)
  obtain ⟨⟨k, e₁⟩, hspecial⟩ := Option.ne_none_iff_exists'.mp hfits
  have hkept := (writeSpecialParam_recognized h.recognized hspecial).1
  obtain ⟨k', hw⟩ := writePram_recognized h.recognized hdata e₁
  have hsome : afterWrite env channel (convertPramID r.prePramID) (r.data ++ rest) r.data.length
      ⟨clearAuthorization env (convertPramID r.prePramID)
        (withRecord (convertPramID r.prePramID) r.data.length (r.data ++ rest) e₁),
        d.fram, d.delayAckCommand⟩ ≠ none :=
    (afterWrite_ne_none_iff hdata).mpr ⟨fun _ => by omega, fun hid => absurd hid h.not_resume⟩
  obtain ⟨d', hafter⟩ := Option.ne_none_iff_exists'.mp hsome
  have hpos := h.positive
  have hrecord := afterWrite_keeps_record hclear (by omega) h.not_resume hafter
  rw [List.take_left] at hrecord
  have hread := hunreadable d'.eeprom ((hkept.writeBytes _).trans hrecord)
  have hstore : storeParam env channel (convertPramID r.prePramID) (r.data ++ rest) r.data.length
      { d with eeprom := e₁ } = some (.ackOk, d') := by
    simp only [storeParam, hw, hafter, h.short, if_true, readBack_of_nil hread,
      Option.bind_eq_bind, Option.bind_some]
    rfl
  have hrun : disposeWriteParam env channel (r.bytes ++ rest) r.bytes.length d =
      some (.ackOk, d') := by
    rw [disposeWriteParam_ordinary h, hspecial, Option.bind_some, hstore]
  have hstored := hlaw rest d d' hrun
  rw [hread, Option.some_inj] at hstored
  rw [← hstored] at hpos
  exact absurd hpos (by decide)

/-- A positive answer to an ordinary record means that its parameter is stored exactly when
the record, if it sets a number, has all the bytes of that number. -/
theorem ackMeansStored_iff (hclear : env.ClearsOnlyCodes) (h : Ordinary r) :
    AckMeansStored env channel r ↔
      (IsValue (e2ParamAppConvertPramIDToGroupIndex (convertPramID r.prePramID)) →
        r.data.length =
          lengthOf (e2ParamAppConvertPramIDToGroupIndex (convertPramID r.prePramID))) := by
  constructor
  · intro hlaw hvalue
    by_contra hne
    have hfits := h.recognized.2.2
    exact not_ackMeansStored_of_short hclear h hvalue (by omega) hlaw
  · intro hwhole
    exact ackMeansStored_of_whole hclear h ⟨h.positive, hwhole⟩

end Law

/-- The heartbeat interval, as a number of up to four bytes. -/
theorem ordinary_heartbeat {data : List UInt8} (hshort : data.length < 256)
    (hdata : 1 ≤ data.length ∧ data.length ≤ 4) : Ordinary (heartbeatRecord data hshort) where
  recognized := by
    have hknown : Recognized (convertPramID 1) 4 := by decide +kernel
    exact ⟨hknown.1, hknown.2.1, hdata.2.trans hknown.2.2⟩
  positive := hdata.1
  short := hdata.2.trans_lt (by decide)
  not_carOnlyNum := show convertPramID 1 ≠ e2CarOnlyNumId by decide +kernel
  not_resume := show convertPramID 1 ≠ e2ResumeNousedId by decide +kernel
  not_driver := show ¬ IsDriverInformation (convertPramID 1) by decide +kernel
  phone := fun h => absurd h (show convertPramID 1 ≠ e2DevicePhoneId by decide +kernel)

theorem ackMeansStored_heartbeat :
    AckMeansStored normalOperation 1 (heartbeatRecord [0, 0, 0, 60] (by decide)) ↔
      (IsValue (e2ParamAppConvertPramIDToGroupIndex (convertPramID 1)) →
        [0, 0, 0, (60 : UInt8)].length =
          lengthOf (e2ParamAppConvertPramIDToGroupIndex (convertPramID 1))) :=
  ackMeansStored_iff normalOperation_clearsOnlyCodes (ordinary_heartbeat _ (by decide))

/-- One byte for the heartbeat interval is acknowledged and leaves an unreadable number. -/
theorem not_ackMeansStored :
    ¬ ∀ (env : Environment) (channel : ℕ) (r : TlvRecord),
      env.ClearsOnlyCodes → Ordinary r → AckMeansStored env channel r := by
  intro h
  have hordinary : Ordinary (heartbeatRecord [60] (by decide)) :=
    ordinary_heartbeat _ (by decide)
  refine not_ackMeansStored_of_short normalOperation_clearsOnlyCodes hordinary ?_ ?_
    (h normalOperation 1 _ normalOperation_clearsOnlyCodes hordinary)
  · decide +kernel
  · decide +kernel

end VehicleTerminal.E2ParamApp
