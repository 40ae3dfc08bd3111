import VehicleTerminal.Eeprom.RoundTrip
import VehicleTerminal.Param.Write

/-! What the EEPROM holds when the parser has stored a record: the steps that follow the
write of a parameter leave the entry of that parameter alone. -/
namespace VehicleTerminal.E2ParamApp
open ByteStore BlockMemory EepromPram InputPrefix

section Entries

variable {id : ℕ} {e e' e'' : Eeprom}

/-- No byte of the entry has changed. -/
def Keeps (id : ℕ) (e e' : Eeprom) : Prop :=
  ∀ i, addressOf id ≤ i → i < addressOf id + spaceOf id → e' i = e i

/-- The byte does not belong to the entry. -/
def Outside (id i : ℕ) : Prop := i < addressOf id ∨ addressOf id + spaceOf id ≤ i

/-- The two entries share no byte. -/
def Apart (id id' : ℕ) : Prop :=
  addressOf id + spaceOf id ≤ addressOf id' ∨ addressOf id' + spaceOf id' ≤ addressOf id

instance (id id' : ℕ) : Decidable (Apart id id') := inferInstanceAs (Decidable (_ ∨ _))

theorem Keeps.refl (id : ℕ) (e : Eeprom) : Keeps id e e := fun _ _ _ => rfl

theorem Keeps.trans (h : Keeps id e e') (h' : Keeps id e' e'') : Keeps id e e'' :=
  fun i hlo hhi => (h' i hlo hhi).trans (h i hlo hhi)

theorem Apart.outside {id' i : ℕ} (h : Apart id id') (hlo : addressOf id ≤ i)
    (hhi : i < addressOf id + spaceOf id) : Outside id' i := by
  unfold Apart at h
  unfold Outside
  omega

theorem keeps_writeBytes {a : ℕ} {xs : List UInt8}
    (h : a + xs.length ≤ addressOf id ∨ addressOf id + spaceOf id ≤ a) :
    Keeps id e (writeBytes e a xs) :=
  fun _ _ _ => writeBytes_outside e (by omega)

theorem keeps_writePram {pramID n n' : ℕ} {pBuffer : List UInt8}
    (hapart : Apart id (e2ParamAppConvertPramIDToGroupIndex pramID))
    (hw : eepromPramWritePram pramID pBuffer n e = some (n', e')) : Keeps id e e' := by
  by_cases hadmits : Admits pramID n
  · have hb : n ≤ pBuffer.length := by
      by_contra hshort
      rw [writePram_outside hadmits (by omega)] at hw
      cases hw
    rw [writePram_admitted hadmits hb] at hw
    cases hw
    have hrecord := record_length_le (List.length_take_of_le hb) hadmits.fits
    unfold Apart at hapart
    exact keeps_writeBytes (by omega)
  · rw [writePram_refused hadmits] at hw
    cases hw
    exact .refl id e

theorem Keeps.writeBytes {a : ℕ} (h : Keeps id e e') (xs : List UInt8) :
    Keeps id (writeBytes e a xs) (writeBytes e' a xs) :=
  fun i hlo hhi => writeBytes_congr (h i hlo hhi) xs

/-- A record that can be read back still reads as its data when its entry is kept. -/
theorem readPram_of_keeps {pramID n : ℕ} {data : List UInt8} (h : Admits pramID n)
    (hreadable : Readable pramID n) (hdata : data.length = n)
    (hkeeps : Keeps (e2ParamAppConvertPramIDToGroupIndex pramID)
      (writeBytes e (addressOf (e2ParamAppConvertPramIDToGroupIndex pramID))
        (record (e2ParamAppConvertPramIDToGroupIndex pramID) data)) e') :
    eepromPramReadPram pramID e' = some data := by
  have hne : data ≠ [] := by
    rintro rfl
    exact h.positive.ne hdata
  have hread := (readPram_record_iff h hdata e).mpr hreadable
  obtain ⟨rest, hrecord⟩ := readImage_prefix_record h data
  have hspace := record_length_le hdata h.fits
  rw [hrecord, List.length_append] at hspace
  exact (readPram_unchanged_iff hread hne).mpr fun i hlo hhi => hkeeps i hlo (by omega)

/-- A number of which only the first bytes are written cannot be read when the byte in the
place of its check byte does not happen to be right. -/
theorem exists_unreadable {pramID : ℕ} {data : List UInt8}
    (hknown : e2ParamAppConvertPramIDToGroupIndex pramID ≠ 0)
    (hin : e2ParamAppConvertPramIDToGroupIndex pramID < e2PramIdIndexMax)
    (hvalue : IsValue (e2ParamAppConvertPramIDToGroupIndex pramID))
    (hshort : data.length < lengthOf (e2ParamAppConvertPramIDToGroupIndex pramID)) :
    ∃ e, ∀ e', Keeps (e2ParamAppConvertPramIDToGroupIndex pramID)
      (writeBytes e (addressOf (e2ParamAppConvertPramIDToGroupIndex pramID))
        (record (e2ParamAppConvertPramIDToGroupIndex pramID) data)) e' →
      eepromPramReadPram pramID e' = some [] := by
  have hread := readPram_of_value hin hknown hvalue
  have hswitch : switchOf (e2ParamAppConvertPramIDToGroupIndex pramID) ≠ 1 :=
    fun hs => ((formats_agree hin).1.mp hs).2 hvalue
  generalize e2ParamAppConvertPramIDToGroupIndex pramID = id at hshort hread hswitch ⊢
  have hspace : spaceOf id = lengthOf id + 1 := by rw [spaceOf, if_neg hswitch, Nat.zero_add]
  have hrecord : (record id data).length = data.length + 1 := by simp [record, hswitch]
  let e₀ : Eeprom := fun _ => 0
  let block := readBytes (writeBytes e₀ (addressOf id) (record id data)) (addressOf id)
    (lengthOf id)
  refine ⟨Function.update e₀ (addressOf id + lengthOf id) (sumCheck block + 1), fun e' hkeeps => ?_⟩
  have hblock : readBytes e' (addressOf id) (lengthOf id) = block := by
    rw [readBytes_eq_iff]
    intro i hlo hhi
    rw [hkeeps i hlo (by omega)]
    exact writeBytes_congr (Function.update_of_ne (by omega) _ _) _
  have hcheck : e' (addressOf id + lengthOf id) = sumCheck block + 1 := by
    rw [hkeeps _ (by omega) (by omega), writeBytes_outside _ (.inr (by omega)),
      Function.update_self]
  rw [hread, readChecked_eq, hblock, hcheck, if_neg (by simp)]

end Entries

section Steps

variable {env : Environment} {channel pramID n : ℕ} {p : List UInt8} {d d' : Device}

/-- Clearing the authorization code of a channel changes the two entries for such codes
only. -/
def Environment.ClearsOnlyCodes (env : Environment) : Prop :=
  ∀ channel e i, Outside (e2ParamAppConvertPramIDToGroupIndex e2LogingprsPasswordId) i →
    Outside (e2ParamAppConvertPramIDToGroupIndex e2SecondLogingprsPasswordId) i →
    env.clearTerminalAuthorizationCode channel e i = e i

/-- The storing of driver information looks at the data of its record and at nothing behind
them. -/
structure Environment.ReadsOwnRecord (env : Environment) : Prop where
  within : ∀ p n d, n ≤ p.length → env.driverInfoDisposeRadioProtocol p n d ≠ none
  stable : ∀ n d, Stable fun p => env.driverInfoDisposeRadioProtocol p n d

/-- The IDs whose new values make an authorization code invalid. -/
def registrationIDs : List ℕ :=
  [e2MainServerIpId, e2MainServerUdpPortId, e2MainServerTcpPortId, e2BackupServerIpId,
    e2SecondMainServerIpId, e2SecondMainServerTcpPortId, e2SecondMainServerUdpPortId,
    e2CarProvinceId, e2CarCityId, e2DeviceId, e2CarPlateNumId, e2CarPlateColorId]

theorem registrationIDs_apart : ∀ q ∈ registrationIDs,
    Apart (e2ParamAppConvertPramIDToGroupIndex q)
        (e2ParamAppConvertPramIDToGroupIndex e2LogingprsPasswordId) ∧
      Apart (e2ParamAppConvertPramIDToGroupIndex q)
        (e2ParamAppConvertPramIDToGroupIndex e2SecondLogingprsPasswordId) := by
  decide +kernel

theorem clearAuthorization_other (h : pramID ∉ registrationIDs) (e : Eeprom) :
    clearAuthorization env pramID e = e := by
  simp only [registrationIDs, List.mem_cons, List.not_mem_nil, or_false, not_or] at h
  simp [clearAuthorization, h]

theorem clearAuthorization_keeps (hclear : env.ClearsOnlyCodes) (pramID : ℕ) (e : Eeprom) :
    Keeps (e2ParamAppConvertPramIDToGroupIndex pramID) e (clearAuthorization env pramID e) := by
  by_cases hid : pramID ∈ registrationIDs
  · obtain ⟨hfirst, hsecond⟩ := registrationIDs_apart pramID hid
    have hone (channel : ℕ) (e : Eeprom) :
        Keeps (e2ParamAppConvertPramIDToGroupIndex pramID) e
          (env.clearTerminalAuthorizationCode channel e) :=
      fun i hlo hhi => hclear channel e i (hfirst.outside hlo hhi) (hsecond.outside hlo hhi)
    unfold clearAuthorization
    split_ifs
    · exact .refl _ e
    · exact hone _ e
    · exact hone _ e
    · exact (hone _ e).trans (hone _ _)
    · exact .refl _ e
  · rw [clearAuthorization_other hid]
    exact .refl _ e

/-- Restoring the defaults apart, what follows a write keeps the entry that was written. -/
theorem afterWrite_keeps (hresume : pramID ≠ e2ResumeNousedId)
    (h : afterWrite env channel pramID p n d = some d') :
    Keeps (e2ParamAppConvertPramIDToGroupIndex pramID) d.eeprom d'.eeprom := by
  have hphoto {address : ℕ} {written : Option Fram.Memory}
      (hfar : addressOf (e2ParamAppConvertPramIDToGroupIndex pramID) +
        spaceOf (e2ParamAppConvertPramIDToGroupIndex pramID) ≤ address)
      (hw : (written.bind fun fram => (writePhotoBackup address p d.eeprom).bind fun e =>
        pure { d with eeprom := e, fram := fram }) = some d') :
      Keeps (e2ParamAppConvertPramIDToGroupIndex pramID) d.eeprom d'.eeprom := by
    obtain ⟨fram, -, hw⟩ := Option.bind_eq_some_iff.mp hw
    obtain ⟨e, hw, heq⟩ := Option.bind_eq_some_iff.mp hw
    obtain ⟨data, -, rfl⟩ := Option.map_eq_some_iff.mp hw
    cases heq
    exact keeps_writeBytes (.inr hfar)
  simp only [afterWrite, Option.bind_eq_bind, hresume, if_false] at h
  split_ifs at h with hphone hdevice htime hchannel hmile hsleep
  · subst hphone
    obtain ⟨r, hw, heq⟩ := Option.bind_eq_some_iff.mp h
    cases heq
    exact keeps_writePram (by decide +kernel) hw
  · subst hdevice
    obtain ⟨r, hw, heq⟩ := Option.bind_eq_some_iff.mp h
    cases heq
    exact keeps_writePram (by decide +kernel) hw
  · exact hphoto (by rw [htime]; decide +kernel) h
  · exact hphoto (by rw [htime]; decide +kernel) h
  · exact hphoto (by rw [hmile]; decide +kernel) h
  · cases h
    exact .refl _ _
  · cases h
    exact .refl _ _

end Steps

end VehicleTerminal.E2ParamApp
