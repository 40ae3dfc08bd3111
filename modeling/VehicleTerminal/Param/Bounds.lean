import VehicleTerminal.Param.Stored

/-! When the parser stays inside its input and inside the local array: for every record, what
its branch looks at lies before the end of the message, and what is read back fits. -/
namespace VehicleTerminal.E2ParamApp
open ByteStore BlockMemory MachineInt EepromPram InputPrefix PartialLoop

section Checks

/-- Both nibbles are digits. -/
def IsBcd (b : UInt8) : Prop := ¬ (b >>> 4 > 9 ∨ b &&& 0x0f > 9)

instance (b : UInt8) : Decidable (IsBcd b) := inferInstanceAs (Decidable (¬ _))

theorem checkNibbles_eq_none_iff {k : ℕ} {p : List UInt8} :
    checkNibbles k p = none ↔ p.length < k ∧ ∀ b ∈ p, IsBcd b := by
  induction p generalizing k with
  | nil =>
    cases k with
    | zero => simp [checkNibbles]
    | succ k => simp [checkNibbles]
  | cons b p ih =>
    cases k with
    | zero => simp [checkNibbles]
    | succ k =>
      by_cases hb : IsBcd b
      · have hrec : checkNibbles (k + 1) (b :: p) = checkNibbles k p := if_neg hb
        rw [hrec, ih, List.length_cons, Nat.add_lt_add_iff_right, List.forall_mem_cons]
        simp [hb]
      · have hstop : checkNibbles (k + 1) (b :: p) = some 1 := if_pos (not_not.mp hb)
        simp [hstop, hb]

/-- The check looks past the end of a phone number that is cut off and correct so far. -/
theorem checkPhoneFormatData_eq_none_iff {p : List UInt8} {n : ℕ} :
    checkPhoneFormatData p n = none ↔
      n = 6 ∧ p.length < 6 ∧ ¬ [0, 30] <+: p ∧ ∀ b ∈ p, IsBcd b := by
  by_cases hn : n = 6
  swap
  · simp [checkPhoneFormatData, hn]
  subst hn
  match p with
  | [] => simp [checkPhoneFormatData]
  | [a] =>
    by_cases ha : a = 0
    · subst ha
      simp [checkPhoneFormatData]
      decide
    · simp [checkPhoneFormatData, ha, Ne.symm ha, checkNibbles_eq_none_iff,
        List.cons_prefix_cons]
  | a :: b :: p =>
    by_cases ha : a = 0
    · by_cases hb : b = 30
      · simp [checkPhoneFormatData, ha, hb, List.cons_prefix_cons]
      · simp [checkPhoneFormatData, ha, hb, Ne.symm hb, checkNibbles_eq_none_iff,
          List.cons_prefix_cons]
    · simp [checkPhoneFormatData, ha, Ne.symm ha, checkNibbles_eq_none_iff,
        List.cons_prefix_cons]

theorem le_length_of_checkNibbles {k : ℕ} {p : List UInt8} (h : checkNibbles k p = some 0) :
    k ≤ p.length := by
  induction p generalizing k with
  | nil =>
    cases k with
    | zero => exact le_rfl
    | succ k => cases h
  | cons b p ih =>
    cases k with
    | zero => exact Nat.zero_le _
    | succ k =>
      rw [checkNibbles] at h
      split_ifs at h
      · cases h
      · exact Nat.succ_le_succ (ih h)

theorem checkPhoneFormatData_of_front {p : List UInt8} (h : [0, 30] <+: p) :
    checkPhoneFormatData p 6 = some 0 := by
  obtain ⟨rest, rfl⟩ := h
  rfl

/-- A number that passes the check has six bytes, or is cut off behind 0, 30. -/
theorem checkPhoneFormatData_passes {p : List UInt8} {n : ℕ}
    (h : checkPhoneFormatData p n = some 0) : n = 6 ∧ (6 ≤ p.length ∨ [0, 30] <+: p) := by
  by_cases hn : n = 6
  swap
  · simp [checkPhoneFormatData, hn] at h
  subst hn
  refine ⟨rfl, ?_⟩
  simp only [checkPhoneFormatData, ne_eq, not_true_eq_false, if_false, Option.bind_eq_bind] at h
  obtain ⟨first, hfirst, h⟩ := Option.bind_eq_some_iff.mp h
  split_ifs at h with hzero
  · obtain ⟨second, hsecond, h⟩ := Option.bind_eq_some_iff.mp h
    split_ifs at h with hthirty
    · subst hzero hthirty
      match p with
      | [] | [_] => simp at hsecond
      | a :: b :: p =>
        simp only [List.getElem?_cons_zero, List.getElem?_cons_succ, Option.some_inj]
          at hfirst hsecond
        exact .inr (by rw [hfirst, hsecond]; exact ⟨p, rfl⟩)
    · exact .inl (le_length_of_checkNibbles h)
  · exact .inl (le_length_of_checkNibbles h)

/-- The comparison looks past the end of an array that agrees up to there. -/
theorem checkArrayValIsEqual_eq_none_iff {array p : List UInt8} :
    publicCheckArrayValIsEqual array p = none ↔ p <+: array ∧ p.length < array.length := by
  induction array generalizing p with
  | nil => simp [publicCheckArrayValIsEqual]
  | cons a array ih =>
    cases p with
    | nil => simp [publicCheckArrayValIsEqual]
    | cons b p =>
      by_cases hab : a = b
      · subst hab
        simp [publicCheckArrayValIsEqual, ih, List.cons_prefix_cons]
      · simp [publicCheckArrayValIsEqual, hab, List.cons_prefix_cons, eq_comm]

end Checks

section Store

variable {env : Environment} {channel pramID n : ℕ} {p stored : List UInt8} {d d' : Device}
  {e : Eeprom}

theorem Recognized.admits (h : Recognized pramID n) (hn : 0 < n) : Admits pramID n where
  known := h.1
  inTable := h.2.1
  placed := by
    intro hzero
    have hlength := (formats_agree h.2.1).2.2.mp hzero
    exact absurd (h.2.2.trans_eq hlength) (by omega)
  positive := hn
  fits := h.2.2

/-- What is read back fits the local array, and the comparison ends inside the message. -/
def ComparisonFits (stored p : List UInt8) : Prop :=
  stored.length ≤ 30 ∧ ¬ (p <+: stored ∧ p.length < stored.length)

/-- The record holds all bytes that its parameter is read back with. -/
def Whole (pramID n : ℕ) : Prop :=
  0 < n ∧ (IsValue (e2ParamAppConvertPramIDToGroupIndex pramID) →
    n = lengthOf (e2ParamAppConvertPramIDToGroupIndex pramID))

instance (pramID n : ℕ) : Decidable (Whole pramID n) := inferInstanceAs (Decidable (_ ∧ (_ → _)))

/-- The EEPROM after the write of a recognized record; one without data writes nothing. -/
def withRecord (pramID n : ℕ) (p : List UInt8) (e : Eeprom) : Eeprom :=
  if n = 0 then e
  else writeBytes e (addressOf (e2ParamAppConvertPramIDToGroupIndex pramID))
    (record (e2ParamAppConvertPramIDToGroupIndex pramID) (p.take n))

/-- A record that is not whole is compared with what its entry holds then. -/
def ReadBackFits (env : Environment) (pramID n : ℕ) (p : List UInt8) (e : Eeprom) : Prop :=
  Whole pramID n ∨ ∀ stored,
    eepromPramReadPram pramID (clearAuthorization env pramID (withRecord pramID n p e)) =
      some stored → ComparisonFits stored p

theorem writePram_recognized (h : Recognized pramID n) (hn : n ≤ p.length) (e : Eeprom) :
    ∃ k, eepromPramWritePram pramID p n e = some (k, withRecord pramID n p e) := by
  by_cases hzero : n = 0
  · have hrefused : ¬ Admits pramID n := fun hadmits => hadmits.positive.ne' hzero
    exact ⟨0, by rw [writePram_refused hrefused, withRecord, if_pos hzero]⟩
  · exact ⟨n, by rw [writePram_admitted (h.admits (by omega)) hn, withRecord, if_neg hzero]⟩

theorem readBack_ne_none_iff (hin : e2ParamAppConvertPramIDToGroupIndex pramID < e2PramIdIndexMax) :
    readBack pramID p e ≠ none ↔
      ∀ stored, eepromPramReadPram pramID e = some stored → ComparisonFits stored p := by
  obtain ⟨stored, hread⟩ := readPram_of_lt hin e
  simp only [readBack, readInto, hread, Option.some_inj, forall_eq', Option.bind_eq_bind,
    Option.bind_some]
  by_cases hlength : stored.length ≤ 30
  · have hcopy : copyIn (List.replicate 30 (0 : UInt8)) 0 stored stored.length =
        some (stored ++ List.replicate (30 - stored.length) 0) := by
      rw [copyIn_of_le (by simpa using hlength) le_rfl]
      simp only [blit, List.take_zero, List.nil_append, List.take_length, Nat.zero_add,
        List.drop_replicate]
    rw [hcopy, Option.map_some, Option.bind_some, List.take_left', ComparisonFits,
      ← checkArrayValIsEqual_eq_none_iff]
    · cases publicCheckArrayValIsEqual stored p <;> simp [hlength]
    · rfl
  · simp [copyIn, ComparisonFits, hlength]

theorem comparisonFits_of_value (hvalue : IsValue (e2ParamAppConvertPramIDToGroupIndex pramID))
    (hn : lengthOf (e2ParamAppConvertPramIDToGroupIndex pramID) ≤ p.length)
    (hread : eepromPramReadPram pramID e = some stored) : ComparisonFits stored p := by
  have hshort : stored.length ≤ lengthOf (e2ParamAppConvertPramIDToGroupIndex pramID) := by
    rcases readPram_value_length hvalue hread with rfl | hlength
    · exact Nat.zero_le _
    · exact hlength.le
  refine ⟨?_, fun hlong => absurd hlong.2 (by omega)⟩
  rcases hvalue with h | h | h <;> omega

theorem afterWrite_ne_none_iff (hn : n ≤ p.length) :
    afterWrite env channel pramID p n d ≠ none ↔
      (pramID = e2TimePhotoControlId ∨ pramID = e2MilePhotoControlId → 4 ≤ p.length) ∧
        (pramID = e2ResumeNousedId → p ≠ []) := by
  have hbackup (q : ℕ) : ((eepromPramWritePram q p n d.eeprom).bind fun r =>
      some { d with eeprom := r.2 }) ≠ none := writePram_bind_ne_none hn _
  have hphoto {fram : Option Fram.Memory} (hfram : fram ≠ none) (address : ℕ)
      (f : Fram.Memory → Eeprom → Device) :
      (fram.bind fun fram =>
        (writePhotoBackup address p d.eeprom).bind fun e => some (f fram e)) ≠ none ↔
        4 ≤ p.length := by
    obtain ⟨fram, rfl⟩ := Option.ne_none_iff_exists'.mp hfram
    by_cases hfour : 4 ≤ p.length
    · have hcopy : copyOut p 0 4 = some (slice p 0 4) := copyOut_of_le (by omega)
      simp [writePhotoBackup, hcopy, hfour]
    · simp [writePhotoBackup, copyOut, hfour]
  by_cases hphone : pramID = e2DevicePhoneId
  · subst hphone
    exact iff_of_true (hbackup _) ⟨fun h => absurd h (by decide), fun h => absurd h (by decide)⟩
  by_cases hdevice : pramID = e2DeviceId
  · subst hdevice
    exact iff_of_true (hbackup _) ⟨fun h => absurd h (by decide), fun h => absurd h (by decide)⟩
  by_cases htime : pramID = e2TimePhotoControlId
  · subst htime
    have hfram : (if channel = env.channelData1 ∨ channel = env.channelData2 then
        d.fram.bufferWrite framParameterTimePhotoChannelAddr [UInt8.ofNat channel]
          framParameterTimePhotoChannelLen else some d.fram) ≠ none := by
      split_ifs
      · exact Fram.Memory.bufferWrite_ne_none (by simp; decide)
      · exact Option.some_ne_none _
    have hfour : afterWrite env channel e2TimePhotoControlId p n d ≠ none ↔ 4 ≤ p.length :=
      hphoto hfram e2TimePhotoControlBackupAddr fun fram e => { d with eeprom := e, fram := fram }
    exact hfour.trans ⟨fun h => ⟨fun _ => h, fun h => absurd h (by decide)⟩,
      fun h => h.1 (.inl rfl)⟩
  by_cases hmile : pramID = e2MilePhotoControlId
  · subst hmile
    have hfram : d.fram.bufferWrite framParameterDistancePhotoChannelAddr [UInt8.ofNat channel]
        framParameterDistancePhotoChannelLen ≠ none :=
      Fram.Memory.bufferWrite_ne_none (by simp; decide)
    have hfour : afterWrite env channel e2MilePhotoControlId p n d ≠ none ↔ 4 ≤ p.length :=
      hphoto hfram e2MilePhotoControlBackupAddr fun fram e => { d with eeprom := e, fram := fram }
    exact hfour.trans ⟨fun h => ⟨fun _ => h, fun h => absurd h (by decide)⟩,
      fun h => h.1 (.inr rfl)⟩
  by_cases hresume : pramID = e2ResumeNousedId
  · subst hresume
    cases p with
    | nil => exact iff_of_false (fun h => h rfl) fun h => h.2 rfl rfl
    | cons b p =>
      exact iff_of_true (Option.some_ne_none _)
        ⟨fun h => absurd h (by decide), fun _ => List.cons_ne_nil b p⟩
  · simp only [afterWrite, hphone, hdevice, htime, hmile, hresume, if_false, or_self,
      false_implies, true_and, iff_true]
    split_ifs <;> exact Option.some_ne_none _

/-- Storing a recognized record looks at nothing behind `p` and the local array. -/
structure StoreFits (env : Environment) (pramID n : ℕ) (p : List UInt8) (e : Eeprom) : Prop where
  data : n ≤ p.length
  photo : pramID = e2TimePhotoControlId ∨ pramID = e2MilePhotoControlId → 4 ≤ p.length
  resume : pramID = e2ResumeNousedId → p ≠ []
  readBack : n < 30 → ReadBackFits env pramID n p e

/-- Only the backups of the two photo controls, the restored defaults and the copies of two
records that are no numbers change the EEPROM further. -/
theorem afterWrite_eeprom
    (hphoto : pramID ≠ e2TimePhotoControlId ∧ pramID ≠ e2MilePhotoControlId)
    (hresume : pramID ≠ e2ResumeNousedId)
    (hcopy : n = 0 ∨ pramID ≠ e2DevicePhoneId ∧ pramID ≠ e2DeviceId)
    (h : afterWrite env channel pramID p n d = some d') : d'.eeprom = d.eeprom := by
  have hrefused (q : ℕ) (hn : n = 0) : ¬ Admits q n := fun hadmits => hadmits.positive.ne' hn
  simp only [afterWrite, hphoto.1, hphoto.2, hresume, if_false, Option.bind_eq_bind] at h
  split_ifs at h with hphone hdevice hsleep
  · rw [writePram_refused (hrefused _ (hcopy.resolve_right fun hne => hne.1 hphone))] at h
    cases h
    rfl
  · rw [writePram_refused (hrefused _ (hcopy.resolve_right fun hne => hne.2 hdevice))] at h
    cases h
    rfl
  · cases h
    rfl
  · cases h
    rfl

theorem Whole.readable (h : Whole pramID n) (hshort : n < 30) : Readable pramID n := by
  unfold Readable
  split_ifs with hvalue
  · exact h.2 hvalue
  all_goals omega

/-- All that follows the write of a record leaves its bytes where they are. -/
theorem afterWrite_keeps_record (hclear : env.ClearsOnlyCodes) (hn : n ≠ 0)
    (hresume : pramID ≠ e2ResumeNousedId)
    (h : afterWrite env channel pramID p n
      { d with eeprom := clearAuthorization env pramID (withRecord pramID n p e) } = some d') :
    Keeps (e2ParamAppConvertPramIDToGroupIndex pramID)
      (writeBytes e (addressOf (e2ParamAppConvertPramIDToGroupIndex pramID))
        (record (e2ParamAppConvertPramIDToGroupIndex pramID) (p.take n))) d'.eeprom := by
  have hkeeps := (clearAuthorization_keeps hclear pramID _).trans (afterWrite_keeps hresume h)
  rwa [withRecord, if_neg hn] at hkeeps

/-- A whole record reads as its data when all that follows its write is done. -/
theorem afterWrite_readPram (hclear : env.ClearsOnlyCodes) (hrec : Recognized pramID n)
    (hwhole : Whole pramID n) (hdata : n ≤ p.length) (hresume : pramID ≠ e2ResumeNousedId)
    (hshort : n < 30)
    (h : afterWrite env channel pramID p n
      { d with eeprom := clearAuthorization env pramID (withRecord pramID n p e) } = some d') :
    eepromPramReadPram pramID d'.eeprom = some (p.take n) :=
  readPram_of_keeps (hrec.admits hwhole.1) (hwhole.readable hshort)
    (List.length_take_of_le hdata) (afterWrite_keeps_record hclear hwhole.1.ne' hresume h)

/-- Once a record is stored, comparing it fits exactly when comparing it right after the write
and the clearing of the codes does. -/
theorem comparison_afterWrite_iff (hclear : env.ClearsOnlyCodes) (hrec : Recognized pramID n)
    (hdata : n ≤ p.length)
    (hphoto : pramID = e2TimePhotoControlId ∨ pramID = e2MilePhotoControlId → 4 ≤ p.length)
    (hresume : pramID = e2ResumeNousedId → p ≠ []) (hshort : n < 30)
    (h : afterWrite env channel pramID p n
      { d with eeprom := clearAuthorization env pramID (withRecord pramID n p d.eeprom) } =
        some d') :
    (∀ stored, eepromPramReadPram pramID d'.eeprom = some stored → ComparisonFits stored p) ↔
      ReadBackFits env pramID n p d.eeprom := by
  by_cases hvalue : IsValue (e2ParamAppConvertPramIDToGroupIndex pramID) ∧
      lengthOf (e2ParamAppConvertPramIDToGroupIndex pramID) ≤ p.length
  · exact iff_of_true (fun _ => comparisonFits_of_value hvalue.1 hvalue.2)
      (.inr fun _ => comparisonFits_of_value hvalue.1 hvalue.2)
  have hnophoto : pramID ≠ e2TimePhotoControlId ∧ pramID ≠ e2MilePhotoControlId := by
    constructor <;> rintro rfl
    · exact hvalue ⟨by decide +kernel, (hphoto (.inl rfl)).trans' (by decide +kernel)⟩
    · exact hvalue ⟨by decide +kernel, (hphoto (.inr rfl)).trans' (by decide +kernel)⟩
  have hnoresume : pramID ≠ e2ResumeNousedId := by
    rintro rfl
    have hone : 1 ≤ p.length := List.length_pos_iff.mpr (hresume rfl)
    exact hvalue ⟨by decide +kernel, hone.trans' (by decide +kernel)⟩
  by_cases hwhole : Whole pramID n
  · refine iff_of_true (fun stored hread => ?_) (.inl hwhole)
    rw [afterWrite_readPram hclear hrec hwhole hdata hnoresume hshort h, Option.some_inj] at hread
    subst hread
    refine ⟨(List.length_take_le _ _).trans hshort.le, fun hlong => ?_⟩
    have htake := List.length_take_le n p
    omega
  · have hcopy : n = 0 ∨ pramID ≠ e2DevicePhoneId ∧ pramID ≠ e2DeviceId := by
      rcases Nat.eq_zero_or_pos n with hzero | hpos
      · exact .inl hzero
      · have hv : IsValue (e2ParamAppConvertPramIDToGroupIndex pramID) := by
          by_contra hv
          exact hwhole ⟨hpos, fun h => absurd h hv⟩
        refine .inr ⟨?_, ?_⟩ <;> rintro rfl <;> exact absurd hv (by decide +kernel)
    rw [afterWrite_eeprom hnophoto hnoresume hcopy h, ReadBackFits, or_iff_right hwhole]

theorem storeParam_ne_none_iff (hclear : env.ClearsOnlyCodes) (hrec : Recognized pramID n) :
    storeParam env channel pramID p n d ≠ none ↔ StoreFits env pramID n p d.eeprom := by
  by_cases hdata : n ≤ p.length
  swap
  · have houtside : eepromPramWritePram pramID p n d.eeprom = none :=
      writePram_outside (hrec.admits (by omega)) (by omega)
    exact iff_of_false (fun h => h (by simp [storeParam, houtside])) fun h => hdata h.data
  obtain ⟨k, hw⟩ := writePram_recognized hrec hdata d.eeprom
  simp only [storeParam, hw, Option.bind_eq_bind, Option.bind_some]
  cases hafter : afterWrite env channel pramID p n
      { d with eeprom := clearAuthorization env pramID (withRecord pramID n p d.eeprom) } with
  | none =>
    have hnot := (not_congr (afterWrite_ne_none_iff hdata)).mp (not_not.mpr hafter)
    exact iff_of_false (fun h => h rfl) fun h => hnot ⟨h.photo, h.resume⟩
  | some d' =>
    have hfits := (afterWrite_ne_none_iff hdata).mp (by rw [hafter]; exact Option.some_ne_none d')
    rw [Option.bind_some]
    by_cases hshort : n < 30
    · have hcompare := comparison_afterWrite_iff hclear hrec hdata hfits.1 hfits.2 hshort hafter
      rw [← readBack_ne_none_iff hrec.2.1] at hcompare
      rw [if_pos hshort]
      constructor
      · intro h
        have hback : readBack pramID p d'.eeprom ≠ none := fun hnone => h (by simp [hnone])
        exact ⟨hdata, hfits.1, hfits.2, fun _ => hcompare.mp hback⟩
      · intro h
        obtain ⟨ack, hack⟩ := Option.ne_none_iff_exists'.mp (hcompare.mpr (h.readBack hshort))
        rw [hack]
        exact Option.some_ne_none _
    · rw [if_neg hshort]
      exact iff_of_true (Option.some_ne_none _)
        ⟨hdata, hfits.1, hfits.2, fun h => absurd h hshort⟩

/-- For a number whose bytes all lie inside the message nothing depends on the EEPROM. -/
theorem StoreFits.of_value {e' : Eeprom} (h : StoreFits env pramID n p e)
    (hvalue : IsValue (e2ParamAppConvertPramIDToGroupIndex pramID))
    (hn : lengthOf (e2ParamAppConvertPramIDToGroupIndex pramID) ≤ p.length) :
    StoreFits env pramID n p e' :=
  { h with readBack := fun _ => .inr fun _ => comparisonFits_of_value hvalue hn }

end Store

section Record

variable {env : Environment} {channel prePramID n : ℕ} {p : List UInt8} {d : Device}

/-- The memory with the certificate number in it. -/
def withCCCID (env : Environment) (pramID : ℕ) (p : List UInt8) : List UInt8 :=
  if pramID = e2CarOnlyNumId then blit p 0 env.recorderCCCID else p

/-- A phone number of six bytes that is cut off fails the check before it ends. -/
def PhoneFits (p : List UInt8) (n : ℕ) : Prop :=
  n = 6 → p.length < 6 → ¬ [0, 30] <+: p ∧ ∃ b ∈ p, ¬ IsBcd b

/-- Nothing that the parser does with a record looks at a byte behind `p` or behind the local
array. -/
structure RecordFits (env : Environment) (prePramID n : ℕ) (p : List UInt8) (d : Device) :
    Prop where
  special : specialExtent (prePramID % 65536) n ≤ p.length
  driver : convertPramID prePramID = e2AllDriverInformationId → p.length < n →
    env.driverInfoDisposeRadioProtocol p n d ≠ none
  certificate : convertPramID prePramID = e2CarOnlyNumId →
    Recognized (convertPramID prePramID) n → 7 ≤ p.length
  phone : convertPramID prePramID = e2DevicePhoneId → PhoneFits p n
  store : Recognized (convertPramID prePramID) n → ¬ IsDriverInformation (convertPramID prePramID) →
    convertPramID prePramID ≠ e2DevicePhoneId →
      StoreFits env (convertPramID prePramID) n (withCCCID env (convertPramID prePramID) p) d.eeprom

theorem withCCCID_other {pramID : ℕ} (h : pramID ≠ e2CarOnlyNumId) (p : List UInt8) :
    withCCCID env pramID p = p := if_neg h

theorem withCCCID_length {pramID : ℕ} (h : pramID = e2CarOnlyNumId → 7 ≤ p.length) :
    (withCCCID env pramID p).length = p.length := by
  unfold withCCCID
  split_ifs with hid
  · exact blit_length _ _ _ (by rw [env.recorderCCCID_length, Nat.zero_add]; exact h hid)
  · rfl

theorem forceCCCID_eq {pramID : ℕ} :
    forceCCCID env pramID p =
      if pramID = e2CarOnlyNumId ∧ p.length < 7 then none else some (withCCCID env pramID p) := by
  unfold forceCCCID withCCCID
  by_cases hid : pramID = e2CarOnlyNumId
  · by_cases hseven : 7 ≤ p.length
    · rw [if_pos hid, copyIn_of_le (by omega) env.recorderCCCID_length.ge, if_pos hid,
        if_neg (by omega), ← env.recorderCCCID_length, List.take_length]
    · simp [hid, copyIn, hseven, Nat.lt_of_not_le hseven]
  · simp [hid]

/-- Of the special parameters only the speed limit 0xC250 is stored under its own ID too: a
number whose bytes the special write has looked at. -/
theorem writeSpecialParam_recognized {k : ℕ} {e e' : Eeprom}
    (hrec : Recognized (convertPramID prePramID) n)
    (hw : writeSpecialParam (prePramID % 65536) p n e = some (k, e')) :
    Keeps (e2ParamAppConvertPramIDToGroupIndex (convertPramID prePramID)) e e' ∧
      (e' = e ∨ IsValue (e2ParamAppConvertPramIDToGroupIndex (convertPramID prePramID)) ∧
        lengthOf (e2ParamAppConvertPramIDToGroupIndex (convertPramID prePramID)) ≤ p.length) := by
  have hextent : specialExtent (prePramID % 65536) n ≤ p.length := by
    by_contra hshort
    rw [writeSpecialParam_eq_none_iff.mpr (by omega)] at hw
    cases hw
  by_cases hspecial : prePramID % 65536 ∈ specialIDs
  swap
  · rw [writeSpecialParam_other hspecial] at hw
    cases hw
    exact ⟨.refl _ _, .inl rfl⟩
  have hknown := hrec.1
  unfold convertPramID at hknown ⊢
  generalize prePramID % 65536 = usParamID at hspecial hextent hknown hw ⊢
  simp only [specialIDs, List.mem_cons, List.not_mem_nil, or_false] at hspecial
  rcases hspecial with rfl | rfl | rfl | rfl | rfl | rfl | rfl
  · exact absurd (by decide) hknown
  · exact absurd (by decide) hknown
  · exact absurd (by decide) hknown
  · exact absurd (by decide) hknown
  · have hfour : 4 ≤ p.length := hextent
    obtain ⟨r, hrun, heq⟩ := Option.bind_eq_some_iff.mp hw
    cases heq
    exact ⟨keeps_writePram (by decide +kernel) hrun,
      .inr ⟨by decide +kernel, hfour.trans' (by decide +kernel)⟩⟩
  · exact absurd (by decide) hknown
  · exact absurd (by decide) hknown

theorem disposeDriverInformation_other {pramID : ℕ} (h : pramID ≠ e2AllDriverInformationId) :
    disposeDriverInformation env pramID p n d = some d := if_neg h

/-- No special parameter is driver information. -/
theorem writeSpecialParam_driver {k : ℕ} {e : Eeprom}
    (hid : convertPramID prePramID = e2AllDriverInformationId)
    (hw : writeSpecialParam (prePramID % 65536) p n d.eeprom = some (k, e)) :
    e = d.eeprom := by
  have hnone : ∀ id ∈ specialIDs, convertPramID id ≠ e2AllDriverInformationId := by decide +kernel
  have hother : prePramID % 65536 ∉ specialIDs := by
    intro hspecial
    refine hnone _ hspecial ?_
    rw [← hid, convertPramID, convertPramID, Nat.mod_mod]
  rw [writeSpecialParam_other hother] at hw
  cases hw
  rfl

/-- A phone number is stored only when all six bytes are there. -/
theorem disposeRecognized_phone_iff (hclear : env.ClearsOnlyCodes)
    (hrec : Recognized e2DevicePhoneId n) :
    disposeRecognized env channel e2DevicePhoneId p n 0 d ≠ none ↔ PhoneFits p n := by
  have hother : e2DevicePhoneId ≠ e2CarOnlyNumId := by decide
  have hforce : forceCCCID env e2DevicePhoneId p = some p := if_neg hother
  have hcheck : checkFormat e2DevicePhoneId p n 0 = checkPhoneFormatData p n := if_pos rfl
  simp only [disposeRecognized, hforce, hcheck, Option.bind_eq_bind, Option.bind_some]
  cases hflag : checkPhoneFormatData p n with
  | none =>
    obtain ⟨hn, hshort, hfront, hbcd⟩ := checkPhoneFormatData_eq_none_iff.mp hflag
    refine iff_of_false (fun h => h rfl) fun h => ?_
    obtain ⟨b, hb, hbad⟩ := (h hn hshort).2
    exact hbad (hbcd b hb)
  | some flag =>
    rw [Option.bind_some]
    by_cases hzero : flag = 0
    · subst hzero
      obtain ⟨rfl, hsix⟩ := checkPhoneFormatData_passes hflag
      have hstore : storeParam env channel e2DevicePhoneId p 6 d ≠ none ↔ 6 ≤ p.length := by
        rw [storeParam_ne_none_iff hclear hrec]
        constructor
        · exact StoreFits.data
        · intro h
          exact ⟨h, fun h => absurd h (by decide), fun h => absurd h (by decide),
            fun _ => .inl (by decide +kernel)⟩
      have hbind : ((storeParam env channel e2DevicePhoneId p 6 d).bind fun r =>
          some (r.1, p, r.2)) ≠ none ↔ storeParam env channel e2DevicePhoneId p 6 d ≠ none := by
        cases storeParam env channel e2DevicePhoneId p 6 d <;> simp
      rw [if_pos rfl]
      refine (hbind.trans hstore).trans ⟨fun h _ hshort => absurd h (by omega), fun h => ?_⟩
      by_contra hshort
      exact (h rfl (by omega)).1 (hsix.resolve_left hshort)
    · rw [if_neg hzero]
      refine iff_of_true (Option.some_ne_none _) fun hn hshort => ?_
      subst hn
      have hfront : ¬ [0, 30] <+: p := by
        intro hp
        rw [checkPhoneFormatData_of_front hp] at hflag
        exact hzero (Option.some.inj hflag).symm
      refine ⟨hfront, ?_⟩
      by_contra hall
      push Not at hall
      rw [checkPhoneFormatData_eq_none_iff.mpr ⟨rfl, hshort, hfront, hall⟩] at hflag
      cases hflag

theorem disposeRecognized_ne_none_iff {pramID : ℕ} (hclear : env.ClearsOnlyCodes)
    (hrec : Recognized pramID n) (hphone : pramID ≠ e2DevicePhoneId) :
    disposeRecognized env channel pramID p n 0 d ≠ none ↔
      (pramID = e2CarOnlyNumId → 7 ≤ p.length) ∧
        StoreFits env pramID n (withCCCID env pramID p) d.eeprom := by
  have hcheck : checkFormat pramID p n 0 = some 0 := if_neg hphone
  simp only [disposeRecognized, hcheck, forceCCCID_eq, Option.bind_eq_bind, Option.bind_some]
  by_cases hseven : pramID = e2CarOnlyNumId → 7 ≤ p.length
  · have hforce : ¬ (pramID = e2CarOnlyNumId ∧ p.length < 7) :=
      fun h => absurd (hseven h.1) (Nat.not_le.mpr h.2)
    rw [if_neg hforce, Option.bind_some, if_true, ← storeParam_ne_none_iff hclear hrec,
      and_iff_right hseven]
    cases storeParam env channel pramID (withCCCID env pramID p) n d <;> simp
  · push Not at hseven
    rw [if_pos hseven, Option.bind_none]
    exact iff_of_false (fun h => h rfl) fun h => absurd (h.1 hseven.1) (Nat.not_le.mpr hseven.2)

/-- The call that keeps driver information, which only a record that is cut off can harm, finds
the device as it was before the special write. -/
theorem disposeDriverInformation_ne_none_iff (hreads : env.ReadsOwnRecord) {k : ℕ} {e : Eeprom}
    (hw : writeSpecialParam (prePramID % 65536) p n d.eeprom = some (k, e)) :
    disposeDriverInformation env (convertPramID prePramID) p n { d with eeprom := e } ≠ none ↔
      (convertPramID prePramID = e2AllDriverInformationId → p.length < n →
        env.driverInfoDisposeRadioProtocol p n d ≠ none) := by
  by_cases hid : convertPramID prePramID = e2AllDriverInformationId
  · rw [writeSpecialParam_driver hid hw, disposeDriverInformation, if_pos hid]
    refine ⟨fun h _ _ => h, fun h => ?_⟩
    by_cases hcut : p.length < n
    · exact h hid hcut
    · exact hreads.within p n d (Nat.le_of_not_lt hcut)
  · rw [disposeDriverInformation_other hid]
    exact iff_of_true (Option.some_ne_none _) fun h => absurd h hid

/-- A record that raises the flag is left at that. -/
theorem disposeRecognized_driver {pramID : ℕ} (hinfo : IsDriverInformation pramID) :
    disposeRecognized env channel pramID p n 1 d = some (.ackOk, p, d) := by
  have hphone : pramID ≠ e2DevicePhoneId := by rcases hinfo with h | h <;> rw [h] <;> decide
  have hnumber : pramID ≠ e2CarOnlyNumId := by rcases hinfo with h | h <;> rw [h] <;> decide
  simp [disposeRecognized, checkFormat, forceCCCID, hphone, hnumber]

/-- The parser has a result for a record exactly when the record fits. -/
theorem disposeRecord_ne_none_iff (hclear : env.ClearsOnlyCodes) (hreads : env.ReadsOwnRecord) :
    disposeRecord env channel prePramID p n d ≠ none ↔ RecordFits env prePramID n p d := by
  by_cases hspecial : specialExtent (prePramID % 65536) n ≤ p.length
  swap
  · have hstuck : writeSpecialParam (prePramID % 65536) p n d.eeprom = none :=
      writeSpecialParam_eq_none_iff.mpr (by omega)
    exact iff_of_false (fun h => h (by simp [disposeRecord, hstuck])) fun h => hspecial h.special
  obtain ⟨⟨k, e⟩, hw⟩ := Option.ne_none_iff_exists'.mp
    ((not_congr (writeSpecialParam_eq_none_iff (e := d.eeprom))).mpr (Nat.not_lt.mpr hspecial))
  have hkeeps := disposeDriverInformation_ne_none_iff hreads hw
  by_cases hdriver : convertPramID prePramID = e2AllDriverInformationId → p.length < n →
    env.driverInfoDisposeRadioProtocol p n d ≠ none
  swap
  · have hstuck := not_not.mp ((not_congr hkeeps).mpr hdriver)
    exact iff_of_false (fun h => h (by simp [disposeRecord, hw, hstuck])) fun h => hdriver h.driver
  obtain ⟨d', hkept⟩ := Option.ne_none_iff_exists'.mp (hkeeps.mpr hdriver)
  simp only [disposeRecord, hw, hkept, Option.bind_eq_bind, Option.bind_some]
  by_cases hrec : Recognized (convertPramID prePramID) n
  swap
  · rw [if_neg hrec]
    refine iff_of_true (Option.some_ne_none _) ⟨hspecial, hdriver, fun _ h => absurd h hrec, ?_,
      fun h => absurd h hrec⟩
    intro hid hn
    rw [hid, hn] at hrec
    exact absurd (by decide +kernel) hrec
  rw [if_pos hrec]
  by_cases hinfo : IsDriverInformation (convertPramID prePramID)
  · rw [if_pos hinfo, disposeRecognized_driver hinfo]
    refine iff_of_true (Option.some_ne_none _) ⟨hspecial, hdriver, fun h => ?_, fun h => ?_,
      fun _ h => absurd hinfo h⟩
    · rw [h] at hinfo
      exact absurd hinfo (by decide)
    · rw [h] at hinfo
      exact absurd hinfo (by decide)
  obtain rfl : { d with eeprom := e } = d' := by
    rw [disposeDriverInformation_other fun hid => hinfo (.inl hid)] at hkept
    exact Option.some.inj hkept
  rw [if_neg hinfo]
  by_cases hphone : convertPramID prePramID = e2DevicePhoneId
  · rw [hphone] at hrec ⊢
    rw [disposeRecognized_phone_iff hclear hrec]
    constructor
    · intro h
      refine ⟨hspecial, hdriver, ?_, fun _ => h, fun _ _ hne => absurd hphone hne⟩
      rw [hphone]
      exact fun hid => absurd hid (by decide)
    · exact fun h => h.phone hphone
  · rw [disposeRecognized_ne_none_iff hclear hrec hphone]
    have hstore : StoreFits env (convertPramID prePramID) n
        (withCCCID env (convertPramID prePramID) p) e ↔ StoreFits env (convertPramID prePramID) n
          (withCCCID env (convertPramID prePramID) p) d.eeprom := by
      rcases (writeSpecialParam_recognized hrec hw).2 with rfl | ⟨hvalue, hlength⟩
      · exact Iff.rfl
      · have hother : convertPramID prePramID ≠ e2CarOnlyNumId := by
          intro hid
          rw [hid] at hvalue
          exact absurd hvalue (by decide +kernel)
        rw [withCCCID_other hother]
        exact ⟨fun h => h.of_value hvalue hlength, fun h => h.of_value hvalue hlength⟩
    rw [hstore]
    exact ⟨fun h => ⟨hspecial, hdriver, fun hid _ => h.1 hid, fun hid => absurd hid hphone,
      fun _ _ _ => h.2⟩, fun h => ⟨fun hid => h.certificate hid hrec, h.store hrec hinfo hphone⟩⟩

end Record

section Message

variable {env : Environment} {channel : ℕ}

/-- The round that begins in `s` finds a header, and the record behind it fits. -/
def RoundFits (env : Environment) (s : Parser) : Prop :=
  ∃ prePramID pramLen, publicConvertBufferToLong s.p = some prePramID ∧ s.p[4]? = some pramLen ∧
    RecordFits env prePramID pramLen.toNat (s.p.drop 5) s.device

theorem round_ne_none_iff (hclear : env.ClearsOnlyCodes) (hreads : env.ReadsOwnRecord)
    {s : Parser} :
    round env channel s ≠ none ↔ (s.length > 0 → RoundFits env s) := by
  by_cases hlength : s.length > 0
  swap
  · rw [round, if_neg hlength]
    exact iff_of_true (Option.some_ne_none _) fun h => absurd h hlength
  simp only [round, hlength, if_true, Option.bind_eq_bind, forall_const, RoundFits]
  cases hid : publicConvertBufferToLong s.p with
  | none => simp
  | some prePramID =>
    cases hlen : s.p[4]? with
    | none => simp
    | some pramLen =>
      have hrecord : disposeRecord env channel prePramID (s.p.drop 5) pramLen.toNat s.device ≠
          none ↔ RecordFits env prePramID pramLen.toNat (s.p.drop 5) s.device :=
        disposeRecord_ne_none_iff hclear hreads
      rw [Option.bind_some, Option.bind_some]
      constructor
      · intro h
        have hsome : disposeRecord env channel prePramID (s.p.drop 5) pramLen.toNat s.device ≠
            none := fun hnone => h (by rw [hnone]; rfl)
        exact ⟨prePramID, pramLen, rfl, rfl, hrecord.mp hsome⟩
      · rintro ⟨_, _, ⟨⟩, ⟨⟩, hfits⟩
        obtain ⟨⟨ack, p, d⟩, hdispose⟩ := Option.ne_none_iff_exists'.mp (hrecord.mpr hfits)
        rw [hdispose]
        cases ack <;> exact Option.some_ne_none _

/-- The parser ends without an access outside the message or the local array exactly when
every round that it begins with bytes left to read finds a record that fits. -/
theorem disposeWriteParam_inBounds_iff (hclear : env.ClearsOnlyCodes)
    (hreads : env.ReadsOwnRecord) (pBuffer : List UInt8) (d : Device) :
    disposeWriteParam env channel pBuffer pBuffer.length d ≠ none ↔
      ∀ s, Reached (round env channel) ⟨pBuffer, int16 pBuffer.length, d⟩ s → s.length > 0 →
        RoundFits env s := by
  rw [disposeWriteParam, loop_ne_none_iff]
  exact forall₂_congr fun s _ => round_ne_none_iff hclear hreads

/-- A device in normal operation: clearing a code empties the entry of its channel, and the data of
the drivers, all bytes of the record, are kept in the flash. -/
def normalOperation : Environment where
  channelData1 := 1
  channelData2 := 2
  bbxyTestFlag := 0
  bbgnTestFlag := 0
  recorderCCCID := [0x43, 0x30, 0x30, 0x30, 0x30, 0x30, 0x31]
  recorderCCCID_length := rfl
  clearTerminalAuthorizationCode channel e :=
    writeBytes e (addressOf (e2ParamAppConvertPramIDToGroupIndex
      (if channel = 1 then e2LogingprsPasswordId else e2SecondLogingprsPasswordId))) [0]
  driverInfoDisposeRadioProtocol p n d := (copyOut p 0 n).map fun _ => d
  resumeNoused _ := ⟨fun _ => 0, .erased, 0⟩

theorem normalOperation_clearsOnlyCodes : normalOperation.ClearsOnlyCodes := by
  intro channel e i hfirst hsecond
  apply writeBytes_outside
  rw [List.length_singleton]
  unfold Outside spaceOf at hfirst hsecond
  split_ifs <;> omega

theorem normalOperation_readsOwnRecord : normalOperation.ReadsOwnRecord where
  within p n d h := by
    have hcopy : copyOut p 0 n = some (slice p 0 n) := copyOut_of_le (by omega)
    simp [normalOperation, hcopy]
  stable n _ := (copyOut_stable n).map _

def blankDevice : Device := ⟨fun _ => 0, .erased, 0⟩

/-- The data of two drivers, and the heartbeat interval behind them. -/
theorem disposeWriteParam_inBounds_drivers :
    disposeWriteParam normalOperation 1 [0, 0, 0xF2, 0x0D, 2, 7, 8, 0, 0, 0, 1, 4, 0, 0, 0, 60] 16
        blankDevice ≠ none ↔
      ∀ s, Reached (round normalOperation 1)
        ⟨[0, 0, 0xF2, 0x0D, 2, 7, 8, 0, 0, 0, 1, 4, 0, 0, 0, 60], int16 16, blankDevice⟩ s →
        s.length > 0 → RoundFits normalOperation s :=
  disposeWriteParam_inBounds_iff normalOperation_clearsOnlyCodes normalOperation_readsOwnRecord
    [0, 0, 0xF2, 0x0D, 2, 7, 8, 0, 0, 0, 1, 4, 0, 0, 0, 60] blankDevice

/-- A unique vehicle number of three bytes: seven are copied over it. -/
theorem not_disposeWriteParam_inBounds :
    ¬ ∀ (env : Environment) (channel : ℕ) (pBuffer : List UInt8) (d : Device),
      env.ClearsOnlyCodes → env.ReadsOwnRecord → pBuffer.length < 65536 →
        disposeWriteParam env channel pBuffer pBuffer.length d ≠ none := by
  intro h
  refine h normalOperation 1 [0, 0, 0xF2, 0x42, 3, 1, 2, 3] blankDevice
    normalOperation_clearsOnlyCodes normalOperation_readsOwnRecord (by decide) ?_
  apply loop_of_stuck
  rw [← Option.isNone_iff_eq_none]
  decide +kernel

end Message

end VehicleTerminal.E2ParamApp
