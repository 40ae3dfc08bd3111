import VehicleTerminal.Eeprom.Pram

/-! The parameter IDs and the table entries they select. An ID has 32 bits, its entry is looked up
with the lower 16, and only the writer compares the index with the size of the tables. -/
namespace VehicleTerminal.EepromPram

def e2SelfDefineIdMax : ℕ := 0xF29E

/-- The IDs of the two groups. Each bound is the last ID plus one. -/
def InGroups (pramID : ℕ) : Prop :=
  pramID < e2SystemDefineIdMax ∨ e2PramBaseCustomId ≤ pramID ∧ pramID < e2SelfDefineIdMax

instance (pramID : ℕ) : Decidable (InGroups pramID) := inferInstanceAs (Decidable (_ ∨ _))

/-- Whatever the EEPROM holds, no table index is outside; the writer gets a buffer of at least
`bufferLen` bytes. -/
def IndexesTables (pramID : ℕ) : Prop :=
  (∀ e, eepromPramReadPram pramID e ≠ none) ∧
  ∀ pBuffer bufferLen e, bufferLen ≤ pBuffer.length →
    eepromPramWritePram pramID pBuffer bufferLen e ≠ none

/-- Reading gives no byte and writing changes none. -/
def Ignored (pramID : ℕ) : Prop :=
  (∀ e, eepromPramReadPram pramID e = some []) ∧
  ∀ pBuffer bufferLen e, eepromPramWritePram pramID pBuffer bufferLen e = some (0, e)

/-- A read or a write of this ID can have a result other than 0. -/
def Accepted (pramID : ℕ) : Prop :=
  (∃ e d, eepromPramReadPram pramID e = some d ∧ d ≠ []) ∨
  ∃ pBuffer bufferLen e n e',
    eepromPramWritePram pramID pBuffer bufferLen e = some (n, e') ∧ 0 < n

/-- What is expected of two IDs: no index outside the tables, nothing done for an ID of no group,
and entries of their own if they are different. -/
structure KeptApart (p q : ℕ) : Prop where
  indexes : IndexesTables p ∧ IndexesTables q
  ignored : (¬ InGroups p → Ignored p) ∧ (¬ InGroups q → Ignored q)
  apart : p ≠ q → Accepted p → Accepted q →
    e2ParamAppConvertPramIDToGroupIndex p ≠ e2ParamAppConvertPramIDToGroupIndex q

/-- An entry that can hold data. -/
def InUse (id : ℕ) : Prop := lengthOf id ≠ 0

instance (id : ℕ) : Decidable (InUse id) := inferInstanceAs (Decidable (_ ≠ _))

/-- The lower 16 bits select no entry behind the tables, and if there are more bits, none that is
in use. -/
def Sound (pramID : ℕ) : Prop :=
  pramID % 65536 ≤ e2SelfDefineIdMax ∧
    (pramID < 65536 ∨ ¬ InUse (e2ParamAppConvertPramIDToGroupIndex pramID))

instance (pramID : ℕ) : Decidable (Sound pramID) := inferInstanceAs (Decidable (_ ∧ _))

section Index

variable {pramID : ℕ}

theorem index_lt_iff : e2ParamAppConvertPramIDToGroupIndex pramID < e2PramIdIndexMax ↔
    pramID % 65536 ≤ e2SelfDefineIdMax := by
  unfold e2ParamAppConvertPramIDToGroupIndex e2SystemDefineIdMax e2PramBaseCustomId
    e2PramIdIndexMax e2SelfDefineIdMax
  dsimp only
  split_ifs <;> omega

theorem not_inUse_zero : ¬ InUse 0 := by decide

/-- The index behind the last ID is in the tables, but its entry is not in use. -/
theorem not_inUse_of_not_inGroups (h : ¬ InGroups pramID) (hle : pramID ≤ e2SelfDefineIdMax) :
    ¬ InUse (e2ParamAppConvertPramIDToGroupIndex pramID) := by
  have hlast : ¬ InUse (e2ParamAppConvertPramIDToGroupIndex e2SelfDefineIdMax) := by decide +kernel
  rcases Nat.lt_or_eq_of_le hle with hlt | rfl
  · have hzero : e2ParamAppConvertPramIDToGroupIndex pramID = 0 := by
      unfold InGroups at h
      unfold e2SystemDefineIdMax e2PramBaseCustomId e2SelfDefineIdMax at *
      unfold e2ParamAppConvertPramIDToGroupIndex e2SystemDefineIdMax e2PramBaseCustomId
      dsimp only
      split_ifs <;> omega
    rw [hzero]
    exact not_inUse_zero
  · exact hlast

/-- Below 2^16 an entry has one ID only. -/
theorem index_injective {p q : ℕ} (hp : p < 65536) (hq : q < 65536)
    (hne : e2ParamAppConvertPramIDToGroupIndex p ≠ 0)
    (h : e2ParamAppConvertPramIDToGroupIndex p = e2ParamAppConvertPramIDToGroupIndex q) :
    p = q := by
  unfold e2ParamAppConvertPramIDToGroupIndex e2SystemDefineIdMax e2PramBaseCustomId at h hne
  dsimp only at h hne
  split_ifs at h hne <;> omega

/-- An ID whose entry is not in use does nothing. -/
theorem ignored_of_not_inUse
    (hin : e2ParamAppConvertPramIDToGroupIndex pramID < e2PramIdIndexMax)
    (h : ¬ InUse (e2ParamAppConvertPramIDToGroupIndex pramID)) : Ignored pramID := by
  have hlength : lengthOf (e2ParamAppConvertPramIDToGroupIndex pramID) = 0 := not_not.mp h
  constructor
  · intro e
    simp only [eepromPramReadPram, eepromPramLength_getElem? hin, Option.map_some, hlength,
      if_true, ite_self]
  · intro pBuffer bufferLen e
    refine writePram_refused fun hadmits => ?_
    have hpos := hadmits.positive
    have hfits := hadmits.fits
    omega

theorem Accepted.inUse (h : Accepted pramID) :
    e2ParamAppConvertPramIDToGroupIndex pramID ≠ 0 ∧
      InUse (e2ParamAppConvertPramIDToGroupIndex pramID) := by
  rcases h with ⟨e, d, hread, hd⟩ | ⟨pBuffer, bufferLen, e, n, e', hwrite, hn⟩
  · obtain ⟨hknown, -, hlength, -⟩ := (readPram_eq_iff hd).mp hread
    exact ⟨hknown, hlength⟩
  · obtain ⟨-, hadmits, -⟩ := writePram_success hwrite hn
    exact ⟨hadmits.known, (hadmits.positive.trans_le hadmits.fits).ne'⟩

theorem accepted_of_inUse
    (hin : e2ParamAppConvertPramIDToGroupIndex pramID < e2PramIdIndexMax)
    (h : InUse (e2ParamAppConvertPramIDToGroupIndex pramID)) (e : Eeprom) :
    ∃ e', eepromPramWritePram pramID [0] 1 e = some (1, e') := by
  have hknown : e2ParamAppConvertPramIDToGroupIndex pramID ≠ 0 := by
    intro hzero
    rw [hzero] at h
    exact not_inUse_zero h
  have hplaced := (formats_agree hin).2.2.not.mpr h
  exact ⟨_, writePram_admitted
    ⟨hknown, hin, hplaced, Nat.one_pos, Nat.one_le_iff_ne_zero.mpr h⟩ le_rfl⟩

theorem indexesTables_iff : IndexesTables pramID ↔ pramID % 65536 ≤ e2SelfDefineIdMax := by
  rw [← index_lt_iff]
  constructor
  · intro h
    by_contra hout
    have hlength : eepromPramLength[e2ParamAppConvertPramIDToGroupIndex pramID]? = none := by
      rw [List.getElem?_eq_none]
      exact tables_length.2.1.trans_le (not_lt.mp hout)
    refine h.1 (fun _ => 0) ?_
    rw [eepromPramReadPram]
    dsimp only
    rw [hlength, Option.map_none, if_neg]
    intro hzero
    rw [hzero] at hout
    exact hout (by decide)
  · intro hin
    refine ⟨fun e => ?_, fun pBuffer bufferLen e hle => ?_⟩
    · obtain ⟨d, hd⟩ := readPram_of_lt hin e
      rw [hd]
      exact Option.some_ne_none d
    · rw [ne_eq, writePram_eq_none_iff]
      exact fun hnone => absurd hle (Nat.not_le.mpr hnone.2)

end Index

/-- An ID is sound exactly if it selects an entry of the tables and is ignored outside of the
groups. -/
theorem sound_iff {pramID : ℕ} :
    Sound pramID ↔ IndexesTables pramID ∧ (¬ InGroups pramID → Ignored pramID) := by
  rw [Sound, indexesTables_iff]
  refine and_congr_right fun hle => ?_
  have hin := index_lt_iff.mpr hle
  constructor
  · rintro (hlt | hunused) hgroups
    · rw [Nat.mod_eq_of_lt hlt] at hle
      exact ignored_of_not_inUse hin (not_inUse_of_not_inGroups hgroups hle)
    · exact ignored_of_not_inUse hin hunused
  · intro hignored
    by_contra hsound
    rw [not_or, not_lt, not_not] at hsound
    have hgroups : ¬ InGroups pramID := by
      unfold InGroups e2SystemDefineIdMax e2PramBaseCustomId e2SelfDefineIdMax
      omega
    obtain ⟨e', hwrite⟩ := accepted_of_inUse hin hsound.2 fun _ => 0
    rw [(hignored hgroups).2] at hwrite
    cases hwrite

/-- Sound IDs of which both are accepted have entries of their own. -/
theorem Sound.apart {p q : ℕ} (hp : Sound p) (hq : Sound q) (hne : p ≠ q) (hap : Accepted p)
    (haq : Accepted q) :
    e2ParamAppConvertPramIDToGroupIndex p ≠ e2ParamAppConvertPramIDToGroupIndex q := by
  obtain ⟨hknown, hused⟩ := hap.inUse
  have hp16 := hp.2.resolve_right (not_not.mpr hused)
  have hq16 := hq.2.resolve_right (not_not.mpr haq.inUse.2)
  exact fun h => hne (index_injective hp16 hq16 hknown h)

/-- Two IDs are kept apart exactly if both are sound. -/
theorem keptApart_iff (p q : UInt32) :
    KeptApart p.toNat q.toNat ↔ Sound p.toNat ∧ Sound q.toNat := by
  constructor
  · intro h
    exact ⟨sound_iff.mpr ⟨h.indexes.1, h.ignored.1⟩, sound_iff.mpr ⟨h.indexes.2, h.ignored.2⟩⟩
  · rintro ⟨hp, hq⟩
    obtain ⟨hpIndex, hpIgnored⟩ := sound_iff.mp hp
    obtain ⟨hqIndex, hqIgnored⟩ := sound_iff.mp hq
    exact ⟨⟨hpIndex, hqIndex⟩, ⟨hpIgnored, hqIgnored⟩, hp.apart hq⟩

/-- The reader looks behind the tables for the ID 0xFFFF. -/
theorem not_keptApart : ¬ ∀ p q : UInt32, KeptApart p.toNat q.toNat := by
  intro h
  have hindex := indexesTables_iff.mp (h 0xFFFF 0).indexes.1
  revert hindex
  decide

end VehicleTerminal.EepromPram
