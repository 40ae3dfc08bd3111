import VehicleTerminal.Eeprom.Pram

/-! What a parameter write means for later reads: when it reads back, and when it disturbs
another parameter. -/
namespace VehicleTerminal.EepromPram
open ByteStore

section RoundTrip

variable {pramID n : ℕ} {pBuffer : List UInt8} {e : Eeprom}

/-- The record that the writer stores begins with the image that the reader wants to see. -/
theorem readImage_prefix_record (h : Admits pramID n) (data : List UInt8) :
    ∃ rest, record (e2ParamAppConvertPramIDToGroupIndex pramID) data =
      readImage pramID data ++ rest := by
  have hagree := (formats_agree h.inTable).1
  have hlength : lengthOf (e2ParamAppConvertPramIDToGroupIndex pramID) ≠ 0 :=
    (h.positive.trans_le h.fits).ne'
  by_cases hvalue : IsValue (e2ParamAppConvertPramIDToGroupIndex pramID)
  · have hswitch : switchOf (e2ParamAppConvertPramIDToGroupIndex pramID) ≠ 1 :=
      fun hs => (hagree.mp hs).2 hvalue
    exact ⟨[], by simp [record, readImage, hvalue, hswitch]⟩
  · have hswitch : switchOf (e2ParamAppConvertPramIDToGroupIndex pramID) = 1 :=
      hagree.mpr ⟨hlength, hvalue⟩
    by_cases hunchecked : Unchecked pramID
    · exact ⟨[sumCheck data], by simp [record, readImage, hvalue, hswitch, hunchecked]⟩
    · exact ⟨[], by simp [record, readImage, hvalue, hswitch, hunchecked]⟩

/-- A stored record reads as its data exactly when the reader can return that many bytes. -/
theorem readPram_record_iff (h : Admits pramID n) {data : List UInt8} (hdata : data.length = n)
    (e : Eeprom) :
    eepromPramReadPram pramID (writeBytes e (addressOf (e2ParamAppConvertPramIDToGroupIndex pramID))
      (record (e2ParamAppConvertPramIDToGroupIndex pramID) data)) = some data ↔
      Readable pramID n := by
  have hne : data ≠ [] := by
    rintro rfl
    exact h.positive.ne hdata
  obtain ⟨rest, hrecord⟩ := readImage_prefix_record h data
  rw [readPram_eq_iff hne, hdata, hrecord, readBytes_writeBytes_append]
  constructor
  · rintro ⟨-, -, -, hreadable, -⟩
    exact hreadable
  · intro hreadable
    exact ⟨h.known, h.inTable, (h.positive.trans_le h.fits).ne', hreadable, rfl⟩

/-- A successful write reads back exactly when its length is one that the reader can return
for this ID: the table length for a number; at most 49 bytes for a checked string. -/
theorem readPram_writePram_iff {n' : ℕ} {e' : Eeprom}
    (hw : eepromPramWritePram pramID pBuffer n e = some (n', e')) (hn : 0 < n') :
    eepromPramReadPram pramID e' = some (pBuffer.take n') ↔ Readable pramID n' := by
  obtain ⟨rfl, hadmits, hb, rfl⟩ := writePram_success hw hn
  exact readPram_record_iff hadmits (List.length_take_of_le hb) e

/-- Every record of `n` bytes comes back from the EEPROM. -/
def RecordReturns (pramID n : ℕ) : Prop :=
  ∀ (data : List UInt8) (e : Eeprom), data.length = n →
    ∃ e', eepromPramWritePram pramID data n e = some (n, e') ∧
      eepromPramReadPram pramID e' = some data

theorem recordReturns_of_admits {pramID n : ℕ} (h : Admits pramID n)
    (hreadable : Readable pramID n) : RecordReturns pramID n := by
  intro data e hdata
  have hw := writePram_admitted (e := e) h hdata.ge
  rw [List.take_of_length_le hdata.le] at hw
  exact ⟨_, hw, (readPram_record_iff h hdata e).mpr hreadable⟩

theorem readPram_writePram_heartbeat :
    ∃ e', eepromPramWritePram 1 [0, 0, 0, 60] 4 (fun _ => 0) = some (4, e') ∧ 0 < 4 ∧
      (eepromPramReadPram 1 e' = some ([0, 0, 0, 60].take 4) ↔ Readable 1 4) := by
  have hadmits : Admits 1 4 := ⟨by decide, by decide, by decide, by decide, by decide⟩
  have hw : eepromPramWritePram 1 [0, 0, 0, 60] 4 (fun _ => 0) = some (4, _) :=
    writePram_admitted hadmits (by decide)
  exact ⟨_, hw, by decide, readPram_writePram_iff hw (by decide)⟩

/-- One byte written to a four-byte number is acknowledged and cannot be read. -/
theorem not_readPram_writePram :
    ¬ ∀ (pramID n n' : ℕ) (pBuffer : List UInt8) (e e' : Eeprom),
      eepromPramWritePram pramID pBuffer n e = some (n', e') → 0 < n' →
        eepromPramReadPram pramID e' = some (pBuffer.take n') := by
  intro h
  have hadmits : Admits 1 1 := ⟨by decide, by decide, by decide, by decide, by decide⟩
  have hw : eepromPramWritePram 1 [5] 1 (fun _ => 0) = some (1, _) :=
    writePram_admitted hadmits (by decide)
  have hread := h _ _ _ _ _ _ hw (by decide)
  revert hread
  decide

end RoundTrip

section Neighbours

/-- The bytes an entry needs: its length byte if it is a string, its data, its check byte. -/
def spaceOf (id : ℕ) : ℕ := (if switchOf id = 1 then 1 else 0) + lengthOf id + 1

/-- The pairs of entries whose address in the layout leaves too little space between them:
0xF222 and 0xF223, 0xF226 and 0xF227, 0xF235 and 0xF236, 0xF251 and 0xF252. -/
def tightNeighbours : List (ℕ × ℕ) :=
  [(0x13a, 0x13b), (0x13e, 0x13f), (0x14d, 0x14e), (0x169, 0x16a)]

/-- Index, first byte and first byte after the record of every entry in use. -/
def regions : List (ℕ × ℕ × ℕ) :=
  entries.zipIdx.filterMap fun entry =>
    if entry.1.1 = 0 then none
    else some (entry.2, entry.1.1,
      entry.1.1 + ((if entry.1.2.2 = 1 then 1 else 0) + entry.1.2.1 + 1))

theorem regions_apart : regions.Pairwise fun r s =>
    r.2.2 ≤ s.2.1 ∨ s.2.2 ≤ r.2.1 ∨ (r.1, s.1) ∈ tightNeighbours := by
  decide +kernel

theorem regions_apart_of_lt {i j : ℕ} (hij : i < j) (hj : j < e2PramIdIndexMax)
    (hi0 : addressOf i ≠ 0) (hj0 : addressOf j ≠ 0) (hn : (i, j) ∉ tightNeighbours) :
    addressOf i + spaceOf i ≤ addressOf j ∨ addressOf j + spaceOf j ≤ addressOf i := by
  have hpairs := List.pairwise_iff_getElem.mp (List.pairwise_filterMap.mp regions_apart)
  have hlength : entries.zipIdx.length = e2PramIdIndexMax := List.length_zipIdx.trans entries_length
  have hjl : j < entries.zipIdx.length := hj.trans_eq hlength.symm
  have hil : i < entries.zipIdx.length := hij.trans hjl
  have hentry (k : ℕ) (hk : k < entries.zipIdx.length) :
      entries.zipIdx[k] = ((addressOf k, lengthOf k, switchOf k), k) := by
    rw [List.getElem_zipIdx, entries_getElem, Nat.zero_add]
  have hpair := hpairs i j hil hjl hij
  rw [hentry i hil, hentry j hjl] at hpair
  simp only [hi0, hj0, if_false, Option.some_inj, forall_eq'] at hpair
  unfold spaceOf
  rcases hpair with h | h | h
  · exact .inl h
  · exact .inr h
  · exact absurd h hn

/-- Different entries in use keep apart unless they are one of the four tight pairs. -/
theorem regions_apart_of_ne {i j : ℕ} (hij : i ≠ j) (hi : i < e2PramIdIndexMax)
    (hj : j < e2PramIdIndexMax) (hi0 : addressOf i ≠ 0) (hj0 : addressOf j ≠ 0)
    (hn : (i, j) ∉ tightNeighbours) (hn' : (j, i) ∉ tightNeighbours) :
    addressOf i + spaceOf i ≤ addressOf j ∨ addressOf j + spaceOf j ≤ addressOf i := by
  rcases Nat.lt_or_gt_of_ne hij with h | h
  · exact regions_apart_of_lt h hj hi0 hj0 hn
  · exact (regions_apart_of_lt h hi hj0 hi0 hn').symm

theorem record_length_le {id n : ℕ} {data : List UInt8} (hdata : data.length = n)
    (hfits : n ≤ lengthOf id) : (record id data).length ≤ spaceOf id := by
  rw [record, spaceOf]
  split_ifs <;> simp only [List.length_append, List.length_cons, List.length_nil] <;> omega

end Neighbours

section Disturbance

variable {p q m n : ℕ} {b c d : List UInt8} {e₀ e₁ e e' : Eeprom}

/-- Every byte of the record of `c` for `p` that falls on a byte the reader of `q` looks at,
when it returns `d`, is the byte stored there. -/
def Coincides (p : ℕ) (c : List UInt8) (q : ℕ) (d : List UInt8) (e : Eeprom) : Prop :=
  ∀ j (hj : j < (record (e2ParamAppConvertPramIDToGroupIndex p) c).length),
    addressOf (e2ParamAppConvertPramIDToGroupIndex q) ≤
      addressOf (e2ParamAppConvertPramIDToGroupIndex p) + j →
    addressOf (e2ParamAppConvertPramIDToGroupIndex p) + j <
      addressOf (e2ParamAppConvertPramIDToGroupIndex q) + (readImage q d).length →
    (record (e2ParamAppConvertPramIDToGroupIndex p) c)[j] =
      e (addressOf (e2ParamAppConvertPramIDToGroupIndex p) + j)

/-- A parameter that reads as `d` still does exactly when none of the bytes that the reader
looks at has changed. -/
theorem readPram_unchanged_iff (hread : eepromPramReadPram q e = some d) (hd : d ≠ []) :
    eepromPramReadPram q e' = some d ↔
      ∀ i, addressOf (e2ParamAppConvertPramIDToGroupIndex q) ≤ i →
        i < addressOf (e2ParamAppConvertPramIDToGroupIndex q) + (readImage q d).length →
        e' i = e i := by
  obtain ⟨hknown, hin, hlength, hreadable, himage⟩ := (readPram_eq_iff hd).mp hread
  rw [readPram_eq_iff hd, ← readBytes_eq_iff, himage]
  exact ⟨fun h => h.2.2.2.2, fun h => ⟨hknown, hin, hlength, hreadable, h⟩⟩

theorem coincides_iff (c : List UInt8) :
    Coincides p c q d e ↔
      ∀ i, addressOf (e2ParamAppConvertPramIDToGroupIndex q) ≤ i →
        i < addressOf (e2ParamAppConvertPramIDToGroupIndex q) + (readImage q d).length →
        writeBytes e (addressOf (e2ParamAppConvertPramIDToGroupIndex p))
          (record (e2ParamAppConvertPramIDToGroupIndex p) c) i = e i := by
  simp only [writeBytes_eq_iff]
  constructor
  · rintro h i hlo hhi j hj rfl
    exact h j hj hlo hhi
  · intro h j hj hlo hhi
    exact h _ hlo hhi j hj rfl

/-- After a write of `m` bytes to a string entry its length byte is `m`. -/
theorem writePram_length_byte (hq : eepromPramWritePram q b m e₀ = some (m, e₁)) (hm : 0 < m)
    (hstring : switchOf (e2ParamAppConvertPramIDToGroupIndex q) = 1) :
    e₁ (addressOf (e2ParamAppConvertPramIDToGroupIndex q)) = UInt8.ofNat m := by
  obtain ⟨-, -, hb, rfl⟩ := writePram_success hq hm
  have hdata : (b.take m).length = m := List.length_take_of_le hb
  have hfirst := readBytes_writeBytes_append e₀
    (addressOf (e2ParamAppConvertPramIDToGroupIndex q)) [UInt8.ofNat (b.take m).length]
    (b.take m ++ [sumCheck (b.take m)])
  rw [List.length_singleton, readBytes_one, List.singleton_inj, hdata] at hfirst
  rw [record, if_pos hstring, hdata, List.append_assoc]
  exact hfirst

/-- What reads after a write of `q` stays within the space of its entry. -/
theorem readImage_length_le (hq : eepromPramWritePram q b m e₀ = some (m, e₁)) (hm : 0 < m)
    (hread : eepromPramReadPram q e₁ = some d) (hd : d ≠ []) :
    (readImage q d).length ≤ spaceOf (e2ParamAppConvertPramIDToGroupIndex q) := by
  obtain ⟨-, hin, hlength, hreadable, himage⟩ := (readPram_eq_iff hd).mp hread
  obtain ⟨-, hadmits, -, -⟩ := writePram_success hq hm
  have hfits := hadmits.fits
  obtain ⟨hswitch, hbyte, -⟩ := formats_agree hin
  unfold Readable at hreadable
  unfold readImage at himage ⊢
  unfold spaceOf
  by_cases hvalue : IsValue (e2ParamAppConvertPramIDToGroupIndex q)
  · rw [if_pos hvalue] at hreadable ⊢
    rw [List.length_append, List.length_singleton]
    omega
  · have hstring : switchOf (e2ParamAppConvertPramIDToGroupIndex q) = 1 :=
      hswitch.mpr ⟨hlength, hvalue⟩
    have hstored := writePram_length_byte hq hm hstring
    rw [if_neg hvalue] at hreadable himage ⊢
    rw [if_pos hstring]
    have hsame : d.length < 256 → e₁ (addressOf (e2ParamAppConvertPramIDToGroupIndex q)) =
        UInt8.ofNat d.length → d.length = m := by
      intro hlt hd₁
      have htoNat := congrArg UInt8.toNat (hd₁.symm.trans hstored)
      rwa [UInt8.toNat_ofNat_of_lt' hlt, UInt8.toNat_ofNat_of_lt' (hfits.trans_lt hbyte)] at htoNat
    split_ifs at hreadable himage ⊢ with hunchecked
    · rw [List.length_cons, readBytes_cons, List.cons.injEq] at himage
      have hdm := hsame hreadable himage.1
      rw [List.length_cons]
      omega
    · rw [List.length_cons, readBytes_cons, List.cons.injEq] at himage
      have hdm := hsame (by omega) himage.1
      rw [List.length_cons, List.length_append, List.length_singleton]
      omega

/-- A later write of another parameter leaves what `q` reads as it is exactly when the bytes
on which both fall coincide; entries that are no tight neighbours never share a byte. -/
theorem readPram_undisturbed_iff
    (hentries : e2ParamAppConvertPramIDToGroupIndex p ≠ e2ParamAppConvertPramIDToGroupIndex q)
    (hq : eepromPramWritePram q b m e₀ = some (m, e₁)) (hm : 0 < m)
    (hread : eepromPramReadPram q e₁ = some d) (hd : d ≠ [])
    (hlater : eepromPramReadPram q e = some d)
    (hp : eepromPramWritePram p c n e = some (n, e')) (hn : 0 < n) :
    (eepromPramReadPram q e' = some d ↔ Coincides p (c.take n) q d e) ∧
      ((e2ParamAppConvertPramIDToGroupIndex p, e2ParamAppConvertPramIDToGroupIndex q) ∉
          tightNeighbours →
        (e2ParamAppConvertPramIDToGroupIndex q, e2ParamAppConvertPramIDToGroupIndex p) ∉
          tightNeighbours → Coincides p (c.take n) q d e) := by
  obtain ⟨-, hadmits, hc, rfl⟩ := writePram_success hp hn
  refine ⟨by rw [readPram_unchanged_iff hlater hd, coincides_iff], fun hpq hqp => ?_⟩
  obtain ⟨-, hqAdmits, -, -⟩ := writePram_success hq hm
  have himage := readImage_length_le hq hm hread hd
  have hrecord := record_length_le (List.length_take_of_le hc) hadmits.fits
  have hapart := regions_apart_of_ne hentries hadmits.inTable hqAdmits.inTable hadmits.placed
    hqAdmits.placed hpq hqp
  intro j hj hlo hhi
  omega

theorem readPram_undisturbed_heartbeat : ∃ e₁ e',
    e2ParamAppConvertPramIDToGroupIndex 2 ≠ e2ParamAppConvertPramIDToGroupIndex 1 ∧
    eepromPramWritePram 1 [0, 0, 0, 60] 4 (fun _ => 0) = some (4, e₁) ∧ 0 < 4 ∧
    eepromPramReadPram 1 e₁ = some [0, 0, 0, 60] ∧ ([0, 0, 0, 60] : List UInt8) ≠ [] ∧
    eepromPramWritePram 2 [0, 0, 0, 10] 4 e₁ = some (4, e') ∧
    (eepromPramReadPram 1 e' = some [0, 0, 0, 60] ↔
      Coincides 2 ([0, 0, 0, 10].take 4) 1 [0, 0, 0, 60] e₁) := by
  have hone : Admits 1 4 := ⟨by decide, by decide, by decide, by decide, by decide⟩
  have htwo : Admits 2 4 := ⟨by decide, by decide, by decide, by decide, by decide⟩
  have hq : eepromPramWritePram 1 [0, 0, 0, 60] 4 (fun _ => 0) = some (4, _) :=
    writePram_admitted hone (by decide)
  have hread : eepromPramReadPram 1 (writeBytes (fun _ => 0) (addressOf
      (e2ParamAppConvertPramIDToGroupIndex 1)) (record (e2ParamAppConvertPramIDToGroupIndex 1)
        ([0, 0, 0, 60].take 4))) = some [0, 0, 0, 60] := by decide
  refine ⟨_, _, by decide, hq, by decide, hread, by decide,
    writePram_admitted htwo (by decide), ?_⟩
  exact (readPram_undisturbed_iff (by decide) hq (by decide) hread (by decide) hread
    (writePram_admitted htwo (by decide)) (by decide)).1

/-- Thirty bytes written for 0xF251 put their check byte on the first byte of 0xF252. -/
theorem not_readPram_undisturbed :
    ¬ ∀ (p q m n : ℕ) (b c d : List UInt8) (e₀ e₁ e' : Eeprom),
      e2ParamAppConvertPramIDToGroupIndex p ≠ e2ParamAppConvertPramIDToGroupIndex q →
      eepromPramWritePram q b m e₀ = some (m, e₁) → 0 < m →
      eepromPramReadPram q e₁ = some d → d ≠ [] →
      eepromPramWritePram p c n e₁ = some (n, e') → 0 < n →
        eepromPramReadPram q e' = some d := by
  intro h
  have hlow : Admits 0xF251 30 :=
    ⟨by decide, by decide, by decide +kernel, by decide, by decide +kernel⟩
  have hhigh : Admits 0xF252 4 :=
    ⟨by decide, by decide, by decide +kernel, by decide, by decide +kernel⟩
  have hq : eepromPramWritePram 0xF252 [1, 2, 3, 4] 4 (fun _ => 0) = some (4, _) :=
    writePram_admitted hhigh (by decide)
  have hread : eepromPramReadPram 0xF252 (writeBytes (fun _ => 0) (addressOf
      (e2ParamAppConvertPramIDToGroupIndex 0xF252))
        (record (e2ParamAppConvertPramIDToGroupIndex 0xF252) ([1, 2, 3, 4].take 4))) =
      some [1, 2, 3, 4] := by decide +kernel
  have hp : eepromPramWritePram 0xF251 (List.replicate 30 0) 30 (writeBytes (fun _ => 0)
      (addressOf (e2ParamAppConvertPramIDToGroupIndex 0xF252))
        (record (e2ParamAppConvertPramIDToGroupIndex 0xF252) ([1, 2, 3, 4].take 4))) =
      some (30, _) := writePram_admitted hlow (by decide)
  have hafter := h _ _ _ _ _ _ _ _ _ _ (by decide) hq (by decide) hread (by decide) hp (by decide)
  revert hafter
  decide +kernel

end Disturbance

end VehicleTerminal.EepromPram
