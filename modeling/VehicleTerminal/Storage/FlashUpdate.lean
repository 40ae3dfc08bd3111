import VehicleTerminal.Storage.Flash

/-! An update overwrites its byte range and nothing else. Every sector that it touches is
rewritten with its own bytes outside the range, and the sectors join without a gap. -/
namespace VehicleTerminal.Flash
open BlockMemory PartialLoop

section Sector

variable {flash src : List UInt8} {blockAddr tempAddr tempLen : ℕ}

/-- The mask of the sector address. -/
theorem and_sector_mask {addr : ℕ} (h : addr < 2 ^ 32) :
    addr &&& 0xFFFFF000 = addr / 2 ^ 12 * 2 ^ 12 := by
  have hmask : 0xFFFFF000 = (2 ^ 20 - 1) <<< 12 := by decide
  have hsplit : addr / 2 ^ 12 < 2 ^ 20 := by omega
  have hlow : addr &&& 0xFFFFF000 = (addr / 2 ^ 12 &&& (2 ^ 20 - 1)) <<< 12 := by
    rw [hmask]
    refine Nat.eq_of_testBit_eq fun i => ?_
    rw [Nat.testBit_and, Nat.testBit_shiftLeft, Nat.testBit_shiftLeft, Nat.testBit_and,
      Nat.testBit_div_two_pow]
    by_cases hi : 12 ≤ i
    · rw [Nat.sub_add_cancel hi]
      simp [hi]
    · simp [hi]
  rw [hlow, Nat.and_two_pow_sub_one_eq_mod, Nat.mod_eq_of_lt hsplit, Nat.shiftLeft_eq]

theorem fillBuffer_eq {msgFlashBuffer : List UInt8}
    (hfits : tempAddr + tempLen ≤ msgFlashBuffer.length) (hsrc : tempLen ≤ src.length) :
    fillBuffer tempAddr tempLen src msgFlashBuffer =
      some (blit msgFlashBuffer tempAddr (src.take tempLen)) := by
  induction tempLen generalizing tempAddr src msgFlashBuffer with
  | zero => simp [fillBuffer]
  | succ tempLen ih =>
    cases src with
    | nil => simp at hsrc
    | cons byte src =>
      rw [List.length_cons] at hsrc
      have hlen := blit_length msgFlashBuffer tempAddr [byte] (by simp; omega)
      have hjoin := blit_blit msgFlashBuffer tempAddr [byte] (src.take tempLen) (by simp; omega)
      simp only [List.length_singleton, List.singleton_append] at hjoin
      rw [fillBuffer, store_of_lt byte (by omega), Option.bind_some,
        ih (by omega) (by omega), hjoin, List.take_succ_cons]

theorem erasedSector_length : erasedSector.length = flashOneSectorBytes :=
  List.length_replicate

/-- A sector that is erased and written holds the buffer, which the check confirms. -/
theorem rewriteSector_eq {msgFlashBuffer : List UInt8}
    (haligned : blockAddr % flashOneSectorBytes = 0)
    (hlen : msgFlashBuffer.length = flashOneSectorBytes)
    (hfits : blockAddr + flashOneSectorBytes ≤ flash.length) :
    rewriteSector msgFlashBuffer blockAddr flash = some (blit flash blockAddr msgFlashBuffer) := by
  have herasedSector := erasedSector_length
  have hblock : blockAddr / flashOneSectorBytes * flashOneSectorBytes = blockAddr :=
    Nat.div_mul_cancel (Nat.dvd_of_mod_eq_zero haligned)
  have herase : sFlashEraseSector blockAddr flash = some (blit flash blockAddr erasedSector) := by
    rw [sFlashEraseSector, hblock, copyIn_of_le hfits (erasedSector_length ▸ le_rfl),
      ← erasedSector_length, List.take_length]
  have herased : slice (blit flash blockAddr erasedSector) blockAddr flashOneSectorBytes =
      erasedSector := by
    rw [← erasedSector_length, slice_blit _ _ _ (by omega)]
  have hblank : erasedSector.all (· = 0xFF) = true := by
    rw [List.all_eq_true]
    intro byte hbyte
    exact decide_eq_true (List.eq_of_mem_replicate hbyte)
  have herased_length := blit_length flash blockAddr erasedSector (by omega)
  have hwrite : sFlashWriteBuffer msgFlashBuffer blockAddr flashOneSectorBytes
      (blit flash blockAddr erasedSector) = some (blit flash blockAddr msgFlashBuffer) := by
    rw [sFlashWriteBuffer, herased, if_pos hblank, copyIn_of_le (by omega) (by omega), ← hlen,
      List.take_length, blit_overwrite _ _ (by omega) (by omega)]
  have hwritten_length := blit_length flash blockAddr msgFlashBuffer (by omega)
  have hread : sFlashReadBuffer blockAddr 100 (blit flash blockAddr msgFlashBuffer) =
      some (msgFlashBuffer.take 100) := by
    have hsmall : 100 ≤ flashOneSectorBytes := by norm_num [flashOneSectorBytes]
    rw [sFlashReadBuffer, copyOut_of_le (by omega),
      ← take_slice _ _ (hlen ▸ hsmall), slice_blit _ _ _ (by omega)]
  have hequal : publicCheckArrayValIsEqual (msgFlashBuffer.take 100) msgFlashBuffer 100 = 0 := by
    rw [publicCheckArrayValIsEqual, List.take_take, Nat.min_self, if_pos rfl]
  simp only [rewriteSector, herase, hwrite, hread, hequal, Option.bind_some]
  rfl

/-- A sector with its part of the source. -/
theorem updateSector_eq (haligned : blockAddr % flashOneSectorBytes = 0)
    (hfits : blockAddr + flashOneSectorBytes ≤ flash.length)
    (hin : tempAddr + tempLen ≤ flashOneSectorBytes) (hsrc : tempLen ≤ src.length) :
    updateSector blockAddr tempAddr tempLen src flash =
      some (blit flash (blockAddr + tempAddr) (src.take tempLen)) := by
  have hread : sFlashReadBuffer blockAddr flashOneSectorBytes flash =
      some (slice flash blockAddr flashOneSectorBytes) := copyOut_of_le hfits
  have hbuffer := slice_length flash blockAddr flashOneSectorBytes hfits
  have htaken : (src.take tempLen).length = tempLen := List.length_take_of_le hsrc
  have hfilled := blit_length (slice flash blockAddr flashOneSectorBytes) tempAddr
    (src.take tempLen) (by omega)
  rw [updateSector, hread, Option.bind_some, fillBuffer_eq (by omega) hsrc, Option.bind_some,
    rewriteSector_eq haligned (by omega) hfits, blit_slice_blit _ _ (by omega) hfits]

end Sector

section Range

variable {flash src : List UInt8}

/-- Every sector with an address of the range lies inside the chip. An update of no bytes
rewrites the sector of `addr` all the same. -/
def SectorsInside (flash : List UInt8) (addr len : ℕ) : Prop :=
  ∀ a, addr ≤ a → a < addr + max 1 len →
    a / flashOneSectorBytes * flashOneSectorBytes + flashOneSectorBytes ≤ flash.length

/-- The sector of an address, from its number. -/
theorem SectorsInside.sector {addr len blockAddr : ℕ} (h : SectorsInside flash addr len)
    (haligned : blockAddr % flashOneSectorBytes = 0) {a : ℕ} (ha : addr ≤ a)
    (halen : a < addr + max 1 len) (hblock : blockAddr ≤ a)
    (hbelow : a < blockAddr + flashOneSectorBytes) :
    blockAddr + flashOneSectorBytes ≤ flash.length := by
  have hinside := h a ha halen
  unfold flashOneSectorBytes at *
  omega

theorem SectorsInside.range {addr len : ℕ} (h : SectorsInside flash addr len) :
    addr + len ≤ flash.length := by
  have hinside := h (addr + max 1 len - 1) (by omega) (by omega)
  unfold flashOneSectorBytes at hinside
  omega

/-- The rounds over the sectors behind the first put the rest of the source into place. -/
theorem loop_writeRound_eq (p : Progress) (haligned : p.blockAddr % flashOneSectorBytes = 0)
    (hsrc : p.datalen ≤ p.src.length) (hchip : p.flash.length ≤ 2 ^ 32)
    (hinside : 0 < p.datalen →
      SectorsInside p.flash (p.blockAddr + flashOneSectorBytes) p.datalen) :
    loop writeRound Progress.datalen writeRound_decreases p =
      some (blit p.flash (p.blockAddr + flashOneSectorBytes) (p.src.take p.datalen)) := by
  induction hn : p.datalen using Nat.strong_induction_on generalizing p with
  | _ n ih =>
    subst hn
    by_cases hmore : 0 < p.datalen
    · have hinside := hinside hmore
      have haligned' : (p.blockAddr + flashOneSectorBytes) % flashOneSectorBytes = 0 := by
        rw [Nat.add_mod_right, haligned]
      have hfits := hinside.sector haligned' le_rfl (by omega) le_rfl
        (by unfold flashOneSectorBytes; omega)
      have haddr : (p.blockAddr + flashOneSectorBytes) % 2 ^ 32 =
          p.blockAddr + flashOneSectorBytes := by
        apply Nat.mod_eq_of_lt
        unfold flashOneSectorBytes at *
        omega
      -- Either the round fills its sector, or it is the last one.
      obtain ⟨t, ht, hsector, hpos, hle, hlast⟩ : ∃ t,
          t = (if p.datalen > flashOneSectorBytes then flashOneSectorBytes else p.datalen) ∧
          t ≤ flashOneSectorBytes ∧ 0 < t ∧ t ≤ p.datalen ∧
          (p.datalen - t = 0 ∨ t = flashOneSectorBytes) := by
        refine ⟨_, rfl, ?_⟩
        unfold flashOneSectorBytes
        split_ifs <;> omega
      have hround := updateSector_eq haligned' hfits
        (show 0 + t ≤ flashOneSectorBytes by omega) (show t ≤ p.src.length by omega)
      have hrange := hinside.range
      have hlen := blit_length p.flash (p.blockAddr + flashOneSectorBytes + 0)
        (p.src.take t) (by rw [List.length_take]; omega)
      let next : Progress :=
        ⟨blit p.flash (p.blockAddr + flashOneSectorBytes + 0) (p.src.take t),
          p.blockAddr + flashOneSectorBytes, p.src.drop t, p.datalen - t⟩
      have hnext : writeRound p = some (.continues next) := by
        simp only [writeRound, if_pos hmore, haddr, ← ht, hround, Option.map_some, next]
      have hrest_inside : 0 < next.datalen →
          SectorsInside next.flash (next.blockAddr + flashOneSectorBytes) next.datalen := by
        intro hrest a ha halen
        dsimp only [next] at hrest ha halen ⊢
        rw [hlen]
        exact hinside a (by omega) (by omega)
      rw [loop_of_continues hnext, ih (p.datalen - t) (by omega) next haligned'
        (by simp only [next, List.length_drop]; omega) (hlen ▸ hchip) hrest_inside rfl]
      dsimp only [next]
      rw [Nat.add_zero, blit_rest _ _ (hlast.imp_right fun h => by rw [h]) (by omega) (by omega),
        Nat.add_sub_cancel' hle]
    · have hdone : writeRound p = some (.returns p.flash) := if_neg hmore
      rw [loop_of_returns hdone, Nat.eq_zero_of_not_pos hmore, List.take_zero, blit_nil]

/-- An update is the overwriting of its range. -/
theorem publicWriteDataToFlash_eq {addr len : ℕ} (hchip : flash.length ≤ 2 ^ 32)
    (hsrc : len ≤ src.length) (hinside : SectorsInside flash addr len) :
    publicWriteDataToFlash src addr len flash = some (blit flash addr (src.take len)) := by
  have hrange := hinside.range
  have hfirst := hinside addr le_rfl (by omega)
  have hmask : addr &&& 0xFFFFF000 = addr / 2 ^ 12 * 2 ^ 12 := by
    apply and_sector_mask
    unfold flashOneSectorBytes at hfirst
    omega
  have haligned : addr / flashOneSectorBytes * flashOneSectorBytes % flashOneSectorBytes = 0 :=
    Nat.mul_mod_left _ _
  have hsplit : addr / flashOneSectorBytes * flashOneSectorBytes + addr % flashOneSectorBytes =
    addr := Nat.div_add_mod' _ _
  -- Either the range ends in its first sector, or it goes on where the next one starts.
  obtain ⟨t, ht, hin, hle, hlast⟩ : ∃ t,
      t = (if flashOneSectorBytes - addr % flashOneSectorBytes > len then len
        else flashOneSectorBytes - addr % flashOneSectorBytes) ∧
      addr % flashOneSectorBytes + t ≤ flashOneSectorBytes ∧ t ≤ len ∧
      (len - t = 0 ∨ addr / flashOneSectorBytes * flashOneSectorBytes + flashOneSectorBytes =
        addr + t) := by
    refine ⟨_, rfl, ?_⟩
    unfold flashOneSectorBytes at *
    split_ifs <;> omega
  have hupdate := updateSector_eq haligned hfirst hin (show t ≤ src.length by omega)
  rw [hsplit] at hupdate
  have hlen := blit_length flash addr (src.take t) (by rw [List.length_take]; omega)
  have hrest := loop_writeRound_eq ⟨blit flash addr (src.take t),
    addr / flashOneSectorBytes * flashOneSectorBytes, src.drop t, len - t⟩ haligned
    (by simp only [List.length_drop]; omega) (hlen ▸ hchip) (by
      intro hmore a ha halen
      rw [hlen]
      dsimp only at ha halen hmore
      exact hinside a (by omega) (by omega))
  simp only [publicWriteDataToFlash, hmask, ← ht]
  change (updateSector (addr / flashOneSectorBytes * flashOneSectorBytes) _ _ _ _).bind _ = _
  rw [hupdate, Option.bind_some]
  have hjoin := blit_rest flash src hlast (by omega) (by omega)
  rw [Nat.add_sub_cancel' hle] at hjoin
  exact hrest.trans (congrArg some hjoin)

/-- On a chip whose cells have 32-bit addresses, an update returns with the source in its range
and every other byte as it was. -/
theorem range_overwritten {addr len : ℕ} (hchip : flash.length ≤ 2 ^ 32)
    (hsrc : len ≤ src.length) (hinside : SectorsInside flash addr len) :
    ∃ flash', publicWriteDataToFlash src addr len flash = some flash' ∧
      flash'.length = flash.length ∧ slice flash' addr len = src.take len ∧
      ∀ i, ¬ (addr ≤ i ∧ i < addr + len) → flash'[i]? = flash[i]? := by
  have hrange := hinside.range
  have htaken : (src.take len).length = len := List.length_take_of_le hsrc
  have hfits : addr + (src.take len).length ≤ flash.length := by omega
  refine ⟨blit flash addr (src.take len), publicWriteDataToFlash_eq hchip hsrc hinside,
    blit_length _ _ _ hfits, ?_, fun i hi => ?_⟩
  · have hback := slice_blit flash addr (src.take len) hfits
    rwa [htaken] at hback
  · rw [getElem?_blit _ _ _ hfits, htaken, if_neg hi]

/-- Three bytes at the end of a sector and the start of the next. -/
theorem range_overwritten_two_sectors :
    ∃ flash', publicWriteDataToFlash [1, 2, 3] 4095 3 (List.replicate 8192 7) = some flash' ∧
      flash'.length = (List.replicate 8192 (7 : UInt8)).length ∧
      slice flash' 4095 3 = [1, 2, 3] ∧
      ∀ i, ¬ (4095 ≤ i ∧ i < 4095 + 3) →
        flash'[i]? = (List.replicate 8192 (7 : UInt8))[i]? :=
  range_overwritten (by rw [List.length_replicate]; decide) le_rfl (by
    intro a ha halen
    rw [List.length_replicate]
    unfold flashOneSectorBytes
    omega)

end Range

end VehicleTerminal.Flash
