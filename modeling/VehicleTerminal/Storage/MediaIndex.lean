import VehicleTerminal.Library.Bisection
import VehicleTerminal.Library.Iteration
import VehicleTerminal.Library.MachineInt

/-! The search of `mmc_sd.c` for a media ID in an index file. The slots of the file form a ring;
an index that runs over its end is searched at positions behind the last slot. -/
namespace VehicleTerminal.MediaIndex
open Bisection MachineInt PartialLoop

section Model

def maxFilesSum : ℕ := 99999999

structure Search where
  lo : ℕ
  hi : ℕ
  deriving Repr, DecidableEq

def Search.mid (s : Search) : ℕ := uint32 ((s.hi : ℤ) + s.lo) / 2

def Search.temp (s : Search) : ℕ := s.mid % maxFilesSum

/-- Where the round reads. -/
def Search.offset (s : Search) : ℕ := uint32 (512 + 4 * ((s.temp : ℤ) - 1))

/-- One round; `fRead` gives the `u32` that is read at an offset, if the reading succeeds. -/
def searchFileSD (fRead : ℕ → Option ℕ) (MeidaID : ℕ) (s : Search) :
    Option (Outcome Search ℕ) :=
  some <|
    if s.lo < s.hi then
      match fRead s.offset with
      | none => .returns 0
      | some ID =>
        if MeidaID < ID then .continues { s with hi := s.mid }
        else if MeidaID > ID then .continues { s with lo := s.mid + 1 }
        else .returns (s.mid % maxFilesSum)
    else .returns 0

/-- The little-endian `u32` at an offset. -/
def wordAt (file : ℕ → UInt8) (offset : ℕ) : ℕ :=
  (file offset).toNat + 256 * (file (offset + 1)).toNat + 65536 * (file (offset + 2)).toNat +
    16777216 * (file (offset + 3)).toNat

def startIndex (file : ℕ → UInt8) : ℕ := wordAt file 0

def endIndex (file : ℕ → UInt8) : ℕ := wordAt file 4

/-- `SearchJPEGWithID` turns the last index into a position behind the first one. -/
def lastPosition (file : ℕ → UInt8) : ℕ :=
  if startIndex file > endIndex file then uint32 ((endIndex file : ℤ) + maxFilesSum)
  else endIndex file

def slotOf (position : ℕ) : ℕ := (position - 1) % maxFilesSum + 1

def mediaID (file : ℕ → UInt8) (slot : ℕ) : ℕ := wordAt file (512 + 4 * (slot - 1))

end Model

/-- An index file with slots in the ring and IDs that increase along them. -/
structure IndexFile where
  file : ℕ → UInt8
  start_pos : 1 ≤ startIndex file
  start_le : startIndex file ≤ maxFilesSum
  end_pos : 1 ≤ endIndex file
  end_le : endIndex file ≤ maxFilesSum
  increasing : ∀ v w, startIndex file ≤ v → v < w → w ≤ lastPosition file →
    mediaID file (slotOf v) < mediaID file (slotOf w)

namespace IndexFile

variable (index : IndexFile)

/-- The ID of the entry at a position. -/
def idAt (position : ℕ) : ℕ := mediaID index.file (slotOf position)

def Covers (position : ℕ) : Prop :=
  startIndex index.file ≤ position ∧ position ≤ lastPosition index.file

/-- Ideal reading of the index file. -/
def fRead (offset : ℕ) : Option ℕ := some (wordAt index.file offset)

/-- The search as `SearchJPEGWithID` begins it. -/
def search : Search := ⟨startIndex index.file, lastPosition index.file⟩

end IndexFile

/-- `slot` holds the ID, or it is 0 and no entry holds the ID. -/
def Finds (index : IndexFile) (MeidaID slot : ℕ) : Prop :=
  (∃ v, index.Covers v ∧ index.idAt v = MeidaID ∧ slot = slotOf v) ∨
    (slot = 0 ∧ ∀ v, index.Covers v → index.idAt v ≠ MeidaID)

/-- The round reads one of the slots. -/
def ReadsSlot (s : Search) : Prop :=
  ∃ slot, 1 ≤ slot ∧ slot ≤ maxFilesSum ∧ s.offset = 512 + 4 * (slot - 1)

/-- The search ends with the slot of the ID and reads slots only. -/
def Locates (index : IndexFile) (MeidaID : ℕ) : Prop :=
  (∃ k slot, rounds (searchFileSD index.fRead MeidaID) k index.search = some (.returns slot) ∧
    Finds index MeidaID slot) ∧
  ∀ s, Reached (searchFileSD index.fRead MeidaID) index.search s → s.lo < s.hi → ReadsSlot s

/-- In an index that runs over the end of the ring, the ID lies outside the IDs around the block
of positions whose middle is the last slot of the ring. -/
def PassesRingEnd (index : IndexFile) (MeidaID : ℕ) : Prop :=
  endIndex index.file < startIndex index.file →
    let ringEnd := block maxFilesSum (startIndex index.file) (lastPosition index.file)
    (startIndex index.file < ringEnd.1 ∧ MeidaID ≤ index.idAt (ringEnd.1 - 1)) ∨
      (ringEnd.2 < lastPosition index.file ∧ index.idAt ringEnd.2 ≤ MeidaID)

section Rounds

variable {index : IndexFile} {MeidaID lo hi : ℕ}

theorem lastPosition_of_wrapped (h : endIndex index.file < startIndex index.file) :
    lastPosition index.file = endIndex index.file + maxFilesSum := by
  have hend := index.end_le
  unfold maxFilesSum at hend
  rw [lastPosition, if_pos h, uint32_natCast_add (by unfold maxFilesSum; omega)]

theorem lastPosition_lt (index : IndexFile) : lastPosition index.file ≤ 2 * maxFilesSum - 1 := by
  have hstart := index.start_le
  have hend := index.end_le
  by_cases h : endIndex index.file < startIndex index.file
  · rw [lastPosition_of_wrapped h]
    omega
  · rw [lastPosition, if_neg h]
    unfold maxFilesSum at hend ⊢
    omega

theorem mid_eq (hhi : hi ≤ 2 * maxFilesSum) (hlt : lo < hi) :
    Search.mid ⟨lo, hi⟩ = middle lo hi := by
  unfold maxFilesSum at hhi
  have hsum : uint32 ((hi : ℤ) + lo) = hi + lo := uint32_natCast_add (by omega)
  rw [Search.mid, hsum, middle]

/-- Away from the end of the ring a position stands for its own slot. -/
theorem slotOf_eq_mod {position : ℕ} (hpos : 1 ≤ position) (hlt : position < 2 * maxFilesSum)
    (hne : position ≠ maxFilesSum) : position % maxFilesSum = slotOf position := by
  unfold slotOf maxFilesSum at *
  omega

theorem slotOf_pos (position : ℕ) : 1 ≤ slotOf position := Nat.le_add_left 1 _

theorem slotOf_le (position : ℕ) : slotOf position ≤ maxFilesSum := by
  unfold slotOf maxFilesSum
  omega

theorem offset_eq {s : Search} {slot : ℕ} (h : s.temp = slot) (hpos : 1 ≤ slot)
    (hle : slot ≤ maxFilesSum) : s.offset = 512 + 4 * (slot - 1) := by
  unfold maxFilesSum at hle
  unfold Search.offset uint32
  omega

/-- A round away from the end of the ring is a round of the bisection. -/
theorem searchFileSD_eq (index : IndexFile) (MeidaID : ℕ) (hlo : 1 ≤ lo)
    (hhi : hi < 2 * maxFilesSum) (hlt : lo < hi) (hne : middle lo hi ≠ maxFilesSum) :
    searchFileSD index.fRead MeidaID ⟨lo, hi⟩ = some (
      if MeidaID < index.idAt (middle lo hi) then .continues ⟨lo, middle lo hi⟩
      else if MeidaID > index.idAt (middle lo hi) then .continues ⟨middle lo hi + 1, hi⟩
      else .returns (slotOf (middle lo hi))) ∧ ReadsSlot ⟨lo, hi⟩ := by
  have hlow := le_middle hlt
  have hhigh := middle_lt hlt
  have hslot : middle lo hi % maxFilesSum = slotOf (middle lo hi) :=
    slotOf_eq_mod (by omega) (by omega) hne
  have hoffset : Search.offset ⟨lo, hi⟩ = 512 + 4 * (slotOf (middle lo hi) - 1) := by
    apply offset_eq _ (slotOf_pos _) (slotOf_le _)
    rw [Search.temp, mid_eq hhi.le hlt, hslot]
  refine ⟨?_, slotOf (middle lo hi), slotOf_pos _, slotOf_le _, hoffset⟩
  simp only [searchFileSD, if_pos hlt, IndexFile.fRead, hoffset, mid_eq hhi.le hlt, hslot]
  rfl

/-- The last slot of the ring is looked for before the first one. -/
theorem offset_of_ringEnd (hhi : hi < 2 * maxFilesSum) (hlt : lo < hi)
    (heq : middle lo hi = maxFilesSum) : Search.offset ⟨lo, hi⟩ = 508 := by
  have htemp : Search.temp ⟨lo, hi⟩ = 0 := by
    rw [Search.temp, mid_eq hhi.le hlt, heq, Nat.mod_self]
  rw [Search.offset, htemp]
  rfl

theorem readsSlot_of_continues {s s' : Search}
    (h : Continues (searchFileSD index.fRead MeidaID) s s') (hs : ReadsSlot s)
    (hrest : ∀ t, Reached (searchFileSD index.fRead MeidaID) s' t → t.lo < t.hi → ReadsSlot t) :
    ∀ t, Reached (searchFileSD index.fRead MeidaID) s t → t.lo < t.hi → ReadsSlot t := by
  intro t ht hlt
  rcases (reached_iff_of_continues h).mp ht with rfl | ht
  · exact hs
  · exact hrest t ht hlt

/-- A search that does not look at the end of the ring is the bisection. -/
theorem search_follows (hlo : 1 ≤ lo) (hhi : hi < 2 * maxFilesSum)
    (hring : maxFilesSum ∉ probes index.idAt MeidaID lo hi) :
    (∃ k, rounds (searchFileSD index.fRead MeidaID) k ⟨lo, hi⟩ =
      some (.returns ((Bisection.search index.idAt MeidaID lo hi).elim 0 slotOf))) ∧
    ∀ s, Reached (searchFileSD index.fRead MeidaID) ⟨lo, hi⟩ s → s.lo < s.hi → ReadsSlot s := by
  induction lo, hi using bisection_induction (f := index.idAt) (x := MeidaID) with
  | empty lo hi hlt =>
    have hround : searchFileSD index.fRead MeidaID ⟨lo, hi⟩ = some (.returns 0) := by
      rw [searchFileSD, if_neg hlt]
    refine ⟨⟨1, ?_⟩, ?_⟩
    · rw [rounds_of_returns 0 hround, search_empty hlt, Option.elim_none]
    · intro s hs hslt
      have hsame := reached_eq_of_not_continues (fun s' hs' => by
        rw [Continues, hround] at hs'
        cases hs') hs
      subst hsame
      exact absurd hslt hlt
  | below lo hi hlt hx ih =>
    have hmid := middle_lt hlt
    rw [probes_below hlt hx, List.mem_cons, not_or] at hring
    obtain ⟨hround, hreads⟩ :=
      searchFileSD_eq index MeidaID hlo hhi hlt (Ne.symm hring.1)
    rw [if_pos hx] at hround
    obtain ⟨⟨k, hk⟩, hrest⟩ := ih hlo (hmid.trans hhi) hring.2
    refine ⟨⟨k + 1, ?_⟩, readsSlot_of_continues hround hreads hrest⟩
    rw [rounds_of_continues k hround, hk, search_below hlt hx]
  | above lo hi hlt hx ih =>
    have hmid := le_middle hlt
    rw [probes_above hlt hx, List.mem_cons, not_or] at hring
    obtain ⟨hround, hreads⟩ :=
      searchFileSD_eq index MeidaID hlo hhi hlt (Ne.symm hring.1)
    rw [if_neg hx.asymm, if_pos hx] at hround
    obtain ⟨⟨k, hk⟩, hrest⟩ := ih (by omega) hhi hring.2
    refine ⟨⟨k + 1, ?_⟩, readsSlot_of_continues hround hreads hrest⟩
    rw [rounds_of_continues k hround, hk, search_above hlt hx]
  | found lo hi hlt hx =>
    rw [probes_found hlt hx, List.mem_singleton] at hring
    obtain ⟨hround, hreads⟩ :=
      searchFileSD_eq index MeidaID hlo hhi hlt (Ne.symm hring)
    rw [if_neg hx.not_gt, if_neg hx.not_lt] at hround
    refine ⟨⟨1, ?_⟩, ?_⟩
    · rw [rounds_of_returns 0 hround, search_found hlt hx, Option.elim_some]
    · intro s hs _
      have hsame := reached_eq_of_not_continues (fun s' hs' => by
        rw [Continues, hround] at hs'
        cases hs') hs
      exact hsame ▸ hreads

/-- A search that looks at the end of the ring reads before the first slot. -/
theorem search_derails (hlo : 1 ≤ lo) (hhi : hi < 2 * maxFilesSum)
    (hring : maxFilesSum ∈ probes index.idAt MeidaID lo hi) :
    ∃ s, Reached (searchFileSD index.fRead MeidaID) ⟨lo, hi⟩ s ∧ s.lo < s.hi ∧
      s.offset = 508 := by
  induction lo, hi using bisection_induction (f := index.idAt) (x := MeidaID) with
  | empty lo hi hlt =>
    rw [probes_empty hlt] at hring
    cases hring
  | below lo hi hlt hx ih =>
    by_cases hend : middle lo hi = maxFilesSum
    · exact ⟨_, .refl, hlt, offset_of_ringEnd hhi hlt hend⟩
    · have hround :=
        (searchFileSD_eq index MeidaID hlo hhi hlt hend).1
      rw [if_pos hx] at hround
      rw [probes_below hlt hx, List.mem_cons] at hring
      obtain ⟨s, hs, hs'⟩ := ih hlo ((middle_lt hlt).trans hhi)
        (hring.resolve_left (Ne.symm hend))
      exact ⟨s, .head hround hs, hs'⟩
  | above lo hi hlt hx ih =>
    by_cases hend : middle lo hi = maxFilesSum
    · exact ⟨_, .refl, hlt, offset_of_ringEnd hhi hlt hend⟩
    · have hround :=
        (searchFileSD_eq index MeidaID hlo hhi hlt hend).1
      rw [if_neg hx.asymm, if_pos hx] at hround
      rw [probes_above hlt hx, List.mem_cons] at hring
      obtain ⟨s, hs, hs'⟩ := ih (Nat.le_add_left 1 _) hhi (hring.resolve_left (Ne.symm hend))
      exact ⟨s, .head hround hs, hs'⟩
  | found lo hi hlt hx =>
    rw [probes_found hlt hx, List.mem_singleton] at hring
    exact ⟨_, .refl, hlt, offset_of_ringEnd hhi hlt hring.symm⟩

end Rounds

section Exact

variable {index : IndexFile} {MeidaID : ℕ}

theorem start_le_last : startIndex index.file ≤ lastPosition index.file := by
  have hstart := index.start_le
  by_cases h : endIndex index.file < startIndex index.file
  · rw [lastPosition_of_wrapped h]
    omega
  · rw [lastPosition, if_neg h]
    omega

/-- The end of the ring is looked at by the searches with an ID inside the block around it. -/
theorem passesRingEnd_iff : PassesRingEnd index MeidaID ↔
    maxFilesSum ∉ probes index.idAt MeidaID (startIndex index.file) (lastPosition index.file) := by
  have hstart := index.start_le
  have hend := index.end_pos
  by_cases h : endIndex index.file < startIndex index.file
  · have hlast := lastPosition_of_wrapped h
    have hincreasing : ∀ v w, startIndex index.file ≤ v → v < w → w < lastPosition index.file →
        index.idAt v < index.idAt w := fun v w hv hvw hw => index.increasing v w hv hvw hw.le
    rw [mem_probes_iff hincreasing hstart (by omega)]
    simp only [PassesRingEnd, h, forall_const, not_and_or, not_forall, not_lt, exists_prop]
  · refine iff_of_true (fun hwrapped => absurd hwrapped h) fun hmem => ?_
    have hrange := mem_probes_range hmem
    rw [lastPosition, if_neg h] at hrange
    have hle := index.end_le
    omega

/-- The bisection answers for every entry but the last. -/
theorem finds_of_ne_last (hlast : MeidaID ≠ index.idAt (lastPosition index.file)) :
    Finds index MeidaID ((Bisection.search index.idAt MeidaID (startIndex index.file)
      (lastPosition index.file)).elim 0 slotOf) := by
  cases hsearch : Bisection.search index.idAt MeidaID (startIndex index.file)
      (lastPosition index.file) with
  | none =>
    refine .inr ⟨rfl, fun v hv => ?_⟩
    rcases hv.2.eq_or_lt with rfl | hlt
    · exact hlast.symm
    · exact search_complete
        (fun v w hv hvw hw => index.increasing v w hv hvw hw.le) hsearch v hv.1 hlt
  | some v =>
    obtain ⟨hlo, hhi, hid⟩ := search_sound hsearch
    exact .inl ⟨v, ⟨hlo, hhi.le⟩, hid, rfl⟩

/-- The last entry lies outside the interval that is searched. -/
theorem search_last : Bisection.search index.idAt (index.idAt (lastPosition index.file))
    (startIndex index.file) (lastPosition index.file) = none := by
  rw [Option.eq_none_iff_forall_ne_some]
  intro v hv
  obtain ⟨hlo, hhi, hid⟩ := search_sound hv
  exact (index.increasing v _ hlo hhi le_rfl).ne hid

/-- The search finds every entry except the last one, and it needs an ID that does not lead it
to the end of the ring. -/
theorem locates_iff (index : IndexFile) (MeidaID : ℕ) : Locates index MeidaID ↔
    MeidaID ≠ index.idAt (lastPosition index.file) ∧ PassesRingEnd index MeidaID := by
  have hlo := index.start_pos
  have hhi : lastPosition index.file < 2 * maxFilesSum := by
    have hlast := lastPosition_lt index
    unfold maxFilesSum at hlast ⊢
    omega
  rw [passesRingEnd_iff]
  constructor
  · rintro ⟨⟨k, slot, hk, hfinds⟩, hreads⟩
    have hring : maxFilesSum ∉ probes index.idAt MeidaID (startIndex index.file)
        (lastPosition index.file) := by
      intro hmem
      obtain ⟨s, hs, hlt, hoffset⟩ := search_derails hlo hhi hmem
      obtain ⟨slot, hpos, -, hslot⟩ := hreads s hs hlt
      omega
    refine ⟨?_, hring⟩
    rintro rfl
    obtain ⟨⟨j, hj⟩, -⟩ := search_follows hlo hhi hring
    have hzero : slot = 0 := by
      rw [search_last] at hj
      exact rounds_returns_unique hk hj
    rcases hfinds with ⟨v, -, -, hslot⟩ | ⟨-, habsent⟩
    · exact absurd (hslot.symm.trans hzero) (Nat.succ_ne_zero _)
    · exact habsent _ ⟨start_le_last, le_rfl⟩ rfl
  · rintro ⟨hlast, hring⟩
    obtain ⟨⟨k, hk⟩, hreads⟩ := search_follows hlo hhi hring
    exact ⟨⟨k, _, hk, finds_of_ne_last hlast⟩, hreads⟩

end Exact

/-- The first index is that of the last slot of the ring, the last one that of slot 3. -/
def wrappedFile (offset : ℕ) : UInt8 :=
  (([(0, 0xFF), (1, 0xE0), (2, 0xF5), (3, 0x05), (4, 3), (400000504, 1), (512, 2), (516, 3),
    (520, 4)] : List (ℕ × UInt8)).lookup offset).getD 0

theorem mediaID_wrappedFile :
    ∀ n < 4, mediaID wrappedFile (slotOf (maxFilesSum + n)) = n + 1 := by
  decide

/-- An index that runs over the end of the ring, with the IDs 1 to 4. -/
def wrapped : IndexFile where
  file := wrappedFile
  start_pos := by decide
  start_le := by decide
  end_pos := by decide
  end_le := by decide
  increasing := by
    have hstart : startIndex wrappedFile = maxFilesSum := by decide
    have hlast : lastPosition wrappedFile = maxFilesSum + 3 := by decide
    intro v w hv hvw hw
    rw [hstart] at hv
    obtain ⟨n, rfl⟩ := Nat.exists_eq_add_of_le hv
    obtain ⟨m, rfl⟩ := Nat.exists_eq_add_of_le (hv.trans hvw.le)
    rw [mediaID_wrappedFile n (by omega), mediaID_wrappedFile m (by omega)]
    omega

example : rounds (searchFileSD wrapped.fRead 3) 2 wrapped.search = some (.returns 2) := rfl

/-- The ID in the last slot of the ring is looked for before the first slot. -/
example : Continues (searchFileSD wrapped.fRead 1) wrapped.search ⟨maxFilesSum, maxFilesSum + 1⟩ ∧
    Search.offset ⟨maxFilesSum, maxFilesSum + 1⟩ = 508 := ⟨rfl, rfl⟩

/-- An index with one entry, the ID 0 in the first slot. -/
def singleEntry : IndexFile where
  file offset := if offset = 0 ∨ offset = 4 then 1 else 0
  start_pos := by decide
  start_le := by decide
  end_pos := by decide
  end_le := by decide
  increasing := by
    intro v w hv hvw hw
    have hlast : lastPosition (fun offset => if offset = 0 ∨ offset = 4 then 1 else 0) = 1 := rfl
    have hfirst : startIndex (fun offset => if offset = 0 ∨ offset = 4 then 1 else 0) = 1 := rfl
    omega

/-- The only entry of an index is not found. -/
theorem not_locates_single : ¬ ∀ index MeidaID, Locates index MeidaID := by
  intro h
  obtain ⟨⟨k, slot, hk, hfinds⟩, -⟩ := h singleEntry 0
  have hround : searchFileSD singleEntry.fRead 0 singleEntry.search = some (.returns 0) := rfl
  have hzero : slot = 0 := rounds_returns_unique hk (rounds_of_returns 0 hround)
  rcases hfinds with ⟨v, -, -, hslot⟩ | ⟨-, habsent⟩
  · exact absurd (hslot.symm.trans hzero) (Nat.succ_ne_zero _)
  · exact habsent 1 ⟨by decide, by decide⟩ rfl

end VehicleTerminal.MediaIndex
