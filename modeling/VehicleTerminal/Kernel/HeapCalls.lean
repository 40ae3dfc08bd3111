import VehicleTerminal.Kernel.HeapOperations

/-! The functions of `mem.c` on a heap that is cut into blocks. -/
namespace VehicleTerminal.Kernel.Mem
open MachineInt Tiling

section Plug

variable {c : Config} {h : Heap} {bs pre post : List Block} {n : ℕ}

theorem merged_cons_used : Merged (⟨n, true⟩ :: bs) ↔ Merged bs := by
  cases bs with
  | nil => simp [Merged]
  | cons b bs => simp [Merged]

theorem merged_cons_free {m : ℕ} : Merged (⟨n, false⟩ :: bs) ↔ Merged (⟨m, false⟩ :: bs) := by
  cases bs with
  | nil => simp [Merged]
  | cons b bs => simp [Merged]

theorem plugForward_spec (ht : Tiled c h (pre ++ ⟨n, false⟩ :: post)) (hmerged : Merged post) :
    ∃ n' post', Rearranged c h (plugForward c h (total pre)) (pre ++ ⟨n, false⟩ :: post)
      (pre ++ ⟨n', false⟩ :: post') ∧ Merged (⟨n', false⟩ :: post') := by
  have hsize := ht.pos ⟨n, false⟩ (by simp)
  have hnext : (h.head (total pre)).next = total pre + n := by rw [ht.head]
  simp only [plugForward, hnext]
  cases post with
  | nil =>
    have hend := ht.covers
    rw [total_append, total_singleton] at hend
    rw [if_neg fun hcond => hcond.2.2 hend]
    exact ⟨n, [], ht.rearranged, List.isChain_singleton _⟩
  | cons d post =>
    have ht' := ht
    rw [List.append_cons] at ht'
    have hhead := ht'.head
    have hbehind := ht'.address_lt (located_middle _ _ _)
    have hpos := ht'.pos d (by simp)
    rw [total_append, total_singleton] at hhead hbehind
    obtain ⟨m, used⟩ := d
    dsimp only at hsize hbehind hpos hhead
    cases used with
    | true =>
      rw [if_neg fun hcond => by
        rw [hhead] at hcond
        exact Nat.one_ne_zero hcond.2.1]
      exact ⟨n, ⟨m, true⟩ :: post, ht.rearranged,
        List.isChain_cons_cons.mpr ⟨.inr rfl, hmerged⟩⟩
    | false =>
      rw [if_pos ⟨by omega, by rw [hhead]; rfl, by omega⟩]
      exact ⟨n + m, post, ht.rearranged_combine, merged_cons_free.mp hmerged⟩

theorem plugBackward_spec (ht : Tiled c h (pre ++ ⟨n, false⟩ :: post)) (hpre : Merged pre)
    (hpost : Merged (⟨n, false⟩ :: post)) : ∃ bs',
      Rearranged c h (plugBackward h (total pre)) (pre ++ ⟨n, false⟩ :: post) bs' ∧
      Merged bs' := by
  have hprev : (h.head (total pre)).prev = lastStart 0 0 pre := by rw [ht.head]
  simp only [plugBackward, hprev]
  rcases List.eq_nil_or_concat pre with rfl | ⟨front, ⟨m, used⟩, rfl⟩
  · rw [if_neg fun hcond => hcond.1 rfl]
    exact ⟨_, ht.rearranged, hpost⟩
  · rw [List.concat_eq_append] at ht hpre ⊢
    have hlast : lastStart 0 0 (front ++ [⟨m, used⟩]) = total front := by
      rw [lastStart_append, Nat.zero_add]
      rfl
    rw [← List.append_cons] at ht ⊢
    have hhead := ht.head
    have hpos := ht.pos ⟨m, used⟩ (by simp)
    obtain ⟨hfront, -, hseam⟩ := List.isChain_append.mp hpre
    rw [hlast, total_append, total_singleton]
    dsimp only at hpos hhead
    cases used with
    | true =>
      rw [if_neg fun hcond => by
        rw [hhead] at hcond
        exact Nat.one_ne_zero hcond.2]
      refine ⟨_, ht.rearranged, List.isChain_append.mpr ⟨hfront, merged_cons_used.mpr hpost, ?_⟩⟩
      intro b _ d hd
      cases hd
      exact .inr rfl
    | false =>
      rw [if_pos ⟨by omega, by rw [hhead]; rfl⟩]
      refine ⟨_, ht.rearranged_combine,
        List.isChain_append.mpr ⟨hfront, merged_cons_free.mp hpost, ?_⟩⟩
      intro b hb d hd
      cases hd
      exact hseam b hb ⟨m, false⟩ rfl

/-- A block that is no longer in use joins its free neighbours. -/
theorem plugHoles_spec (ht : Tiled c h (pre ++ ⟨n, false⟩ :: post)) (hpre : Merged pre)
    (hpost : Merged post) : ∃ h' bs', plugHoles c h (total pre) = some h' ∧
      Rearranged c h h' (pre ++ ⟨n, false⟩ :: post) bs' ∧ Merged bs' := by
  have hlt := ht.address_lt (located_middle _ _ _)
  have hpos := ht.pos ⟨n, false⟩ (by simp)
  have hused : (h.head (total pre)).used = 0 := by
    rw [ht.head]
    rfl
  obtain ⟨n', post', hforward, hmerged⟩ := plugForward_spec ht hpost
  obtain ⟨bs', hbackward, hmerged'⟩ := plugBackward_spec hforward.tiled hpre hmerged
  dsimp only at hlt hpos
  exact ⟨_, bs', if_pos ⟨by omega, hused⟩, hforward.trans hbackward, hmerged'⟩

end Plug

section Search

variable {c : Config} {h : Heap} {bs pre post : List Block} {b : Block} {a n size : ℕ}

theorem dataSize_eq (ht : Tiled c h (pre ++ b :: post)) :
    dataSize c h (total pre) = b.size - c.sizeofStructMem := by
  have hlt := ht.address_lt (located_middle _ _ _)
  have hsize := ht.sizes b (by simp)
  have hend := c.heapEnd_lt
  have hhead := ht.head
  rw [dataSize, hhead]
  dsimp only
  rw [← Nat.cast_add, uint32_natCast_sub (by omega) (by omega)]
  omega

/-- A free block from an address on, in the list of blocks. -/
theorem free_from (ht : Tiled c h (pre ++ b :: post)) (hfree : Free (pre ++ b :: post) a n)
    (hle : total pre ≤ a) : b = ⟨n, false⟩ ∧ a = total pre ∨ total pre + b.size ≤ a := by
  rcases located_apart ht.pos (located_middle pre post b) hfree with ⟨rfl, heq⟩ | hbehind | hfront
  · exact .inl ⟨heq, rfl⟩
  · exact .inr hbehind
  · have hpos := ht.pos _ (mem_of_located hfree)
    dsimp only at hfront hpos
    omega

/-- The loop of `rt_malloc` finds a free block that is large enough, if there is one whose data
would end in front of the last `SIZEOF_STRUCT_MEM` bytes and which is not exactly the rest. -/
theorem findFit_spec (hsize : size ≤ c.memSizeAligned) (ht : Tiled c h bs) {rounds : ℕ}
    (hbs : bs = pre ++ post) (hrounds : post.length < rounds) :
    ∃ r, findFit c h size rounds (total pre) = some r ∧
      (∀ a, r = some a → ∃ n, Free bs a n ∧ c.sizeofStructMem + size ≤ n ∧
        a + size < c.memSizeAligned) ∧
      (r = none → ∀ a n, Free bs a n → total pre ≤ a → c.sizeofStructMem + size ≤ n →
        c.memSizeAligned ≤ a + size) := by
  have hlt := c.heapEnd_lt
  have hmem : c.memSizeAligned ≤ c.heapEnd := Nat.le_add_right _ _
  have hbound : uint32 ((c.memSizeAligned : ℤ) - size) = c.memSizeAligned - size :=
    uint32_natCast_sub hsize (by omega)
  induction post generalizing pre rounds with
  | nil =>
    obtain ⟨rounds, rfl⟩ := Nat.exists_eq_succ_of_ne_zero (Nat.ne_zero_of_lt hrounds)
    have hend := ht.covers
    rw [hbs, List.append_nil] at hend
    rw [findFit, hbound, if_neg (by omega)]
    refine ⟨none, rfl, by simp, fun _ a n _ hle _ => ?_⟩
    omega
  | cons b post ih =>
    obtain ⟨rounds, rfl⟩ := Nat.exists_eq_succ_of_ne_zero (Nat.ne_zero_of_lt hrounds)
    subst hbs
    rw [findFit, hbound]
    by_cases hin : total pre < c.memSizeAligned - size
    · rw [if_pos hin, dataSize_eq ht]
      by_cases hfits : (h.head (total pre)).used = 0 ∧ size ≤ b.size - c.sizeofStructMem
      · rw [if_pos hfits]
        refine ⟨_, rfl, ?_, by simp⟩
        rintro a ⟨⟩
        have hb : b.used = false := by
          have hused : b.used.toNat = 0 := by
            have hzero := hfits.1
            rwa [ht.head] at hzero
          cases hb : b.used with
          | false => rfl
          | true =>
            rw [hb] at hused
            cases hused
        have hroom := ht.sizes b (by simp)
        refine ⟨b.size, ?_, by omega, by omega⟩
        rw [Free, ← hb]
        exact located_middle _ _ _
      · have hnext : (h.head (total pre)).next = total (pre ++ [b]) := by
          rw [ht.head, total_append, total_cons, total_nil, Nat.add_zero]
        rw [if_neg hfits, hnext]
        obtain ⟨r, hr, hfound, hnone⟩ := ih (List.append_cons pre b post)
          (by simpa using hrounds)
        refine ⟨r, hr, hfound, fun hrn a n hfree hle hn => ?_⟩
        rcases free_from ht hfree hle with ⟨rfl, rfl⟩ | hbehind
        · refine absurd ⟨?_, ?_⟩ hfits
          · rw [ht.head]
            rfl
          · dsimp only
            omega
        · refine hnone hrn a n hfree ?_ hn
          rw [total_append, total_cons, total_nil, Nat.add_zero]
          exact hbehind
    · rw [if_neg hin]
      refine ⟨none, rfl, by simp, fun _ a n _ hle _ => ?_⟩
      omega

/-- The next free block. -/
theorem nextFree_spec (ht : Tiled c h bs) {rounds : ℕ} (hbs : bs = pre ++ post)
    (hrounds : post.length < rounds) : ∃ l, nextFree c h rounds (total pre) = some l ∧
      (l = c.heapEnd ∨ ∃ n, Free bs l n) ∧ ∀ a n, Free bs a n → total pre ≤ a → l ≤ a := by
  induction post generalizing pre rounds with
  | nil =>
    obtain ⟨rounds, rfl⟩ := Nat.exists_eq_succ_of_ne_zero (Nat.ne_zero_of_lt hrounds)
    have hend := ht.covers
    rw [hbs, List.append_nil] at hend
    rw [nextFree, if_neg fun hcond => hcond.2 hend]
    exact ⟨_, rfl, .inl hend, fun a n _ hle => hle⟩
  | cons b post ih =>
    obtain ⟨rounds, rfl⟩ := Nat.exists_eq_succ_of_ne_zero (Nat.ne_zero_of_lt hrounds)
    subst hbs
    have hlt := ht.address_lt (located_middle _ _ _)
    have hpos := ht.pos b (by simp)
    have hhead := ht.head
    obtain ⟨m, used⟩ := b
    dsimp only at hlt hpos
    rw [nextFree, hhead]
    cases used with
    | false =>
      rw [if_neg fun hcond => hcond.1 rfl]
      exact ⟨_, rfl, .inr ⟨m, located_middle _ _ _⟩, fun a n _ hle => hle⟩
    | true =>
      rw [if_pos ⟨Nat.one_ne_zero, by omega⟩]
      have hnext : total pre + m = total (pre ++ [⟨m, true⟩]) := by
        rw [total_append, total_singleton]
      obtain ⟨l, hl, hpointed, hleast⟩ := ih (List.append_cons pre ⟨m, true⟩ post)
        (by simpa using hrounds)
      rw [← hnext] at hl hleast
      refine ⟨l, hl, hpointed, fun a n hfree hle => ?_⟩
      rcases free_from ht hfree hle with ⟨heq, -⟩ | hbehind
      · cases heq
      · exact hleast a n hfree hbehind

end Search

section Take

variable {c : Config} {h h' : Heap} {bs bs' pre post : List Block} {a n m size : ℕ}

/-- One more block in use. -/
structure Taken (c : Config) (h h' : Heap) (bs bs' : List Block) (a n : ℕ) : Prop where
  tiled : Tiled c h' bs'
  merged : Merged bs'
  used : ∀ b k, Used bs' b k ↔ Used bs b k ∨ b = a ∧ k = n
  fresh : ∃ k, Free bs a k
  free : ∀ b k, Free bs b k → b ≠ a → Free bs' b k
  free' : ∀ b k, Free bs' b k → Free bs b k ∨ a < b
  keeps : ∀ i, Payload c bs i → h'.ram i = h.ram i
  usedMem : h'.usedMem = usedTotal bs'
  lfree : h'.lfree = h.lfree

@[simp] theorem setMagic_lfree : (h.setMagic a).lfree = h.lfree := rfl

@[simp] theorem setUsed_lfree : (h.setUsed a n).lfree = h.lfree := rfl

@[simp] theorem addUsed_lfree : (h.addUsed n).lfree = h.lfree := rfl

@[simp] theorem setMagic_usedMem : (h.setMagic a).usedMem = h.usedMem := rfl

@[simp] theorem setUsed_usedMem : (h.setUsed a n).usedMem = h.usedMem := rfl

theorem Tiled.of_ram (ht : Tiled c h bs) (hram : h'.ram = h.ram) : Tiled c h' bs := by
  refine { ht with laid := ht.laid.congr fun p b _ => ?_ }
  simp only [Heap.head, hram]

theorem addUsed_usedMem (hlt : h.usedMem + size < 2 ^ 32) :
    (h.addUsed size).usedMem = h.usedMem + size := uint32_natCast_add hlt

/-- What is taken as a whole. -/
theorem taken_whole (hs : Sound c h (pre ++ ⟨n, false⟩ :: post)) :
    Taken c h ((((h.setUsed (total pre) 1).addUsed ((h.head (total pre)).next - total pre)).setMagic
      (total pre))) (pre ++ ⟨n, false⟩ :: post) (pre ++ ⟨n, true⟩ :: post) (total pre) n := by
  have ht := hs.toTiled
  have hlt := c.heapEnd_lt
  have hsize : (h.head (total pre)).next - total pre = n := by
    rw [ht.head]
    exact Nat.add_sub_cancel_left _ _
  obtain ⟨ht₁, hkeeps₁⟩ := ht.setUsed true
  have ht₂ : Tiled c ((h.setUsed (total pre) 1).addUsed n) (pre ++ ⟨n, true⟩ :: post) :=
    ht₁.of_ram rfl
  obtain ⟨ht₃, hkeeps₃⟩ := ht₂.setMagic
  have hused (b k : ℕ) : Used (pre ++ ⟨n, true⟩ :: post) b k ↔
      Used (pre ++ ⟨n, false⟩ :: post) b k ∨ b = total pre ∧ k = n := by
    simp only [Used, located_append, located_cons, List.mem_append, List.mem_cons, Prod.mk.injEq,
      Block.mk.injEq, Nat.zero_add]
    tauto
  have hkept (i : ℕ) (hi : Payload c (pre ++ ⟨n, false⟩ :: post) i) :
      Payload c (pre ++ ⟨n, true⟩ :: post) i := by
    obtain ⟨b, k, hb, hrange⟩ := hi
    exact ⟨b, k, (hused b k).mpr (.inl hb), hrange⟩
  have hle := usedTotal_le (pre ++ ⟨n, true⟩ :: post)
  rw [ht₁.covers, usedTotal_append, usedTotal_cons_used] at hle
  have hsum := hs.usedMem
  rw [usedTotal_append, usedTotal_cons_free] at hsum
  rw [hsize]
  refine ⟨ht₃, ?_, hused, ⟨n, located_middle _ _ _⟩, ?_, ?_, fun i hi => ?_, ?_, rfl⟩
  · obtain ⟨hpre, hpost, -⟩ := List.isChain_append.mp hs.merged
    refine List.isChain_append.mpr ⟨hpre, merged_cons_used.mpr hpost.tail, fun b _ d hd => ?_⟩
    cases hd
    exact .inr rfl
  · simp only [Free, located_append, located_cons, List.mem_append, List.mem_cons, Prod.mk.injEq,
      Block.mk.injEq, Nat.zero_add]
    tauto
  · simp only [Free, located_append, located_cons, List.mem_append, List.mem_cons, Prod.mk.injEq,
      Block.mk.injEq, Nat.zero_add]
    tauto
  · exact (hkeeps₃ i (hkept i hi) (hkept i hi)).trans (hkeeps₁ i hi (hkept i hi))
  · rw [usedTotal_append, usedTotal_cons_used]
    rw [setMagic_usedMem, addUsed_usedMem] <;> rw [setUsed_usedMem] <;> omega

section Cut

variable {b k : ℕ}

theorem used_cut : Used (pre ++ ⟨n, true⟩ :: ⟨m, false⟩ :: post) b k ↔
    Used (pre ++ ⟨n + m, false⟩ :: post) b k ∨ b = total pre ∧ k = n := by
  simp only [Used, located_append, located_cons, List.mem_append, List.mem_cons, Prod.mk.injEq,
    Block.mk.injEq, Nat.zero_add, Nat.add_assoc]
  tauto

theorem used_cut_free : Used (pre ++ ⟨n, false⟩ :: ⟨m, false⟩ :: post) b k ↔
    Used (pre ++ ⟨n + m, false⟩ :: post) b k := by
  simp [Used, Nat.add_assoc]

theorem free_cut (hfree : Free (pre ++ ⟨n + m, false⟩ :: post) b k) (hne : b ≠ total pre) :
    Free (pre ++ ⟨n, true⟩ :: ⟨m, false⟩ :: post) b k := by
  simp only [Free, located_append, located_cons, List.mem_append, List.mem_cons, Prod.mk.injEq,
    Block.mk.injEq, Nat.zero_add, Nat.add_assoc] at hfree ⊢
  tauto

theorem free_of_cut (hn : 0 < n) (hfree : Free (pre ++ ⟨n, true⟩ :: ⟨m, false⟩ :: post) b k) :
    Free (pre ++ ⟨n + m, false⟩ :: post) b k ∨ total pre < b := by
  simp only [Free, located_append, located_cons, List.mem_append, List.mem_cons, Prod.mk.injEq,
    Block.mk.injEq, Nat.zero_add, Nat.add_assoc] at hfree ⊢
  rcases hfree with hin | ⟨-, -, heq⟩ | ⟨rfl, -⟩ | hin
  · exact .inl (.inl hin)
  · cases heq
  · right
    omega
  · exact .inl (.inr (.inr hin))

end Cut

theorem splitBlock_fields (c : Config) (h : Heap) (mem size : ℕ) :
    (splitBlock c h mem size).lfree = h.lfree ∧
      (splitBlock c h mem size).usedMem = h.usedMem := by
  simp only [splitBlock]
  split_ifs <;> exact ⟨rfl, rfl⟩

/-- The first part of a block, the rest stays out of use. -/
theorem taken_part (hs : Sound c h (pre ++ ⟨c.sizeofStructMem + size + m, false⟩ :: post))
    (hsize : 0 < size) (hm : c.sizeofStructMem < m) (haligned : 2 ^ c.alignBits ∣ size) :
    Taken c h ((((splitBlock c h (total pre) size).setUsed (total pre) 1).addUsed
        (size + c.sizeofStructMem)).setMagic (total pre))
      (pre ++ ⟨c.sizeofStructMem + size + m, false⟩ :: post)
      (pre ++ ⟨c.sizeofStructMem + size, true⟩ :: ⟨m, false⟩ :: post) (total pre)
      (c.sizeofStructMem + size) := by
  have ht := hs.toTiled
  have hlt := c.heapEnd_lt
  obtain ⟨hlfree, husedMem⟩ := splitBlock_fields c h (total pre) size
  obtain ⟨ht₀, hkeeps₀⟩ := ht.split hsize hm haligned
  obtain ⟨ht₁, hkeeps₁⟩ := ht₀.setUsed true
  have ht₂ : Tiled c (((splitBlock c h (total pre) size).setUsed (total pre) 1).addUsed
      (size + c.sizeofStructMem))
      (pre ++ ⟨c.sizeofStructMem + size, true⟩ :: ⟨m, false⟩ :: post) := ht₁.of_ram rfl
  obtain ⟨ht₃, hkeeps₃⟩ := ht₂.setMagic
  have hkept (i : ℕ) (hi : Payload c (pre ++ ⟨c.sizeofStructMem + size + m, false⟩ :: post) i) :
      Payload c (pre ++ ⟨c.sizeofStructMem + size, true⟩ :: ⟨m, false⟩ :: post) i := by
    obtain ⟨b, k, hb, hrange⟩ := hi
    exact ⟨b, k, used_cut.mpr (.inl hb), hrange⟩
  have hle := usedTotal_le (pre ++ ⟨c.sizeofStructMem + size, true⟩ :: ⟨m, false⟩ :: post)
  rw [ht₁.covers, usedTotal_append, usedTotal_cons_used, usedTotal_cons_free] at hle
  have hsum := hs.usedMem
  rw [usedTotal_append, usedTotal_cons_free] at hsum
  refine ⟨ht₃, ?_, fun _ _ => used_cut, ⟨_, located_middle _ _ _⟩, fun _ _ => free_cut,
    fun _ _ => free_of_cut (by omega), fun i hi => ?_, ?_, ?_⟩
  · obtain ⟨hpre, hpost, -⟩ := List.isChain_append.mp hs.merged
    refine List.isChain_append.mpr
      ⟨hpre, merged_cons_used.mpr (merged_cons_free.mp hpost), fun b _ d hd => ?_⟩
    cases hd
    exact .inr rfl
  · have hi₁ := (payload_congr (fun _ _ => used_cut_free) i).mpr hi
    exact ((hkeeps₃ i (hkept i hi) (hkept i hi)).trans (hkeeps₁ i hi₁ (hkept i hi))).trans
      (hkeeps₀ i hi hi₁)
  · rw [usedTotal_append, usedTotal_cons_used, usedTotal_cons_free]
    rw [setMagic_usedMem, addUsed_usedMem] <;> rw [setUsed_usedMem] <;> omega
  · rw [setMagic_lfree, addUsed_lfree, setUsed_lfree, hlfree]

theorem Config.alignBits_lt (c : Config) : c.alignBits < 32 := by
  by_contra hge
  have hfits := c.fits
  have hfields := c.sizeof_fields
  have hpow : 2 ^ 32 ≤ 2 ^ c.alignBits := Nat.pow_le_pow_right (by decide) (not_lt.mp hge)
  have hzero : rtAlignDown c.alignBits c.endAddr = 0 := by
    rw [rtAlignDown, Nat.div_eq_of_lt (c.end_lt.trans_le hpow), Nat.zero_mul]
  omega

theorem le_rtAlign {alignBits : ℕ} (h : size + 2 ^ alignBits ≤ 2 ^ 32) :
    size ≤ rtAlign alignBits size := by
  have hpos : 0 < 2 ^ alignBits := Nat.two_pow_pos alignBits
  have hlt := Nat.div_add_mod (size + 2 ^ alignBits - 1) (2 ^ alignBits)
  have hmod := Nat.mod_lt (size + 2 ^ alignBits - 1) hpos
  rw [rtAlign, Nat.mod_eq_of_lt (by omega), Nat.mul_comm]
  omega

theorem Config.minSizeAligned_pos (c : Config) : 0 < c.minSizeAligned := by
  have hpow : 2 ^ c.alignBits ≤ 2 ^ 31 :=
    Nat.pow_le_pow_right (by decide) (Nat.le_of_lt_succ c.alignBits_lt)
  have hle : 12 ≤ c.minSizeAligned := le_rtAlign (by omega)
  omega

/-- What `rt_malloc` does to a free block that is large enough. -/
theorem takeBlock_spec (hs : Sound c h (pre ++ ⟨n, false⟩ :: post)) (hsize : 0 < size)
    (haligned : 2 ^ c.alignBits ∣ size) (hn : c.sizeofStructMem + size ≤ n) : ∃ bs' k,
      Taken c h (takeBlock c h (total pre) size) (pre ++ ⟨n, false⟩ :: post) bs' (total pre) k ∧
      c.sizeofStructMem + size ≤ k := by
  have hmin := c.minSizeAligned_pos
  rw [takeBlock, dataSize_eq hs.toTiled]
  by_cases hroom : size + c.sizeofStructMem + c.minSizeAligned ≤ n - c.sizeofStructMem
  · obtain ⟨m, rfl⟩ := Nat.exists_eq_add_of_le hn
    rw [if_pos hroom]
    exact ⟨_, _, taken_part hs hsize (by omega) haligned, le_rfl⟩
  · rw [if_neg hroom]
    exact ⟨_, n, taken_whole hs, hn⟩

end Take

section Malloc

variable {c : Config} {h h' : Heap} {bs bs' pre post : List Block} {a n size rounds : ℕ}

/-- What `rt_malloc` has done when it returns a pointer to the data of the block at `a`. -/
structure Allocated (c : Config) (h h' : Heap) (bs bs' : List Block) (a n : ℕ) : Prop where
  sound : Sound c h' bs'
  used : ∀ b k, Used bs' b k ↔ Used bs b k ∨ b = a ∧ k = n
  fresh : ∃ k, Free bs a k
  keeps : ∀ i, Payload c bs i → h'.ram i = h.ram i
  lowest : Lowest h bs → Lowest h' bs'

theorem Tiled.length_le (ht : Tiled c h bs) : bs.length ≤ c.heapEnd := by
  have hpos := ht.pos
  rw [← ht.covers]
  clear ht
  induction bs with
  | nil => exact Nat.zero_le _
  | cons b bs ih =>
    have hb := hpos b List.mem_cons_self
    have hrest := ih fun d hd => hpos d (List.mem_cons_of_mem _ hd)
    rw [List.length_cons, total_cons]
    omega

theorem Tiled.dvd_total (ht : Tiled c h (pre ++ post)) : 2 ^ c.alignBits ∣ total pre := by
  have haligned := ht.aligned
  clear ht
  induction pre with
  | nil => exact dvd_zero _
  | cons b pre ih =>
    rw [total_cons]
    exact (haligned b (by simp)).add (ih fun d hd => haligned d (List.mem_cons_of_mem _ hd))

theorem Sound.lfree_split (hs : Sound c h bs) :
    ∃ pre post, bs = pre ++ post ∧ h.lfree = total pre := by
  rcases hs.lfree with hend | ⟨n, hfree⟩
  · exact ⟨bs, [], (List.append_nil bs).symm, hend.trans hs.covers.symm⟩
  · obtain ⟨pre, post, heq, hlfree⟩ := mem_located.mp hfree
    exact ⟨pre, ⟨n, false⟩ :: post, heq, hlfree.trans (Nat.zero_add _)⟩

/-- A block was taken that is not the first free one. -/
theorem Taken.allocated (ht : Taken c h h' bs bs' a n) (hs : Sound c h bs) (hne : a ≠ h.lfree) :
    Allocated c h h' bs bs' a n where
  sound := by
    refine ⟨ht.tiled, ht.merged, ?_, ht.usedMem⟩
    rw [ht.lfree]
    rcases hs.lfree with hend | ⟨k, hfree⟩
    · exact .inl hend
    · exact .inr ⟨k, ht.free _ k hfree hne.symm⟩
  used := ht.used
  fresh := ht.fresh
  keeps := ht.keeps
  lowest := by
    intro hlowest b k hfree
    rw [ht.lfree]
    rcases ht.free' b k hfree with hfree | hlt
    · exact hlowest b k hfree
    · obtain ⟨k, hfree⟩ := ht.fresh
      exact (hlowest a k hfree).trans hlt.le

/-- The first free block was taken, and the next one is looked for. -/
theorem Taken.allocated_first (ht : Taken c h h' bs bs' a n) (heq : a = h.lfree)
    (hrounds : c.heapEnd < rounds) : ∃ l, nextFree c h' rounds a = some l ∧
      Allocated c h { h' with lfree := l } bs bs' a n := by
  obtain ⟨pre, post, hbs, hpre⟩ := mem_located.mp ((ht.used a n).mpr (.inr ⟨rfl, rfl⟩))
  rw [Nat.zero_add] at hpre
  have hlength : (⟨n, true⟩ :: post : List Block).length < rounds := by
    have hle := ht.tiled.length_le
    rw [hbs, List.length_append] at hle
    omega
  obtain ⟨l, hl, hpointed, hleast⟩ := nextFree_spec ht.tiled hbs hlength
  rw [← hpre] at hl hleast
  refine ⟨l, hl, ⟨ht.tiled.of_ram rfl, ht.merged, hpointed, ht.usedMem⟩, ht.used, ht.fresh,
    ht.keeps, fun hlowest b k hfree => hleast b k hfree ?_⟩
  rcases ht.free' b k hfree with hfree | hlt
  · rw [heq]
    exact hlowest b k hfree
  · exact hlt.le

theorem dvd_rtAlign (alignBits size : ℕ) : 2 ^ alignBits ∣ rtAlign alignBits size :=
  Nat.dvd_mul_left _ _

/-- The size that `rt_malloc` looks for. -/
def Config.mallocSize (c : Config) (size : ℕ) : ℕ := max (rtAlign c.alignBits size) c.minSizeAligned

theorem rtMalloc_none (h : Heap) (hnone : size = 0 ∨ c.memSizeAligned < rtAlign c.alignBits size) :
    rtMalloc c rounds h size = some (h, none) := by
  rw [rtMalloc, if_pos hnone]

/-- `rt_malloc` returns the data of a block that was free, or there is none that it would take. -/
theorem rtMalloc_spec (hs : Sound c h bs) (hrounds : c.heapEnd < rounds) (size : ℕ) :
    (∃ h' bs' a n, rtMalloc c rounds h size = some (h', some (a + c.sizeofStructMem)) ∧
      Allocated c h h' bs bs' a n ∧ c.sizeofStructMem + c.mallocSize size ≤ n ∧
        a + c.mallocSize size < c.memSizeAligned) ∨
    rtMalloc c rounds h size = some (h, none) ∧ (size = 0 ∨
      c.memSizeAligned < rtAlign c.alignBits size ∨
      ∀ b k, Free bs b k → h.lfree ≤ b → c.sizeofStructMem + c.mallocSize size ≤ k →
        c.memSizeAligned ≤ b + c.mallocSize size) := by
  by_cases hnone : size = 0 ∨ c.memSizeAligned < rtAlign c.alignBits size
  · right
    exact ⟨rtMalloc_none h hnone, hnone.imp_right .inl⟩
  rw [not_or, not_lt] at hnone
  have hsize : c.mallocSize size ≤ c.memSizeAligned := max_le hnone.2 c.minSize_le
  have hpos : 0 < c.mallocSize size := c.minSizeAligned_pos.trans_le (le_max_right _ _)
  have haligned : 2 ^ c.alignBits ∣ c.mallocSize size := by
    rcases max_choice (rtAlign c.alignBits size) c.minSizeAligned with hmax | hmax <;>
      rw [Config.mallocSize, hmax] <;> exact dvd_rtAlign _ _
  obtain ⟨pre, post, hbs, hlfree⟩ := hs.lfree_split
  have hlength : post.length < rounds := by
    have hle := hs.length_le
    rw [hbs, List.length_append] at hle
    omega
  obtain ⟨r, hr, hfound, hmissing⟩ := findFit_spec hsize hs.toTiled hbs hlength
  rw [← hlfree] at hr hmissing
  have hmalloc := rtMalloc.eq_def c rounds h size
  rw [if_neg (not_or.mpr ⟨hnone.1, not_lt.mpr hnone.2⟩)] at hmalloc
  have hfold : max (rtAlign c.alignBits size) c.minSizeAligned = c.mallocSize size := rfl
  simp only [hfold, hr, Option.bind_some] at hmalloc
  cases r with
  | none => exact .inr ⟨hmalloc, .inr (.inr (hmissing rfl))⟩
  | some a =>
    left
    obtain ⟨n, hfree, hn, hfar⟩ := hfound a rfl
    obtain ⟨front, rest, rfl, ha⟩ := mem_located.mp hfree
    rw [Nat.zero_add] at ha
    subst ha
    obtain ⟨bs', k, htaken, hk⟩ := takeBlock_spec hs hpos haligned hn
    have hlt := hs.address_lt (located_middle _ _ _)
    dsimp only at hlt
    have hassert : total front + c.sizeofStructMem + c.mallocSize size ≤ c.heapEnd ∧
        2 ^ c.alignBits ∣ total front := ⟨by omega, hs.dvd_total⟩
    simp only [htaken.lfree] at hmalloc
    by_cases hfirst : total front = h.lfree
    · obtain ⟨l, hl, hallocated⟩ := htaken.allocated_first hfirst hrounds
      rw [if_pos hfirst, hl, Option.bind_some, if_pos hassert] at hmalloc
      exact ⟨_, bs', _, k, hmalloc, hallocated, hk, hfar⟩
    · rw [if_neg hfirst, Option.bind_some, if_pos hassert, ← htaken.lfree] at hmalloc
      exact ⟨_, bs', _, k, hmalloc, htaken.allocated hs hfirst, hk, hfar⟩

end Malloc

section Free

variable {c : Config} {h h' : Heap} {bs bs' pre post : List Block} {a b k n m size : ℕ}

/-- What `rt_free` has done. -/
structure Freed (c : Config) (h h' : Heap) (bs bs' : List Block) (a : ℕ) : Prop where
  sound : Sound c h' bs'
  used : ∀ b k, Used bs' b k ↔ Used bs b k ∧ b ≠ a
  keeps : ∀ i, Payload c bs' i → h'.ram i = h.ram i
  lowest : Lowest h bs → Lowest h' bs'

/-- What `rt_realloc` has done when it has made a block smaller. -/
structure Shrunk (c : Config) (h h' : Heap) (bs bs' : List Block) (a n : ℕ) : Prop where
  sound : Sound c h' bs'
  used : ∀ b k, Used bs' b k ↔ Used bs b k ∧ b ≠ a ∨ b = a ∧ k = n
  keeps : ∀ i, Payload c bs' i → h'.ram i = h.ram i

/-- The blocks around one do not begin where it does. -/
theorem located_around (hn : 0 < n) (hpos : ∀ d ∈ pre, 0 < d.size) {d : Block}
    (hin : (b, d) ∈ located 0 pre ∨ (b, d) ∈ located (total pre + n) post) : b ≠ total pre := by
  rintro rfl
  rcases hin with hin | hin
  · have hle := (located_bounds hin).2
    have hd := hpos d (mem_of_located hin)
    omega
  · have hle := (located_bounds hin).1
    omega

theorem used_freed (hn : 0 < n) (hpos : ∀ d ∈ pre, 0 < d.size) :
    Used (pre ++ ⟨n, false⟩ :: post) b k ↔ Used (pre ++ ⟨n, true⟩ :: post) b k ∧ b ≠ total pre := by
  have hne (hin : (b, ⟨k, true⟩) ∈ located 0 pre ∨ (b, ⟨k, true⟩) ∈ located (total pre + n) post) :=
    located_around hn hpos hin
  simp only [Used, located_append, located_cons, List.mem_append, List.mem_cons, Prod.mk.injEq,
    Block.mk.injEq, Nat.zero_add]
  constructor
  · rintro (hin | ⟨-, -, heq⟩ | hin)
    · exact ⟨.inl hin, hne (.inl hin)⟩
    · cases heq
    · exact ⟨.inr (.inr hin), hne (.inr hin)⟩
  · rintro ⟨hin | ⟨heq, -⟩ | hin, hb⟩
    · exact .inl hin
    · exact absurd heq hb
    · exact .inr (.inr hin)

theorem used_shrunk (hn : 0 < n) (hpos : ∀ d ∈ pre, 0 < d.size) :
    Used (pre ++ ⟨n, true⟩ :: ⟨m, false⟩ :: post) b k ↔
      Used (pre ++ ⟨n + m, true⟩ :: post) b k ∧ b ≠ total pre ∨ b = total pre ∧ k = n := by
  have hne (hin : (b, ⟨k, true⟩) ∈ located 0 pre ∨
      (b, ⟨k, true⟩) ∈ located (total pre + (n + m)) post) : b ≠ total pre :=
    located_around (by omega) hpos hin
  simp only [Used, located_append, located_cons, List.mem_append, List.mem_cons, Prod.mk.injEq,
    Block.mk.injEq, Nat.zero_add, Nat.add_assoc]
  constructor
  · rintro (hin | ⟨rfl, rfl, -⟩ | ⟨-, -, heq⟩ | hin)
    · exact .inl ⟨.inl hin, hne (.inl hin)⟩
    · exact .inr ⟨rfl, rfl⟩
    · cases heq
    · exact .inl ⟨.inr (.inr hin), hne (.inr hin)⟩
  · rintro (⟨hin | ⟨heq, -⟩ | hin, hb⟩ | ⟨rfl, rfl⟩)
    · exact .inl hin
    · exact absurd heq hb
    · exact .inr (.inr (.inr hin))
    · exact .inr (.inl ⟨rfl, rfl, trivial⟩)

theorem free_freed (hfree : Free (pre ++ ⟨n, true⟩ :: post) b k) :
    Free (pre ++ ⟨n, false⟩ :: post) b k := by
  simp only [Free, located_append, located_cons, List.mem_append, List.mem_cons, Prod.mk.injEq,
    Block.mk.injEq, Nat.zero_add] at hfree ⊢
  tauto

theorem free_of_freed (hfree : Free (pre ++ ⟨n, false⟩ :: post) b k) :
    Free (pre ++ ⟨n, true⟩ :: post) b k ∨ b = total pre := by
  simp only [Free, located_append, located_cons, List.mem_append, List.mem_cons, Prod.mk.injEq,
    Block.mk.injEq, Nat.zero_add] at hfree ⊢
  tauto

theorem free_shrunk (hfree : Free (pre ++ ⟨n + m, true⟩ :: post) b k) :
    Free (pre ++ ⟨n, true⟩ :: ⟨m, false⟩ :: post) b k := by
  simp only [Free, located_append, located_cons, List.mem_append, List.mem_cons, Prod.mk.injEq,
    Block.mk.injEq, Nat.zero_add, Nat.add_assoc] at hfree ⊢
  tauto

theorem subUsed_usedMem (hle : size ≤ h.usedMem) (hlt : h.usedMem < 2 ^ 32) :
    (h.subUsed size).usedMem = h.usedMem - size := uint32_natCast_sub hle hlt

theorem Sound.usedMem_lt (hs : Sound c h bs) : h.usedMem < 2 ^ 32 := by
  have hle := usedTotal_le bs
  have hlt := c.heapEnd_lt
  rw [hs.covers, ← hs.usedMem] at hle
  omega

/-- A block that is given back. -/
theorem rtFree_spec (hs : Sound c h bs) (hused : Used bs a n) : ∃ h' bs',
    rtFree c h (a + c.sizeofStructMem) = some h' ∧ Freed c h h' bs bs' a := by
  obtain ⟨pre, post, rfl, ha⟩ := mem_located.mp hused
  rw [Nat.zero_add] at ha
  subst ha
  have ht := hs.toTiled
  have hsize := ht.sizes ⟨n, true⟩ (by simp)
  have hlt := ht.address_lt (located_middle _ _ _)
  have hpos : ∀ d ∈ pre, 0 < d.size := fun d hd => ht.pos d (by simp [hd])
  have hsum := hs.usedMem
  rw [usedTotal_append, usedTotal_cons_used] at hsum
  dsimp only at hsize hlt
  obtain ⟨ht₁, hkeeps₁⟩ := ht.setUsed false
  obtain ⟨ht₂, hkeeps₂⟩ := ht₁.setMagic
  set h₂ := (h.setUsed (total pre) 0).setMagic (total pre) with hh₂
  have hnext : (h₂.head (total pre)).next - total pre = n := by
    rw [hh₂, show (0 : ℕ) = false.toNat from rfl, ht₂.head]
    exact Nat.add_sub_cancel_left _ _
  set h₃ : Heap := { h₂ with lfree := if total pre < h.lfree then total pre else h.lfree } with hh₃
  have ht₃ : Tiled c (h₃.subUsed n) (pre ++ ⟨n, false⟩ :: post) := ht₂.of_ram rfl
  obtain ⟨hpre, hpost, -⟩ := List.isChain_append.mp hs.merged
  obtain ⟨h', bs', hplug, hre, hmerged⟩ := plugHoles_spec ht₃ hpre hpost.tail
  have husedMem : (h₃.subUsed n).usedMem = usedTotal (pre ++ ⟨n, false⟩ :: post) := by
    rw [subUsed_usedMem, usedTotal_append, usedTotal_cons_free]
    · change h.usedMem - n = _
      omega
    · change n ≤ h.usedMem
      omega
    · exact hs.usedMem_lt
  have hlfree : (h₃.subUsed n).lfree = if total pre < h.lfree then total pre else h.lfree := rfl
  have hpointed : Pointed c (h₃.subUsed n) (pre ++ ⟨n, false⟩ :: post) := by
    rw [Pointed, hlfree]
    split_ifs with hfirst
    · exact .inr ⟨n, located_middle _ _ _⟩
    · exact hs.lfree.imp_right (Exists.imp fun k hk => free_freed hk)
  have hfreed (b k : ℕ) : Used bs' b k ↔ Used (pre ++ ⟨n, true⟩ :: post) b k ∧ b ≠ total pre :=
    (hre.used b k).trans (used_freed (by omega) hpos)
  refine ⟨h', bs', ?_, ⟨hre.tiled, hmerged, hre.pointed hpointed, ?_⟩, hfreed, fun i hi => ?_, ?_⟩
  · have hmem : total pre + c.sizeofStructMem - c.sizeofStructMem = total pre :=
      Nat.add_sub_cancel _ _
    have haligned : 2 ^ c.alignBits ∣ total pre + c.sizeofStructMem :=
      ht.dvd_total.add c.sizeof_aligned
    have hhead := ht.head
    rw [rtFree, hmem, if_pos ⟨haligned, by omega, by rw [hhead]; exact Nat.one_ne_zero,
      by rw [hhead]⟩]
    change plugHoles c (h₃.subUsed ((h₂.head (total pre)).next - total pre)) (total pre) = some h'
    rw [hnext, hplug]
  · rw [hre.usedMem, hre.usedTotal, husedMem]
  · have hi₁ := (payload_congr hre.used i).mp hi
    have hi₀ : Payload c (pre ++ ⟨n, true⟩ :: post) i := by
      obtain ⟨b, k, hb, hrange⟩ := hi
      exact ⟨b, k, ((hfreed b k).mp hb).1, hrange⟩
    exact (hre.keeps i hi₁).trans ((hkeeps₂ i hi₁ hi₁).trans (hkeeps₁ i hi₀ hi₁))
  · intro hlowest
    refine hre.lowest fun b k hfree => ?_
    rw [hlfree]
    rcases free_of_freed hfree with hfree | rfl
    · have hle := hlowest b k hfree
      split_ifs <;> omega
    · split_ifs <;> omega

/-- A block that is cut off behind `size` bytes of data. -/
theorem shrink_spec (hs : Sound c h bs) (hused : Used bs a (c.sizeofStructMem + size + m))
    (hsize : 0 < size) (hm : c.sizeofStructMem < m) (haligned : 2 ^ c.alignBits ∣ size) :
    ∃ h' bs', plugHoles c (splitBlock c (h.subUsed m) a size) (a + c.sizeofStructMem + size) =
      some h' ∧ Shrunk c h h' bs bs' a (c.sizeofStructMem + size) := by
  obtain ⟨pre, post, rfl, ha⟩ := mem_located.mp hused
  rw [Nat.zero_add] at ha
  subst ha
  have ht := hs.toTiled
  have hpos : ∀ d ∈ pre, 0 < d.size := fun d hd => ht.pos d (by simp [hd])
  have hsum := hs.usedMem
  rw [usedTotal_append, usedTotal_cons_used] at hsum
  obtain ⟨hlfree, husedMem⟩ := splitBlock_fields c (h.subUsed m) (total pre) size
  have ht₀ : Tiled c (h.subUsed m) (pre ++ ⟨c.sizeofStructMem + size + m, true⟩ :: post) :=
    ht.of_ram rfl
  obtain ⟨ht₁, hkeeps₁⟩ := ht₀.split hsize hm haligned
  obtain ⟨hpre, hpost, hseam⟩ := List.isChain_append.mp hs.merged
  have hmerged : Merged (pre ++ [⟨c.sizeofStructMem + size, true⟩]) := by
    refine List.isChain_append.mpr ⟨hpre, List.isChain_singleton _, fun b _ d hd => ?_⟩
    cases hd
    exact .inr rfl
  have ht₂ := ht₁
  rw [List.append_cons] at ht₂
  obtain ⟨h', bs', hplug, hre, hmerged'⟩ := plugHoles_spec ht₂ hmerged hpost.tail
  rw [total_append, total_singleton, ← Nat.add_assoc] at hplug
  rw [← List.append_cons] at hre
  have hshrunk (b k : ℕ) : Used bs' b k ↔
      Used (pre ++ ⟨c.sizeofStructMem + size + m, true⟩ :: post) b k ∧ b ≠ total pre ∨
        b = total pre ∧ k = c.sizeofStructMem + size :=
    (hre.used b k).trans (used_shrunk (by omega) hpos)
  refine ⟨h', bs', hplug, ⟨hre.tiled, hmerged', hre.pointed ?_, ?_⟩, hshrunk, fun i hi => ?_⟩
  · rw [Pointed, hlfree]
    exact hs.lfree.imp_right (Exists.imp fun k hk => free_shrunk hk)
  · rw [hre.usedMem, hre.usedTotal, husedMem, usedTotal_append, usedTotal_cons_used,
      usedTotal_cons_free, subUsed_usedMem (by omega) hs.usedMem_lt]
    omega
  · have hi₁ := (payload_congr hre.used i).mp hi
    have hi₀ : Payload c (pre ++ ⟨c.sizeofStructMem + size + m, true⟩ :: post) i := by
      obtain ⟨b, k, hb, hlo, hhi⟩ := hi
      rcases (hshrunk b k).mp hb with ⟨hb, -⟩ | ⟨rfl, rfl⟩
      · exact ⟨b, k, hb, hlo, hhi⟩
      · exact ⟨_, _, located_middle _ _ _, hlo, by omega⟩
    exact (hre.keeps i hi₁).trans (hkeeps₁ i hi₀ hi₁)

/-- What the critical section of `rt_realloc` can have done to a block. -/
inductive Resized (c : Config) (h : Heap) (bs : List Block) (a n newsize : ℕ) : Resize → Prop
  | null (hlarge : c.memSizeAligned < newsize) : Resized c h bs a n newsize .null
  | freed {h' : Heap} {bs' : List Block} (hzero : newsize = 0) (hfreed : Freed c h h' bs bs' a) :
      Resized c h bs a n newsize (.freed h')
  | same (hsame : n = c.sizeofStructMem + newsize) : Resized c h bs a n newsize .same
  | shrunk {h' : Heap} {bs' : List Block} (hpos : newsize ≠ 0)
      (hless : c.sizeofStructMem + newsize < n)
      (hshrunk : Shrunk c h h' bs bs' a (c.sizeofStructMem + newsize)) :
      Resized c h bs a n newsize (.shrunk h')
  | grows (hpos : newsize ≠ 0) (hsize : newsize ≤ c.memSizeAligned) :
      Resized c h bs a n newsize (.grows (n - c.sizeofStructMem))

theorem rtRealloc_spec (hs : Sound c h bs) (hused : Used bs a n) {newsize : ℕ}
    (haligned : 2 ^ c.alignBits ∣ newsize) : ∃ r,
    rtRealloc c h (a + c.sizeofStructMem) newsize = some r ∧ Resized c h bs a n newsize r := by
  have ht := hs.toTiled
  have hlt := ht.address_lt hused
  have hsize := ht.sizes _ (mem_of_located hused)
  dsimp only at hlt hsize
  by_cases hlarge : c.memSizeAligned < newsize
  · exact ⟨.null, by rw [rtRealloc, if_pos hlarge], .null hlarge⟩
  by_cases hzero : newsize = 0
  · obtain ⟨h', bs', hfree, hfreed⟩ := rtFree_spec hs hused
    refine ⟨.freed h', ?_, .freed hzero hfreed⟩
    rw [rtRealloc, if_neg hlarge, if_pos hzero, hfree, Option.map_some]
  have hdata : dataSize c h a = n - c.sizeofStructMem := by
    obtain ⟨pre, post, rfl, ha⟩ := mem_located.mp hused
    rw [Nat.zero_add] at ha
    rw [ha, dataSize_eq ht]
  have hmem : a + c.sizeofStructMem - c.sizeofStructMem = a := Nat.add_sub_cancel _ _
  have hcall := rtRealloc.eq_def c h (a + c.sizeofStructMem) newsize
  rw [if_neg hlarge, if_neg hzero, if_neg (by omega)] at hcall
  simp only [hmem, hdata] at hcall
  by_cases hsame : n - c.sizeofStructMem = newsize
  · rw [if_pos hsame] at hcall
    exact ⟨.same, hcall, .same (by omega)⟩
  rw [if_neg hsame] at hcall
  by_cases hless : newsize + c.sizeofStructMem + 12 < n - c.sizeofStructMem
  · rw [if_pos hless] at hcall
    obtain ⟨m, hm⟩ := Nat.exists_eq_add_of_le (show c.sizeofStructMem + newsize ≤ n by omega)
    have hcut : n - c.sizeofStructMem - newsize = m := by omega
    subst hm
    obtain ⟨h', bs', hplug, hshrunk⟩ :=
      shrink_spec hs hused (Nat.pos_of_ne_zero hzero) (by omega) haligned
    rw [hcut, hplug, Option.map_some] at hcall
    exact ⟨.shrunk h', hcall, .shrunk hzero (by omega) hshrunk⟩
  · rw [if_neg hless] at hcall
    exact ⟨.grows _, hcall, .grows hzero (not_lt.mp hlarge)⟩

end Free

section Init

theorem Config.dvd_heapEnd (c : Config) : 2 ^ c.alignBits ∣ c.heapEnd := by
  have hdown : 2 ^ c.alignBits ∣ rtAlignDown c.alignBits c.endAddr := Nat.dvd_mul_left _ _
  have htwice : 2 ^ c.alignBits ∣ 2 * c.sizeofStructMem := c.sizeof_aligned.mul_left 2
  exact (Nat.dvd_sub (Nat.dvd_sub hdown (dvd_rtAlign _ _)) htwice).add c.sizeof_aligned

/-- One free block. -/
theorem rtSystemHeapInit_sound (c : Config) (ram : ℕ → UInt8) :
    Sound c (rtSystemHeapInit c ram) [⟨c.heapEnd, false⟩] ∧
      Lowest (rtSystemHeapInit c ram) [⟨c.heapEnd, false⟩] := by
  have hfields := c.sizeof_fields
  have hlt := c.heapEnd_lt
  have hmin := c.minSize_le
  have hpos := c.minSizeAligned_pos
  have hend : c.heapEnd = c.memSizeAligned + c.sizeofStructMem := rfl
  have hw := writes_create ((⟨ram, 0, 0, 0⟩ : Heap).create 0 0 c.heapEnd 0) c.heapEnd 1 c.heapEnd
    c.heapEnd
  have hhead : (rtSystemHeapInit c ram).head 0 = ⟨heapMagic, 0, c.heapEnd, 0⟩ := by
    rw [rtSystemHeapInit, hw.head (by
      rintro p rfl
      omega), head_create _ _ (by decide) (by omega) (by decide)]
  refine ⟨⟨⟨⟨?_, trivial⟩, by simp, ?_, ?_⟩, List.isChain_singleton _, ?_, rfl⟩, ?_⟩
  · rw [hhead, Nat.zero_add]
    rfl
  · simp only [List.mem_singleton, forall_eq]
    omega
  · simp only [List.mem_singleton, forall_eq]
    exact c.dvd_heapEnd
  · exact .inr ⟨c.heapEnd, List.mem_singleton.mpr rfl⟩
  · exact fun a n _ => Nat.zero_le a

end Init

end VehicleTerminal.Kernel.Mem
