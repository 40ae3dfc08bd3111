import VehicleTerminal.Kernel.HeapBlocks

/-! What the operations of the heap do to its blocks. -/
namespace VehicleTerminal.Kernel.Mem
open ByteStore MachineInt Tiling

/-- A block out of use, with its head. -/
def Free (bs : List Block) (a n : ℕ) : Prop := (a, ⟨n, false⟩) ∈ located 0 bs

/-- The heap between two operations. -/
structure Sound (c : Config) (h : Heap) (bs : List Block) : Prop extends Tiled c h bs where
  merged : Merged bs
  lfree : h.lfree = c.heapEnd ∨ ∃ n, Free bs h.lfree n
  usedMem : h.usedMem = usedTotal bs

section Heads

variable {c : Config} {h : Heap} {pre mid post : List Block} {n m k size : ℕ} {u v : Bool}

theorem Config.heapEnd_lt (c : Config) : c.heapEnd + c.sizeofStructMem < 2 ^ 32 := by
  have hfits := c.fits
  have hdown : rtAlignDown c.alignBits c.endAddr ≤ c.endAddr := Nat.div_mul_le_self _ _
  have hend := c.end_lt
  unfold Config.heapEnd Config.memSizeAligned
  omega

theorem Config.minSize_le (c : Config) : c.minSizeAligned ≤ c.memSizeAligned := by
  have hfits := c.fits
  unfold Config.memSizeAligned Config.minSizeAligned
  omega

theorem Tiled.address_lt {bs : List Block} (ht : Tiled c h bs) {a : ℕ} {b : Block}
    (hb : (a, b) ∈ located 0 bs) : a + b.size ≤ c.heapEnd := by
  have hbounds := (located_bounds hb).2
  rwa [ht.covers, Nat.zero_add] at hbounds

theorem located_middle (pre post : List Block) (b : Block) :
    (total pre, b) ∈ located 0 (pre ++ b :: post) :=
  mem_located.mpr ⟨pre, post, rfl, (Nat.zero_add _).symm⟩

theorem isHead_middle (pre post : List Block) (b : Block) :
    IsHead c (pre ++ b :: post) (total pre) := .inr ⟨b, located_middle pre post b⟩

theorem Tiled.isHead_behind (ht : Tiled c h (pre ++ mid ++ post)) :
    IsHead c (pre ++ mid ++ post) (total pre + total mid) := by
  rw [← total_append]
  cases post with
  | nil =>
    left
    have hsum := ht.covers
    rwa [List.append_nil] at hsum
  | cons b post => exact isHead_middle (pre ++ mid) post b

/-- The first block behind some others links back to the last of them. -/
theorem Tiled.link (ht : Tiled c h (pre ++ mid ++ post)) (hne : post ≠ []) :
    (h.head (total pre + total mid)).prev = lastStart (lastStart 0 0 pre) (total pre) mid := by
  have hnext := ht.laid
  rw [laid_append, lastStart_append, Nat.zero_add, Nat.zero_add, total_append] at hnext
  cases post with
  | nil => exact absurd rfl hne
  | cons d post => rw [hnext.2.1]

theorem Tiled.behind_lt (ht : Tiled c h (pre ++ mid ++ post)) (hne : post ≠ []) :
    total pre + total mid < c.heapEnd := by
  cases post with
  | nil => exact absurd rfl hne
  | cons d post =>
    have hsum := ht.covers
    have hd := ht.sizes d (by simp)
    simp only [total_append, total_cons] at hsum
    omega

/-- A mark in the head of one block. -/
theorem Tiled.setUsed (ht : Tiled c h (pre ++ ⟨n, u⟩ :: post)) (v : Bool) :
    Tiled c (h.setUsed (total pre) v.toNat) (pre ++ ⟨n, v⟩ :: post) ∧
      Keeps c h (h.setUsed (total pre) v.toNat) (pre ++ ⟨n, u⟩ :: post)
        (pre ++ ⟨n, v⟩ :: post) := by
  have hw := writes_setUsed h (total pre) v.toNat
  have hhead := ht.head
  have hfields := c.sizeof_fields
  have hsize := ht.sizes ⟨n, u⟩ (by simp)
  have haligned := ht.aligned ⟨n, u⟩ (by simp)
  have hv : v.toNat < 2 ^ 16 := by cases v <;> decide
  dsimp only at hsize
  have ht' : Tiled c (h.setUsed (total pre) v.toNat) (pre ++ [⟨n, v⟩] ++ post) := by
    rw [List.append_cons] at ht
    refine ht.replace hw ?_ ⟨?_, trivial⟩ rfl ?_ fun hne => ?_
    · rintro p rfl
      left
      rw [total_singleton]
      omega
    · rw [head_setUsed _ _ hv, hhead]
    · simp only [List.mem_singleton, forall_eq]
      exact ⟨hsize, haligned⟩
    · have hapart : ∀ p ∈ ({total pre} : Set ℕ),
          total pre + total [⟨n, u⟩] + 12 ≤ p ∨ p + 12 ≤ total pre + total [⟨n, u⟩] := by
        rintro p rfl
        rw [total_singleton]
        omega
      have hlink := ht.link hne
      rw [hw.head hapart]
      exact HeapMem.ext rfl rfl rfl hlink
  rw [List.append_assoc, List.singleton_append] at ht'
  exact ⟨ht', ht.keeps ht' hw fun p hp => .inl (hp ▸ isHead_middle _ _ _)⟩

/-- The magic number is written where it is. -/
theorem Tiled.setMagic (ht : Tiled c h (pre ++ ⟨n, u⟩ :: post)) :
    Tiled c (h.setMagic (total pre)) (pre ++ ⟨n, u⟩ :: post) ∧
      Keeps c h (h.setMagic (total pre)) (pre ++ ⟨n, u⟩ :: post) (pre ++ ⟨n, u⟩ :: post) := by
  have hw := writes_setMagic h (total pre)
  have hfields := c.sizeof_fields
  have ht' : Tiled c (h.setMagic (total pre)) (pre ++ ⟨n, u⟩ :: post) := by
    refine { ht with laid := ht.laid.congr fun p b hb => ?_ }
    rcases located_apart ht.pos hb (located_middle pre post ⟨n, u⟩) with ⟨rfl, -⟩ | hle | hle
    · rw [head_setMagic, ht.head]
    · have hsize := ht.sizes b (mem_of_located hb)
      exact hw.head (by
        rintro q rfl
        omega)
    · have hsize := ht.sizes ⟨n, u⟩ (by simp)
      dsimp only at hle hsize
      exact hw.head (by
        rintro q rfl
        omega)
  exact ⟨ht', ht.keeps ht' hw fun p hp => .inl (hp ▸ isHead_middle _ _ _)⟩

/-- The heads that a split leaves. -/
theorem splitBlock_heads {a q : ℕ} (size : ℕ) (hnext : (h.head a).next = q)
    (hq : a + c.sizeofStructMem + size + 12 ≤ q) (hend : q ≤ c.heapEnd) :
    Writes {a, a + c.sizeofStructMem + size, q} h (splitBlock c h a size) ∧
      (splitBlock c h a size).head a =
        { h.head a with next := a + c.sizeofStructMem + size } ∧
      (splitBlock c h a size).head (a + c.sizeofStructMem + size) = ⟨heapMagic, 0, q, a⟩ ∧
      (q < c.heapEnd → (splitBlock c h a size).head q =
        { h.head q with prev := a + c.sizeofStructMem + size }) := by
  have hfields := c.sizeof_fields
  have hlt := c.heapEnd_lt
  set b := a + c.sizeofStructMem + size with hb
  have hw₁ := writes_create h b 0 q a
  have hw₂ := writes_setNext (h.create b 0 q a) a b
  have hb₁ : (h.create b 0 q a).head b = ⟨heapMagic, 0, q, a⟩ :=
    head_create h b (by decide) (by omega) (by omega)
  have hb₂ : ((h.create b 0 q a).setNext a b).head b = ⟨heapMagic, 0, q, a⟩ := by
    rw [hw₂.head (by
      rintro p rfl
      omega), hb₁]
  have ha₂ : ((h.create b 0 q a).setNext a b).head a = { h.head a with next := b } := by
    rw [head_setNext _ _ (by omega), hw₁.head (by
      rintro p rfl
      omega)]
  have hq₂ : ((h.create b 0 q a).setNext a b).head q = h.head q := by
    rw [hw₂.head (by
      rintro p rfl
      omega), hw₁.head (by
      rintro p rfl
      omega)]
  simp only [splitBlock, hnext, ← hb, hb₂]
  by_cases hlast : q = c.heapEnd
  · rw [if_neg (not_not.mpr hlast)]
    refine ⟨(hw₁.trans hw₂).mono ?_, ha₂, hb₂, fun hlt => absurd hlast hlt.ne⟩
    rintro p (rfl | rfl) <;> simp
  · rw [if_pos hlast]
    have hw₃ := writes_setPrev ((h.create b 0 q a).setNext a b) q b
    refine ⟨((hw₁.trans hw₂).trans hw₃).mono ?_, ?_, ?_, fun _ => ?_⟩
    · rintro p ((rfl | rfl) | rfl) <;> simp
    · rw [hw₃.head (by
        rintro p rfl
        omega), ha₂]
    · rw [hw₃.head (by
        rintro p rfl
        omega), hb₂]
    · rw [head_setPrev _ _ (by omega), hq₂]

/-- A block is cut in two, and the second one is out of use. -/
theorem Tiled.split (ht : Tiled c h (pre ++ ⟨c.sizeofStructMem + size + m, u⟩ :: post))
    (hsize : 0 < size) (hm : c.sizeofStructMem < m) (haligned : 2 ^ c.alignBits ∣ size) :
    Tiled c (splitBlock c h (total pre) size)
        (pre ++ ⟨c.sizeofStructMem + size, u⟩ :: ⟨m, false⟩ :: post) ∧
      Keeps c h (splitBlock c h (total pre) size)
        (pre ++ ⟨c.sizeofStructMem + size + m, u⟩ :: post)
        (pre ++ ⟨c.sizeofStructMem + size, u⟩ :: ⟨m, false⟩ :: post) := by
  have hfields := c.sizeof_fields
  have hhead := ht.head
  have hend := ht.address_lt (located_middle pre post _)
  dsimp only at hhead hend
  have hnext : (h.head (total pre)).next = total pre + (c.sizeofStructMem + size + m) := by
    rw [hhead]
  obtain ⟨hw, ha, hb, hq⟩ := splitBlock_heads size hnext (by omega) hend
  have hfirst : 2 ^ c.alignBits ∣ c.sizeofStructMem + size := c.sizeof_aligned.add haligned
  have hwhole := ht.aligned ⟨c.sizeofStructMem + size + m, u⟩ (by simp)
  have hrest : 2 ^ c.alignBits ∣ m := (Nat.dvd_add_right hfirst).mp hwhole
  have ht₀ := ht
  rw [List.append_cons] at ht
  have ht' : Tiled c (splitBlock c h (total pre) size)
      (pre ++ [⟨c.sizeofStructMem + size, u⟩, ⟨m, false⟩] ++ post) := by
    refine ht.replace hw ?_ ⟨?_, ?_, trivial⟩ ?_ ?_ fun hne => ?_
    · rintro p (rfl | rfl | rfl)
      · left
        rw [total_singleton]
        omega
      · left
        rw [total_singleton]
        omega
      · right
        rw [total_singleton]
    · rw [ha, hhead]
      simp only [HeapMem.mk.injEq, true_and, and_true]
      omega
    · dsimp only
      rw [← Nat.add_assoc, hb]
      simp only [HeapMem.mk.injEq, true_and, and_true]
      exact ⟨rfl, by omega⟩
    · simp only [total_cons, total_nil]
      omega
    · simp only [List.mem_cons, List.not_mem_nil, or_false, forall_eq_or_imp, forall_eq]
      exact ⟨⟨by omega, hfirst⟩, hm, hrest⟩
    · have hbehind := ht.behind_lt hne
      rw [total_singleton] at hbehind ⊢
      rw [hq hbehind]
      exact HeapMem.ext rfl rfl rfl (Nat.add_assoc _ _ _)
  have hbehind := ht.isHead_behind
  rw [total_singleton] at hbehind
  have ht'' : Tiled c (splitBlock c h (total pre) size)
      (pre ++ ⟨c.sizeofStructMem + size, u⟩ :: ⟨m, false⟩ :: post) := by
    rwa [List.append_assoc] at ht'
  refine ⟨ht'', ht₀.keeps ht'' hw ?_⟩
  rintro p (rfl | rfl | rfl)
  · exact .inl (isHead_middle _ _ _)
  · right
    have hsecond := isHead_middle (c := c) (pre ++ [⟨c.sizeofStructMem + size, u⟩]) post ⟨m, false⟩
    rw [total_append, total_singleton, ← Nat.add_assoc, List.append_assoc] at hsecond
    exact hsecond
  · left
    rw [List.append_cons]
    exact hbehind

theorem combine_heads {p q a : ℕ} (hnext : (h.head q).next = a) (hpq : p + 12 ≤ q)
    (hqa : q + 12 ≤ a) (ha : a < 2 ^ 32) :
    Writes {p, a} h (h.combine p q) ∧ (h.combine p q).head p = { h.head p with next := a } ∧
      (h.combine p q).head a = { h.head a with prev := p } := by
  set h₁ : Heap := { h with lfree := if h.lfree = q then p else h.lfree }
  have hw₁ := writes_setNext h₁ p a
  have hq₁ : (h₁.setNext p a).head q = h.head q := hw₁.head (by
    rintro b rfl
    omega)
  have hw₂ := writes_setPrev (h₁.setNext p a) a p
  have heq : h.combine p q = (h₁.setNext p a).setPrev a p := by
    have hsecond : ((h₁.setNext p a).head q).next = a := by rw [hq₁, hnext]
    change (h₁.setNext p (h.head q).next).setPrev
      ((h₁.setNext p (h.head q).next).head q).next p = _
    rw [hnext, hsecond]
  rw [heq]
  refine ⟨(hw₁.trans hw₂ : Writes ({p} ∪ {a}) h₁ _), ?_, ?_⟩
  · rw [hw₂.head (by
      rintro b rfl
      omega), head_setNext _ _ ha]
    rfl
  · rw [head_setPrev _ _ (by omega), hw₁.head (by
      rintro b rfl
      omega)]
    rfl

/-- Two neighbours become one block. -/
theorem Tiled.combine (ht : Tiled c h (pre ++ ⟨n, u⟩ :: ⟨m, v⟩ :: post)) :
    Tiled c (h.combine (total pre) (total pre + n)) (pre ++ ⟨n + m, u⟩ :: post) ∧
      Keeps c h (h.combine (total pre) (total pre + n)) (pre ++ ⟨n, u⟩ :: ⟨m, v⟩ :: post)
        (pre ++ ⟨n + m, u⟩ :: post) := by
  have hfields := c.sizeof_fields
  have hlt := c.heapEnd_lt
  have hn := ht.sizes ⟨n, u⟩ (by simp)
  have hm := ht.sizes ⟨m, v⟩ (by simp)
  have hdvdn := ht.aligned ⟨n, u⟩ (by simp)
  have hdvdm := ht.aligned ⟨m, v⟩ (by simp)
  have hfirst := ht.head
  have ht₀ := ht
  rw [List.append_cons] at ht
  have hsecond := ht.head
  have hend := ht.address_lt (located_middle (pre ++ [⟨n, u⟩]) post ⟨m, v⟩)
  rw [total_append, total_singleton] at hsecond hend
  dsimp only at hn hm hend hdvdn hdvdm
  have hnext : (h.head (total pre + n)).next = total pre + n + m := by rw [hsecond]
  have hfar : total pre + 12 ≤ total pre + n := by omega
  obtain ⟨hw, hp, ha⟩ := combine_heads hnext hfar (by omega) (by omega)
  rw [← List.append_cons, show pre ++ ⟨n, u⟩ :: ⟨m, v⟩ :: post =
    pre ++ [⟨n, u⟩, ⟨m, v⟩] ++ post by rw [List.append_assoc]; rfl] at ht
  have htotal : total [⟨n, u⟩, ⟨m, v⟩] = n + m := by simp
  have ht' : Tiled c (h.combine (total pre) (total pre + n)) (pre ++ [⟨n + m, u⟩] ++ post) := by
    refine ht.replace hw ?_ ⟨?_, trivial⟩ ?_ ?_ fun hne => ?_
    · rw [htotal]
      rintro b (rfl | rfl)
      · left
        omega
      · right
        exact Nat.add_assoc _ _ _
    · rw [hp, hfirst]
      exact HeapMem.ext rfl rfl (Nat.add_assoc _ _ _) rfl
    · rw [total_singleton, htotal]
    · simp only [List.mem_singleton, forall_eq]
      exact ⟨by omega, hdvdn.add hdvdm⟩
    · rw [htotal, ← Nat.add_assoc, ha]
      rfl
  have ht'' : Tiled c (h.combine (total pre) (total pre + n)) (pre ++ ⟨n + m, u⟩ :: post) := by
    rwa [List.append_assoc] at ht'
  have hbehind := ht.isHead_behind
  rw [htotal, ← Nat.add_assoc, List.append_assoc] at hbehind
  refine ⟨ht'', ht₀.keeps ht'' hw ?_⟩
  rintro b (rfl | rfl)
  · exact .inl (isHead_middle _ _ _)
  · exact .inl hbehind

end Heads

/-- The free block that is looked at first, if any. -/
def Pointed (c : Config) (h : Heap) (bs : List Block) : Prop :=
  h.lfree = c.heapEnd ∨ ∃ n, Free bs h.lfree n

/-- No free block lies below the one that is looked at first. -/
def Lowest (h : Heap) (bs : List Block) : Prop := ∀ a n, Free bs a n → h.lfree ≤ a

/-- A change of the free blocks alone. -/
structure Rearranged (c : Config) (h h' : Heap) (bs bs' : List Block) : Prop where
  tiled : Tiled c h' bs'
  used : ∀ a n, Used bs' a n ↔ Used bs a n
  keeps : ∀ i, Payload c bs i → h'.ram i = h.ram i
  usedTotal : usedTotal bs' = usedTotal bs
  usedMem : h'.usedMem = h.usedMem
  pointed : Pointed c h bs → Pointed c h' bs'
  lowest : Lowest h bs → Lowest h' bs'

section Rearrange

variable {c : Config} {h h' h'' : Heap} {bs bs' bs'' pre post : List Block} {n m : ℕ}

theorem payload_congr (hused : ∀ a n, Used bs' a n ↔ Used bs a n) (i : ℕ) :
    Payload c bs' i ↔ Payload c bs i := by
  simp only [Payload, hused]

theorem Tiled.rearranged (ht : Tiled c h bs) : Rearranged c h h bs bs :=
  ⟨ht, fun _ _ => .rfl, fun _ _ => rfl, rfl, rfl, id, id⟩

theorem Rearranged.trans (h₁ : Rearranged c h h' bs bs') (h₂ : Rearranged c h' h'' bs' bs'') :
    Rearranged c h h'' bs bs'' where
  tiled := h₂.tiled
  used a n := (h₂.used a n).trans (h₁.used a n)
  keeps i hi := (h₂.keeps i ((payload_congr h₁.used i).mpr hi)).trans (h₁.keeps i hi)
  usedTotal := h₂.usedTotal.trans h₁.usedTotal
  usedMem := h₂.usedMem.trans h₁.usedMem
  pointed hp := h₂.pointed (h₁.pointed hp)
  lowest hl := h₂.lowest (h₁.lowest hl)

/-- Two free neighbours. -/
theorem Tiled.rearranged_combine (ht : Tiled c h (pre ++ ⟨n, false⟩ :: ⟨m, false⟩ :: post)) :
    Rearranged c h (h.combine (total pre) (total pre + n))
      (pre ++ ⟨n, false⟩ :: ⟨m, false⟩ :: post) (pre ++ ⟨n + m, false⟩ :: post) := by
  obtain ⟨ht', hkeeps⟩ := ht.combine
  have hused (a k : ℕ) : Used (pre ++ ⟨n + m, false⟩ :: post) a k ↔
      Used (pre ++ ⟨n, false⟩ :: ⟨m, false⟩ :: post) a k := by
    simp [Used, Nat.add_assoc]
  have hfree (a k : ℕ) (hne : a ≠ total pre + n) :
      Free (pre ++ ⟨n, false⟩ :: ⟨m, false⟩ :: post) a k →
        ∃ k', Free (pre ++ ⟨n + m, false⟩ :: post) a k' := by
    simp only [Free, located_append, located_cons, List.mem_append, List.mem_cons, Prod.mk.injEq,
      Block.mk.injEq, Nat.zero_add, Nat.add_assoc]
    rintro (hin | ⟨rfl, -⟩ | ⟨rfl, -⟩ | hin)
    · exact ⟨k, .inl hin⟩
    · exact ⟨n + m, .inr (.inl ⟨rfl, rfl, trivial⟩)⟩
    · exact absurd rfl hne
    · exact ⟨k, .inr (.inr hin)⟩
  have hfree' (a k : ℕ) : Free (pre ++ ⟨n + m, false⟩ :: post) a k →
      ∃ k', Free (pre ++ ⟨n, false⟩ :: ⟨m, false⟩ :: post) a k' := by
    simp only [Free, located_append, located_cons, List.mem_append, List.mem_cons, Prod.mk.injEq,
      Block.mk.injEq, Nat.zero_add, Nat.add_assoc]
    rintro (hin | ⟨rfl, -⟩ | hin)
    · exact ⟨k, .inl hin⟩
    · exact ⟨n, .inr (.inl ⟨rfl, rfl, trivial⟩)⟩
    · exact ⟨k, .inr (.inr (.inr hin))⟩
  have hpos := ht.sizes ⟨n, false⟩ (by simp)
  have hlfree : (h.combine (total pre) (total pre + n)).lfree =
      if h.lfree = total pre + n then total pre else h.lfree := rfl
  refine ⟨ht', hused, fun i hi => hkeeps i hi ((payload_congr hused i).mpr hi), by simp, rfl,
    ?_, ?_⟩
  · rintro (hend | ⟨k, hk⟩)
    · rw [Pointed, hlfree]
      by_cases heq : h.lfree = total pre + n
      · rw [if_pos heq]
        exact .inr ⟨n + m, located_middle _ _ _⟩
      · rw [if_neg heq]
        exact .inl hend
    · right
      rw [hlfree]
      by_cases heq : h.lfree = total pre + n
      · rw [if_pos heq]
        exact ⟨n + m, located_middle _ _ _⟩
      · rw [if_neg heq]
        exact hfree _ k heq hk
  · intro hlowest a k hk
    obtain ⟨k', hk'⟩ := hfree' a k hk
    have hle := hlowest a k' hk'
    have hfirst := hlowest (total pre) n (located_middle _ _ _)
    dsimp only at hpos
    rw [hlfree, if_neg (by omega)]
    exact hle

end Rearrange

end VehicleTerminal.Kernel.Mem
