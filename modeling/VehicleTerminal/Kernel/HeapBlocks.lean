import VehicleTerminal.Kernel.Heap
import VehicleTerminal.Library.Tiling

/-! The heap as a range of blocks: what the heads say, and what each write to a head changes. -/
namespace VehicleTerminal.Kernel.Mem
open ByteStore MachineInt Tiling

/-- The address of the last block, `prev` if there is none. -/
def lastStart : ℕ → ℕ → List Block → ℕ
  | prev, _, [] => prev
  | _, a, b :: bs => lastStart a (a + b.size) bs

/-- The heads from the address `a` on are those of these blocks. -/
def Laid (h : Heap) : ℕ → ℕ → List Block → Prop
  | _, _, [] => True
  | prev, a, b :: bs =>
    h.head a = ⟨heapMagic, b.used.toNat, a + b.size, prev⟩ ∧ Laid h a (a + b.size) bs

/-- A block in use, with its head. -/
def Used (bs : List Block) (a n : ℕ) : Prop := (a, ⟨n, true⟩) ∈ located 0 bs

/-- The bytes that belong to callers. -/
def Payload (c : Config) (bs : List Block) (i : ℕ) : Prop :=
  ∃ a n, Used bs a n ∧ a + c.sizeofStructMem ≤ i ∧ i < a + n

/-- The heap is cut into blocks that the heads describe. -/
structure Tiled (c : Config) (h : Heap) (bs : List Block) : Prop where
  laid : Laid h 0 0 bs
  covers : total bs = c.heapEnd
  sizes : ∀ b ∈ bs, c.sizeofStructMem < b.size
  aligned : ∀ b ∈ bs, 2 ^ c.alignBits ∣ b.size

/-- Bytes are written in these heads only. -/
def Writes (heads : Set ℕ) (h h' : Heap) : Prop :=
  ∀ i, (∀ p ∈ heads, i < p ∨ p + 12 ≤ i) → h'.ram i = h.ram i

section Heads

variable {h h' h'' : Heap} {heads heads' : Set ℕ} {p q v : ℕ}

theorem Writes.trans (hw : Writes heads h h') (hw' : Writes heads' h' h'') :
    Writes (heads ∪ heads') h h'' := by
  intro i hi
  rw [hw' i fun p hp => hi p (.inr hp), hw i fun p hp => hi p (.inl hp)]

theorem Writes.mono (hw : Writes heads h h') (hsub : heads ⊆ heads') : Writes heads' h h' :=
  fun i hi => hw i fun p hp => hi p (hsub hp)

theorem load_congr {m m' : ℕ → UInt8} {a k : ℕ} (hsame : ∀ i, a ≤ i → i < a + k → m i = m' i) :
    load m a k = load m' a k := by
  rw [load, load, readBytes_eq_iff.mpr hsame]

/-- A head apart from those that are written keeps its fields. -/
theorem Writes.head (hw : Writes heads h h') (hq : ∀ p ∈ heads, q + 12 ≤ p ∨ p + 12 ≤ q) :
    h'.head q = h.head q := by
  have hsame (i : ℕ) (hlo : q ≤ i) (hhi : i < q + 12) : h'.ram i = h.ram i := by
    refine hw i fun p hp => ?_
    rcases hq p hp with hle | hle <;> omega
  simp only [Heap.head]
  congr 1 <;> exact load_congr fun i hlo hhi => hsame i (by omega) (by omega)

theorem writes_store {a k : ℕ} (hlo : p ≤ a) (hhi : a + k ≤ p + 12) (v : ℕ) :
    Writes {p} h { h with ram := store h.ram a k v } := by
  intro i hi
  have hi' := hi p rfl
  exact writeBytes_outside h.ram (by rw [leBytes_length]; omega)

theorem writes_setMagic (h : Heap) (p : ℕ) : Writes {p} h (h.setMagic p) :=
  writes_store le_rfl (by omega) _

theorem writes_setUsed (h : Heap) (p v : ℕ) : Writes {p} h (h.setUsed p v) :=
  writes_store (by omega) (by omega) _

theorem writes_setNext (h : Heap) (p v : ℕ) : Writes {p} h (h.setNext p v) :=
  writes_store (by omega) (by omega) _

theorem writes_setPrev (h : Heap) (p v : ℕ) : Writes {p} h (h.setPrev p v) :=
  writes_store (by omega) (by omega) _

theorem head_setMagic (h : Heap) (p : ℕ) :
    (h.setMagic p).head p = { h.head p with magic := heapMagic } := by
  simp only [Heap.head, Heap.setMagic, HeapMem.mk.injEq]
  refine ⟨load_store _ _ _ _, ?_, ?_, ?_⟩ <;> exact load_store_disjoint (by omega) _

theorem head_setUsed (h : Heap) (p : ℕ) (hv : v < 2 ^ 16) :
    (h.setUsed p v).head p = { h.head p with used := v } := by
  simp only [Heap.head, Heap.setUsed, HeapMem.mk.injEq]
  refine ⟨load_store_disjoint (by omega) _, ?_, load_store_disjoint (by omega) _,
    load_store_disjoint (by omega) _⟩
  rw [load_store]
  exact Nat.mod_eq_of_lt hv

theorem head_setNext (h : Heap) (p : ℕ) (hv : v < 2 ^ 32) :
    (h.setNext p v).head p = { h.head p with next := v } := by
  simp only [Heap.head, Heap.setNext, HeapMem.mk.injEq]
  refine ⟨load_store_disjoint (by omega) _, load_store_disjoint (by omega) _, ?_,
    load_store_disjoint (by omega) _⟩
  rw [load_store]
  exact Nat.mod_eq_of_lt hv

theorem head_setPrev (h : Heap) (p : ℕ) (hv : v < 2 ^ 32) :
    (h.setPrev p v).head p = { h.head p with prev := v } := by
  simp only [Heap.head, Heap.setPrev, HeapMem.mk.injEq]
  refine ⟨load_store_disjoint (by omega) _, load_store_disjoint (by omega) _,
    load_store_disjoint (by omega) _, ?_⟩
  rw [load_store]
  exact Nat.mod_eq_of_lt hv

theorem writes_create (h : Heap) (p used next prev : ℕ) :
    Writes {p} h (h.create p used next prev) := by
  have hw := (((writes_setMagic h p).trans (writes_setUsed _ p used)).trans
    (writes_setNext _ p next)).trans (writes_setPrev _ p prev)
  exact hw.mono (by simp)

theorem head_create (h : Heap) (p : ℕ) {used next prev : ℕ} (hused : used < 2 ^ 16)
    (hnext : next < 2 ^ 32) (hprev : prev < 2 ^ 32) :
    (h.create p used next prev).head p = ⟨heapMagic, used, next, prev⟩ := by
  rw [Heap.create, head_setPrev _ _ hprev, head_setNext _ _ hnext, head_setUsed _ _ hused,
    head_setMagic]

end Heads

section Layout

variable {c : Config} {h h' : Heap} {bs bs' pre mid mid' post : List Block} {b : Block}
  {a p i prev prev' : ℕ} {heads : Set ℕ}

theorem lastStart_append : lastStart prev a (pre ++ post) =
    lastStart (lastStart prev a pre) (a + total pre) post := by
  induction pre generalizing prev a with
  | nil => rfl
  | cons b pre ih =>
    rw [List.cons_append, lastStart, ih, total_cons, ← Nat.add_assoc]
    rfl

theorem laid_append : Laid h prev a (pre ++ post) ↔
    Laid h prev a pre ∧ Laid h (lastStart prev a pre) (a + total pre) post := by
  induction pre generalizing prev a with
  | nil => simp [Laid, lastStart]
  | cons b pre ih =>
    rw [List.cons_append, Laid, Laid, ih, total_cons, ← Nat.add_assoc, lastStart, and_assoc]

theorem Laid.congr (hl : Laid h prev a bs)
    (hsame : ∀ p b, (p, b) ∈ located a bs → h'.head p = h.head p) : Laid h' prev a bs := by
  induction bs generalizing prev a with
  | nil => trivial
  | cons b bs ih =>
    refine ⟨?_, ih hl.2 fun p d hd => hsame p d (List.mem_cons_of_mem _ hd)⟩
    rw [hsame a b List.mem_cons_self]
    exact hl.1

/-- A changed link back from the first block. -/
theorem Laid.relink (hl : Laid h prev a bs)
    (hfirst : bs ≠ [] → h'.head a = { h.head a with prev := prev' })
    (hrest : ∀ p b, (p, b) ∈ located a bs → p ≠ a → h'.head p = h.head p)
    (hpos : ∀ b ∈ bs, 0 < b.size) : Laid h' prev' a bs := by
  cases bs with
  | nil => trivial
  | cons b bs =>
    refine ⟨?_, hl.2.congr fun p d hd => hrest p d (List.mem_cons_of_mem _ hd) ?_⟩
    · rw [hfirst (List.cons_ne_nil _ _), hl.1]
    · have hlo := (located_bounds hd).1
      have hsize := hpos b List.mem_cons_self
      omega

theorem Tiled.pos (ht : Tiled c h bs) : ∀ b ∈ bs, 0 < b.size :=
  fun b hb => Nat.zero_lt_of_lt (ht.sizes b hb)

theorem Tiled.head (ht : Tiled c h (pre ++ b :: post)) : h.head (total pre) =
    ⟨heapMagic, b.used.toNat, total pre + b.size, lastStart 0 0 pre⟩ := by
  have hl := (laid_append.mp ht.laid).2.1
  rwa [Nat.zero_add] at hl

/-- The heads of some neighbouring blocks are written anew, and the link back to them. -/
theorem Tiled.replace (ht : Tiled c h (pre ++ mid ++ post)) (hw : Writes heads h h')
    (hheads : ∀ p ∈ heads, total pre ≤ p ∧ p + 12 ≤ total pre + total mid ∨
      p = total pre + total mid)
    (hmid : Laid h' (lastStart 0 0 pre) (total pre) mid') (htotal : total mid' = total mid)
    (hsizes : ∀ b ∈ mid', c.sizeofStructMem < b.size ∧ 2 ^ c.alignBits ∣ b.size)
    (hlink : post ≠ [] → h'.head (total pre + total mid) =
      { h.head (total pre + total mid) with
        prev := lastStart (lastStart 0 0 pre) (total pre) mid' }) :
    Tiled c h' (pre ++ mid' ++ post) := by
  have hfields := c.sizeof_fields
  have hsizes' (b : Block) (hb : b ∈ pre ∨ b ∈ post) : c.sizeofStructMem < b.size := by
    refine ht.sizes b ?_
    simp only [List.mem_append]
    tauto
  have hlaid := ht.laid
  rw [laid_append, laid_append, lastStart_append, Nat.zero_add, Nat.zero_add, total_append] at hlaid
  constructor
  · rw [laid_append, laid_append, lastStart_append, Nat.zero_add, Nat.zero_add, total_append,
      htotal]
    refine ⟨⟨hlaid.1.1.congr fun p b hp => hw.head fun q hq => ?_, hmid⟩,
      hlaid.2.relink hlink (fun p b hp hne => hw.head fun q hq => ?_)
        fun b hb => Nat.zero_lt_of_lt (hsizes' b (.inr hb))⟩
    · obtain ⟨front, rest, rfl, rfl⟩ := mem_located.mp hp
      have hsize := hsizes' b (.inl (by simp))
      have hq' := hheads q hq
      simp only [total_append, total_cons] at hq'
      omega
    · obtain ⟨front, rest, rfl, rfl⟩ := mem_located.mp hp
      cases front with
      | nil => exact absurd rfl hne
      | cons d front =>
        have hsize := hsizes' d (.inr (by simp))
        have hq' := hheads q hq
        rw [total_cons]
        omega
  · have hsum := ht.covers
    simp only [total_append, htotal] at hsum ⊢
    exact hsum
  · intro b hb
    simp only [List.mem_append, or_assoc] at hb
    rcases hb with hb | hb | hb
    · exact hsizes' b (.inl hb)
    · exact (hsizes b hb).1
    · exact hsizes' b (.inr hb)
  · intro b hb
    simp only [List.mem_append, or_assoc] at hb
    rcases hb with hb | hb | hb
    · exact ht.aligned b (by simp [hb])
    · exact (hsizes b hb).2
    · exact ht.aligned b (by simp [hb])

/-- The heads that may be written: those of the blocks, and the one at the end. -/
def IsHead (c : Config) (bs : List Block) (p : ℕ) : Prop :=
  p = c.heapEnd ∨ ∃ b, (p, b) ∈ located 0 bs

/-- No head lies in the bytes of a caller. -/
theorem Tiled.payload_apart (ht : Tiled c h bs) (hp : IsHead c bs p) (hi : Payload c bs i) :
    i < p ∨ p + 12 ≤ i := by
  have hfields := c.sizeof_fields
  obtain ⟨a, n, hused, hlo, hhi⟩ := hi
  rcases hp with rfl | ⟨b, hb⟩
  · have hend := (located_bounds hused).2
    rw [ht.covers] at hend
    dsimp only at hend
    omega
  · have hsize := ht.sizes b (mem_of_located hb)
    rcases located_apart ht.pos hb hused with ⟨rfl, -⟩ | hle | hle
    · omega
    · omega
    · dsimp only at hle
      omega

/-- The bytes that belong to callers before and behind a change of the heap are the same. -/
def Keeps (c : Config) (h h' : Heap) (bs bs' : List Block) : Prop :=
  ∀ i, Payload c bs i → Payload c bs' i → h'.ram i = h.ram i

theorem Tiled.keeps (ht : Tiled c h bs) (ht' : Tiled c h' bs') (hw : Writes heads h h')
    (hheads : ∀ p ∈ heads, IsHead c bs p ∨ IsHead c bs' p) : Keeps c h h' bs bs' := by
  intro i hi hi'
  refine hw i fun p hp => ?_
  rcases hheads p hp with hhead | hhead
  · exact ht.payload_apart hhead hi
  · exact ht'.payload_apart hhead hi'

end Layout

end VehicleTerminal.Kernel.Mem
