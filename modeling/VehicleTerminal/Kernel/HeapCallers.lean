import VehicleTerminal.Kernel.HeapCalls
import VehicleTerminal.Library.Simulation

/-! The callers of the heap, who write to the blocks that they hold and to no others. A block that
grows is moved in two steps, between which other threads use the heap. -/
namespace VehicleTerminal.Kernel.Mem
open ByteStore MachineInt Tiling PartialRun

section Model

/-- The data that a caller may use, and the thread whose `rt_realloc` is going on for it. -/
structure Lease (T : Type*) where
  size : ℕ
  thread : Option T

/-- `rt_realloc` behind its critical section. -/
inductive Growing
  | allocating (rmem size newsize : ℕ)
  | moving (rmem nmem count : ℕ)
  deriving Repr, DecidableEq

structure System (T : Type*) where
  heap : Heap
  leases : ℕ → Option (Lease T)
  growing : T → Option Growing

inductive Action (T : Type*)
  | malloc (size : ℕ)
  | free (rmem : ℕ)
  | realloc (thread : T) (rmem newsize : ℕ)
  | goOn (thread : T)
  | write (rmem offset : ℕ) (data : List UInt8)
  | read (rmem offset count : ℕ)
  deriving Repr, DecidableEq

/-- What callers see of the heap. -/
inductive Entry (T : Type*)
  | noMemory
  | allocated (rmem : ℕ) (data : List UInt8)
  | freed (rmem : ℕ)
  | resized (rmem size : ℕ)
  | grows (thread : T) (rmem newsize : ℕ)
  | stays (thread : T) (rmem : ℕ)
  | moves (thread : T) (rmem nmem newsize : ℕ) (data : List UInt8)
  | copied (thread : T) (rmem nmem count : ℕ)
  | wrote (rmem offset : ℕ) (data : List UInt8)
  | found (rmem offset : ℕ) (data : List UInt8)
  deriving Repr, DecidableEq

def initial {T : Type*} (c : Config) (ram : ℕ → UInt8) : System T :=
  ⟨rtSystemHeapInit c ram, fun _ => none, fun _ => none⟩

variable {T : Type*} [DecidableEq T]

def System.lease (s : System T) (rmem : ℕ) (lease : Option (Lease T)) : System T :=
  { s with leases := Function.update s.leases rmem lease }

def System.grow (s : System T) (thread : T) (growing : Option Growing) : System T :=
  { s with growing := Function.update s.growing thread growing }

/-- The pointer `rmem` has been returned for the block behind it; what this happens to hold. -/
def allocate (c : Config) (s : System T) (heap : Heap) (rmem : ℕ) (thread : Option T) :
    System T × List UInt8 :=
  let size := dataSize c heap (rmem - c.sizeofStructMem)
  ({ s with heap := heap }.lease rmem (some ⟨size, thread⟩), readBytes heap.ram rmem size)

def mallocStep (c : Config) (rounds : ℕ) (s : System T) (size : ℕ) :
    Option (System T × List (Entry T)) :=
  (rtMalloc c rounds s.heap size).map fun
    | (_, none) => (s, [.noMemory])
    | (heap, some rmem) =>
      let (s, data) := allocate c s heap rmem none
      (s, [.allocated rmem data])

def freeStep (c : Config) (s : System T) (rmem : ℕ) : Option (System T × List (Entry T)) :=
  match s.leases rmem with
  | some ⟨_, none⟩ =>
    (rtFree c s.heap rmem).map fun heap => ({ s with heap := heap }.lease rmem none, [.freed rmem])
  | _ => some (s, [])

def reallocStep (c : Config) (s : System T) (thread : T) (rmem newsize : ℕ) :
    Option (System T × List (Entry T)) :=
  match s.leases rmem, s.growing thread with
  | some ⟨held, none⟩, none =>
    let newsize := rtAlign c.alignBits newsize
    (rtRealloc c s.heap rmem newsize).map fun
      | .null => (s, [.noMemory])
      | .freed heap => ({ s with heap := heap }.lease rmem none, [.freed rmem])
      | .same => (s, [])
      | .shrunk heap =>
        ({ s with heap := heap }.lease rmem (some ⟨newsize, none⟩), [.resized rmem newsize])
      | .grows size =>
        ((s.lease rmem (some ⟨held, some thread⟩)).grow thread
            (some (.allocating rmem size newsize)),
          [.grows thread rmem newsize])
  | _, _ => some (s, [])

/-- The end of `rt_realloc`: `rt_malloc`, and then `rt_memcpy` and `rt_free`. -/
def goOnStep (c : Config) (rounds : ℕ) (s : System T) (thread : T) :
    Option (System T × List (Entry T)) :=
  match s.growing thread with
  | none => some (s, [])
  | some (.allocating rmem size newsize) =>
    (rtMalloc c rounds s.heap newsize).map fun
      | (_, none) => ((s.lease rmem (some ⟨size, none⟩)).grow thread none, [.stays thread rmem])
      | (heap, some nmem) =>
        let (s, data) := allocate c s heap nmem (some thread)
        (s.grow thread (some (.moving rmem nmem (min size newsize))),
          [.moves thread rmem nmem newsize data])
  | some (.moving rmem nmem count) =>
    let heap := { s.heap with ram := writeBytes s.heap.ram nmem (readBytes s.heap.ram rmem count) }
    (rtFree c heap rmem).map fun heap =>
      let lease := (s.leases nmem).map fun lease => ⟨lease.size, none⟩
      ((({ s with heap := heap }.lease nmem lease).lease rmem none).grow thread none,
        [.copied thread rmem nmem count, .freed rmem])

/-- Callers pass only pointers that they hold, and stay inside their blocks. -/
def step (c : Config) (rounds : ℕ) (s : System T) : Action T → Option (System T × List (Entry T))
  | .malloc size => mallocStep c rounds s size
  | .free rmem => freeStep c s rmem
  | .realloc thread rmem newsize => reallocStep c s thread rmem newsize
  | .goOn thread => goOnStep c rounds s thread
  | .write rmem offset data =>
    match s.leases rmem with
    | some ⟨size, none⟩ =>
      if offset + data.length ≤ size then
        some ({ s with heap := { s.heap with ram := writeBytes s.heap.ram (rmem + offset) data } },
          [.wrote rmem offset data])
      else some (s, [])
    | _ => some (s, [])
  | .read rmem offset count =>
    match s.leases rmem with
    | some ⟨size, none⟩ =>
      if offset + count ≤ size then
        some (s, [.found rmem offset (readBytes s.heap.ram (rmem + offset) count)])
      else some (s, [])
    | _ => some (s, [])

end Model

section Ledger

variable {T : Type*} [DecidableEq T]

/-- What the callers' blocks hold. -/
abbrev Ledger := ℕ → Option (List UInt8)

/-- What a thread has asked `rt_realloc` for, and its new block when it has one. -/
structure Request where
  rmem : ℕ
  newsize : ℕ
  nmem : Option ℕ
  deriving Repr, DecidableEq

/-- Beside the blocks stand the threads whose `rt_realloc` is moving them. -/
structure Book (T : Type*) where
  blocks : Ledger
  moving : ℕ → Option T
  requests : T → Option Request

def Book.empty : Book T := ⟨fun _ => none, fun _ => none, fun _ => none⟩

def Book.put (b : Book T) (rmem : ℕ) (data : Option (List UInt8)) (thread : Option T) : Book T :=
  { b with
    blocks := Function.update b.blocks rmem data
    moving := Function.update b.moving rmem thread }

def Book.hand (b : Book T) (rmem : ℕ) (thread : Option T) : Book T :=
  { b with moving := Function.update b.moving rmem thread }

def Book.request (b : Book T) (thread : T) (request : Option Request) : Book T :=
  { b with requests := Function.update b.requests thread request }

def Ledger.write (m : Ledger) (rmem offset : ℕ) (data : List UInt8) : Ledger :=
  Function.update m rmem
    ((m rmem).map fun old => old.take offset ++ data ++ old.drop (offset + data.length))

def Book.next (b : Book T) : Entry T → Book T
  | .noMemory => b
  | .allocated rmem data => b.put rmem (some data) none
  | .freed rmem => b.put rmem none none
  | .resized rmem size =>
    { b with blocks := Function.update b.blocks rmem ((b.blocks rmem).map (List.take size)) }
  | .grows thread rmem newsize =>
    (b.hand rmem (some thread)).request thread (some ⟨rmem, newsize, none⟩)
  | .stays thread rmem => (b.hand rmem none).request thread none
  | .moves thread rmem nmem newsize data =>
    (b.put nmem (some data) (some thread)).request thread (some ⟨rmem, newsize, some nmem⟩)
  | .copied thread rmem nmem count =>
    ({ b with blocks := b.blocks.write nmem 0 (((b.blocks rmem).getD []).take count) }.hand
      nmem none).request thread none
  | .wrote rmem offset data => { b with blocks := b.blocks.write rmem offset data }
  | .found _ _ _ => b

/-- A new block lies in the heap and apart from all others. -/
def Ledger.New (c : Config) (m : Ledger) (rmem size : ℕ) : Prop :=
  2 ^ c.alignBits ∣ rmem ∧ c.sizeofStructMem ≤ rmem ∧ rmem + size ≤ c.heapEnd ∧
    ∀ r old, m r = some old →
      r + old.length + c.sizeofStructMem ≤ rmem ∨ rmem + size + c.sizeofStructMem ≤ r

/-- What a caller may use: a block that no `rt_realloc` is moving. -/
def Book.usable (b : Book T) (rmem : ℕ) : Option (List UInt8) :=
  if b.moving rmem = none then b.blocks rmem else none

/-- What `rt_realloc` does first when it is asked for this size, which it has aligned. -/
def Resizes (c : Config) (thread : T) (rmem newsize : ℕ) (old : List UInt8)
    (entries : List (Entry T)) : Prop :=
  c.memSizeAligned < newsize ∧ entries = [.noMemory] ∨
    newsize = 0 ∧ entries = [.freed rmem] ∨
    newsize = old.length ∧ entries = [] ∨
    0 < newsize ∧ newsize < old.length ∧ entries = [.resized rmem newsize] ∨
    0 < newsize ∧ newsize ≤ c.memSizeAligned ∧ entries = [.grows thread rmem newsize]

/-- What one action is answered with. A size that `RT_ALIGN` does not wrap is served, a block that
is moved begins like the old one before this is given back, and a block is read as it was
written. -/
def Book.Answers (c : Config) (b : Book T) (entries : List (Entry T)) : Action T → Prop
  | .malloc size => entries = [.noMemory] ∨ ∃ rmem data, entries = [.allocated rmem data] ∧
    b.blocks.New c rmem data.length ∧ (size + 2 ^ c.alignBits ≤ 2 ^ 32 → size ≤ data.length)
  | .free rmem =>
    match b.usable rmem with
    | some _ => entries = [.freed rmem]
    | none => entries = []
  | .realloc thread rmem newsize =>
    match b.usable rmem, b.requests thread with
    | some old, none => Resizes c thread rmem (rtAlign c.alignBits newsize) old entries
    | _, _ => entries = []
  | .goOn thread =>
    match b.requests thread with
    | none => entries = []
    | some ⟨rmem, newsize, none⟩ => entries = [.stays thread rmem] ∨ ∃ nmem data,
      entries = [.moves thread rmem nmem newsize data] ∧ b.blocks.New c nmem data.length ∧
        newsize ≤ data.length
    | some ⟨rmem, newsize, some nmem⟩ => ∃ old, b.blocks rmem = some old ∧
      entries = [.copied thread rmem nmem (min old.length newsize), .freed rmem]
  | .write rmem offset data =>
    match b.usable rmem with
    | some old =>
      entries = if offset + data.length ≤ old.length then [.wrote rmem offset data] else []
    | none => entries = []
  | .read rmem offset count =>
    match b.usable rmem with
    | some old => entries =
      if offset + count ≤ old.length then [.found rmem offset ((old.drop offset).take count)]
      else []
    | none => entries = []

def Served (c : Config) (b : Book T) (a : Action T) (entries : List (Entry T)) (b' : Book T) :
    Prop :=
  b.Answers c entries a ∧ b' = entries.foldl Book.next b

end Ledger

section Storage

variable {c : Config} {h h' : Heap} {bs bs' : List Block} {m : Ledger} {a n r i : ℕ}
  {data : List UInt8}

/-- The blocks in use are those of the ledger, and the memory holds what they hold. -/
structure Stored (c : Config) (h : Heap) (bs : List Block) (m : Ledger) : Prop where
  sound : Sound c h bs
  used : ∀ a n, Used bs a n ↔
    ∃ data, m (a + c.sizeofStructMem) = some data ∧ n = c.sizeofStructMem + data.length
  above : ∀ r data, m r = some data → c.sizeofStructMem ≤ r
  holds : ∀ r data, m r = some data → readBytes h.ram r data.length = data

theorem Stored.block (h : Stored c h' bs m) (hr : m r = some data) :
    ∃ a, r = a + c.sizeofStructMem ∧ Used bs a (c.sizeofStructMem + data.length) := by
  have habove := h.above r data hr
  refine ⟨r - c.sizeofStructMem, by omega, (h.used _ _).mpr ⟨data, ?_, rfl⟩⟩
  rwa [Nat.sub_add_cancel habove]

theorem Stored.payload (hs : Stored c h bs m) (hr : m r = some data) (hlo : r ≤ i)
    (hhi : i < r + data.length) : Payload c bs i := by
  obtain ⟨a, rfl, hused⟩ := hs.block hr
  exact ⟨a, _, hused, hlo, by omega⟩

/-- The data of two blocks lie apart, with a head between them. -/
theorem Stored.apart (hs : Stored c h bs m) {r' : ℕ} {data' : List UInt8} (hr : m r = some data)
    (hr' : m r' = some data') (hne : r ≠ r') :
    r + data.length + c.sizeofStructMem ≤ r' ∨ r' + data'.length + c.sizeofStructMem ≤ r := by
  obtain ⟨a, rfl, hused⟩ := hs.block hr
  obtain ⟨a', rfl, hused'⟩ := hs.block hr'
  rcases located_apart hs.sound.pos hused hused' with ⟨rfl, -⟩ | hle | hle
  · exact absurd rfl hne
  · dsimp only at hle
    omega
  · dsimp only at hle
    omega

theorem Stored.of_keeps (hs : Stored c h bs m) (hr : m r = some data)
    (hkeeps : ∀ i, r ≤ i → i < r + data.length → h'.ram i = h.ram i) :
    readBytes h'.ram r data.length = data := by
  rw [← readBytes_eq_iff.mpr fun i hlo hhi => (hkeeps i hlo hhi).symm]
  exact hs.holds r data hr

theorem Free.not_used (ht : Tiled c h bs) (hfree : Free bs a n) {k : ℕ} : ¬ Used bs a k := by
  intro hused
  cases located_unique ht.pos hfree hused

/-- A block that `rt_malloc` has taken. -/
theorem Stored.allocated (hs : Stored c h bs m) (ha : Allocated c h h' bs bs' a n) :
    n = c.sizeofStructMem + dataSize c h' a ∧ m (a + c.sizeofStructMem) = none ∧
      m.New c (a + c.sizeofStructMem) (dataSize c h' a) ∧
      Stored c h' bs' (Function.update m (a + c.sizeofStructMem)
        (some (readBytes h'.ram (a + c.sizeofStructMem) (dataSize c h' a)))) := by
  have ht' := ha.sound.toTiled
  have hused : Used bs' a n := (ha.used a n).mpr (.inr ⟨rfl, rfl⟩)
  have hlt := ht'.address_lt hused
  have hsize := ht'.sizes _ (mem_of_located hused)
  dsimp only at hlt hsize
  obtain ⟨k, hfree⟩ := ha.fresh
  have hnew : n = c.sizeofStructMem + dataSize c h' a := by
    obtain ⟨pre, post, rfl, hpre⟩ := mem_located.mp hused
    rw [Nat.zero_add] at hpre
    rw [hpre, dataSize_eq ht']
    dsimp only
    omega
  have hnone : m (a + c.sizeofStructMem) = none := by
    cases hm : m (a + c.sizeofStructMem) with
    | none => rfl
    | some data =>
      exact absurd ((hs.used _ _).mpr ⟨data, hm, rfl⟩) (hfree.not_used hs.sound.toTiled)
  have haligned : 2 ^ c.alignBits ∣ a := by
    obtain ⟨pre, post, rfl, hpre⟩ := mem_located.mp hused
    rw [Nat.zero_add] at hpre
    exact hpre ▸ ht'.dvd_total
  refine ⟨hnew, hnone, ⟨haligned.add c.sizeof_aligned, Nat.le_add_left _ _, ?_, fun r old hr => ?_⟩,
    ⟨ha.sound, fun b k => ?_, fun r data hr => ?_, fun r data hr => ?_⟩⟩
  · omega
  · obtain ⟨b, rfl, hb⟩ := hs.block hr
    have hb' := (ha.used b _).mpr (.inl hb)
    rcases located_apart ht'.pos hb' hused with ⟨rfl, -⟩ | hle | hle
    · exact absurd hb (hfree.not_used hs.sound.toTiled)
    · dsimp only at hle
      omega
    · dsimp only at hle
      omega
  · simp only [Function.update_apply, Nat.add_left_inj]
    rw [ha.used]
    by_cases hb : b = a
    · subst hb
      rw [if_pos rfl]
      constructor
      · rintro (hold | ⟨-, rfl⟩)
        · exact absurd hold (hfree.not_used hs.sound.toTiled)
        · exact ⟨_, rfl, by rw [readBytes_length]; exact hnew⟩
      · rintro ⟨data, ⟨⟩, rfl⟩
        rw [readBytes_length]
        exact .inr ⟨rfl, hnew.symm⟩
    · simp only [hb, false_and, or_false, if_false]
      exact hs.used b k
  · simp only [Function.update_apply] at hr
    split_ifs at hr with hra
    · exact hra ▸ Nat.le_add_left _ _
    · exact hs.above r data hr
  · simp only [Function.update_apply] at hr
    split_ifs at hr with hra
    · cases hr
      rw [readBytes_length, hra]
    · exact hs.of_keeps hr fun i hlo hhi => ha.keeps i (hs.payload hr hlo hhi)

/-- A block that `rt_free` has given back. -/
theorem Stored.freed (hs : Stored c h bs m) (hf : Freed c h h' bs bs' a) :
    Stored c h' bs' (Function.update m (a + c.sizeofStructMem) none) := by
  have hstored (r : ℕ) (data : List UInt8)
      (hr : Function.update m (a + c.sizeofStructMem) none r = some data) :
      m r = some data ∧ r ≠ a + c.sizeofStructMem := by
    simp only [Function.update_apply] at hr
    split_ifs at hr with hra
    exact ⟨hr, hra⟩
  have hused (b n : ℕ) : Used bs' b n ↔ ∃ data,
      Function.update m (a + c.sizeofStructMem) none (b + c.sizeofStructMem) = some data ∧
        n = c.sizeofStructMem + data.length := by
    rw [hf.used, hs.used]
    constructor
    · rintro ⟨⟨data, hb, rfl⟩, hne⟩
      refine ⟨data, ?_, rfl⟩
      rw [Function.update_of_ne (by omega)]
      exact hb
    · rintro ⟨data, hb, rfl⟩
      obtain ⟨hb, hne⟩ := hstored _ _ hb
      exact ⟨⟨data, hb, rfl⟩, fun heq => hne (heq ▸ rfl)⟩
  refine ⟨hf.sound, hused, fun r data hr => hs.above r data (hstored r data hr).1,
    fun r data hr => ?_⟩
  obtain ⟨hm, hne⟩ := hstored r data hr
  refine hs.of_keeps hm fun i hlo hhi => hf.keeps i ?_
  have habove := hs.above r data hm
  refine ⟨r - c.sizeofStructMem, _, (hused _ _).mpr ⟨data, ?_, rfl⟩, by omega, by omega⟩
  rwa [Nat.sub_add_cancel habove]

/-- `rt_free` gives back every block that is held. -/
theorem Stored.free (hs : Stored c h bs m) (hm : m r = some data) : ∃ h' bs',
    rtFree c h r = some h' ∧ Stored c h' bs' (Function.update m r none) ∧
      (Lowest h bs → Lowest h' bs') := by
  obtain ⟨a, rfl, hused⟩ := hs.block hm
  obtain ⟨h', bs', hfree, hfreed⟩ := rtFree_spec hs.sound hused
  exact ⟨h', bs', hfree, hs.freed hfreed, hfreed.lowest⟩

/-- A block that `rt_realloc` has made smaller. -/
theorem Stored.resized {size : ℕ} (hs : Stored c h bs m)
    (hm : m (a + c.sizeofStructMem) = some data) (hsize : size ≤ data.length)
    (hr : Shrunk c h h' bs bs' a (c.sizeofStructMem + size)) :
    Stored c h' bs' (Function.update m (a + c.sizeofStructMem) (some (data.take size))) := by
  have hnext (r : ℕ) : Function.update m (a + c.sizeofStructMem) (some (data.take size)) r =
      if r = a + c.sizeofStructMem then some (data.take size) else m r :=
    Function.update_apply _ _ _ _
  have hused (b n : ℕ) : Used bs' b n ↔ ∃ old,
      Function.update m (a + c.sizeofStructMem) (some (data.take size)) (b + c.sizeofStructMem) =
          some old ∧
        n = c.sizeofStructMem + old.length := by
    rw [hr.used, hs.used, hnext]
    by_cases hb : b = a
    · subst hb
      simp [Nat.min_eq_left hsize]
    · simp [hb]
  refine ⟨hr.sound, hused, fun r old hold => ?_, fun r old hold => ?_⟩
  · rw [hnext] at hold
    split_ifs at hold with hra
    · exact hra ▸ Nat.le_add_left _ _
    · exact hs.above r old hold
  · have hkeeps (i : ℕ) (hlo : r ≤ i) (hhi : i < r + old.length) : h'.ram i = h.ram i := by
      have habove : c.sizeofStructMem ≤ r := by
        rw [hnext] at hold
        split_ifs at hold with hra
        · exact hra ▸ Nat.le_add_left _ _
        · exact hs.above r old hold
      refine hr.keeps i
        ⟨r - c.sizeofStructMem, _, (hused _ _).mpr ⟨old, ?_, rfl⟩, by omega, by omega⟩
      rwa [Nat.sub_add_cancel habove]
    rw [hnext] at hold
    split_ifs at hold with hra
    · cases hold
      rw [List.length_take, Nat.min_eq_left hsize] at hkeeps ⊢
      rw [readBytes_eq_iff.mpr hkeeps, hra]
      have hold := hs.holds _ _ hm
      obtain ⟨k, hk⟩ := Nat.exists_eq_add_of_le hsize
      rw [hk, readBytes_add] at hold
      rw [← hold, List.take_left' (readBytes_length _ _ _)]
    · exact hs.of_keeps hold hkeeps

/-- Bytes of callers are no part of a head. -/
theorem Tiled.of_payload (ht : Tiled c h bs) (hsame : ∀ i, ¬ Payload c bs i → h'.ram i = h.ram i) :
    Tiled c h' bs := by
  refine { ht with laid := ht.laid.congr fun p b hb => ?_ }
  have hbyte (i : ℕ) (hlo : p ≤ i) (hhi : i < p + 12) : h'.ram i = h.ram i :=
    hsame i fun hi => by
      rcases ht.payload_apart (.inr ⟨b, hb⟩) hi with hlt | hle <;> omega
  simp only [Heap.head]
  congr 1 <;> exact load_congr fun i hlo hhi => hbyte i (by omega) (by omega)

theorem Ledger.write_apply {offset : ℕ} {old : List UInt8} (hm : m r = some old) (x : ℕ) :
    m.write r offset data x =
      if x = r then some (old.take offset ++ data ++ old.drop (offset + data.length)) else m x := by
  rw [Ledger.write, hm, Option.map_some, Function.update_apply]

/-- A write inside a block. -/
theorem Stored.wrote {offset : ℕ} {old : List UInt8} (hs : Stored c h bs m) (hm : m r = some old)
    (hfits : offset + data.length ≤ old.length) :
    Stored c { h with ram := writeBytes h.ram (r + offset) data } bs (m.write r offset data) := by
  have hlength : (old.take offset ++ data ++ old.drop (offset + data.length)).length =
      old.length := by
    simp only [List.length_append, List.length_take, List.length_drop]
    omega
  have hsound : Sound c { h with ram := writeBytes h.ram (r + offset) data } bs := by
    refine { hs.sound with toTiled := hs.sound.toTiled.of_payload fun i hi => ?_ }
    refine writeBytes_outside h.ram ?_
    by_contra hin
    exact hi (hs.payload hm (by omega) (by omega))
  refine ⟨hsound, fun a n => ?_, fun x d hx => ?_, fun x d hx => ?_⟩
  · rw [hs.used, Ledger.write_apply hm]
    split_ifs with hr
    · rw [hr, hm]
      simp only [Option.some.injEq, exists_eq_left', hlength]
    · rfl
  · rw [Ledger.write_apply hm] at hx
    split_ifs at hx with hr
    · exact hr ▸ hs.above r old hm
    · exact hs.above x d hx
  · rw [Ledger.write_apply hm] at hx
    split_ifs at hx with hr
    · cases hx
      obtain ⟨rest, hrest⟩ := Nat.exists_eq_add_of_le hfits
      have hold := hs.holds r old hm
      rw [hrest, readBytes_add, readBytes_add] at hold
      rw [hlength, hr, hrest, readBytes_add, readBytes_add,
        readBytes_writeBytes_disjoint h.ram (.inl le_rfl), readBytes_writeBytes,
        readBytes_writeBytes_disjoint h.ram (.inr (by omega))]
      have hlen₁ : (readBytes h.ram r offset).length = offset := readBytes_length _ _ _
      have hlen₂ : (readBytes h.ram r offset ++ readBytes h.ram (r + offset) data.length).length =
          offset + data.length := by
        rw [List.length_append, readBytes_length, readBytes_length]
      rw [← hold, List.drop_left' hlen₂]
      simp only [List.append_assoc, List.take_left' hlen₁]
    · refine hs.of_keeps hx fun i hlo hhi => writeBytes_outside h.ram ?_
      rcases hs.apart hx hm hr with hle | hle <;> omega

/-- Bytes of a block are read. -/
theorem Stored.found (hs : Stored c h bs m) (offset : ℕ) {count : ℕ} (hm : m r = some data)
    (hfits : offset + count ≤ data.length) :
    readBytes h.ram (r + offset) count = (data.drop offset).take count := by
  obtain ⟨rest, hrest⟩ := Nat.exists_eq_add_of_le hfits
  have hold := hs.holds r data hm
  rw [hrest, readBytes_add, readBytes_add, List.append_assoc] at hold
  rw [← hold, List.drop_left' (readBytes_length _ _ _), List.take_left' (readBytes_length _ _ _)]

end Storage

section Leases

variable {T : Type*} {b : Book T} {r : ℕ} {data old : List UInt8} {thread : Option T}

/-- The block of a caller, as the book has it. -/
def Book.lease (b : Book T) (rmem : ℕ) : Option (Lease T) :=
  (b.blocks rmem).map fun data => ⟨data.length, b.moving rmem⟩

theorem Book.lease_eq_none : b.lease r = none ↔ b.blocks r = none := Option.map_eq_none_iff

theorem Book.lease_eq_some {lease : Lease T} : b.lease r = some lease ↔
    ∃ data, b.blocks r = some data ∧ data.length = lease.size ∧ b.moving r = lease.thread := by
  rw [Book.lease, Option.map_eq_some_iff]
  refine exists_congr fun data => and_congr_right fun _ => ?_
  rw [Lease.mk.injEq]

theorem Book.lease_put (b : Book T) (r : ℕ) (data : Option (List UInt8)) (thread : Option T) :
    (b.put r data thread).lease =
      Function.update b.lease r (data.map fun data => ⟨data.length, thread⟩) := by
  funext x
  by_cases hx : x = r
  · subst hx
    simp [Book.lease, Book.put]
  · simp [Book.lease, Book.put, hx]

theorem Book.lease_hand (hr : b.blocks r = some data) (thread : Option T) :
    (b.hand r thread).lease = Function.update b.lease r (some ⟨data.length, thread⟩) := by
  funext x
  by_cases hx : x = r
  · subst hx
    simp [Book.lease, Book.hand, hr]
  · simp [Book.lease, Book.hand, hx]

theorem Ledger.write_length {m : Ledger} {offset : ℕ} (hr : m r = some old)
    (hfits : offset + data.length ≤ old.length) (x : ℕ) :
    (m.write r offset data x).map List.length = (m x).map List.length := by
  rw [Ledger.write_apply hr]
  split_ifs with hx
  · rw [hx, hr, Option.map_some, Option.map_some]
    simp only [List.length_append, List.length_take, List.length_drop, Option.some.injEq]
    omega
  · rfl

/-- A write changes no lease. -/
theorem Book.lease_write {offset : ℕ} (hr : b.blocks r = some old)
    (hfits : offset + data.length ≤ old.length) :
    Book.lease { b with blocks := b.blocks.write r offset data } = b.lease := by
  funext x
  have hlength := Ledger.write_length hr hfits x
  have hmap (m : Option (List UInt8)) :
      (m.map fun data => (⟨data.length, b.moving x⟩ : Lease T)) =
        (m.map List.length).map fun size => ⟨size, b.moving x⟩ := by
    rw [Option.map_map]
    rfl
  rw [Book.lease, Book.lease, hmap, hmap, hlength]

end Leases

section Coupling

variable {T : Type*} {c : Config} {s : System T} {b : Book T} {low : Prop} {thread : T}

/-- The `rt_realloc` of a thread and what the book has of it. -/
def Agrees (c : Config) (leases : ℕ → Option (Lease T)) (thread : T) (request : Option Request) :
    Option Growing → Prop
  | none => request = none
  | some (.allocating rmem size newsize) => request = some ⟨rmem, newsize, none⟩ ∧
    newsize ≤ c.memSizeAligned ∧ leases rmem = some ⟨size, some thread⟩
  | some (.moving rmem nmem count) => rmem ≠ nmem ∧ ∃ size nsize newsize,
    request = some ⟨rmem, newsize, some nmem⟩ ∧ leases rmem = some ⟨size, some thread⟩ ∧
      leases nmem = some ⟨nsize, some thread⟩ ∧ count = min size newsize ∧ newsize ≤ nsize

/-- What holds between two steps. `low` says that no free block is passed over. -/
structure Coupled (c : Config) (low : Prop) (s : System T) (b : Book T) : Prop where
  stored : ∃ bs, Stored c s.heap bs b.blocks ∧ (low → Lowest s.heap bs)
  leases : s.leases = b.lease
  agrees : ∀ t, Agrees c s.leases t (b.requests t) (s.growing t)

theorem initial_coupled (c : Config) (ram : ℕ → UInt8) (low : Prop) :
    Coupled c low (initial c ram : System T) Book.empty := by
  obtain ⟨hsound, hlowest⟩ := rtSystemHeapInit_sound c ram
  refine ⟨⟨_, ⟨hsound, fun a n => ?_, fun _ _ hr => ?_, fun _ _ hr => ?_⟩, fun _ => hlowest⟩,
    rfl, fun _ => rfl⟩
  · simp [Used, Book.empty]
  · cases hr
  · cases hr

theorem Coupled.block (h : Coupled c low s b) {r : ℕ} {lease : Lease T}
    (hr : s.leases r = some lease) :
    ∃ data, b.blocks r = some data ∧ data.length = lease.size ∧ b.moving r = lease.thread := by
  rw [h.leases] at hr
  exact Book.lease_eq_some.mp hr

/-- A caller may use a block that no thread is moving. -/
theorem Coupled.usable (h : Coupled c low s b) {r size : ℕ} (hr : s.leases r = some ⟨size, none⟩) :
    ∃ data, b.blocks r = some data ∧ data.length = size ∧ b.usable r = some data := by
  obtain ⟨data, hdata, hlength, hmoving⟩ := h.block hr
  exact ⟨data, hdata, hlength, by rw [Book.usable, if_pos hmoving, hdata]⟩

theorem Coupled.not_usable (h : Coupled c low s b) {r : ℕ}
    (hr : ∀ size, s.leases r ≠ some ⟨size, none⟩) : b.usable r = none := by
  rw [Book.usable]
  split_ifs with hmoving
  · by_contra hblock
    obtain ⟨data, hdata⟩ := Option.ne_none_iff_exists'.mp hblock
    refine hr data.length ?_
    rw [h.leases, Book.lease, hdata, hmoving, Option.map_some]
  · rfl

/-- A lease that is none of the thread's is changed. -/
theorem Agrees.update {leases : ℕ → Option (Lease T)} {request : Option Request}
    {growing : Option Growing} (h : Agrees c leases thread request growing) {r : ℕ}
    (hr : ∀ lease, leases r = some lease → lease.thread ≠ some thread)
    (lease : Option (Lease T)) :
    Agrees c (Function.update leases r lease) thread request growing := by
  have hother {x size : ℕ} (hx : leases x = some ⟨size, some thread⟩) :
      Function.update leases r lease x = some ⟨size, some thread⟩ := by
    rw [Function.update_of_ne, hx]
    rintro rfl
    exact hr _ hx rfl
  cases growing with
  | none => exact h
  | some g =>
    cases g with
    | allocating rmem size newsize => exact ⟨h.1, h.2.1, hother h.2.2⟩
    | moving rmem nmem count =>
      obtain ⟨hne, size, nsize, newsize, hrequest, hrmem, hnmem, hrest⟩ := h
      exact ⟨hne, size, nsize, newsize, hrequest, hother hrmem, hother hnmem, hrest⟩

/-- A step that changes one lease, of a block that no thread is moving. -/
theorem Coupled.relet {heap : Heap} {b' : Book T} {rmem : ℕ} {lease : Option (Lease T)}
    (h : Coupled c low s b)
    (hstored : ∃ bs, Stored c heap bs b'.blocks ∧ (low → Lowest heap bs))
    (hidle : ∀ t g, s.growing t = some g → ∀ lease, s.leases rmem = some lease →
      lease.thread ≠ some t)
    (hleases : b'.lease = Function.update b.lease rmem lease)
    (hrequests : b'.requests = b.requests) :
    Coupled c low ({ s with heap := heap }.lease rmem lease) b' := by
  rw [← h.leases] at hleases
  refine ⟨hstored, hleases.symm, fun t => ?_⟩
  have hagrees := h.agrees t
  rw [hrequests]
  cases hg : s.growing t with
  | none =>
    rw [hg] at hagrees
    simp only [System.lease, hg]
    exact hagrees
  | some g =>
    simp only [System.lease, hg]
    exact (hg ▸ hagrees).update (hidle t g hg) lease

variable [DecidableEq T]

/-- A step of the `rt_realloc` of a thread that changes one lease, which is its own or nobody's. -/
theorem Coupled.grow {heap : Heap} {blocks : Ledger} {moving : ℕ → Option T} {rmem : ℕ}
    {lease : Option (Lease T)} {request : Option Request} {growing : Option Growing}
    (h : Coupled c low s b)
    (hstored : ∃ bs, Stored c heap bs blocks ∧ (low → Lowest heap bs))
    (hown : ∀ t, t ≠ thread → ∀ lease, s.leases rmem = some lease → lease.thread ≠ some t)
    (hleases : (Book.lease ⟨blocks, moving, b.requests⟩) = Function.update b.lease rmem lease)
    (hagrees : Agrees c (Function.update s.leases rmem lease) thread request growing) :
    Coupled c low (({ s with heap := heap }.lease rmem lease).grow thread growing)
      ⟨blocks, moving, Function.update b.requests thread request⟩ := by
  rw [← h.leases] at hleases
  refine ⟨hstored, hleases.symm, fun t => ?_⟩
  by_cases ht : t = thread
  · subst ht
    simpa only [System.grow, System.lease, Function.update_self] using hagrees
  · simp only [System.grow, System.lease, Function.update_of_ne ht]
    exact (h.agrees t).update (hown t ht) lease

end Coupling

end VehicleTerminal.Kernel.Mem
