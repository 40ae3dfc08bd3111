import VehicleTerminal.Kernel.HeapCallers

/-! Runs of the heap under any order of the callers' steps. -/
namespace VehicleTerminal.Kernel.Mem
open ByteStore MachineInt Tiling PartialRun

section Steps

variable {T : Type*} {c : Config} {s : System T} {b : Book T} {low : Prop} {thread : T}
  {rounds : ℕ} {bs bs' : List Block} {heap : Heap} {a n : ℕ}

theorem Coupled.allocated (h : Coupled c low s b) (hstored : Stored c s.heap bs b.blocks)
    (hlow : low → Lowest s.heap bs) (ha : Allocated c s.heap heap bs bs' a n)
    (thread : Option T) : ∃ data : List UInt8,
      allocate c s heap (a + c.sizeofStructMem) thread =
        ({ s with heap := heap }.lease (a + c.sizeofStructMem) (some ⟨data.length, thread⟩), data) ∧
      n = c.sizeofStructMem + data.length ∧
      b.blocks.New c (a + c.sizeofStructMem) data.length ∧
      s.leases (a + c.sizeofStructMem) = none ∧
      Stored c heap bs' (Function.update b.blocks (a + c.sizeofStructMem) (some data)) ∧
      (low → Lowest heap bs') := by
  obtain ⟨hn, hnone, hnew, hstored'⟩ := hstored.allocated ha
  have hlength := readBytes_length heap.ram (a + c.sizeofStructMem) (dataSize c heap a)
  refine ⟨readBytes heap.ram (a + c.sizeofStructMem) (dataSize c heap a), ?_, ?_, ?_, ?_,
    hstored', fun hl => ha.lowest (hlow hl)⟩
  · rw [allocate, hlength, Nat.add_sub_cancel]
  · rw [hlength]
    exact hn
  · rw [hlength]
    exact hnew
  · rw [h.leases]
    exact Book.lease_eq_none.mpr hnone

/-- Only the thread of its lease moves a block. -/
theorem thread_ne {rmem size : ℕ} {mover : Option T}
    (hlease : s.leases rmem = some ⟨size, mover⟩) {t : T} (ht : some t ≠ mover) (lease : Lease T)
    (hr : s.leases rmem = some lease) : lease.thread ≠ some t := by
  rw [hlease] at hr
  cases hr
  exact ht.symm

theorem not_moved {rmem size : ℕ} (hlease : s.leases rmem = some ⟨size, none⟩) (t : T)
    (g : Growing) (_ : s.growing t = some g) (lease : Lease T)
    (hr : s.leases rmem = some lease) : lease.thread ≠ some t :=
  thread_ne hlease (Option.some_ne_none t) lease hr

theorem Coupled.request_eq_none (h : Coupled c low s b) (hg : s.growing thread = none) :
    b.requests thread = none := by
  have hagrees := h.agrees thread
  rwa [hg] at hagrees

theorem Coupled.exists_request (h : Coupled c low s b) {g : Growing}
    (hg : s.growing thread = some g) : ∃ request, b.requests thread = some request := by
  have hagrees := h.agrees thread
  rw [hg] at hagrees
  cases g with
  | allocating rmem size newsize => exact ⟨_, hagrees.1⟩
  | moving rmem nmem count =>
    obtain ⟨-, size, nsize, newsize, hrequest, -⟩ := hagrees
    exact ⟨_, hrequest⟩

variable [DecidableEq T]

/-- The step has a result, which the specification allows. -/
def Steps (c : Config) (rounds : ℕ) (low : Prop) (s : System T) (b : Book T) (a : Action T) :
    Prop :=
  ∃ s' entries b', step c rounds s a = some (s', entries) ∧ Served c b a entries b' ∧
    Coupled c low s' b'

/-- A step that returns nothing and leaves the state. -/
theorem Coupled.stay {act : Action T} (h : Coupled c low s b)
    (hstep : step c rounds s act = some (s, [])) (hanswers : b.Answers c [] act) :
    Steps c rounds low s b act :=
  ⟨s, [], b, hstep, ⟨hanswers, rfl⟩, h⟩

theorem malloc_steps (h : Coupled c low s b) (hrounds : c.heapEnd < rounds) (size : ℕ) :
    Steps c rounds low s b (.malloc size) := by
  obtain ⟨bs, hstored, hlow⟩ := h.stored
  have hcall : step c rounds s (.malloc size) = mallocStep c rounds s size := rfl
  rw [mallocStep] at hcall
  rcases rtMalloc_spec hstored.sound hrounds size with
    ⟨heap, bs', a, n, hmalloc, ha, hn, -⟩ | ⟨hmalloc, -⟩
  · obtain ⟨data, hallocate, hlength, hnew, hlease, hstored', hlow'⟩ :=
      h.allocated hstored hlow ha none
    simp only [hmalloc, Option.map_some, hallocate] at hcall
    refine ⟨_, _, _, hcall, ⟨.inr ⟨_, data, rfl, hnew, fun hwrap => ?_⟩, rfl⟩,
      h.relet ⟨bs', hstored', hlow'⟩ (fun t g _ lease hr => ?_) (b.lease_put _ (some data) none)
        rfl⟩
    · have hsize : size ≤ c.mallocSize size := (le_rtAlign hwrap).trans (le_max_left _ _)
      omega
    · rw [hlease] at hr
      cases hr
  · simp only [hmalloc, Option.map_some] at hcall
    exact ⟨s, [.noMemory], b, hcall, ⟨.inl rfl, rfl⟩, h⟩

/-- A block that no thread is moving is given back. -/
theorem Coupled.freed (h : Coupled c low s b) {rmem : ℕ}
    (hstored : ∃ bs, Stored c heap bs (Function.update b.blocks rmem none) ∧
      (low → Lowest heap bs))
    (hidle : ∀ t g, s.growing t = some g → ∀ lease, s.leases rmem = some lease →
      lease.thread ≠ some t) :
    Coupled c low ({ s with heap := heap }.lease rmem none) (b.next (.freed rmem)) :=
  h.relet hstored hidle (b.lease_put rmem none none) rfl

theorem free_steps (h : Coupled c low s b) (rmem : ℕ) : Steps c rounds low s b (.free rmem) := by
  have hcall : step c rounds s (.free rmem) = freeStep c s rmem := rfl
  rcases hlease : s.leases rmem with _ | ⟨size, _ | t⟩
  · refine h.stay (by rw [hcall, freeStep, hlease]) ?_
    simp [Book.Answers, h.not_usable (r := rmem) (by simp [hlease])]
  · obtain ⟨data, hdata, -, husable⟩ := h.usable hlease
    obtain ⟨bs, hstored, hlow⟩ := h.stored
    obtain ⟨heap, bs', hfree, hstored', hlow'⟩ := hstored.free hdata
    rw [freeStep, hlease] at hcall
    dsimp only at hcall
    rw [hfree, Option.map_some] at hcall
    refine ⟨_, _, _, hcall, ⟨?_, rfl⟩,
      h.freed ⟨bs', hstored', fun hl => hlow' (hlow hl)⟩ (not_moved hlease)⟩
    simp only [Book.Answers, husable]
  · refine h.stay (by rw [hcall, freeStep, hlease]) ?_
    simp [Book.Answers, h.not_usable (r := rmem) (by simp [hlease])]

/-- A block has become smaller. -/
theorem Coupled.shrunk (h : Coupled c False s b) {data : List UInt8} {size newsize : ℕ}
    (hlease : s.leases (a + c.sizeofStructMem) = some ⟨size, none⟩)
    (hstored : Stored c s.heap bs b.blocks)
    (hdata : b.blocks (a + c.sizeofStructMem) = some data) (hle : newsize ≤ data.length)
    (hshrunk : Shrunk c s.heap heap bs bs' a (c.sizeofStructMem + newsize)) :
    Coupled c False
      ({ s with heap := heap }.lease (a + c.sizeofStructMem) (some ⟨newsize, none⟩))
      (b.next (.resized (a + c.sizeofStructMem) newsize)) := by
  have hblocks : Function.update b.blocks (a + c.sizeofStructMem)
      ((b.blocks (a + c.sizeofStructMem)).map (List.take newsize)) =
        Function.update b.blocks (a + c.sizeofStructMem) (some (data.take newsize)) := by
    rw [hdata, Option.map_some]
  have hmoving : b.moving (a + c.sizeofStructMem) = none := by
    obtain ⟨old, -, -, hmoving⟩ := h.block hlease
    exact hmoving
  have hput : b.next (.resized (a + c.sizeofStructMem) newsize) =
      b.put (a + c.sizeofStructMem) (some (data.take newsize)) none := by
    rw [Book.next, hblocks, Book.put, ← hmoving, Function.update_eq_self]
  rw [hput]
  refine h.relet ⟨bs', hstored.resized hdata hle hshrunk, False.elim⟩ (not_moved hlease) ?_ rfl
  rw [Book.lease_put, Option.map_some, List.length_take, Nat.min_eq_left hle]

/-- A block is to be moved. -/
theorem Coupled.grows (h : Coupled c low s b) {rmem size newsize : ℕ}
    (hlease : s.leases rmem = some ⟨size, none⟩) (hsize : newsize ≤ c.memSizeAligned) :
    Coupled c low ((s.lease rmem (some ⟨size, some thread⟩)).grow thread
      (some (.allocating rmem size newsize))) (b.next (.grows thread rmem newsize)) := by
  obtain ⟨data, hdata, hlength, -⟩ := h.block hlease
  refine h.grow h.stored (fun t _ => thread_ne hlease (Option.some_ne_none t)) ?_
    ⟨rfl, hsize, Function.update_self _ _ _⟩
  exact (b.lease_hand hdata (some thread)).trans (by rw [hlength])

theorem realloc_steps (h : Coupled c False s b) (rmem newsize : ℕ) :
    Steps c rounds False s b (.realloc thread rmem newsize) := by
  have hcall : step c rounds s (.realloc thread rmem newsize) =
    reallocStep c s thread rmem newsize := rfl
  rcases hlease : s.leases rmem with _ | ⟨size, _ | t⟩
  · refine h.stay (by rw [hcall, reallocStep, hlease]) ?_
    simp [Book.Answers, h.not_usable (r := rmem) (by simp [hlease])]
  · obtain ⟨data, hdata, hlength, husable⟩ := h.usable hlease
    rcases hgrowing : s.growing thread with _ | g
    · obtain ⟨bs, hstored, -⟩ := h.stored
      obtain ⟨a, rfl, hused⟩ := hstored.block hdata
      obtain ⟨r, hrealloc, hresized⟩ := rtRealloc_spec hstored.sound hused (dvd_rtAlign _ newsize)
      have hanswers {entries : List (Entry T)} (hresizes : Resizes c thread
          (a + c.sizeofStructMem) (rtAlign c.alignBits newsize) data entries) :
          b.Answers c entries (.realloc thread (a + c.sizeofStructMem) newsize) := by
        simpa only [Book.Answers, husable, h.request_eq_none hgrowing] using hresizes
      rw [reallocStep, hlease, hgrowing] at hcall
      simp only [hrealloc, Option.map_some] at hcall
      cases hresized with
      | null hlarge => exact ⟨_, _, _, hcall, ⟨hanswers (.inl ⟨hlarge, rfl⟩), rfl⟩, h⟩
      | @freed heap bs' hzero hfreed =>
        exact ⟨_, _, _, hcall, ⟨hanswers (.inr (.inl ⟨hzero, rfl⟩)), rfl⟩,
          h.freed ⟨bs', hstored.freed hfreed, False.elim⟩ (not_moved hlease)⟩
      | same hsame =>
        exact h.stay hcall (hanswers (.inr (.inr (.inl ⟨by omega, rfl⟩))))
      | @shrunk heap bs' hpos hless hshrunk =>
        have hlt : rtAlign c.alignBits newsize < data.length := by omega
        exact ⟨_, _, _, hcall,
          ⟨hanswers (.inr (.inr (.inr (.inl ⟨Nat.pos_of_ne_zero hpos, hlt, rfl⟩)))), rfl⟩,
          h.shrunk hlease hstored hdata hlt.le hshrunk⟩
      | grows hpos hsize =>
        have hcopied : c.sizeofStructMem + data.length - c.sizeofStructMem = size := by omega
        rw [hcopied] at hcall
        exact ⟨_, _, _, hcall,
          ⟨hanswers (.inr (.inr (.inr (.inr ⟨Nat.pos_of_ne_zero hpos, hsize, rfl⟩)))), rfl⟩,
          h.grows hlease hsize⟩
    · obtain ⟨request, hrequest⟩ := h.exists_request hgrowing
      refine h.stay (by rw [hcall, reallocStep, hlease, hgrowing]) ?_
      simp only [Book.Answers, husable, hrequest]
  · refine h.stay (by rw [hcall, reallocStep, hlease]) ?_
    simp [Book.Answers, h.not_usable (r := rmem) (by simp [hlease])]

/-- `rt_realloc` has got its new block, or none. -/
theorem allocating_steps (h : Coupled c low s b) (hrounds : c.heapEnd < rounds)
    {rmem size newsize : ℕ} (hgrowing : s.growing thread = some (.allocating rmem size newsize)) :
    Steps c rounds low s b (.goOn thread) := by
  have hagrees := h.agrees thread
  rw [hgrowing] at hagrees
  obtain ⟨hrequest, hsize, hlease⟩ := hagrees
  obtain ⟨bs, hstored, hlow⟩ := h.stored
  have hcall : step c rounds s (.goOn thread) = goOnStep c rounds s thread := rfl
  rw [goOnStep, hgrowing] at hcall
  dsimp only at hcall
  rcases rtMalloc_spec hstored.sound hrounds newsize with
    ⟨heap, bs', a, n, hmalloc, ha, hn, -⟩ | ⟨hmalloc, -⟩
  · obtain ⟨data, hallocate, hlength, hnew, hnone, hstored', hlow'⟩ :=
      h.allocated hstored hlow ha (some thread)
    have hne : rmem ≠ a + c.sizeofStructMem := by
      rintro rfl
      rw [hlease] at hnone
      cases hnone
    have hle : newsize ≤ data.length := by
      have hwrap : newsize + 2 ^ c.alignBits ≤ 2 ^ 32 := by
        have hpow : 2 ^ c.alignBits ≤ c.sizeofStructMem :=
          Nat.le_of_dvd (by have := c.sizeof_fields; omega) c.sizeof_aligned
        have hlt := c.heapEnd_lt
        unfold Config.heapEnd at hlt
        omega
      have hle : newsize ≤ c.mallocSize newsize := (le_rtAlign hwrap).trans (le_max_left _ _)
      omega
    simp only [hmalloc, Option.map_some, hallocate] at hcall
    refine ⟨_, _, _, hcall, ⟨?_, rfl⟩, h.grow ⟨bs', hstored', hlow'⟩ (fun t _ lease hr => ?_)
      (b.lease_put _ (some data) (some thread)) ?_⟩
    · simp only [Book.Answers, hrequest]
      exact .inr ⟨_, data, rfl, hnew, hle⟩
    · rw [hnone] at hr
      cases hr
    · exact ⟨hne, size, data.length, newsize, rfl, (Function.update_of_ne hne _ _).trans hlease,
        Function.update_self _ _ _, rfl, hle⟩
  · obtain ⟨data, hdata, hlength, -⟩ := h.block hlease
    simp only [hmalloc, Option.map_some] at hcall
    refine ⟨_, _, _, hcall, ⟨?_, rfl⟩,
      h.grow h.stored (fun t ht => thread_ne hlease fun heq => ht (Option.some.inj heq))
        ((b.lease_hand hdata none).trans (by rw [hlength])) rfl⟩
    simp only [Book.Answers, hrequest, true_or]

/-- The bytes are in the new block, which passes to the callers. -/
theorem Coupled.copied (h : Coupled c low s b) {rmem nmem count : ℕ} {old new : List UInt8}
    (hold : b.blocks rmem = some old) (hnew : b.blocks nmem = some new)
    (hnlease : s.leases nmem = some ⟨new.length, some thread⟩)
    (hfits : 0 + (old.take count).length ≤ new.length) :
    Coupled c low
      (({ s with heap := { s.heap with
          ram := writeBytes s.heap.ram nmem (old.take count) } }.lease nmem
        (some ⟨new.length, none⟩)).grow thread none)
      (b.next (.copied thread rmem nmem count)) := by
  obtain ⟨bs, hstored, hlow⟩ := h.stored
  have hwrote := hstored.wrote hnew hfits
  rw [Nat.add_zero] at hwrote
  obtain ⟨data, hdata, hsame⟩ := Option.map_eq_some_iff.mp
    ((Ledger.write_length hnew hfits nmem).trans (congrArg _ hnew))
  have hhand := Book.lease_hand
    (b := { b with blocks := b.blocks.write nmem 0 (old.take count) }) hdata none
  rw [Book.lease_write hnew hfits, hsame] at hhand
  rw [Book.next, hold, Option.getD_some]
  exact h.grow ⟨bs, hwrote, hlow⟩
    (fun t ht => thread_ne hnlease fun heq => ht (Option.some.inj heq)) hhand rfl

/-- The data is in its new place, and the old block is given back. -/
theorem moving_steps (h : Coupled c low s b) {rmem nmem count : ℕ}
    (hgrowing : s.growing thread = some (.moving rmem nmem count)) :
    Steps c rounds low s b (.goOn thread) := by
  have hagrees := h.agrees thread
  rw [hgrowing] at hagrees
  obtain ⟨hne, size, nsize, newsize, hrequest, hlease, hnlease, rfl, hle⟩ := hagrees
  obtain ⟨old, hold, rfl, -⟩ := h.block hlease
  obtain ⟨new, hnew, rfl, -⟩ := h.block hnlease
  obtain ⟨bs, hstored, hlow⟩ := h.stored
  have hfits : 0 + (old.take (min old.length newsize)).length ≤ new.length := by
    rw [List.length_take]
    omega
  have hread : readBytes s.heap.ram rmem (min old.length newsize) =
      old.take (min old.length newsize) := hstored.found 0 hold (by omega)
  have hwrote := hstored.wrote hnew hfits
  rw [Nat.add_zero] at hwrote
  have hkept : b.blocks.write nmem 0 (old.take (min old.length newsize)) rmem = some old := by
    rw [Ledger.write_apply hnew, if_neg hne, hold]
  obtain ⟨heap, bs', hfree, hstored', hlow'⟩ := hwrote.free hkept
  have hcall : step c rounds s (.goOn thread) = goOnStep c rounds s thread := rfl
  rw [goOnStep, hgrowing] at hcall
  dsimp only at hcall
  rw [hread, hfree, hnlease, Option.map_some, Option.map_some] at hcall
  have hothers (t : T) (g : Growing) (hg : Function.update s.growing thread none t = some g)
      (lease : Lease T)
      (hr : Function.update s.leases nmem (some ⟨new.length, none⟩) rmem = some lease) :
      lease.thread ≠ some t := by
    rw [Function.update_of_ne hne] at hr
    refine thread_ne hlease (fun heq => ?_) lease hr
    rw [Option.some.inj heq, Function.update_self] at hg
    cases hg
  have hblocks : (b.next (.copied thread rmem nmem (min old.length newsize))).blocks =
      b.blocks.write nmem 0 (old.take (min old.length newsize)) := by
    rw [Book.next, hold, Option.getD_some]
    rfl
  refine ⟨_, _, _, hcall, ⟨?_, rfl⟩, (h.copied hold hnew hnlease hfits).freed
    ⟨bs', hblocks ▸ hstored', fun hl => hlow' (hlow hl)⟩ hothers⟩
  simp only [Book.Answers, hrequest]
  exact ⟨old, hold, rfl⟩

theorem goOn_steps (h : Coupled c low s b) (hrounds : c.heapEnd < rounds) (thread : T) :
    Steps c rounds low s b (.goOn thread) := by
  rcases hgrowing : s.growing thread with _ | ⟨rmem, size, newsize⟩ | ⟨rmem, nmem, count⟩
  · refine h.stay (by rw [step, goOnStep, hgrowing]) ?_
    simp only [Book.Answers, h.request_eq_none hgrowing]
  · exact allocating_steps h hrounds hgrowing
  · exact moving_steps h hgrowing

/-- Bytes of a block are written. -/
theorem Coupled.wrote (h : Coupled c low s b) {r : ℕ} {old : List UInt8} (offset : ℕ)
    (data : List UInt8) (hm : b.blocks r = some old) (hfits : offset + data.length ≤ old.length) :
    Coupled c low
      { s with heap := { s.heap with ram := writeBytes s.heap.ram (r + offset) data } }
      (b.next (.wrote r offset data)) := by
  obtain ⟨bs, hstored, hlow⟩ := h.stored
  exact ⟨⟨bs, hstored.wrote hm hfits, hlow⟩, h.leases.trans (Book.lease_write hm hfits).symm,
    h.agrees⟩

theorem write_steps (h : Coupled c low s b) (rmem offset : ℕ) (data : List UInt8) :
    Steps c rounds low s b (.write rmem offset data) := by
  rcases hlease : s.leases rmem with _ | ⟨size, _ | t⟩
  · refine h.stay (by rw [step, hlease]) ?_
    simp [Book.Answers, h.not_usable (r := rmem) (by simp [hlease])]
  · obtain ⟨old, hold, rfl, husable⟩ := h.usable hlease
    by_cases hfits : offset + data.length ≤ old.length
    · refine ⟨_, [.wrote rmem offset data], _, ?_, ⟨?_, rfl⟩, h.wrote offset data hold hfits⟩
      · rw [step, hlease]
        exact if_pos hfits
      · simp only [Book.Answers, husable, if_pos hfits]
    · refine h.stay (by rw [step, hlease]; exact if_neg hfits) ?_
      simp only [Book.Answers, husable, if_neg hfits]
  · refine h.stay (by rw [step, hlease]) ?_
    simp [Book.Answers, h.not_usable (r := rmem) (by simp [hlease])]

theorem read_steps (h : Coupled c low s b) (rmem offset count : ℕ) :
    Steps c rounds low s b (.read rmem offset count) := by
  rcases hlease : s.leases rmem with _ | ⟨size, _ | t⟩
  · refine h.stay (by rw [step, hlease]) ?_
    simp [Book.Answers, h.not_usable (r := rmem) (by simp [hlease])]
  · obtain ⟨old, hold, rfl, husable⟩ := h.usable hlease
    obtain ⟨bs, hstored, -⟩ := h.stored
    by_cases hfits : offset + count ≤ old.length
    · refine ⟨s, [.found rmem offset (readBytes s.heap.ram (rmem + offset) count)], b, ?_,
        ⟨?_, rfl⟩, h⟩
      · rw [step, hlease]
        exact if_pos hfits
      · simp only [Book.Answers, husable, if_pos hfits, hstored.found offset hold hfits]
    · refine h.stay (by rw [step, hlease]; exact if_neg hfits) ?_
      simp only [Book.Answers, husable, if_neg hfits]
  · refine h.stay (by rw [step, hlease]) ?_
    simp [Book.Answers, h.not_usable (r := rmem) (by simp [hlease])]

/-- Every step under every order of the callers is one of the blocks alone. -/
theorem step_refines (c : Config) {rounds : ℕ} (hrounds : c.heapEnd < rounds) :
    StepRefines (step c rounds) (Served c) (Coupled c False : System T → Book T → Prop)
      fun _ _ => True := by
  intro s b a h _
  cases a with
  | malloc size => exact malloc_steps h hrounds size
  | free rmem => exact free_steps h rmem
  | realloc thread rmem newsize => exact realloc_steps h rmem newsize
  | goOn thread => exact goOn_steps h hrounds thread
  | write rmem offset data => exact write_steps h rmem offset data
  | read rmem offset count => exact read_steps h rmem offset count

/-- Without `rt_realloc` no free block is passed over. -/
theorem step_refines_plain (c : Config) {rounds : ℕ} (hrounds : c.heapEnd < rounds) :
    StepRefines (step c rounds) (Served c) (Coupled c True : System Empty → Book Empty → Prop)
      fun _ _ => True := by
  intro s b a h _
  cases a with
  | malloc size => exact malloc_steps h hrounds size
  | free rmem => exact free_steps h rmem
  | realloc thread rmem newsize => exact thread.elim
  | goOn thread => exact thread.elim
  | write rmem offset data => exact write_steps h rmem offset data
  | read rmem offset count => exact read_steps h rmem offset count

end Steps

section Runs

variable {T : Type*} {c : Config} {s : System T} {b : Book T} {low : Prop}

/-- The bytes in use, as `used_mem` counts them. -/
theorem Coupled.usedMem (h : Coupled c low s b) : ∃ live : Finset ℕ,
    (∀ r, r ∈ live ↔ b.blocks r ≠ none) ∧
      s.heap.usedMem = ∑ r ∈ live, (c.sizeofStructMem + ((b.blocks r).getD []).length) := by
  obtain ⟨bs, hstored, -⟩ := h.stored
  have hsize (a n : ℕ) (hin : Used bs a n) :
      c.sizeofStructMem + ((b.blocks (a + c.sizeofStructMem)).getD []).length = n := by
    obtain ⟨data, hdata, rfl⟩ := (hstored.used a n).mp hin
    rw [hdata, Option.getD_some]
  obtain ⟨starts, hmem, hsum⟩ := usedTotal_eq_sum hstored.sound.pos hsize
  refine ⟨starts.map (addRightEmbedding c.sizeofStructMem), fun r => ?_, ?_⟩
  · rw [Finset.mem_map]
    constructor
    · rintro ⟨a, ha, rfl⟩
      obtain ⟨n, hn⟩ := (hmem a).mp ha
      obtain ⟨data, hdata, -⟩ := (hstored.used a n).mp hn
      rw [addRightEmbedding_apply, hdata]
      exact Option.some_ne_none data
    · intro hr
      obtain ⟨data, hdata⟩ := Option.ne_none_iff_exists'.mp hr
      obtain ⟨a, rfl, hused⟩ := hstored.block hdata
      exact ⟨a, (hmem a).mpr ⟨_, hused⟩, rfl⟩
  · rw [Finset.sum_map, hstored.sound.usedMem, hsum]
    rfl

/-- The heap under any order of its callers' steps: no step fails; every block that is returned is
apart from the others; it is as large as asked for unless `RT_ALIGN` wraps the size; it holds what
its owner writes until it is given back; `rt_realloc` keeps as much of it as fits the new size; and
`used_mem` counts exactly the live blocks. -/
theorem run_stored [DecidableEq T] (c : Config) (ram : ℕ → UInt8) : ∃ enough, ∀ rounds,
    enough ≤ rounds → ∀ actions : List (Action T), ∃ s entries b,
      run (step c rounds) (initial c ram) actions = some (s, entries) ∧
      Allowed (Served c) Book.empty actions entries b ∧
      ∃ live : Finset ℕ, (∀ r, r ∈ live ↔ b.blocks r ≠ none) ∧
        s.heap.usedMem = ∑ r ∈ live, (c.sizeofStructMem + ((b.blocks r).getD []).length) := by
  refine ⟨c.heapEnd + 1, fun rounds hrounds actions => ?_⟩
  obtain ⟨s, entries, b, hrun, hallowed, hcoupled⟩ :=
    (step_refines c (Nat.lt_of_succ_le hrounds)).run (initial_coupled c ram False)
      (guarded_of_forall (fun _ _ => trivial) _ actions)
  exact ⟨s, entries, b, hrun, hallowed, hcoupled.usedMem⟩

/-- Room for a block at `a`, apart from all blocks and their heads. -/
def Ledger.Room (c : Config) (m : Ledger) (a size : ℕ) : Prop :=
  a + size < c.memSizeAligned ∧ ∀ r old, m r = some old →
    r + old.length ≤ a ∨ a + c.sizeofStructMem + size + c.sizeofStructMem ≤ r

/-- Where there is room for a block, there is room in a free block. -/
theorem Stored.free_of_room {h : Heap} {bs : List Block} {m : Ledger} {a size : ℕ}
    (hs : Stored c h bs m) (hroom : m.Room c a size) :
    ∃ p n, Free bs p n ∧ p ≤ a ∧ a + c.sizeofStructMem + size ≤ p + n := by
  obtain ⟨hfar, hapart⟩ := hroom
  have hused (p n : ℕ) (hp : Used bs p n) : p + n ≤ a ∨ a + c.sizeofStructMem + size ≤ p := by
    obtain ⟨data, hdata, rfl⟩ := (hs.used p n).mp hp
    rcases hapart _ data hdata with hle | hle <;> omega
  have htotal := hs.sound.covers
  have hend : c.heapEnd = c.memSizeAligned + c.sizeofStructMem := rfl
  have hfields := c.sizeof_fields
  obtain ⟨p, ⟨n, used⟩, hin, hle, hlt⟩ := exists_located bs (Nat.zero_le a) (by omega)
  dsimp only at hlt
  cases used with
  | true =>
    have := hused p n hin
    omega
  | false =>
    refine ⟨p, n, hin, hle, ?_⟩
    rcases hs.sound.merged.behind hin with hlast | ⟨k, hbehind⟩
    · omega
    · have := hused _ k hbehind
      omega

/-- Without `rt_realloc`, which may cut off memory below `lfree`, no memory is lost: after any
order of the callers' steps `rt_malloc` returns no block exactly when there is no room for it
between the live ones. -/
theorem run_findsRoom (c : Config) (ram : ℕ → UInt8) : ∃ enough, ∀ rounds, enough ≤ rounds →
    ∀ actions : List (Action Empty), ∃ s entries b,
      run (step c rounds) (initial c ram) actions = some (s, entries) ∧
      Allowed (Served c) Book.empty actions entries b ∧
      ∀ size, (rtMalloc c rounds s.heap size).map Prod.snd = some none ↔
        size = 0 ∨ c.memSizeAligned < rtAlign c.alignBits size ∨
          ∀ a, ¬ b.blocks.Room c a (c.mallocSize size) := by
  refine ⟨c.heapEnd + 1, fun rounds hrounds actions => ?_⟩
  obtain ⟨s, entries, b, hrun, hallowed, hcoupled⟩ :=
    (step_refines_plain c (Nat.lt_of_succ_le hrounds)).run (initial_coupled c ram True)
      (guarded_of_forall (fun _ _ => trivial) _ actions)
  refine ⟨s, entries, b, hrun, hallowed, fun size => ?_⟩
  obtain ⟨bs, hstored, hlow⟩ := hcoupled.stored
  have hlowest := hlow trivial
  rcases rtMalloc_spec hstored.sound (Nat.lt_of_succ_le hrounds) size with
    ⟨heap, bs', a, n, hmalloc, ha, hn, hfar⟩ | ⟨hmalloc, hnone⟩
  · constructor
    · intro heq
      rw [hmalloc] at heq
      cases heq
    · rintro (hzero | hlarge | hfull)
      · rw [rtMalloc_none s.heap (.inl hzero), Option.map_some]
      · rw [rtMalloc_none s.heap (.inr hlarge), Option.map_some]
      · obtain ⟨hlength, -, ⟨-, -, -, hapart⟩, -⟩ := hstored.allocated ha
        refine absurd ⟨hfar, fun r old hr => ?_⟩ (hfull a)
        rcases hapart r old hr with hle | hle <;> omega
  · rw [hmalloc]
    refine ⟨fun _ => ?_, fun _ => rfl⟩
    refine hnone.imp_right (Or.imp_right fun hfull a hroom => ?_)
    obtain ⟨p, n, hfree, hle, hfits⟩ := hstored.free_of_room hroom
    have hlast := hfull p n hfree (hlowest p n hfree) (by omega)
    have hfar := hroom.1
    omega

/-- Memory that `rt_realloc` has cut off below `lfree`. -/
example :
    let c : Config := ⟨2, 16, 0, 200, by decide, by decide, by decide, by decide⟩
    (run (step c 10) (initial c 0)
      [.malloc 80, .malloc 60, .realloc () 16 12, .malloc 12]).map (·.2.getLast?) =
        some (some [.noMemory]) := by
  decide +kernel

end Runs

end VehicleTerminal.Kernel.Mem
