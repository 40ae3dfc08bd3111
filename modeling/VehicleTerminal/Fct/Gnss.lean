import VehicleTerminal.Library.Memory
import VehicleTerminal.Library.CString

/-! The receive interrupt of `fct_driver.c` for GNSS sentences. A byte that is stored outside
`buf` leaves the interrupt without result. -/
namespace VehicleTerminal.Gnss
open BlockMemory CString

section Model

def recGnss232 : ℕ := 100

structure PrtlRecGnss where
  length : ℕ
  buf : List UInt8
  deriving Repr, DecidableEq

/-- The variable `gnss_rec` and the flag `g_Gnss.gnss_ok`. -/
structure State where
  gnssRec : PrtlRecGnss
  gnssOk : Bool
  deriving Repr, DecidableEq

def zeroed : State := ⟨⟨0, List.replicate recGnss232 0⟩, false⟩

/-- `gnss_rec.buf[gnss_rec.length++]=temp` -/
def PrtlRecGnss.put (r : PrtlRecGnss) (temp : UInt8) : Option PrtlRecGnss :=
  (store r.buf r.length temp).map fun buf => ⟨(r.length + 1) % 256, buf⟩

/-- The headers of the sentences that set the flag. -/
def rmc : List (List UInt8) := [ascii "$GPRMC", ascii "$GNRMC", ascii "$BDRMC"]

/-- The headers that are only compared are left out: nothing is done for them. -/
def gnssRecIsr (s : State) (temp : UInt8) : Option State :=
  if temp = 0x24 then
    ({ s.gnssRec with length := 0 }.put temp).map fun r => { s with gnssRec := r }
  else if 0x0a = temp then
    (s.gnssRec.put temp).bind fun r =>
      (rmc.anyM fun header => strncmpEq header r.buf 0).map fun found =>
        ⟨r, s.gnssOk || found⟩
  else if s.gnssRec.length < recGnss232 then
    (s.gnssRec.put temp).map fun r => { s with gnssRec := r }
  else some s

def run (stream : List UInt8) : Option State := stream.foldlM gnssRecIsr zeroed

end Model

section Property

/-- The bytes since the last dollar sign, with it; all bytes if there was none. -/
def sinceDollar (stream : List UInt8) : List UInt8 :=
  stream.foldl (fun sentence b => if b = 0x24 then [b] else sentence ++ [b]) []

/-- A byte that should set the flag. -/
def Sets (p : List UInt8) (b : UInt8) : Prop :=
  b = 0x0a ∧ ∃ header ∈ rmc, header <+: sinceDollar (p ++ [b])

instance (p : List UInt8) (b : UInt8) : Decidable (Sets p b) := inferInstanceAs (Decidable (_ ∧ _))

/-- Nothing is stored outside the buffer, and an interrupt that finds the flag cleared sets it
only at a line feed that ends a sentence with one of the headers. -/
structure Receives (stream : List UInt8) : Prop where
  inside : ∀ p, p <+: stream → ∃ s, run p = some s ∧ s.gnssRec.length ≤ recGnss232 ∧
    s.gnssRec.buf.length = recGnss232
  sets : ∀ p b s s', p ++ [b] <+: stream → run p = some s →
    gnssRecIsr { s with gnssOk := false } b = some s' → s'.gnssOk = true → Sets p b

/-- A line feed arrives when the buffer is full. -/
def OverlongFeed (stream : List UInt8) : Prop :=
  ∃ p, p ++ [0x0a] <+: stream ∧ recGnss232 ≤ (sinceDollar p).length

/-- The buffer holds the bytes of the current sentence, as far as they fit. -/
structure Holding (sentence : List UInt8) (r : PrtlRecGnss) : Prop where
  allocated : r.buf.length = recGnss232
  length : r.length = min sentence.length recGnss232
  content : r.buf.take r.length = sentence.take recGnss232

section Steps

variable {p stream sentence : List UInt8} {b : UInt8} {r : PrtlRecGnss} {s s' : State}

theorem run_concat (p : List UInt8) (b : UInt8) :
    run (p ++ [b]) = (run p).bind fun s => gnssRecIsr s b := by
  simp only [run, List.foldlM_append, List.foldlM_cons, List.foldlM_nil, bind_pure]
  rfl

theorem sinceDollar_concat (p : List UInt8) (b : UInt8) :
    sinceDollar (p ++ [b]) = if b = 0x24 then [b] else sinceDollar p ++ [b] := by
  rw [sinceDollar, List.foldl_append]
  rfl

theorem sinceDollar_of_not_mem (h : 0x24 ∉ p) : sinceDollar p = p := by
  induction p using List.reverseRecOn with
  | nil => rfl
  | append_singleton p b ih =>
    rw [List.mem_append, not_or, List.mem_singleton] at h
    rw [sinceDollar_concat, if_neg (Ne.symm h.2), ih h.1]

theorem holding_nil (h : r.buf.length = recGnss232) : Holding [] { r with length := 0 } where
  allocated := h
  length := rfl
  content := rfl

theorem Holding.room_iff (h : Holding sentence r) :
    r.length < recGnss232 ↔ sentence.length < recGnss232 := by
  rw [h.length]
  omega

/-- A byte behind a sentence that leaves room for it. -/
theorem Holding.put (h : Holding sentence r) (hroom : sentence.length < recGnss232) (b : UInt8) :
    ∃ r', r.put b = some r' ∧ Holding (sentence ++ [b]) r' := by
  have hlength : r.length = sentence.length := by rw [h.length, Nat.min_eq_left hroom.le]
  have halloc := h.allocated
  refine ⟨⟨r.length + 1, blit r.buf r.length [b]⟩, ?_, ?_, ?_, ?_⟩
  · rw [PrtlRecGnss.put, store_of_lt b (by omega), Option.map_some, Nat.mod_eq_of_lt]
    simp only [recGnss232] at hroom
    omega
  · rw [blit_length _ _ _ (by simp; omega), halloc]
  · rw [List.length_append, List.length_singleton, Nat.min_eq_left hroom, hlength]
  · have htake := take_blit r.buf r.length [b] (by omega)
    rw [List.length_singleton] at htake
    rw [htake, h.content, List.take_of_length_le hroom.le, List.take_of_length_le]
    rw [List.length_append, List.length_singleton]
    exact hroom

/-- A full buffer stays as it is. -/
theorem Holding.overlong (h : Holding sentence r) (hfull : recGnss232 ≤ sentence.length)
    (b : UInt8) : Holding (sentence ++ [b]) r where
  allocated := h.allocated
  length := by
    rw [h.length, List.length_append]
    omega
  content := by rw [h.content, List.take_append_of_le_length hfull]

/-- A full buffer cannot take a byte. -/
theorem Holding.put_eq_none (h : Holding sentence r) (hfull : recGnss232 ≤ sentence.length)
    (b : UInt8) : r.put b = none := by
  have hlength := h.length
  rw [PrtlRecGnss.put, store_eq_none_iff.mpr, Option.map_none]
  rw [h.allocated]
  omega

theorem lineFeed_not_mem_rmc : ∀ header ∈ rmc, (0x0a : UInt8) ∉ header := by decide

theorem rmc_length : ∀ header ∈ rmc, header.length = 6 := by decide

theorem anyM_eq_some {α : Type*} {f : α → Option Bool} {g : α → Bool} {xs : List α}
    (h : ∀ x ∈ xs, f x = some (g x)) : xs.anyM f = some (xs.any g) := by
  induction xs with
  | nil => rfl
  | cons x xs ih =>
    have hx := h x List.mem_cons_self
    have hxs := ih fun y hy => h y (List.mem_cons_of_mem x hy)
    cases hg : g x <;> simp [List.anyM, hx, hxs, hg]

/-- The headers are found in the buffer exactly when the sentence begins with one: what an
earlier sentence left lies behind the line feed. -/
theorem anyM_rmc (h : Holding (sentence ++ [0x0a]) r) (hroom : sentence.length < recGnss232) :
    rmc.anyM (fun header => strncmpEq header r.buf 0) =
      some (decide (∃ header ∈ rmc, header <+: sentence ++ [0x0a])) := by
  have hstored : sentence ++ [0x0a] <+: r.buf := by
    have hcontent := h.content
    rw [List.take_of_length_le (l := sentence ++ [0x0a]) (by simp; omega)] at hcontent
    rw [← hcontent]
    exact List.take_prefix _ _
  have hfound : ∀ header ∈ rmc,
      strncmpEq header r.buf 0 = some (decide (header <+: sentence ++ [0x0a])) := by
    intro header hheader
    have hlength : header.length ≤ r.buf.length := by
      rw [rmc_length header hheader, h.allocated]
      decide
    rw [strncmpEq_of_le (by omega), List.drop_zero]
    exact congrArg some
      (decide_eq_decide.mpr (isPrefix_iff_of_mark hstored (lineFeed_not_mem_rmc header hheader)))
  rw [anyM_eq_some hfound, List.any_eq]
  simp

/-- One byte, unless it is a line feed that finds the buffer full. -/
theorem gnssRecIsr_eq (h : Holding (sinceDollar p) s.gnssRec)
    (hb : ¬ (b = 0x0a ∧ recGnss232 ≤ (sinceDollar p).length)) :
    ∃ r, gnssRecIsr s b = some ⟨r, s.gnssOk || decide (Sets p b)⟩ ∧
      Holding (sinceDollar (p ++ [b])) r := by
  have hsince := sinceDollar_concat p b
  by_cases hdollar : b = 0x24
  · obtain ⟨r, hput, hr⟩ := (holding_nil h.allocated).put (by decide) b
    have hsets : ¬ Sets p b := fun hs => by
      rw [hs.1] at hdollar
      exact absurd hdollar (by decide)
    refine ⟨r, ?_, by rwa [hsince, if_pos hdollar]⟩
    rw [gnssRecIsr, if_pos hdollar, hput, Option.map_some, decide_eq_false hsets, Bool.or_false]
  rw [hsince, if_neg hdollar]
  by_cases hfeed : b = 0x0a
  · have hroom : (sinceDollar p).length < recGnss232 := by
      by_contra hfull
      exact hb ⟨hfeed, not_lt.mp hfull⟩
    obtain ⟨r, hput, hr⟩ := h.put hroom b
    refine ⟨r, ?_, hr⟩
    subst hfeed
    have hsets : Sets p 0x0a ↔ ∃ header ∈ rmc, header <+: sinceDollar p ++ [0x0a] := by
      rw [Sets, hsince, if_neg hdollar, and_iff_right rfl]
    rw [gnssRecIsr, if_neg hdollar, if_pos rfl, hput, Option.bind_some, anyM_rmc hr hroom,
      Option.map_some, decide_eq_decide.mpr hsets]
  · have hsets : ¬ Sets p b := fun hs => hfeed hs.1
    rw [gnssRecIsr, if_neg hdollar, if_neg (Ne.symm hfeed), decide_eq_false hsets, Bool.or_false]
    by_cases hroom : (sinceDollar p).length < recGnss232
    · obtain ⟨r, hput, hr⟩ := h.put hroom b
      exact ⟨r, by rw [if_pos (h.room_iff.mpr hroom), hput, Option.map_some], hr⟩
    · exact ⟨s.gnssRec, by rw [if_neg fun hlt => hroom (h.room_iff.mp hlt)],
        h.overlong (not_lt.mp hroom) b⟩

theorem gnssRecIsr_overlong (h : Holding (sinceDollar p) s.gnssRec)
    (hfull : recGnss232 ≤ (sinceDollar p).length) : gnssRecIsr s 0x0a = none := by
  rw [gnssRecIsr, if_neg (by decide), if_pos rfl, h.put_eq_none hfull, Option.bind_none]

/-- Without a line feed into a full buffer, every state on the way holds the current sentence. -/
theorem run_holding (h : ¬ OverlongFeed stream) :
    ∃ s, run stream = some s ∧ Holding (sinceDollar stream) s.gnssRec := by
  induction stream using List.reverseRecOn with
  | nil => exact ⟨zeroed, rfl, holding_nil (r := zeroed.gnssRec) (by simp [zeroed])⟩
  | append_singleton p b ih =>
    have hp : ¬ OverlongFeed p := fun ⟨q, hq, hfull⟩ =>
      h ⟨q, hq.trans (List.prefix_append p [b]), hfull⟩
    obtain ⟨s, hrun, hs⟩ := ih hp
    have hb : ¬ (b = 0x0a ∧ recGnss232 ≤ (sinceDollar p).length) := by
      rintro ⟨rfl, hfull⟩
      exact h ⟨p, List.prefix_refl _, hfull⟩
    obtain ⟨r, hisr, hr⟩ := gnssRecIsr_eq hs hb
    exact ⟨_, by rw [run_concat, hrun, Option.bind_some, hisr], hr⟩

/-- A line feed into a full buffer ends the defined behaviour. -/
theorem not_overlongFeed_of_run (h : run stream = some s) : ¬ OverlongFeed stream := by
  induction stream using List.reverseRecOn generalizing s with
  | nil =>
    rintro ⟨q, hq, -⟩
    simp at hq
  | append_singleton p b ih =>
    rw [run_concat, Option.bind_eq_some_iff] at h
    obtain ⟨t, hrun, hisr⟩ := h
    rintro ⟨q, hq, hfull⟩
    rcases List.prefix_concat_iff.mp hq with hlast | hbefore
    · obtain ⟨rfl, rfl⟩ : q = p ∧ 0x0a = b := by simpa using hlast
      obtain ⟨t', hrun', ht⟩ := run_holding (ih hrun)
      obtain rfl : t = t' := Option.some_inj.mp (hrun.symm.trans hrun')
      rw [gnssRecIsr_overlong ht hfull] at hisr
      cases hisr
    · exact ih hrun ⟨q, hbefore, hfull⟩

end Steps

/-- The receiver is right on exactly the streams without a line feed that finds a hundred or more
bytes since the last dollar sign. -/
theorem receives_iff (stream : List UInt8) : Receives stream ↔ ¬ OverlongFeed stream := by
  constructor
  · intro h
    obtain ⟨s, hrun, -⟩ := h.inside stream (List.prefix_refl _)
    exact not_overlongFeed_of_run hrun
  · intro h
    have hfront {p : List UInt8} (hp : p <+: stream) : ¬ OverlongFeed p :=
      fun ⟨q, hq, hfull⟩ => h ⟨q, hq.trans hp, hfull⟩
    constructor
    · intro p hp
      obtain ⟨s, hrun, hs⟩ := run_holding (hfront hp)
      refine ⟨s, hrun, ?_, hs.allocated⟩
      rw [hs.length]
      exact Nat.min_le_right _ _
    · intro p b s s' hpb hrun hisr hset
      have hp : p <+: stream := (List.prefix_append p [b]).trans hpb
      obtain ⟨t, hrun', hs⟩ := run_holding (hfront hp)
      obtain rfl : s = t := Option.some_inj.mp (hrun.symm.trans hrun')
      have hb : ¬ (b = 0x0a ∧ recGnss232 ≤ (sinceDollar p).length) := by
        rintro ⟨rfl, hfull⟩
        exact h ⟨p, hpb, hfull⟩
      obtain ⟨r, heq, -⟩ := gnssRecIsr_eq (s := { s with gnssOk := false }) hs hb
      rw [heq] at hisr
      cases hisr
      simpa using hset

/-- A hundred and one line feeds. -/
theorem not_receives_lineFeeds : ¬ ∀ stream, Receives stream := by
  intro h
  obtain ⟨s, hrun, -⟩ := (h (List.replicate 101 0x0a)).inside _ (List.prefix_refl _)
  refine not_overlongFeed_of_run hrun ⟨List.replicate 100 0x0a, List.prefix_refl _, ?_⟩
  rw [sinceDollar_of_not_mem (by simp), List.length_replicate, recGnss232]

end Property

end VehicleTerminal.Gnss
