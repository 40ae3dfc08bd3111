import Mathlib.Data.Fintype.Card
import Mathlib.Data.Prod.Lex
import VehicleTerminal.Kernel.Timer
import VehicleTerminal.Library.Simulation

/-! Runs of the timers: which timeout functions are called, when and in which order. -/
namespace VehicleTerminal.Kernel.Timer
open MachineInt SkipList PartialRun

section Ledger

variable {T : Type*} [DecidableEq T]

/-- The timers over a clock that does not wrap. An armed timer has the tick at which it is due and
the number of its start. -/
structure Ledger (T : Type*) where
  now : ℕ
  count : ℕ
  times : T → Period
  periodic : T → Bool
  active : T → Bool
  armed : T → Option (ℕ × ℕ)

def Ledger.initial (initTick : T → Period) (periodic : T → Bool) : Ledger T :=
  ⟨0, 0, initTick, periodic, fun _ => false, fun _ => none⟩

def Ledger.setActive (m : Ledger T) (t : T) (active : Bool) : Ledger T :=
  { m with active := Function.update m.active t active }

def Ledger.disarm (m : Ledger T) (t : T) : Ledger T :=
  { m with armed := Function.update m.armed t none }

/-- The timer is due after its time, counted from now. -/
def Ledger.arm (m : Ledger T) (t : T) : Ledger T :=
  { m.setActive t true with
    count := m.count + 1
    armed := Function.update m.armed t (some (m.now + (m.times t).ticks, m.count)) }

def Ledger.next (m : Ledger T) : Entry T → Ledger T
  | .tick => { m with now := m.now + 1 }
  | .started t => m.arm t
  | .stopped t => (m.disarm t).setActive t false
  | .timeSet t time => { m with times := Function.update m.times t time }
  | .periodicSet t periodic => { m with periodic := Function.update m.periodic t periodic }
  | .timeout t => m.disarm t
  | .returned t => if m.periodic t ∧ m.active t then m.arm t else m.setActive t false
  | _ => m

/-- What may happen: timers go off at the tick at which they are due and in the order of their
starts, and none is left behind. -/
def Ledger.Ok (m : Ledger T) : Entry T → Prop
  | .stopped t => m.active t = true
  | .notActive t => m.active t = false
  | .time t ticks => ticks = (m.times t).ticks
  | .timeout t => ∃ nr, m.armed t = some (m.now, nr) ∧ ∀ t' due nr', m.armed t' = some (due, nr') →
    m.now < due ∨ due = m.now ∧ nr ≤ nr'
  | .checked => ∀ t due nr, m.armed t = some (due, nr) → m.now < due
  | _ => True

def Entry.Of (e : Entry T) : Call T → Prop
  | .start t => e = .started t
  | .stop t => e = .stopped t ∨ e = .notActive t
  | .getTime t => ∃ ticks, e = .time t ticks
  | .setTime t initTick => e = .timeSet t initTick
  | .setOneshot t => e = .periodicSet t false
  | .setPeriodic t => e = .periodicSet t true

/-- A check of the timers, with the calls that the timeout functions make. -/
inductive Checked : List (List (Call T)) → List (Entry T) → Prop
  | done (functions : List (List (Call T))) : Checked functions [.checked]
  | timeout (t : T) {functions : List (List (Call T))} {entries rest : List (Entry T)}
      (calls : List.Forall₂ (fun a e => Entry.Of e a) (functions.headD []) entries)
      (tail : Checked functions.tail rest) :
      Checked functions (.timeout t :: entries ++ .returned t :: rest)

def Served (m : Ledger T) (a : Action T) (entries : List (Entry T)) (m' : Ledger T) : Prop :=
  Monitored Ledger.next Ledger.Ok m entries ∧ m' = entries.foldl Ledger.next m ∧
    match a with
    | .call a => ∃ e, entries = [e] ∧ e.Of a
    | .tickIncrease functions => ∃ rest, entries = .tick :: rest ∧ Checked functions rest

end Ledger

section Coupling

variable {T : Type*} {c : Config} {s : System T} {m : Ledger T} {t : T}

/-- One timer goes off before another one. -/
def Ledger.Before (m : Ledger T) (t t' : T) : Prop :=
  ∃ k k', m.armed t = some k ∧ m.armed t' = some k' ∧ toLex k < toLex k'

instance (m : Ledger T) : IsStrictOrder T m.Before where
  irrefl := by
    rintro t ⟨k, k', hk, hk', hlt⟩
    rw [hk] at hk'
    cases hk'
    exact lt_irrefl _ hlt
  trans := by
    rintro t t' t'' ⟨k, k', hk, hk', hlt⟩ ⟨l, l', hl, hl', hlt'⟩
    rw [hk'] at hl
    cases hl
    exact ⟨k, l', hk, hl', hlt.trans hlt'⟩

/-- What holds between two calls. -/
structure Coupled (c : Config) (s : System T) (m : Ledger T) : Prop where
  tick : s.rtTick = m.now % 2 ^ 32
  length : s.rows.length = c.levels
  ordered : Ordered m.Before s.rows
  armed : ∀ t, t ∈ bottom s.rows ↔ m.armed t ≠ none
  settings : ∀ t, (s.timers t).initTick = m.times t ∧ (s.timers t).periodic = m.periodic t ∧
    (s.timers t).activated = m.active t
  timeout : ∀ t due nr, m.armed t = some (due, nr) → (s.timers t).timeoutTick = due % 2 ^ 32 ∧
    m.now ≤ due ∧ due < m.now + rtTickMax / 2 ∧ nr < m.count

theorem rtTimerInit_coupled [DecidableEq T] (c : Config) (initTick : T → Period)
    (periodic : T → Bool) :
    Coupled c (rtTimerInit c initTick periodic) (Ledger.initial initTick periodic) := by
  have hrows : ∀ row ∈ (rtTimerInit c initTick periodic).rows, row = [] :=
    fun row hrow => List.eq_of_mem_replicate hrow
  have hbottom : bottom (rtTimerInit c initTick periodic).rows = [] := by
    refine hrows _ (bottom_mem fun hnil => c.pos.ne' ?_)
    rw [← List.length_replicate (n := c.levels) (a := ([] : List T))]
    exact List.length_eq_zero_iff.mpr hnil
  refine ⟨rfl, List.length_replicate, ⟨?_, fun row hrow => ?_⟩, fun t => ?_,
    fun t => ⟨rfl, rfl, rfl⟩, fun t due nr ht => by cases ht⟩
  · exact List.isChain_replicate_of_rel _ (List.Sublist.refl _)
  · rw [hrows row hrow]
    exact List.Pairwise.nil
  · rw [hbottom]
    simp [Ledger.initial]

theorem tickMax_half : rtTickMax / 2 = 2147483647 := by
  decide

/-- The comparison of two timeout ticks that wrap, at most half the range away from now. -/
theorem ahead_iff {now a b : ℕ} (ha : now ≤ a) (ha' : a < now + rtTickMax / 2) (hb : now ≤ b)
    (hb' : b < now + rtTickMax / 2) :
    (uint32 (((a % 2 ^ 32 : ℕ) : ℤ) - (b % 2 ^ 32 : ℕ)) ≠ 0 ∧
      uint32 (((a % 2 ^ 32 : ℕ) : ℤ) - (b % 2 ^ 32 : ℕ)) < rtTickMax / 2) ↔ b < a := by
  rw [tickMax_half] at ha' hb' ⊢
  unfold uint32
  omega

theorem due_iff {now due : ℕ} (hle : now ≤ due) (hlt : due < now + rtTickMax / 2) :
    uint32 (((now % 2 ^ 32 : ℕ) : ℤ) - (due % 2 ^ 32 : ℕ)) < rtTickMax / 2 ↔ due = now := by
  rw [tickMax_half] at hlt ⊢
  unfold uint32
  omega

theorem Coupled.rows_ne_nil (h : Coupled c s m) : s.rows ≠ [] := by
  intro hnil
  have hlength := h.length
  rw [hnil] at hlength
  exact c.pos.ne hlength

theorem Coupled.bottom_sorted (h : Coupled c s m) : (bottom s.rows).Pairwise m.Before :=
  h.ordered.sorted _ (bottom_mem h.rows_ne_nil)

/-- The first timer of the list is the next one. -/
theorem Coupled.first (h : Coupled c s m) {rest : List T} (hbottom : bottom s.rows = t :: rest)
    {due nr : ℕ} (harmed : m.armed t = some (due, nr)) {t' : T} {due' nr' : ℕ}
    (harmed' : m.armed t' = some (due', nr')) : due < due' ∨ due' = due ∧ nr ≤ nr' := by
  have hin : t' ∈ bottom s.rows := (h.armed t').mpr (by simp [harmed'])
  rw [hbottom] at hin
  rcases List.mem_cons.mp hin with rfl | hin
  · rw [harmed] at harmed'
    cases harmed'
    exact .inr ⟨rfl, le_rfl⟩
  · have hsorted := h.bottom_sorted
    rw [hbottom] at hsorted
    obtain ⟨k, k', hk, hk', hlt⟩ := (List.pairwise_cons.mp hsorted).1 t' hin
    rw [harmed] at hk
    rw [harmed'] at hk'
    cases hk
    cases hk'
    rw [Prod.Lex.toLex_lt_toLex] at hlt
    dsimp only at hlt
    omega

variable [DecidableEq T]

theorem Coupled.update_times (h : Coupled c s m) (t : T) :
    Function.update m.times t (s.timers t).initTick = m.times := by
  rw [(h.settings t).1, Function.update_eq_self]

theorem Coupled.update_periodic (h : Coupled c s m) (t : T) :
    Function.update m.periodic t (s.timers t).periodic = m.periodic := by
  rw [(h.settings t).2.1, Function.update_eq_self]

theorem Coupled.update_active (h : Coupled c s m) (t : T) :
    Function.update m.active t (s.timers t).activated = m.active := by
  rw [(h.settings t).2.2, Function.update_eq_self]

/-- A change of settings. -/
theorem Coupled.set (h : Coupled c s m) (t : T) (initTick : Period) (periodic activated : Bool) :
    Coupled c (s.update t ⟨(s.timers t).timeoutTick, initTick, periodic, activated⟩)
      { m with
        times := Function.update m.times t initTick
        periodic := Function.update m.periodic t periodic
        active := Function.update m.active t activated } := by
  have htimer (t' : T) : (s.update t ⟨(s.timers t).timeoutTick, initTick, periodic,
      activated⟩).timers t' = if t' = t then ⟨(s.timers t).timeoutTick, initTick, periodic,
        activated⟩ else s.timers t' := Function.update_apply _ _ _ _
  refine ⟨h.tick, h.length, h.ordered, h.armed, fun t' => ?_, fun t' due nr harmed => ?_⟩
  · rw [htimer]
    simp only [Function.update_apply]
    split_ifs
    · exact ⟨rfl, rfl, rfl⟩
    · exact h.settings t'
  · rw [htimer]
    split_ifs with heq
    · subst heq
      exact h.timeout t' due nr harmed
    · exact h.timeout t' due nr harmed

theorem Coupled.setActivated (h : Coupled c s m) (t : T) (active : Bool) :
    Coupled c (s.setActivated t active) (m.setActive t active) := by
  have hset := h.set t (s.timers t).initTick (s.timers t).periodic active
  rwa [h.update_times, h.update_periodic] at hset

theorem Coupled.setTime (h : Coupled c s m) (t : T) (time : Period) :
    Coupled c (s.update t { s.timers t with initTick := time }) (m.next (.timeSet t time)) := by
  have hset := h.set t time (s.timers t).periodic (s.timers t).activated
  rwa [h.update_periodic, h.update_active] at hset

theorem Coupled.setPeriodic (h : Coupled c s m) (t : T) (periodic : Bool) :
    Coupled c (s.update t { s.timers t with periodic := periodic })
      (m.next (.periodicSet t periodic)) := by
  have hset := h.set t (s.timers t).initTick periodic (s.timers t).activated
  rwa [h.update_times, h.update_active] at hset

theorem Coupled.remove (h : Coupled c s m) (t : T) : Coupled c (s.remove t) (m.disarm t) := by
  have hbottom : bottom (s.remove t).rows = (bottom s.rows).erase t := bottom_remove
  have hmem (t' : T) : t' ∈ bottom (s.remove t).rows ↔ t' ≠ t ∧ t' ∈ bottom s.rows := by
    rw [hbottom, (nodup_of_sorted h.bottom_sorted).mem_erase_iff]
  have hother (t' : T) (ht' : t' ≠ t) : (m.disarm t).armed t' = m.armed t' :=
    Function.update_of_ne ht' _ _
  refine ⟨h.tick, remove_length.trans h.length, h.ordered.remove.congr fun a ha b hb hab => ?_,
    fun t' => ?_, h.settings, fun t' due nr ht' => ?_⟩
  · obtain ⟨k, k', hk, hk', hlt⟩ := hab
    exact ⟨k, k', by rw [hother a ((hmem a).mp ha).1, hk],
      by rw [hother b ((hmem b).mp hb).1, hk'], hlt⟩
  · rw [hmem, h.armed, Ledger.disarm]
    by_cases heq : t' = t
    · subst heq
      simp
    · simp [heq]
  · by_cases heq : t' = t
    · subst heq
      simp [Ledger.disarm] at ht'
    · rw [hother t' heq] at ht'
      exact h.timeout t' due nr ht'

theorem height_pos (mask levels nr : ℕ) : 0 < height mask levels nr := by
  cases levels with
  | zero => exact Nat.one_pos
  | succ levels =>
    rw [height]
    split_ifs <;> omega

/-- What `rt_timer_start` does to the timers, before it inserts one. -/
theorem setTimeout_timers (s : System T) (t t' : T) :
    (((s.remove t).setActivated t false).setTimeout t).timers t' = if t' = t then
      ⟨(s.rtTick + (s.timers t).initTick.ticks) % 2 ^ 32, (s.timers t).initTick,
        (s.timers t).periodic, false⟩ else s.timers t' := by
  simp only [System.setTimeout, System.setActivated, System.update, System.remove,
    Function.update_apply, if_true]
  split_ifs <;> rfl

theorem rtTimerStart_timers (c : Config) (s : System T) (t t' : T) :
    (rtTimerStart c s t).timers t' = if t' = t then
      ⟨(s.rtTick + (s.timers t).initTick.ticks) % 2 ^ 32, (s.timers t).initTick,
        (s.timers t).periodic, true⟩ else s.timers t' := by
  have hbefore := setTimeout_timers s t
  simp only [rtTimerStart, System.setActivated, System.update, Function.update_apply] at hbefore ⊢
  split_ifs with heq
  · rw [hbefore t, if_pos rfl]
  · rw [hbefore t', if_neg heq]

theorem disarm_of_ne {t' : T} (ht' : t' ≠ t) : (m.disarm t).armed t' = m.armed t' :=
  Function.update_of_ne ht' _ _

theorem arm_of_ne {t' : T} (ht' : t' ≠ t) : (m.arm t).armed t' = m.armed t' :=
  Function.update_of_ne ht' _ _

theorem arm_self (m : Ledger T) (t : T) :
    (m.arm t).armed t = some (m.now + (m.times t).ticks, m.count) := Function.update_self _ _ _

theorem arm_before {t' : T} (ht' : t' ≠ t) {due nr : ℕ} (hdue : m.armed t' = some (due, nr))
    (hnr : nr < m.count) : (m.arm t).Before t t' ↔ m.now + (m.times t).ticks < due := by
  rw [Ledger.Before, arm_self, arm_of_ne ht', hdue]
  simp only [Option.some.injEq, exists_and_left, exists_eq_left', Prod.Lex.toLex_lt_toLex]
  omega

/-- The wrapped comparison is the order of the ledger. -/
theorem Coupled.ahead_eq [∀ m : Ledger T, DecidableRel m.Before] (h : Coupled c s m) {t' : T}
    (ht' : t' ≠ t) (hin : t' ∈ bottom s.rows) :
    (((s.remove t).setActivated t false).setTimeout t).ahead t t' =
      decide ((m.arm t).Before t t') := by
  obtain ⟨⟨due, nr⟩, hdue⟩ := Option.ne_none_iff_exists'.mp ((h.armed t').mp hin)
  obtain ⟨htimeout, hlo, hhi, hnr⟩ := h.timeout t' due nr hdue
  have hsum : (s.rtTick + (s.timers t).initTick.ticks) % 2 ^ 32 =
      (m.now + (m.times t).ticks) % 2 ^ 32 := by
    rw [h.tick, (h.settings t).1]
    omega
  rw [System.ahead, setTimeout_timers, setTimeout_timers, if_neg ht', if_pos rfl, hsum, htimeout,
    decide_eq_decide, arm_before ht' hdue hnr]
  exact ahead_iff hlo hhi (Nat.le_add_right _ _) (Nat.add_lt_add_left (m.times t).lt _)

theorem Coupled.mem_remove (h : Coupled c s m) (t t' : T) :
    t' ∈ bottom (s.remove t).rows ↔ t' ≠ t ∧ t' ∈ bottom s.rows := by
  have hbottom : bottom (s.remove t).rows = (bottom s.rows).erase t := bottom_remove
  rw [hbottom, (nodup_of_sorted h.bottom_sorted).mem_erase_iff]

/-- The search through the rows finds the place that the order gives. -/
theorem Coupled.start_rows [∀ m : Ledger T, DecidableRel m.Before] (h : Coupled c s m) (t : T) :
    Ordered (m.arm t).Before (s.remove t).rows ∧
      (rtTimerStart c s t).rows = place (m.arm t).Before t
        (height c.mask (c.levels - 1) ((s.randomNr + 1) % 2 ^ 32)) (s.remove t).rows := by
  have hordered : Ordered (m.arm t).Before (s.remove t).rows := by
    refine (h.remove t).ordered.congr fun a ha b hb hab => ?_
    have ha' := ((h.mem_remove t a).mp ha).1
    have hb' := ((h.mem_remove t b).mp hb).1
    rwa [Ledger.Before, arm_of_ne ha', arm_of_ne hb', ← disarm_of_ne ha', ← disarm_of_ne hb']
  refine ⟨hordered, insertRows_eq hordered (fun t' ht' => ?_) fun _ _ _ hnone => by cases hnone⟩
  obtain ⟨hne, hin⟩ := (h.mem_remove t t').mp ht'
  exact h.ahead_eq hne hin

/-- `rt_timer_start` puts the timer behind all that are due before it or at the same tick. -/
theorem Coupled.start (h : Coupled c s m) (t : T) :
    Coupled c (rtTimerStart c s t) (m.arm t) := by
  classical
  have h₁ := h.remove t
  obtain ⟨hordered, hrows⟩ := h.start_rows t
  have hbottom : bottom (rtTimerStart c s t).rows =
      (bottom (s.remove t).rows).orderedInsert (m.arm t).Before t := by
    rw [hrows, bottom_place h₁.rows_ne_nil (height_pos _ _ _)]
  have hpos := (m.times t).pos
  have hlt := (m.times t).lt
  refine ⟨h.tick, ?_, ?_, fun t' => ?_, fun t' => ?_, fun t' due nr hdue => ?_⟩
  · rw [hrows, place_length]
    exact h₁.length
  · rw [hrows]
    refine hordered.place fun t' ht' => ?_
    obtain ⟨hne, hin⟩ := (h.mem_remove t t').mp ht'
    obtain ⟨⟨due, nr⟩, hdue⟩ := Option.ne_none_iff_exists'.mp ((h.armed t').mp hin)
    obtain ⟨-, -, -, hnr⟩ := h.timeout t' due nr hdue
    rcases lt_or_ge (m.now + (m.times t).ticks) due with hahead | hbehind
    · exact .inl ((arm_before hne hdue hnr).mpr hahead)
    · refine .inr ⟨(due, nr), _, by rw [arm_of_ne hne, hdue], arm_self m t, ?_⟩
      rw [Prod.Lex.toLex_lt_toLex]
      dsimp only
      omega
  · rw [hbottom, List.mem_orderedInsert, h.mem_remove, h.armed]
    by_cases heq : t' = t
    · rw [heq, arm_self]
      simp
    · rw [arm_of_ne heq]
      simp [heq]
  · rw [rtTimerStart_timers]
    have hsettings := h.settings t'
    simp only [Ledger.arm, Ledger.setActive, Function.update_apply]
    split_ifs with heq
    · subst heq
      exact ⟨hsettings.1, hsettings.2.1, rfl⟩
    · exact hsettings
  · rw [rtTimerStart_timers]
    split_ifs with heq
    · rw [heq, arm_self] at hdue
      cases hdue
      rw [h.tick, (h.settings t).1]
      refine ⟨?_, Nat.le_add_right _ _, Nat.add_lt_add_left hlt _, Nat.lt_succ_self _⟩
      dsimp only
      omega
    · rw [arm_of_ne heq] at hdue
      obtain ⟨htimeout, hlo, hhi, hnr⟩ := h.timeout t' due nr hdue
      exact ⟨htimeout, hlo, hhi, hnr.trans (Nat.lt_succ_self _)⟩

theorem restart_coupled (h : Coupled c s m) (t : T) :
    Coupled c (restart c s t) (m.next (.returned t)) := by
  obtain ⟨-, hperiodic, hactive⟩ := h.settings t
  have hoff := h.setActivated t false
  rw [restart, Ledger.next, hperiodic, hactive]
  split_ifs
  · have hstart := hoff.start t
    rwa [show (m.setActive t false).arm t = m.arm t by
      simp [Ledger.arm, Ledger.setActive]] at hstart
  · exact hoff

end Coupling

section Steps

variable {T : Type*} [Fintype T] {c : Config} {s : System T} {m m' m'' : Ledger T} {t : T}

/-- The timers that the next check calls. -/
def Ledger.dueNow (m : Ledger T) : Finset T :=
  Finset.univ.filter fun t => (m.armed t).map Prod.fst = some m.now

theorem mem_dueNow : t ∈ m.dueNow ↔ ∃ nr, m.armed t = some (m.now, nr) := by
  rw [Ledger.dueNow, Finset.mem_filter, Option.map_eq_some_iff]
  constructor
  · rintro ⟨-, ⟨due, nr⟩, harmed, rfl⟩
    exact ⟨nr, harmed⟩
  · rintro ⟨nr, harmed⟩
    exact ⟨Finset.mem_univ t, (m.now, nr), harmed, rfl⟩

/-- No more timers are due at the same tick. -/
structure Ledger.NoMore (m m' : Ledger T) : Prop where
  now : m'.now = m.now
  dueNow : m'.dueNow ⊆ m.dueNow

theorem Ledger.NoMore.trans (h : m.NoMore m') (h' : m'.NoMore m'') : m.NoMore m'' :=
  ⟨h'.now.trans h.now, h'.dueNow.trans h.dueNow⟩

theorem noMore_of_armed (hnow : m'.now = m.now) (harmed : m'.armed = m.armed) : m.NoMore m' := by
  refine ⟨hnow, fun t ht => ?_⟩
  rw [mem_dueNow, hnow, harmed] at ht
  exact mem_dueNow.mpr ht

/-- Between two calls no timer is due. -/
theorem Coupled.checked_iff (h : Coupled c s m) : m.Ok .checked ↔ m.dueNow = ∅ := by
  constructor
  · intro hchecked
    rw [Finset.eq_empty_iff_forall_notMem]
    intro t ht
    obtain ⟨nr, harmed⟩ := mem_dueNow.mp ht
    exact (hchecked t m.now nr harmed).false
  · intro hnone t due nr harmed
    obtain ⟨-, hle, -, -⟩ := h.timeout t due nr harmed
    refine lt_of_le_of_ne hle fun heq => ?_
    have hin : t ∈ m.dueNow := mem_dueNow.mpr ⟨nr, by rw [harmed, heq]⟩
    rw [hnone] at hin
    exact Finset.notMem_empty t hin

variable [DecidableEq T]

/-- A timer that is started is due later. -/
theorem noMore_arm (m : Ledger T) (t : T) : m.NoMore (m.arm t) := by
  refine ⟨rfl, fun t' ht' => ?_⟩
  obtain ⟨nr, harmed⟩ := mem_dueNow.mp ht'
  by_cases heq : t' = t
  · rw [heq, arm_self] at harmed
    have hpos := (m.times t).pos
    have hdue : m.now + (m.times t).ticks = m.now := congrArg Prod.fst (Option.some.inj harmed)
    omega
  · rw [arm_of_ne heq] at harmed
    exact mem_dueNow.mpr ⟨nr, harmed⟩

theorem dueNow_disarm (m : Ledger T) (t : T) : (m.disarm t).dueNow = m.dueNow.erase t := by
  ext t'
  rw [Finset.mem_erase, mem_dueNow, mem_dueNow]
  by_cases heq : t' = t
  · rw [heq]
    simp [Ledger.disarm]
  · rw [disarm_of_ne heq]
    simp [heq, Ledger.disarm]

theorem noMore_disarm (m : Ledger T) (t : T) : m.NoMore (m.disarm t) :=
  ⟨rfl, (dueNow_disarm m t).subset.trans (Finset.erase_subset t m.dueNow)⟩

/-- What a call has done. -/
structure Called (c : Config) (m : Ledger T) (a : Call T) (r : System T × Entry T) : Prop where
  ok : m.Ok r.2
  of : r.2.Of a
  coupled : Coupled c r.1 (m.next r.2)
  noMore : m.NoMore (m.next r.2)

theorem stop_called (h : Coupled c s m) (t : T) : Called c m (.stop t) (call c s (.stop t)) := by
  have hactive := (h.settings t).2.2
  rw [call, rtTimerStop]
  by_cases hactivated : (s.timers t).activated = true
  · rw [if_pos hactivated]
    exact ⟨hactive.symm.trans hactivated, .inl rfl, (h.remove t).setActivated t false,
      (noMore_disarm m t).trans (noMore_of_armed rfl rfl)⟩
  · rw [if_neg hactivated]
    have hinactive := hactive.symm.trans (Bool.eq_false_of_not_eq_true hactivated)
    exact ⟨hinactive, .inr rfl, h, noMore_of_armed rfl rfl⟩

theorem call_called (h : Coupled c s m) (a : Call T) : Called c m a (call c s a) := by
  cases a with
  | start t => exact ⟨trivial, rfl, h.start t, noMore_arm m t⟩
  | stop t => exact stop_called h t
  | getTime t =>
    exact ⟨congrArg Period.ticks (h.settings t).1, ⟨_, rfl⟩, h, noMore_of_armed rfl rfl⟩
  | setTime t time => exact ⟨trivial, rfl, h.setTime t time, noMore_of_armed rfl rfl⟩
  | setOneshot t => exact ⟨trivial, rfl, h.setPeriodic t false, noMore_of_armed rfl rfl⟩
  | setPeriodic t => exact ⟨trivial, rfl, h.setPeriodic t true, noMore_of_armed rfl rfl⟩

/-- The calls of a timeout function. -/
theorem callAll_called (h : Coupled c s m) (calls : List (Call T)) :
    Monitored Ledger.next Ledger.Ok m (callAll c s calls).2 ∧
      List.Forall₂ (fun a e => Entry.Of e a) calls (callAll c s calls).2 ∧
      Coupled c (callAll c s calls).1 ((callAll c s calls).2.foldl Ledger.next m) ∧
      m.NoMore ((callAll c s calls).2.foldl Ledger.next m) := by
  induction calls generalizing s m with
  | nil => exact ⟨trivial, .nil, h, noMore_of_armed rfl rfl⟩
  | cons a calls ih =>
    have hcalled := call_called h a
    obtain ⟨hmonitored, hof, hcoupled, hnoMore⟩ := ih hcalled.coupled
    exact ⟨⟨hcalled.ok, hmonitored⟩, .cons hcalled.of hof, hcoupled,
      hcalled.noMore.trans hnoMore⟩

theorem noMore_returned (m : Ledger T) (t : T) : m.NoMore (m.next (.returned t)) := by
  rw [Ledger.next]
  split_ifs
  · exact noMore_arm m t
  · exact noMore_of_armed rfl rfl

/-- `rt_timer_check` calls the timeout functions of the timers that are due, and ends. The
induction is on the rounds, and every round leaves fewer timers that are due. -/
theorem rtTimerCheck_checked (h : Coupled c s m) (functions : List (List (Call T))) {rounds : ℕ}
    (hrounds : m.dueNow.card < rounds) : ∃ s' entries,
      rtTimerCheck c rounds s functions = some (s', entries) ∧ Checked functions entries ∧
      Monitored Ledger.next Ledger.Ok m entries ∧
      Coupled c s' (entries.foldl Ledger.next m) ∧ (entries.foldl Ledger.next m).dueNow = ∅ := by
  induction rounds generalizing s m functions with
  | zero => omega
  | succ rounds ih =>
    have hstop (hchecked : m.Ok .checked) : ∃ s' entries,
        some (s, [Entry.checked]) = some (s', entries) ∧ Checked functions entries ∧
        Monitored Ledger.next Ledger.Ok m entries ∧
        Coupled c s' (entries.foldl Ledger.next m) ∧ (entries.foldl Ledger.next m).dueNow = ∅ :=
      ⟨s, [.checked], rfl, .done functions, ⟨hchecked, trivial⟩, h, h.checked_iff.mp hchecked⟩
    cases hbottom : bottom s.rows with
    | nil =>
      simp only [rtTimerCheck, hbottom]
      refine hstop fun t due nr harmed => ?_
      have hin : t ∈ bottom s.rows := (h.armed t).mpr (by simp [harmed])
      rw [hbottom] at hin
      cases hin
    | cons t rest =>
      have hin : t ∈ bottom s.rows := hbottom ▸ List.mem_cons_self
      obtain ⟨⟨due, nr⟩, harmed⟩ := Option.ne_none_iff_exists'.mp ((h.armed t).mp hin)
      obtain ⟨htimeout, hlo, hhi, -⟩ := h.timeout t due nr harmed
      simp only [rtTimerCheck, hbottom]
      rw [h.tick, htimeout]
      by_cases hdue : due = m.now
      · rw [if_pos ((due_iff hlo hhi).mpr hdue)]
        rw [hdue] at harmed
        have hok : m.Ok (.timeout t) := ⟨nr, harmed, fun t' due' nr' => h.first hbottom harmed⟩
        obtain ⟨hcalls, hof, hcoupled, hnoMore⟩ :=
          callAll_called (h.remove t) (functions.headD [])
        have hrestart := restart_coupled hcoupled t
        have hless := (hnoMore.trans (noMore_returned _ t)).dueNow
        rw [dueNow_disarm] at hless
        have hcard := Finset.card_le_card hless
        rw [Finset.card_erase_of_mem (mem_dueNow.mpr ⟨nr, harmed⟩)] at hcard
        have hpos := Finset.card_pos.mpr ⟨t, mem_dueNow.mpr ⟨nr, harmed⟩⟩
        obtain ⟨s', entries, hcheck, hchecked, hmonitored, hend, hnone⟩ :=
          ih hrestart functions.tail (by omega)
        rw [hcheck, Option.map_some]
        refine ⟨s', _, rfl, .timeout t hof hchecked, ⟨hok, ?_⟩, ?_, ?_⟩
        · exact monitored_append.mpr ⟨hcalls, trivial, hmonitored⟩
        · rw [List.foldl_append]
          exact hend
        · rw [List.foldl_append]
          exact hnone
      · rw [if_neg fun hlt => hdue ((due_iff hlo hhi).mp hlt)]
        refine hstop fun t' due' nr' harmed' => ?_
        rcases h.first hbottom harmed harmed' with hlater | ⟨rfl, -⟩ <;> omega

/-- The tick goes on when no timer is due. -/
theorem Coupled.tickIncrease (h : Coupled c s m) (hnone : m.dueNow = ∅) :
    Coupled c { s with rtTick := (s.rtTick + 1) % 2 ^ 32 } (m.next .tick) := by
  have hchecked := h.checked_iff.mpr hnone
  refine ⟨?_, h.length, h.ordered, h.armed, h.settings, fun t due nr harmed => ?_⟩
  · have hnow : (m.next .tick).now = m.now + 1 := rfl
    rw [hnow]
    dsimp only
    rw [h.tick]
    omega
  · obtain ⟨htimeout, -, hhi, hnr⟩ := h.timeout t due nr harmed
    have hlater := hchecked t due nr harmed
    have hnow : (m.next .tick).now = m.now + 1 := rfl
    rw [hnow]
    exact ⟨htimeout, hlater, by omega, hnr⟩

theorem step_refines (c : Config) {rounds : ℕ} (hrounds : Fintype.card T < rounds) :
    StepRefines (step c rounds) Served
      (fun (s : System T) (m : Ledger T) => Coupled c s m ∧ m.dueNow = ∅) fun _ _ => True := by
  rintro s m a ⟨h, hnone⟩ -
  cases a with
  | call a =>
    have hcalled := call_called h a
    refine ⟨_, _, _, rfl, ⟨⟨hcalled.ok, trivial⟩, rfl, _, rfl, hcalled.of⟩, hcalled.coupled, ?_⟩
    exact Finset.subset_empty.mp (hcalled.noMore.dueNow.trans hnone.subset)
  | tickIncrease functions =>
    have htick := h.tickIncrease hnone
    obtain ⟨s', entries, hcheck, hchecked, hmonitored, hcoupled, hend⟩ :=
      rtTimerCheck_checked htick functions ((Finset.card_le_univ _).trans_lt hrounds)
    refine ⟨s', .tick :: entries, _, ?_, ⟨⟨trivial, hmonitored⟩, rfl, entries, rfl, hchecked⟩,
      hcoupled, hend⟩
    rw [step, hcheck, Option.map_some]

/-- In every run, whatever the timeout functions start, stop or set: a timer goes off at exactly
the tick its time after its start, those of one tick in the order of their starts, none is left
behind, and the wrapped ticks and the rows of the skip list agree with a clock that does not
wrap. -/
theorem run_onTime (c : Config) (initTick : T → Period) (periodic : T → Bool) : ∃ enough,
    ∀ rounds, enough ≤ rounds → ∀ actions : List (Action T), ∃ s entries m,
      run (step c rounds) (rtTimerInit c initTick periodic) actions = some (s, entries) ∧
      Allowed Served (Ledger.initial initTick periodic) actions entries m ∧
      s.rtTick = m.now % 2 ^ 32 ∧ ∀ t, t ∈ bottom s.rows ↔ m.armed t ≠ none := by
  refine ⟨Fintype.card T + 1, fun rounds hrounds actions => ?_⟩
  have hinitial := rtTimerInit_coupled c initTick periodic
  have hnone : (Ledger.initial initTick periodic).dueNow = ∅ :=
    hinitial.checked_iff.mp fun t due nr harmed => by cases harmed
  obtain ⟨s, entries, m, hrun, hallowed, hcoupled, -⟩ :=
    (step_refines c (Nat.lt_of_succ_le hrounds)).run ⟨hinitial, hnone⟩
      (guarded_of_forall (fun _ _ => trivial) _ actions)
  exact ⟨s, entries, m, hrun, hallowed, hcoupled.tick, hcoupled.armed⟩

end Steps

end VehicleTerminal.Kernel.Timer
