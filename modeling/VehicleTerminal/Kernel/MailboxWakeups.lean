import VehicleTerminal.Kernel.MailboxRefinement
import VehicleTerminal.Library.Wakeup
import Mathlib.Data.Set.Card

/-! No wakeup is lost in the mailbox: while a thread waits for mails, every mail in the box has a
thread that was resumed for it and has not gone on yet; for the senders and the free places the
same. -/
namespace VehicleTerminal.Kernel.Mailbox
open PartialRun Wakeup

variable {T : Type*} {priority : T → ℕ} {flag : IpcFlag} {s s' : System T} {thread t : T}
  {side : Side} {call : Call}

section Statement

/-- The thread was resumed by the other side and has not gone on. -/
def System.Woken (s : System T) (side : Side) (t : T) : Prop :=
  (∃ call, s.call t = some call ∧ call.side = side) ∧ t ∉ s.waiting side ∧ s.error t = .eok

/-- While a thread of this side waits, somebody was resumed for each token. -/
def NoLostWakeup (s : System T) (side : Side) : Prop :=
  s.waiting side ≠ [] → s.mb.tokens side ≤ {t | s.Woken side t}.ncard

end Statement

section Invariant

/-- A suspended thread is in one list, that of its call, and has no error. -/
structure Waits (s : System T) : Prop where
  nodup : ∀ side, (s.waiting side).Nodup
  calls : ∀ side, ∀ t ∈ s.waiting side, ∃ call, s.call t = some call ∧ call.side = side
  errors : ∀ side, ∀ t ∈ s.waiting side, s.error t = .eok

/-- The woken threads of a side cover its tokens, less `slack`. -/
def CoveredOn (slack : ℕ) (s : System T) (side : Side) : Prop :=
  ∃ woken : Finset T, (∀ t, t ∈ woken ↔ s.Woken side t) ∧
    Covered slack (s.mb.tokens side) (s.waiting side) woken

theorem CoveredOn.noLostWakeup (h : CoveredOn 0 s side) : NoLostWakeup s side := by
  obtain ⟨woken, hwoken, hcovered⟩ := h
  have hset : {t | s.Woken side t} = ↑woken := Set.ext fun t => (hwoken t).symm
  rw [NoLostWakeup, hset, Set.ncard_coe_finset]
  exact hcovered

theorem Waits.not_mem_of_call_none (h : Waits s) (hcall : s.call t = none) (side : Side) :
    t ∉ s.waiting side := by
  intro ht
  obtain ⟨call, hsome, -⟩ := h.calls side t ht
  rw [hcall] at hsome
  cases hsome

theorem suspended_iff : s.Suspended t ↔ ∃ side, t ∈ s.waiting side := by
  constructor
  · rintro (hr | hs)
    · exact ⟨.receiver, hr⟩
    · exact ⟨.sender, hs⟩
  · rintro ⟨side, ht⟩
    cases side with
    | sender => exact .inr ht
    | receiver => exact .inl ht

theorem Side.eq_or_other (side side' : Side) : side' = side ∨ side' = side.other := by
  cases side <;> cases side' <;> decide

/-- The cover does not change when neither tokens nor waiting nor woken threads do. -/
theorem CoveredOn.congr {slack : ℕ} (h : CoveredOn slack s side)
    (htokens : s'.mb.tokens side = s.mb.tokens side) (hwaiting : s'.waiting side ⊆ s.waiting side)
    (hwoken : ∀ t, s'.Woken side t ↔ s.Woken side t) : CoveredOn slack s' side := by
  obtain ⟨woken, hmem, hcovered⟩ := h
  exact ⟨woken, fun t => (hmem t).trans (hwoken t).symm, htokens ▸ hcovered.leave hwaiting⟩

end Invariant

section Loop

variable [DecidableEq T] {o : Output T}

/-- A call that finds no token changes who is woken for nobody. -/
theorem gaveUp_covered (hwaits : Waits s) (hfree : s.call thread = none)
    (hnone : s.mb.tokens call.side = 0) (hmb : s'.mb = s.mb)
    (hwaiting : ∀ side, s'.waiting side = s.waiting side) (hcall : s'.call = s.call)
    (herror : ∀ t, t ≠ thread → s'.error t = s.error t) (hσ : CoveredOn 1 s call.side)
    (hother : CoveredOn 0 s call.side.other) : Waits s' ∧ ∀ side, CoveredOn 0 s' side := by
  have hwoken (side : Side) (t : T) : s'.Woken side t ↔ s.Woken side t := by
    rw [System.Woken, System.Woken, hcall, hwaiting]
    by_cases ht : t = thread
    · simp [ht, hfree]
    · rw [herror t ht]
  refine ⟨⟨fun side => hwaiting side ▸ hwaits.nodup side, fun side t ht => ?_, fun side t ht => ?_⟩,
    fun side => ?_⟩
  · rw [hwaiting] at ht
    rw [hcall]
    exact hwaits.calls side t ht
  · rw [hwaiting] at ht
    have hne : t ≠ thread := fun heq => hwaits.not_mem_of_call_none hfree side (heq ▸ ht)
    rw [herror t hne]
    exact hwaits.errors side t ht
  · rcases Side.eq_or_other call.side side with rfl | rfl
    · obtain ⟨woken, hmem, -⟩ := hσ
      refine ⟨woken, fun t => (hmem t).trans (hwoken _ t).symm, ?_⟩
      rw [hmb, hnone]
      exact covered_zero _ _ _
    · exact hother.congr (by rw [hmb]) (hwaiting _ ▸ List.Subset.refl _) (hwoken _)

/-- A thread that is suspended waits for what is not there. -/
theorem suspended_covered (hwaits : Waits s) (hfree : s.call thread = none)
    (hnone : s.mb.tokens call.side = 0) (hmb : s'.mb = s.mb)
    (hwaiting : s'.waiting call.side = ipcListSuspend priority flag (s.waiting call.side) thread)
    (hothers : s'.waiting call.side.other = s.waiting call.side.other)
    (hcall : s'.call = Function.update s.call thread (some call))
    (herror : s'.error = Function.update s.error thread .eok) (hσ : CoveredOn 1 s call.side)
    (hother : CoveredOn 0 s call.side.other) : Waits s' ∧ ∀ side, CoveredOn 0 s' side := by
  have hmem (side : Side) (t : T) (ht : t ≠ thread) :
      t ∈ s'.waiting side ↔ t ∈ s.waiting side := by
    rcases Side.eq_or_other call.side side with rfl | rfl
    · rw [hwaiting, mem_ipcListSuspend, or_iff_right ht]
    · rw [hothers]
  have hout (side : Side) : thread ∉ s.waiting side := hwaits.not_mem_of_call_none hfree side
  have hin (side : Side) : thread ∈ s'.waiting side ↔ side = call.side := by
    rcases Side.eq_or_other call.side side with rfl | rfl
    · simp [hwaiting]
    · simp [hothers, hout, Side.other_ne]
  have hwoken (side : Side) (t : T) : s'.Woken side t ↔ s.Woken side t := by
    by_cases ht : t = thread
    · subst ht
      simp only [System.Woken, hcall, Function.update_self, Option.some_inj, hin, hfree]
      grind
    · rw [System.Woken, System.Woken, hcall, herror, hmem side t ht, Function.update_of_ne ht,
        Function.update_of_ne ht]
  refine ⟨⟨fun side => ?_, fun side t ht => ?_, fun side t ht => ?_⟩, fun side => ?_⟩
  · rcases Side.eq_or_other call.side side with rfl | rfl
    · rw [hwaiting, ipcListSuspend_nodup]
      exact ⟨hout _, hwaits.nodup _⟩
    · exact hothers ▸ hwaits.nodup _
  · by_cases hthread : t = thread
    · subst hthread
      exact ⟨call, by rw [hcall, Function.update_self], ((hin side).mp ht).symm⟩
    · rw [hcall, Function.update_of_ne hthread]
      exact hwaits.calls side t ((hmem side t hthread).mp ht)
  · rw [herror, Function.update_apply]
    split_ifs with hthread
    · rfl
    · exact hwaits.errors side t ((hmem side t hthread).mp ht)
  · rcases Side.eq_or_other call.side side with rfl | rfl
    · obtain ⟨woken, hset, -⟩ := hσ
      refine ⟨woken, fun t => (hset t).trans (hwoken _ t).symm, ?_⟩
      rw [hmb, hnone]
      exact covered_zero _ _ _
    · exact hother.congr (by rw [hmb]) (hothers ▸ List.Subset.refl _) (hwoken _)

/-- A call that fetches a token leaves one for the other side, whose first thread is resumed. -/
theorem proceeded_covered (hwaits : Waits s)
    (hfetched : s.mb.tokens call.side = s'.mb.tokens call.side + 1)
    (hleft : s'.mb.tokens call.side.other = s.mb.tokens call.side.other + 1)
    (hwaiting : s'.waiting call.side = s.waiting call.side)
    (htail : s'.waiting call.side.other = (s.waiting call.side.other).tail)
    (hcall : s'.call = s.call) (herror : s'.error = s.error) (hσ : CoveredOn 1 s call.side)
    (hother : CoveredOn 0 s call.side.other) : Waits s' ∧ ∀ side, CoveredOn 0 s' side := by
  have hsub (side : Side) : (s'.waiting side).Sublist (s.waiting side) := by
    rcases Side.eq_or_other call.side side with rfl | rfl
    · rw [hwaiting]
    · rw [htail]
      exact List.tail_sublist _
  refine ⟨⟨fun side => (hwaits.nodup side).sublist (hsub side), fun side t ht => ?_,
    fun side t ht => ?_⟩, fun side => ?_⟩
  · rw [hcall]
    exact hwaits.calls side t ((hsub side).subset ht)
  · rw [herror]
    exact hwaits.errors side t ((hsub side).subset ht)
  · rcases Side.eq_or_other call.side side with rfl | rfl
    · obtain ⟨woken, hmem, hcovered⟩ := hσ
      rw [hfetched] at hcovered
      refine ⟨woken, fun t => ?_, hwaiting ▸ hcovered.consume⟩
      rw [hmem, System.Woken, System.Woken, hcall, herror, hwaiting]
    · obtain ⟨woken, hmem, hcovered⟩ := hother
      cases hlist : s.waiting call.side.other with
      | nil =>
        rw [hlist, List.tail_nil] at htail
        refine ⟨woken, fun t => ?_, htail ▸ covered_nil _ _ _⟩
        rw [hmem, System.Woken, System.Woken, hcall, herror, htail, hlist]
      | cons first rest =>
        rw [hlist, List.tail_cons] at htail
        have hnodup := hwaits.nodup call.side.other
        rw [hlist, List.nodup_cons] at hnodup
        have hfirst : first ∈ s.waiting call.side.other := hlist ▸ List.mem_cons_self
        have hasleep : first ∉ woken := fun h => ((hmem first).mp h).2.1 hfirst
        rw [hlist] at hcovered
        refine ⟨insert first woken, fun t => ?_, hleft ▸ htail ▸ hcovered.produce hasleep⟩
        rw [Finset.mem_insert, hmem, System.Woken, System.Woken, hcall, herror, htail, hlist,
          List.mem_cons]
        by_cases ht : t = first
        · subst ht
          simp only [true_or, true_iff]
          exact ⟨hwaits.calls _ _ hfirst, hnodup.1, hwaits.errors _ _ hfirst⟩
        · simp only [ht, false_or]

theorem LoopStep.covered (h : LoopStep priority flag s thread call s' o) (hwaits : Waits s)
    (hfree : s.call thread = none ∨ 0 < s.mb.tokens call.side) (hσ : CoveredOn 1 s call.side)
    (hother : CoveredOn 0 s call.side.other) : Waits s' ∧ ∀ side, CoveredOn 0 s' side := by
  cases h with
  | gaveUp hnone hmb hwaiting hcall herror _ =>
    exact gaveUp_covered hwaits (hfree.resolve_right (by omega)) hnone hmb hwaiting hcall herror hσ
      hother
  | suspended hnone hmb hwaiting hothers hcall herror =>
    exact suspended_covered hwaits (hfree.resolve_right (by omega)) hnone hmb hwaiting hothers hcall
      herror hσ hother
  | proceeded hfetched hleft hwaiting hwoken hcall herror =>
    exact proceeded_covered hwaits hfetched hleft hwaiting hwoken hcall herror hσ hother

end Loop

section Steps

variable [DecidableEq T] {o : Output T}

@[simp] theorem setCall_waiting (c : Option Call) (side : Side) :
    (s.setCall thread c).waiting side = s.waiting side := by
  cases side <;> rfl

theorem setCall_self (c : Option Call) : (s.setCall thread c).call thread = c :=
  Function.update_self _ _ _

theorem setCall_of_ne (c : Option Call) (ht : t ≠ thread) :
    (s.setCall thread c).call t = s.call t := Function.update_of_ne ht _ _

/-- A resumed thread that goes on is no longer woken, and has the token to fetch. -/
theorem rose_covered (hwaits : Waits s) (hcall : s.call thread = some call)
    (hresumed : ¬ s.Suspended thread) (herror : s.error thread = .eok)
    (h : ∀ side, CoveredOn 0 s side) :
    Waits (s.setCall thread none) ∧ CoveredOn 1 (s.setCall thread none) call.side ∧
      CoveredOn 0 (s.setCall thread none) call.side.other := by
  have hout (side : Side) : thread ∉ s.waiting side :=
    fun hin => hresumed (suspended_iff.mpr ⟨side, hin⟩)
  have hwoken (side : Side) (t : T) :
      (s.setCall thread none).Woken side t ↔ t ≠ thread ∧ s.Woken side t := by
    rw [System.Woken, System.Woken, setCall_waiting]
    by_cases ht : t = thread
    · subst ht
      simp [System.setCall]
    · rw [setCall_of_ne none ht, and_iff_right ht]
      rfl
  have hsame (side : Side) : (s.setCall thread none).waiting side = s.waiting side :=
    setCall_waiting none side
  refine ⟨⟨fun side => hsame side ▸ hwaits.nodup side, fun side t ht => ?_, fun side t ht => ?_⟩,
    ?_, ?_⟩
  · rw [setCall_waiting] at ht
    have hne : t ≠ thread := fun heq => hout side (heq ▸ ht)
    obtain ⟨call', hcall', hside⟩ := hwaits.calls side t ht
    exact ⟨call', by rw [setCall_of_ne none hne, hcall'], hside⟩
  · rw [setCall_waiting] at ht
    exact hwaits.errors side t ht
  · obtain ⟨woken, hmem, hcovered⟩ := h call.side
    have hthread : thread ∈ woken := (hmem thread).mpr ⟨⟨call, hcall, rfl⟩, hout _, herror⟩
    refine ⟨woken.erase thread, fun t => ?_, hsame _ ▸ hcovered.rise hthread⟩
    rw [Finset.mem_erase, hmem, hwoken]
  · refine (h call.side.other).congr rfl (hsame _ ▸ List.Subset.refl _) fun t => ?_
    rw [hwoken, and_iff_right_iff_imp]
    rintro ⟨⟨call', hcall', hside⟩, -⟩ rfl
    rw [hcall] at hcall'
    cases hcall'
    exact Side.other_ne _ hside.symm

/-- A resumed thread with an error was not woken. -/
theorem failed_covered (hwaits : Waits s) (hresumed : ¬ s.Suspended thread)
    (herror : s.error thread ≠ .eok) (h : ∀ side, CoveredOn 0 s side) :
    Waits (s.setCall thread none) ∧ ∀ side, CoveredOn 0 (s.setCall thread none) side := by
  have hout (side : Side) : thread ∉ s.waiting side :=
    fun hin => hresumed (suspended_iff.mpr ⟨side, hin⟩)
  have hsame (side : Side) : (s.setCall thread none).waiting side = s.waiting side :=
    setCall_waiting none side
  refine ⟨⟨fun side => hsame side ▸ hwaits.nodup side, fun side t ht => ?_, fun side t ht => ?_⟩,
    fun side => (h side).congr rfl (hsame side ▸ List.Subset.refl _) fun t => ?_⟩
  · rw [setCall_waiting] at ht
    have hne : t ≠ thread := fun heq => hout side (heq ▸ ht)
    rw [setCall_of_ne none hne]
    exact hwaits.calls side t ht
  · rw [setCall_waiting] at ht
    exact hwaits.errors side t ht
  · rw [System.Woken, System.Woken, setCall_waiting]
    by_cases ht : t = thread
    · subst ht
      simp [System.setCall, herror]
    · rw [setCall_of_ne none ht]
      rfl

/-- A thread whose timer expires leaves its list with an error. -/
theorem timedOut_covered (hwaits : Waits s) (hsuspended : s.Suspended thread)
    (hstate : s' = { s.setError thread .etimeout with
      suspendThread := s.suspendThread.erase thread
      suspendSenderThread := s.suspendSenderThread.erase thread })
    (h : ∀ side, CoveredOn 0 s side) : Waits s' ∧ ∀ side, CoveredOn 0 s' side := by
  obtain ⟨own, hown⟩ := suspended_iff.mp hsuspended
  obtain ⟨call, hcall, rfl⟩ := hwaits.calls own thread hown
  have hwaiting (side : Side) : s'.waiting side = (s.waiting side).erase thread := by
    subst hstate
    cases side <;> rfl
  have hcalls : s'.call = s.call := by rw [hstate]; rfl
  have herror : s'.error = Function.update s.error thread .etimeout := by rw [hstate]; rfl
  have htokens (side : Side) : s'.mb.tokens side = s.mb.tokens side := by rw [hstate]; rfl
  have hmem (side : Side) (t : T) (ht : t ∈ s'.waiting side) : t ≠ thread ∧ t ∈ s.waiting side := by
    rwa [hwaiting, (hwaits.nodup side).mem_erase_iff] at ht
  refine ⟨⟨fun side => hwaiting side ▸ (hwaits.nodup side).erase thread, fun side t ht => ?_,
    fun side t ht => ?_⟩,
    fun side => (h side).congr (htokens side) (hwaiting side ▸ List.erase_subset) fun t => ?_⟩
  · rw [hcalls]
    exact hwaits.calls side t (hmem side t ht).2
  · rw [herror, Function.update_of_ne (hmem side t ht).1]
    exact hwaits.errors side t (hmem side t ht).2
  · rw [System.Woken, System.Woken, hcalls, herror, hwaiting, (hwaits.nodup side).mem_erase_iff]
    by_cases ht : t = thread
    · subst ht
      -- on its own side the thread waited, and it has no call on the other one
      simp only [Function.update_self, reduceCtorEq, and_false, false_iff, not_and]
      rintro ⟨call', hcall', rfl⟩ hnot
      rw [hcall] at hcall'
      cases hcall'
      exact absurd hown hnot
    · simp only [ne_eq, ht, not_false_eq_true, true_and, Function.update_of_ne ht]

theorem reset_covered (hwaits : Waits s) (h : ∀ side, CoveredOn 0 s side) :
    Waits (rtMbReset s) ∧ ∀ side, CoveredOn 0 (rtMbReset s) side := by
  have hnone (side : Side) : (rtMbReset s).waiting side = [] := by cases side <;> rfl
  refine ⟨⟨fun side => hnone side ▸ List.nodup_nil, fun side t ht => ?_, fun side t ht => ?_⟩,
    fun side => ?_⟩
  · rw [hnone] at ht
    cases ht
  · rw [hnone] at ht
    cases ht
  · obtain ⟨woken, hmem, -⟩ := h side
    refine ⟨woken, fun t => ?_, hnone side ▸ covered_nil _ _ _⟩
    have herror : (rtMbReset s).error t = .eok ↔ ¬ s.Suspended t ∧ s.error t = .eok := by
      simp only [rtMbReset, ipcListResumeAll, System.Suspended]
      split_ifs with hs hr
      · simp [hs]
      · simp [hr]
      · simp [hs, hr]
    rw [hmem, System.Woken, System.Woken, hnone, herror, suspended_iff]
    constructor
    · rintro ⟨⟨call, hcall, rfl⟩, hout, hok⟩
      refine ⟨⟨call, hcall, rfl⟩, List.not_mem_nil, ?_, hok⟩
      rintro ⟨side, hin⟩
      obtain ⟨call', hcall', rfl⟩ := hwaits.calls side t hin
      rw [hcall] at hcall'
      cases hcall'
      exact hout hin
    · rintro ⟨hcall, -, hout, hok⟩
      exact ⟨hcall, fun hin => hout ⟨side, hin⟩, hok⟩

/-- Every step keeps the covers. -/
theorem StepCase.covered (h : StepCase priority flag s s' o) (hwaits : Waits s)
    (hcovered : ∀ side, CoveredOn 0 s side) : Waits s' ∧ ∀ side, CoveredOn 0 s' side := by
  cases h with
  | idle hstate => exact hstate ▸ ⟨hwaits, hcovered⟩
  | @called thread call hfree hloop =>
    obtain ⟨woken, hmem, hcover⟩ := hcovered call.side
    exact hloop.covered hwaits hfree ⟨woken, hmem, hcover.loosen⟩ (hcovered call.side.other)
  | @rose thread call call' hcall hside hresumed herror hloop =>
    obtain ⟨hwaits', hσ, hother⟩ := rose_covered hwaits hcall hresumed herror hcovered
    rw [← hside] at hσ hother
    exact hloop.covered hwaits' (.inl (Function.update_self _ _ _)) hσ hother
  | failed hresumed herror hstate =>
    exact hstate ▸ failed_covered hwaits hresumed herror hcovered
  | timedOut hsuspended hstate => exact timedOut_covered hwaits hsuspended hstate hcovered
  | reset hstate => exact hstate ▸ reset_covered hwaits hcovered

end Steps

section Runs

/-- What holds between two steps of a mailbox of this size with the mails `q`. -/
structure Orderly (size : ℕ) (s : System T) (q : List UInt32) : Prop where
  behaves : Behaves size s q
  waits : Waits s
  covered : ∀ side, CoveredOn 0 s side

theorem init_orderly (msgPool : List UInt32) :
    Orderly (msgPool.length % 2 ^ 16) (rtMbInit msgPool : System T) [] where
  behaves := init_behaves msgPool
  waits := by
    refine ⟨fun side => ?_, fun side t ht => ?_, fun side t ht => ?_⟩
    · cases side <;> exact List.nodup_nil
    · cases side <;> cases ht
    · rfl
  covered side := by
    refine ⟨∅, fun t => ?_, ?_⟩
    · simp [System.Woken, rtMbInit]
    · cases side <;> exact covered_nil _ _ _

variable [DecidableEq T]

theorem Orderly.steps {size : ℕ} {q q' : List UInt32} {a : Action T} {o : Output T}
    (h : Orderly size s q) (hsteps : Steps priority flag s s' q q' a o) : Orderly size s' q' where
  behaves := ⟨hsteps.sound, hsteps.size.trans h.behaves.2⟩
  waits := (hsteps.threads.covered h.waits h.covered).1
  covered := (hsteps.threads.covered h.waits h.covered).2

/-- Every interleaving of calls, timeouts and resets has a result, and no wakeup is lost in the
state it reaches. -/
theorem run_noLostWakeup (priority : T → ℕ) (flag : IpcFlag) (msgPool : List UInt32)
    (actions : List (Action T)) :
    ∃ s outputs, run (step priority flag) (rtMbInit msgPool) actions = some (s, outputs) ∧
      ∀ side, NoLostWakeup s side := by
  have hstep : StepRefines (step priority flag) (Queued (msgPool.length % 2 ^ 16))
      (fun s b => ∃ q, b = s.box q ∧ Orderly (T := T) (msgPool.length % 2 ^ 16) s q)
      fun _ _ => True := by
    rintro s b a ⟨q, rfl, h⟩ -
    obtain ⟨s', o, q', hrun, hsteps⟩ := step_steps priority flag h.behaves.1 a
    exact ⟨s', o, s'.box q', hrun, h.behaves.2 ▸ hsteps.queued, q', rfl, h.steps hsteps⟩
  obtain ⟨s, outputs, b, hrun, -, q, -, hend⟩ :=
    hstep.run ⟨[], rfl, init_orderly msgPool⟩ (guarded_of_forall (fun _ _ => trivial) _ actions)
  exact ⟨s, outputs, hrun, fun side => (hend.covered side).noLostWakeup⟩

end Runs

end VehicleTerminal.Kernel.Mailbox
