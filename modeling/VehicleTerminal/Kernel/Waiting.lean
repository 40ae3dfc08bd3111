import Mathlib.Data.Set.Card
import Mathlib.Logic.Function.Basic
import VehicleTerminal.Kernel.SuspendList
import VehicleTerminal.Library.Wakeup

/-! The threads that wait for an object of `ipc.c` with one list: how they are suspended, resumed
and timed out, and how a thread finds out behind `rt_schedule` what happened to it. -/
namespace VehicleTerminal.Kernel

section Model

/-- `call` is what a thread wants from its suspension until its call returns. -/
structure Waiting (T C : Type*) where
  suspendThread : List T
  call : T → Option C
  error : T → Err

namespace Waiting

variable {T C : Type*}

/-- Nobody waits. -/
def nobody : Waiting T C := ⟨[], fun _ => none, fun _ => .eok⟩

/-- `rt_ipc_list_resume_all`. -/
def resumeAll [DecidableEq T] (w : Waiting T C) : Waiting T C :=
  { w with
    suspendThread := []
    error := fun thread => if thread ∈ w.suspendThread then .error else w.error thread }

variable [DecidableEq T]

def setError (w : Waiting T C) (thread : T) (err : Err) : Waiting T C :=
  { w with error := Function.update w.error thread err }

def setCall (w : Waiting T C) (thread : T) (call : Option C) : Waiting T C :=
  { w with call := Function.update w.call thread call }

/-- `rt_ipc_list_suspend`, for a thread whose error was reset. -/
def suspend (priority : T → ℕ) (flag : IpcFlag) (w : Waiting T C) (thread : T) (call : C) :
    Waiting T C :=
  { (w.setError thread .eok).setCall thread (some call) with
    suspendThread := ipcListSuspend priority flag w.suspendThread thread }

/-- `rt_thread_resume`. -/
def resume (w : Waiting T C) (thread : T) : Waiting T C :=
  { w with suspendThread := w.suspendThread.erase thread }

/-- `rt_ipc_list_resume`, if the list is not empty. -/
def resumeFirst (w : Waiting T C) : Waiting T C :=
  match w.suspendThread with
  | [] => w
  | first :: _ => w.resume first

/-- `rt_thread_timeout`, for a thread whose timer was started. -/
def threadTimeout (timed : C → Bool) (w : Waiting T C) (thread : T) : Waiting T C :=
  match w.call thread with
  | none => w
  | some call =>
    if thread ∈ w.suspendThread ∧ timed call then (w.setError thread .etimeout).resume thread
    else w

/-- What a thread that goes on behind `rt_schedule` finds. -/
inductive Wake (C : Type*)
  | absent
  | failed (err : Err)
  | resumed (call : C)
  deriving Repr, DecidableEq

def wake (w : Waiting T C) (thread : T) : Wake C :=
  match w.call thread with
  | none => .absent
  | some call =>
    if thread ∈ w.suspendThread then .absent
    else if w.error thread = .eok then .resumed call
    else .failed (w.error thread)

end Waiting

end Model

namespace Waiting

section Sound

variable {T C : Type*} {w : Waiting T C} {thread t : T} {call c : C}

/-- A suspended thread is in the list once, in a call, and without an error. -/
structure Sound (w : Waiting T C) : Prop where
  nodup : w.suspendThread.Nodup
  calls : ∀ t ∈ w.suspendThread, w.call t ≠ none
  errors : ∀ t ∈ w.suspendThread, w.error t = .eok

/-- The thread was resumed with this call and has not gone on. -/
def Woken (w : Waiting T C) (thread : T) (call : C) : Prop :=
  w.call thread = some call ∧ thread ∉ w.suspendThread ∧ w.error thread = .eok

theorem nobody_sound : (nobody : Waiting T C).Sound :=
  ⟨List.nodup_nil, fun _ h => absurd h List.not_mem_nil, fun _ h => absurd h List.not_mem_nil⟩

theorem not_woken_nobody : ¬ (nobody : Waiting T C).Woken t c :=
  fun h => absurd h.1 (Option.some_ne_none c).symm

theorem Sound.not_mem (h : w.Sound) (hcall : w.call t = none) : t ∉ w.suspendThread :=
  fun ht => h.calls t ht hcall

theorem not_woken_of_failed (herror : w.error thread ≠ .eok) : ¬ w.Woken thread c :=
  fun h => herror h.2.2

variable [DecidableEq T]

theorem resumeAll_sound (w : Waiting T C) : w.resumeAll.Sound :=
  ⟨List.nodup_nil, fun _ h => absurd h List.not_mem_nil, fun _ h => absurd h List.not_mem_nil⟩

theorem woken_resumeAll : w.resumeAll.Woken t c ↔ w.Woken t c := by
  simp only [Woken, resumeAll, List.not_mem_nil, not_false_eq_true, true_and]
  split_ifs with hin
  · simp [hin]
  · simp [hin]

theorem Sound.setError (h : w.Sound) (hfree : w.call thread = none) (err : Err) :
    (w.setError thread err).Sound where
  nodup := h.nodup
  calls := h.calls
  errors t ht := by
    have hne : t ≠ thread := by
      rintro rfl
      exact h.not_mem hfree ht
    exact (Function.update_of_ne hne _ _).trans (h.errors t ht)

theorem woken_setError (hfree : w.call thread = none) (err : Err) :
    (w.setError thread err).Woken t c ↔ w.Woken t c := by
  simp only [Woken, Waiting.setError]
  by_cases ht : t = thread
  · simp [ht, hfree]
  · rw [Function.update_of_ne ht]

theorem Sound.suspend (h : w.Sound) (hfree : w.call thread = none) (priority : T → ℕ)
    (flag : IpcFlag) (call : C) : (w.suspend priority flag thread call).Sound where
  nodup := ipcListSuspend_nodup.mpr ⟨h.not_mem hfree, h.nodup⟩
  calls t ht := by
    simp only [Waiting.suspend, setCall, Function.update_apply]
    rcases mem_ipcListSuspend.mp ht with rfl | hin
    · simp
    · split_ifs
      · simp
      · exact h.calls t hin
  errors t ht := by
    simp only [Waiting.suspend, setCall, Waiting.setError, Function.update_apply]
    rcases mem_ipcListSuspend.mp ht with rfl | hin
    · simp
    · split_ifs
      · rfl
      · exact h.errors t hin

theorem suspend_call_of_ne (priority : T → ℕ) (flag : IpcFlag) (call : C) (ht : t ≠ thread) :
    (w.suspend priority flag thread call).call t = w.call t := Function.update_of_ne ht _ _

theorem woken_suspend (hfree : w.call thread = none) (priority : T → ℕ) (flag : IpcFlag)
    (call : C) : (w.suspend priority flag thread call).Woken t c ↔ w.Woken t c := by
  simp only [Woken, Waiting.suspend, setCall, Waiting.setError, mem_ipcListSuspend]
  by_cases ht : t = thread
  · simp [ht, hfree]
  · simp [ht]

theorem Sound.resume (h : w.Sound) (thread : T) : (w.resume thread).Sound where
  nodup := h.nodup.erase thread
  calls t ht := h.calls t (List.mem_of_mem_erase ht)
  errors t ht := h.errors t (List.mem_of_mem_erase ht)

/-- A thread that leaves the list without an error is woken. -/
theorem Sound.woken_resume (h : w.Sound) (hin : thread ∈ w.suspendThread) :
    (w.resume thread).Woken t c ↔ w.Woken t c ∨ t = thread ∧ w.call thread = some c := by
  simp only [Woken, Waiting.resume, h.nodup.mem_erase_iff]
  by_cases ht : t = thread
  · simp [ht, hin, h.errors thread hin]
  · simp [ht]

theorem Sound.leave (h : w.Sound) (hout : thread ∉ w.suspendThread) (call : Option C) :
    (w.setCall thread call).Sound where
  nodup := h.nodup
  calls t ht := by
    have hne : t ≠ thread := by
      rintro rfl
      exact hout ht
    exact fun hnone => h.calls t ht ((Function.update_of_ne hne _ _).symm.trans hnone)
  errors := h.errors

theorem Sound.setCall_some (h : w.Sound) (thread : T) (call : C) :
    (w.setCall thread (some call)).Sound where
  nodup := h.nodup
  calls t ht := by
    simp only [setCall, Function.update_apply]
    split_ifs
    · simp
    · exact h.calls t ht
  errors := h.errors

theorem woken_setCall (hin : thread ∈ w.suspendThread) (call : Option C) :
    (w.setCall thread call).Woken t c ↔ w.Woken t c := by
  simp only [Woken, setCall]
  by_cases ht : t = thread
  · simp [ht, hin]
  · simp [ht]

theorem woken_leave : (w.setCall thread none).Woken t c ↔ t ≠ thread ∧ w.Woken t c := by
  simp only [Woken, setCall]
  by_cases ht : t = thread
  · simp [ht]
  · simp [ht]

theorem threadTimeout_cases (timed : C → Bool) (w : Waiting T C) (thread : T) :
    w.threadTimeout timed thread = w ∨
      thread ∈ w.suspendThread ∧
        w.threadTimeout timed thread = (w.setError thread .etimeout).resume thread := by
  cases hcall : w.call thread with
  | none => exact .inl (by simp only [threadTimeout, hcall])
  | some call =>
    by_cases hin : thread ∈ w.suspendThread ∧ timed call
    · exact .inr ⟨hin.1, by simp only [threadTimeout, hcall, if_pos hin]⟩
    · exact .inl (by simp only [threadTimeout, hcall, if_neg hin])

theorem Sound.threadTimeout (h : w.Sound) (timed : C → Bool) (thread : T) :
    (w.threadTimeout timed thread).Sound := by
  rcases threadTimeout_cases timed w thread with hsame | ⟨-, hout⟩
  · rw [hsame]
    exact h
  · rw [hout]
    refine ⟨h.nodup.erase thread, fun t ht => h.calls t (List.mem_of_mem_erase ht), ?_⟩
    intro t ht
    obtain ⟨hne, hin⟩ := h.nodup.mem_erase_iff.mp ht
    exact (Function.update_of_ne hne _ _).trans (h.errors t hin)

theorem Sound.woken_threadTimeout (h : w.Sound) (timed : C → Bool) :
    (w.threadTimeout timed thread).Woken t c ↔ w.Woken t c := by
  rcases threadTimeout_cases timed w thread with hsame | ⟨hin, hout⟩
  · rw [hsame]
  · rw [hout]
    simp only [Woken, Waiting.resume, Waiting.setError, h.nodup.mem_erase_iff]
    by_cases ht : t = thread
    · simp [ht, hin]
    · simp [ht]

@[simp] theorem threadTimeout_call (timed : C → Bool) (w : Waiting T C) (thread : T) :
    (w.threadTimeout timed thread).call = w.call := by
  rcases threadTimeout_cases timed w thread with hsame | ⟨-, hout⟩
  · rw [hsame]
  · rw [hout]
    rfl

theorem threadTimeout_subset (timed : C → Bool) (w : Waiting T C) (thread : T) :
    (w.threadTimeout timed thread).suspendThread ⊆ w.suspendThread := by
  rcases threadTimeout_cases timed w thread with hsame | ⟨-, hout⟩
  · rw [hsame]
    exact List.Subset.refl _
  · rw [hout]
    exact List.erase_subset

theorem wake_resumed (h : w.wake thread = .resumed call) : w.Woken thread call := by
  cases hcall : w.call thread with
  | none => simp [wake, hcall] at h
  | some c =>
    simp only [wake, hcall] at h
    split_ifs at h with hin herror
    cases h
    exact ⟨hcall, hin, herror⟩

theorem Woken.wake_eq (h : w.Woken thread call) : w.wake thread = .resumed call := by
  obtain ⟨hcall, hout, herror⟩ := h
  simp only [wake, hcall, if_neg hout, if_pos herror]

theorem wake_failed {err : Err} (h : w.wake thread = .failed err) :
    w.call thread ≠ none ∧ thread ∉ w.suspendThread ∧ w.error thread ≠ .eok := by
  cases hcall : w.call thread with
  | none => simp [wake, hcall] at h
  | some c =>
    simp only [wake, hcall] at h
    split_ifs at h with hin herror
    exact ⟨by simp, hin, herror⟩

theorem wake_failed_error {err : Err} (h : w.wake thread = .failed err) : w.error thread = err := by
  cases hcall : w.call thread with
  | none => simp [wake, hcall] at h
  | some c =>
    simp only [wake, hcall] at h
    split_ifs at h
    exact Wake.failed.inj h

end Sound

section Wakeups

open Wakeup

variable {T C : Type*} {w w' : Waiting T C} {thread : T} {call : C} {slack tokens : ℕ}

/-- The woken threads cover the tokens, less `slack`, while somebody waits. -/
def Covers (slack tokens : ℕ) (w : Waiting T C) : Prop :=
  ∃ woken : Finset T, (∀ t, t ∈ woken ↔ ∃ c, w.Woken t c) ∧
    Covered slack tokens w.suspendThread woken

theorem covers_nobody : (nobody : Waiting T C).Covers slack tokens :=
  ⟨∅, fun t => by simp [not_woken_nobody], covered_nil _ _ _⟩

theorem Covers.congr (h : w.Covers slack tokens) (hwoken : ∀ t c, w'.Woken t c ↔ w.Woken t c)
    (hsub : w'.suspendThread ⊆ w.suspendThread) : w'.Covers slack tokens := by
  obtain ⟨woken, hmem, hcovered⟩ := h
  exact ⟨woken, fun t => by simp only [hmem, hwoken], hcovered.leave hsub⟩

/-- Without tokens anybody may wait. -/
theorem Covers.without (h : w.Covers slack tokens) (hwoken : ∀ t c, w'.Woken t c ↔ w.Woken t c) :
    w'.Covers 0 0 := by
  obtain ⟨woken, hmem, -⟩ := h
  exact ⟨woken, fun t => by simp only [hmem, hwoken], covered_zero _ _ _⟩

/-- While somebody waits, somebody was resumed for every token. -/
theorem Covers.noLostWakeup (h : w.Covers 0 tokens) (hwaits : w.suspendThread ≠ []) :
    tokens ≤ {t | ∃ c, w.Woken t c}.ncard := by
  obtain ⟨woken, hmem, hcovered⟩ := h
  rw [show {t | ∃ c, w.Woken t c} = ↑woken from Set.ext fun t => (hmem t).symm,
    Set.ncard_coe_finset]
  exact hcovered hwaits

theorem Covers.loosen (h : w.Covers 0 tokens) : w.Covers slack tokens := by
  obtain ⟨woken, hmem, hcovered⟩ := h
  exact ⟨woken, hmem, hcovered.loosen⟩

theorem Covers.consume (h : w.Covers 1 (tokens + 1)) : w.Covers 0 tokens := by
  obtain ⟨woken, hmem, hcovered⟩ := h
  exact ⟨woken, hmem, hcovered.consume⟩

variable [DecidableEq T]

theorem Sound.resumeFirst (h : w.Sound) : w.resumeFirst.Sound := by
  rw [Waiting.resumeFirst]
  split
  · exact h
  · exact h.resume _

@[simp] theorem resumeFirst_call (w : Waiting T C) : w.resumeFirst.call = w.call := by
  rw [resumeFirst]
  split <;> rfl

/-- A new token resumes the first thread. -/
theorem Covers.resumeFirst (h : w.Covers slack tokens) (hsound : w.Sound) :
    w.resumeFirst.Covers slack (tokens + 1) := by
  obtain ⟨woken, hmem, hcovered⟩ := h
  cases hlist : w.suspendThread with
  | nil =>
    simp only [Waiting.resumeFirst, hlist]
    exact ⟨woken, hmem, hlist ▸ covered_nil _ _ _⟩
  | cons first rest =>
    have hin : first ∈ w.suspendThread := hlist ▸ List.mem_cons_self
    obtain ⟨c, hc⟩ := Option.ne_none_iff_exists'.mp (hsound.calls first hin)
    have hrest : (w.resume first).suspendThread = rest := by
      rw [resume, hlist, List.erase_cons_head]
    have hasleep : first ∉ woken := by
      rw [hmem]
      rintro ⟨c, hwoken⟩
      exact hwoken.2.1 hin
    rw [hlist] at hcovered
    simp only [Waiting.resumeFirst, hlist]
    refine ⟨insert first woken, fun t => ?_, hrest ▸ hcovered.produce hasleep⟩
    simp only [Finset.mem_insert, hmem, hsound.woken_resume hin]
    by_cases ht : t = first
    · simp [ht, hc]
    · simp [ht]

/-- A woken thread goes on to fetch its token. -/
theorem Covers.rise (h : w.Covers 0 tokens) (hwoken : w.Woken thread call) :
    (w.setCall thread none).Covers 1 tokens := by
  obtain ⟨woken, hmem, hcovered⟩ := h
  refine ⟨woken.erase thread, fun t => ?_, hcovered.rise ((hmem thread).mpr ⟨call, hwoken⟩)⟩
  simp only [Finset.mem_erase, hmem, woken_leave, exists_and_left]

end Wakeups

end Waiting

end VehicleTerminal.Kernel
