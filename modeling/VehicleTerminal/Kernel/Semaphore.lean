import Mathlib.Data.Nat.ModEq
import VehicleTerminal.Kernel.Waiting
import VehicleTerminal.Library.Simulation

/-! The semaphores of `ipc.c`. A release hands its permit to the first waiting thread, or counts it
in 16 bits. -/
namespace VehicleTerminal.Kernel.Semaphore
open PartialRun

section Model

/-- A suspended thread waits with the time its timer was started with. -/
structure System (T : Type*) where
  value : ℕ
  threads : Waiting T ℤ

inductive Action (T : Type*)
  | take (thread : T) (time : ℤ)
  | release
  | goOn (thread : T)
  | threadTimeout (thread : T)
  | reset (value : ℕ)
  deriving Repr, DecidableEq

/-- What happens to the permits, and what the calls return that get none. -/
inductive Entry (T : Type*)
  | released
  | called (thread : T)
  | granted (thread : T)
  | acquired (thread : T)
  | failed (thread : T) (err : Err)
  | set (value : ℕ)
  deriving Repr, DecidableEq

/-- `rt_sem_init` and `rt_sem_create`. -/
def rtSemInit {T : Type*} (value : ℕ) : System T := ⟨value % 2 ^ 16, .nobody⟩

variable {T : Type*} [DecidableEq T]

/-- `rt_sem_take` up to `rt_schedule`. -/
def rtSemTake (priority : T → ℕ) (flag : IpcFlag) (sem : System T) (thread : T) (time : ℤ) :
    System T × List (Entry T) :=
  if 0 < sem.value then
    ({ sem with value := sem.value - 1 }, [.called thread, .granted thread, .acquired thread])
  else if time = 0 then (sem, [.called thread, .failed thread .etimeout])
  else
    let threads := sem.threads.setError thread .eok
    ({ sem with threads := threads.suspend priority flag thread time }, [.called thread])

/-- `rt_sem_take` behind `rt_schedule`. -/
def goOn (sem : System T) (thread : T) : System T × List (Entry T) :=
  match sem.threads.wake thread with
  | .absent => (sem, [])
  | .failed err =>
    ({ sem with threads := sem.threads.setCall thread none }, [.failed thread err])
  | .resumed _ =>
    ({ sem with threads := sem.threads.setCall thread none }, [.acquired thread])

def rtSemRelease (sem : System T) : System T × List (Entry T) :=
  match sem.threads.suspendThread with
  | [] => ({ sem with value := (sem.value + 1) % 2 ^ 16 }, [.released])
  | first :: _ => ({ sem with threads := sem.threads.resume first }, [.released, .granted first])

/-- `rt_sem_control` with the command `RT_IPC_CMD_RESET`. -/
def rtSemReset (sem : System T) (value : ℕ) : System T × List (Entry T) :=
  (⟨value % 2 ^ 16, sem.threads.resumeAll⟩, [.set value])

def semTimeout (sem : System T) (thread : T) : System T :=
  { sem with threads := sem.threads.threadTimeout (fun time => decide (0 < time)) thread }

/-- A thread that is inside a call makes no other one. -/
def step (priority : T → ℕ) (flag : IpcFlag) (sem : System T) :
    Action T → Option (System T × List (Entry T))
  | .take thread time =>
    if sem.threads.call thread = none then some (rtSemTake priority flag sem thread time)
    else some (sem, [])
  | .release => some (rtSemRelease sem)
  | .goOn thread => some (goOn sem thread)
  | .threadTimeout thread => some (semTimeout sem thread, [])
  | .reset value => some (rtSemReset sem value)

end Model

section Ledger

variable {T : Type*} [DecidableEq T]

/-- The permits there are, the threads whose calls have not returned, and those of them that a
permit is kept for. -/
structure Ledger (T : Type*) where
  permits : ℕ
  asking : Finset T
  granted : Finset T

/-- The permits that nobody has yet, as a counter of 16 bits shows them. -/
def Ledger.left (m : Ledger T) : ℕ := (m.permits - m.granted.card) % 2 ^ 16

def Ledger.next (m : Ledger T) : Entry T → Ledger T
  | .released => { m with permits := m.permits + 1 }
  | .called thread => { m with asking := insert thread m.asking }
  | .granted thread => { m with granted := insert thread m.granted }
  | .acquired thread => ⟨m.permits - 1, m.asking.erase thread, m.granted.erase thread⟩
  | .failed thread _ => { m with asking := m.asking.erase thread }
  | .set value => { m with permits := value % 2 ^ 16 + m.granted.card }

/-- What one action is answered with: a take gets a permit when one is left, a release is counted or
kept for a thread that asks, and a thread that a permit is kept for gets it. -/
def Ledger.Answers (m : Ledger T) (entries : List (Entry T)) : Action T → Prop
  | .take thread time =>
    if thread ∈ m.asking then entries = []
    else if 0 < m.left then entries = [.called thread, .granted thread, .acquired thread]
    else if time = 0 then entries = [.called thread, .failed thread .etimeout]
    else entries = [.called thread]
  | .release =>
    entries = [.released] ∨ ∃ t ∈ m.asking \ m.granted, entries = [.released, .granted t]
  | .goOn thread =>
    if thread ∈ m.granted then entries = [.acquired thread]
    else entries = [] ∨
      thread ∈ m.asking ∧ ∃ err, err ≠ .eok ∧ entries = [.failed thread err]
  | .threadTimeout _ => entries = []
  | .reset value => entries = [.set value]

def Served (m : Ledger T) (a : Action T) (entries : List (Entry T)) (m' : Ledger T) : Prop :=
  m.Answers entries a ∧ m' = entries.foldl Ledger.next m

end Ledger

section Steps

variable {T : Type*} {sem : System T} {m : Ledger T} {thread : T}

/-- What holds between two steps: the counted and the kept permits are those there are, up to
releases that the counter has lost. -/
structure Coupled (sem : System T) (m : Ledger T) : Prop where
  sound : sem.threads.Sound
  asking : ∀ t, t ∈ m.asking ↔ sem.threads.call t ≠ none
  granted : ∀ t, t ∈ m.granted ↔ ∃ time, sem.threads.Woken t time
  permits : sem.value + m.granted.card ≤ m.permits
  counted : sem.value + m.granted.card ≡ m.permits [MOD 2 ^ 16]
  bounded : sem.value < 2 ^ 16
  waits : sem.threads.suspendThread ≠ [] → sem.value = 0

theorem rtSemInit_coupled (value : ℕ) :
    Coupled (rtSemInit value : System T) ⟨value % 2 ^ 16, ∅, ∅⟩ where
  sound := Waiting.nobody_sound
  asking t := by simp [rtSemInit, Waiting.nobody]
  granted t := by simp [rtSemInit, Waiting.not_woken_nobody]
  permits := by simp [rtSemInit]
  counted := by simp [rtSemInit, Nat.ModEq]
  bounded := Nat.mod_lt _ (by decide)
  waits h := absurd rfl h

/-- The counter shows what is left. -/
theorem Coupled.value_eq (h : Coupled sem m) : sem.value = m.left := by
  have hpermits := h.permits
  have hcounted := h.counted
  have hbounded := h.bounded
  dsimp only [Nat.ModEq] at hcounted
  rw [Ledger.left]
  omega

theorem Coupled.not_granted_of_free (h : Coupled sem m) (hfree : sem.threads.call thread = none) :
    thread ∉ m.granted := by
  rw [h.granted]
  rintro ⟨time, hcall, -⟩
  rw [hfree] at hcall
  cases hcall

/-- A change of the threads that resumes nobody without an error. -/
theorem Coupled.threads (h : Coupled sem m) {asking : Finset T} (threads : Waiting T ℤ)
    (hsound : threads.Sound) (hasking : ∀ t, t ∈ asking ↔ threads.call t ≠ none)
    (hwoken : ∀ t c, threads.Woken t c ↔ sem.threads.Woken t c)
    (hwaits : threads.suspendThread ≠ [] → sem.value = 0) :
    Coupled { sem with threads := threads } { m with asking := asking } :=
  { h with
    sound := hsound
    asking := hasking
    granted := fun t => by simp only [hwoken, h.granted]
    waits := hwaits }

variable [DecidableEq T]

/-- A call that returns at once leaves nobody asking who was not. -/
theorem Coupled.asking_erase (h : Coupled sem m) (hfree : sem.threads.call thread = none) :
    (insert thread m.asking).erase thread = m.asking :=
  Finset.erase_insert fun hin => (h.asking thread).mp hin hfree

theorem rtSemTake_served (priority : T → ℕ) (flag : IpcFlag) (h : Coupled sem m)
    (hfree : sem.threads.call thread = none) (time : ℤ) :
    ∃ m', Served m (.take thread time) (rtSemTake priority flag sem thread time).2 m' ∧
      Coupled (rtSemTake priority flag sem thread time).1 m' := by
  have hnot := h.not_granted_of_free hfree
  have hask : thread ∉ m.asking := fun hin => (h.asking thread).mp hin hfree
  have hvalue := h.value_eq
  simp only [Served, Ledger.Answers, if_neg hask, ← hvalue]
  by_cases hleft : 0 < sem.value
  · rw [rtSemTake, if_pos hleft, if_pos hleft]
    have hpermits := h.permits
    have hnext : [Entry.called thread, .granted thread, .acquired thread].foldl Ledger.next m =
        ⟨m.permits - 1, m.asking, m.granted⟩ := by
      simp [Ledger.next, Finset.erase_insert hnot, Finset.erase_insert hask]
    refine ⟨_, ⟨rfl, rfl⟩, hnext ▸ ?_⟩
    exact {
      sound := h.sound
      asking := h.asking
      granted := h.granted
      permits := by
        dsimp only
        omega
      counted := by
        have hcounted := h.counted
        dsimp only [Nat.ModEq] at hcounted ⊢
        omega
      bounded := by
        have hbounded := h.bounded
        dsimp only
        omega
      waits := fun hwaits => absurd (h.waits hwaits) hleft.ne' }
  · rw [rtSemTake, if_neg hleft, if_neg hleft]
    have hzero : sem.value = 0 := Nat.eq_zero_of_not_pos hleft
    by_cases htime : time = 0
    · rw [if_pos htime, if_pos htime]
      have hnext : [Entry.called thread, .failed thread .etimeout].foldl Ledger.next m = m := by
        simp [Ledger.next, h.asking_erase hfree]
      exact ⟨m, ⟨rfl, hnext.symm⟩, h⟩
    · rw [if_neg htime, if_neg htime]
      have hfree' : (sem.threads.setError thread .eok).call thread = none := hfree
      refine ⟨_, ⟨rfl, rfl⟩, h.threads _
        ((h.sound.setError hfree .eok).suspend hfree' priority flag time) (fun t => ?_)
        (fun t c => ?_) fun _ => hzero⟩
      · by_cases ht : t = thread
        · simp [ht, Waiting.suspend, Waiting.setCall]
        · rw [Waiting.suspend_call_of_ne priority flag time ht, Finset.mem_insert,
            or_iff_right ht]
          exact h.asking t
      · rw [Waiting.woken_suspend hfree', Waiting.woken_setError hfree]

/-- The calls that are left when one returns. -/
theorem Coupled.asking_leave (h : Coupled sem m) (t : T) :
    t ∈ m.asking.erase thread ↔ (sem.threads.setCall thread none).call t ≠ none := by
  by_cases ht : t = thread
  · simp [ht, Waiting.setCall]
  · simp [ht, Waiting.setCall, h.asking]

theorem goOn_served (h : Coupled sem m) (thread : T) :
    ∃ m', Served m (.goOn thread) (goOn sem thread).2 m' ∧ Coupled (goOn sem thread).1 m' := by
  cases hwake : sem.threads.wake thread with
  | absent =>
    have hnot : thread ∉ m.granted := by
      rw [h.granted]
      rintro ⟨time, hwoken⟩
      rw [hwoken.wake_eq] at hwake
      cases hwake
    simp only [goOn, hwake]
    exact ⟨m, ⟨(if_neg hnot).mpr (.inl rfl), rfl⟩, h⟩
  | failed err =>
    obtain ⟨hcall, hout, herror⟩ := Waiting.wake_failed hwake
    have hnot : thread ∉ m.granted := by
      rw [h.granted]
      rintro ⟨time, hwoken⟩
      exact herror hwoken.2.2
    have herr : err ≠ .eok := Waiting.wake_failed_error hwake ▸ herror
    have hask : thread ∈ m.asking := (h.asking thread).mpr hcall
    simp only [goOn, hwake]
    refine ⟨_, ⟨(if_neg hnot).mpr (.inr ⟨hask, err, herr, rfl⟩), rfl⟩, h.threads _
      (h.sound.leave hout none) h.asking_leave (fun t c => ?_) h.waits⟩
    rw [Waiting.woken_leave, and_iff_right_iff_imp]
    rintro hwoken rfl
    exact herror hwoken.2.2
  | resumed time =>
    have hwoken := Waiting.wake_resumed hwake
    have hin : thread ∈ m.granted := (h.granted thread).mpr ⟨time, hwoken⟩
    have hcard := Finset.card_erase_add_one hin
    have hpermits := h.permits
    have hcounted := h.counted
    simp only [goOn, hwake]
    refine ⟨_, ⟨(if_pos hin).mpr rfl, rfl⟩, ?_⟩
    exact {
      sound := h.sound.leave hwoken.2.1 none
      asking := h.asking_leave
      granted := fun t => by
        simp only [List.foldl_cons, List.foldl_nil, Ledger.next, Finset.mem_erase,
          Waiting.woken_leave, h.granted, exists_and_left]
      permits := by
        dsimp only [List.foldl_cons, List.foldl_nil, Ledger.next]
        omega
      counted := by
        dsimp only [List.foldl_cons, List.foldl_nil, Ledger.next, Nat.ModEq] at hcounted ⊢
        omega
      bounded := h.bounded
      waits := h.waits }

theorem rtSemRelease_served (h : Coupled sem m) :
    ∃ m', Served m .release (rtSemRelease sem).2 m' ∧ Coupled (rtSemRelease sem).1 m' := by
  have hpermits := h.permits
  have hcounted := h.counted
  have hbounded := h.bounded
  cases hlist : sem.threads.suspendThread with
  | nil =>
    simp only [rtSemRelease, hlist]
    refine ⟨_, ⟨.inl rfl, rfl⟩, ?_⟩
    exact {
      sound := h.sound
      asking := h.asking
      granted := h.granted
      permits := by
        have hle := Nat.mod_le (sem.value + 1) (2 ^ 16)
        dsimp only [List.foldl_cons, List.foldl_nil, Ledger.next]
        omega
      counted := by
        dsimp only [List.foldl_cons, List.foldl_nil, Ledger.next, Nat.ModEq] at hcounted ⊢
        omega
      bounded := Nat.mod_lt _ (by decide)
      waits := fun hwaits => absurd hlist hwaits }
  | cons first rest =>
    have hin : first ∈ sem.threads.suspendThread := hlist ▸ List.mem_cons_self
    have hzero := h.waits (List.ne_nil_of_mem hin)
    have hnot : first ∉ m.granted := by
      rw [h.granted]
      rintro ⟨time, hwoken⟩
      exact hwoken.2.1 hin
    have hask : first ∈ m.asking := (h.asking first).mpr (h.sound.calls first hin)
    obtain ⟨time, htime⟩ := Option.ne_none_iff_exists'.mp (h.sound.calls first hin)
    have hcard := Finset.card_insert_of_notMem hnot
    simp only [rtSemRelease, hlist]
    refine ⟨_, ⟨.inr ⟨first, Finset.mem_sdiff.mpr ⟨hask, hnot⟩, rfl⟩, rfl⟩, ?_⟩
    exact {
      sound := h.sound.resume first
      asking := h.asking
      granted := fun t => by
        simp only [List.foldl_cons, List.foldl_nil, Ledger.next, Finset.mem_insert,
          h.sound.woken_resume hin, h.granted]
        by_cases ht : t = first
        · simp [ht, htime]
        · simp [ht]
      permits := by
        dsimp only [List.foldl_cons, List.foldl_nil, Ledger.next]
        omega
      counted := by
        dsimp only [List.foldl_cons, List.foldl_nil, Ledger.next, Nat.ModEq] at hcounted ⊢
        omega
      bounded := hbounded
      waits := fun _ => hzero }

theorem rtSemReset_coupled (h : Coupled sem m) (value : ℕ) :
    Coupled (rtSemReset sem value).1 (m.next (.set value)) where
  sound := sem.threads.resumeAll_sound
  asking := h.asking
  granted t := by
    simp only [rtSemReset, Waiting.woken_resumeAll]
    exact h.granted t
  permits := le_rfl
  counted := Nat.ModEq.rfl
  bounded := Nat.mod_lt _ (by decide)
  waits hwaits := absurd rfl hwaits

theorem semTimeout_coupled (h : Coupled sem m) (thread : T) :
    Coupled (semTimeout sem thread) m := by
  refine h.threads _ (h.sound.threadTimeout _ thread) (fun t => ?_)
    (fun t c => h.sound.woken_threadTimeout _) fun hwaits => h.waits ?_
  · rw [Waiting.threadTimeout_call]
    exact h.asking t
  · intro hnil
    have hsub := Waiting.threadTimeout_subset (fun time => decide (0 < time)) sem.threads thread
    rw [hnil] at hsub
    exact hwaits (List.subset_nil.mp hsub)

theorem step_refines (priority : T → ℕ) (flag : IpcFlag) :
    StepRefines (step priority flag) Served Coupled fun _ _ => True := by
  intro sem m a h _
  cases a with
  | take thread time =>
    by_cases hfree : sem.threads.call thread = none
    · obtain ⟨m', hserved, hcoupled⟩ := rtSemTake_served priority flag h hfree time
      exact ⟨_, _, m', by rw [step, if_pos hfree], hserved, hcoupled⟩
    · have hask : thread ∈ m.asking := (h.asking thread).mpr hfree
      exact ⟨sem, [], m, by rw [step, if_neg hfree], ⟨by simp [Ledger.Answers, hask], rfl⟩, h⟩
  | release =>
    obtain ⟨m', hserved, hcoupled⟩ := rtSemRelease_served h
    exact ⟨_, _, m', rfl, hserved, hcoupled⟩
  | goOn thread =>
    obtain ⟨m', hserved, hcoupled⟩ := goOn_served h thread
    exact ⟨_, _, m', rfl, hserved, hcoupled⟩
  | threadTimeout thread => exact ⟨_, _, m, rfl, ⟨rfl, rfl⟩, semTimeout_coupled h thread⟩
  | reset value => exact ⟨_, _, _, rfl, ⟨rfl, rfl⟩, rtSemReset_coupled h value⟩

end Steps

section Runs

/-- Over every interleaving of takes, releases, timeouts and resets: every release adds a permit; a
take gets one at once when one is left, and else the one that is kept for it; a take that fails has
used none; no thread waits while a permit is counted; and the counted and kept permits are those
there are, modulo the 16 bits of the counter. -/
theorem run_permits {T : Type*} [DecidableEq T] (priority : T → ℕ) (flag : IpcFlag) (value : ℕ)
    (actions : List (Action T)) :
    ∃ sem entries m, run (step priority flag) (rtSemInit value) actions = some (sem, entries) ∧
      Allowed Served ⟨value % 2 ^ 16, ∅, ∅⟩ actions entries m ∧
      (sem.threads.suspendThread ≠ [] → sem.value = 0) ∧
      sem.value + m.granted.card ≤ m.permits ∧
      sem.value + m.granted.card ≡ m.permits [MOD 2 ^ 16] := by
  obtain ⟨sem, entries, m, hrun, hallowed, hcoupled⟩ :=
    (step_refines priority flag).run (rtSemInit_coupled value)
      (guarded_of_forall (fun _ _ => trivial) _ actions)
  exact ⟨sem, entries, m, hrun, hallowed, hcoupled.waits, hcoupled.permits, hcoupled.counted⟩

end Runs

end VehicleTerminal.Kernel.Semaphore
