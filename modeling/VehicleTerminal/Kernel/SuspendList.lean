import Mathlib.Data.List.Nodup
import Mathlib.Data.List.Perm.Basic
import Mathlib.Tactic

/-! The lists of `ipc.c` in which threads wait for an object, and the errors that waiting ends
with. -/
namespace VehicleTerminal.Kernel

section Model

variable {T : Type*}

/-- `RT_IPC_FLAG_FIFO` and `RT_IPC_FLAG_PRIO`. -/
inductive IpcFlag
  | fifo
  | prio
  deriving Repr, DecidableEq

inductive Err
  | eok
  | error
  | etimeout
  | efull
  deriving Repr, DecidableEq

/-- In front of the first thread that is less urgent; a smaller number is more urgent. -/
def insertByPriority (priority : T → ℕ) (thread : T) : List T → List T
  | [] => [thread]
  | sthread :: list =>
    if priority thread < priority sthread then thread :: sthread :: list
    else sthread :: insertByPriority priority thread list

def ipcListSuspend (priority : T → ℕ) (flag : IpcFlag) (list : List T) (thread : T) : List T :=
  match flag with
  | .fifo => list ++ [thread]
  | .prio => insertByPriority priority thread list

end Model

section Suspend

variable {T : Type*} {priority : T → ℕ} {flag : IpcFlag} {list : List T} {thread t : T}

theorem insertByPriority_perm (priority : T → ℕ) (thread : T) (list : List T) :
    (insertByPriority priority thread list).Perm (thread :: list) := by
  induction list with
  | nil => exact .refl _
  | cons sthread list ih =>
    rw [insertByPriority]
    split_ifs
    · exact .refl _
    · exact (ih.cons sthread).trans (.swap thread sthread list)

/-- A thread that is suspended joins the list once. -/
theorem ipcListSuspend_perm (priority : T → ℕ) (flag : IpcFlag) (list : List T) (thread : T) :
    (ipcListSuspend priority flag list thread).Perm (thread :: list) := by
  cases flag with
  | fifo => exact List.perm_append_singleton thread list
  | prio => exact insertByPriority_perm priority thread list

@[simp] theorem mem_ipcListSuspend :
    t ∈ ipcListSuspend priority flag list thread ↔ t = thread ∨ t ∈ list := by
  rw [(ipcListSuspend_perm priority flag list thread).mem_iff, List.mem_cons]

@[simp] theorem ipcListSuspend_nodup :
    (ipcListSuspend priority flag list thread).Nodup ↔ thread ∉ list ∧ list.Nodup := by
  rw [(ipcListSuspend_perm priority flag list thread).nodup_iff, List.nodup_cons]

end Suspend

end VehicleTerminal.Kernel
