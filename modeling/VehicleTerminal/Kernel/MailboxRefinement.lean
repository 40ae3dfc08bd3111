import VehicleTerminal.Kernel.Mailbox
import VehicleTerminal.Library.Fifo
import VehicleTerminal.Library.Ring

/-! The mailbox as a first-in first-out queue. Over every interleaving of calls, timeouts and
resets, the mails that are received are those that were accepted, in their order. -/
namespace VehicleTerminal.Kernel.Mailbox
open BlockMemory BoundedFifo CircularBuffer PartialRun

section Ring

/-- The ring of the mailbox holds the mails `q`. -/
structure Holding (mb : RtMailbox) (q : List UInt32) : Prop where
  pool : mb.size ≤ mb.msgPool.length
  entry : mb.entry = q.length
  room : q.length ≤ mb.size
  out : mb.outOffset % mb.size = mb.outOffset
  inside : mb.inOffset = (mb.outOffset + q.length) % mb.size
  content : CircularBuffer.Holds mb.msgPool mb.size mb.outOffset q

variable {mb : RtMailbox} {q : List UInt32} {value : UInt32}

/-- An offset that is increased and starts again at the end. -/
theorem advance_mod {i n : ℕ} (h : i < n) :
    (if i + 1 ≥ n then 0 else i + 1) = (i + 1) % n := by
  split_ifs with hend
  · rw [show i + 1 = n by omega, Nat.mod_self]
  · rw [Nat.mod_eq_of_lt (by omega)]

theorem Holding.put (h : Holding mb q) (hroom : mb.entry ≠ mb.size) (value : UInt32) :
    ∃ mb', mb.put value = some mb' ∧ mb'.entry = mb.entry + 1 ∧ mb'.size = mb.size ∧
      Holding mb' (q ++ [value]) := by
  have hentry := h.entry
  have hle := h.room
  have hlt : q.length < mb.size := by omega
  have hin : mb.inOffset < mb.size := h.inside ▸ Nat.mod_lt _ (by omega)
  have hout : mb.outOffset < mb.size := h.out ▸ Nat.mod_lt _ (by omega)
  have hstore : store mb.msgPool mb.inOffset value =
      some (wrapWrite mb.msgPool mb.size mb.inOffset [value]) := by
    rw [store_of_lt value (hin.trans_le h.pool), wrapWrite,
      if_pos (by rw [List.length_singleton]; omega)]
  refine ⟨{ mb with
    msgPool := wrapWrite mb.msgPool mb.size mb.inOffset [value]
    inOffset := if mb.inOffset + 1 ≥ mb.size then 0 else mb.inOffset + 1
    entry := mb.entry + 1 }, by rw [RtMailbox.put, hstore, Option.map_some], rfl, rfl, ?_⟩
  exact {
    pool := by
      dsimp only
      rw [wrapWrite_length h.pool hin.le (by rw [List.length_singleton]; omega)]
      exact h.pool
    entry := by
      dsimp only
      rw [List.length_append, List.length_singleton, hentry]
    room := by
      rw [List.length_append, List.length_singleton]
      exact hlt
    out := h.out
    inside := by
      dsimp only
      rw [advance_mod hin, List.length_append, List.length_singleton, ← Nat.add_assoc, h.inside,
        Nat.mod_add_mod]
    content := h.content.append h.pool hin.le (by rw [h.inside, Nat.mod_mod])
      (by rw [List.length_singleton]; omega) }

theorem Holding.take (h : Holding mb (value :: q)) :
    ∃ mb', mb.take = some (mb', value) ∧ mb.entry = mb'.entry + 1 ∧ mb'.size = mb.size ∧
      Holding mb' q := by
  have hentry := h.entry
  have hle := h.room
  rw [List.length_cons] at hentry hle
  have hout : mb.outOffset < mb.size := h.out ▸ Nat.mod_lt _ (by omega)
  have hfirst : mb.msgPool[mb.outOffset]? = some value := by
    have hhead := h.content 0 (by simp)
    rwa [Nat.add_zero, h.out] at hhead
  refine ⟨{ mb with
    outOffset := if mb.outOffset + 1 ≥ mb.size then 0 else mb.outOffset + 1
    entry := mb.entry - 1 }, by rw [RtMailbox.take, hfirst, Option.map_some],
    by dsimp only; omega, rfl, ?_⟩
  exact {
    pool := h.pool
    entry := by
      dsimp only
      omega
    room := (Nat.le_succ _).trans hle
    out := by
      dsimp only
      rw [advance_mod hout, Nat.mod_mod]
    inside := by
      dsimp only
      rw [advance_mod hout, Nat.mod_add_mod, h.inside, List.length_cons, Nat.add_assoc,
        Nat.add_comm 1]
    content := by
      have hnext : (mb.outOffset + 1) % mb.size % mb.size = (mb.outOffset + 1) % mb.size :=
        Nat.mod_mod _ _
      dsimp only
      rw [advance_mod hout]
      exact h.content.drop hnext }

/-- A mailbox whose offsets are 0 holds nothing when its counter is 0. -/
theorem Holding.clear (h : Holding mb q) :
    Holding { mb with entry := 0, inOffset := 0, outOffset := 0 } [] where
  pool := h.pool
  entry := rfl
  room := Nat.zero_le _
  out := Nat.zero_mod _
  inside := by simp
  content := holds_nil _ _ _

/-- The mails in the ring, the oldest first. -/
def RtMailbox.mails (mb : RtMailbox) : List UInt32 :=
  (List.range mb.entry).map fun i => mb.msgPool.getD ((mb.outOffset + i) % mb.size) 0

theorem Holding.mails_eq (h : Holding mb q) : mb.mails = q := by
  apply List.ext_getElem
  · simp [RtMailbox.mails, h.entry]
  · intro i _ hi
    have hcell := h.content i hi
    simp only [RtMailbox.mails, List.getElem_map, List.getElem_range]
    rw [List.getD_eq_getElem?_getD, hcell, List.getElem?_eq_getElem hi, Option.getD_some]

end Ring

section Sides

variable {T : Type*} [DecidableEq T]

inductive Side
  | sender
  | receiver
  deriving Repr, DecidableEq

def Side.other : Side → Side
  | .sender => .receiver
  | .receiver => .sender

def Call.side : Call → Side
  | .sending _ _ => .sender
  | .receiving _ => .receiver

/-- What threads of a side wait for: free places, or mails. -/
def RtMailbox.tokens (mb : RtMailbox) : Side → ℕ
  | .sender => mb.size - mb.entry
  | .receiver => mb.entry

def System.waiting (s : System T) : Side → List T
  | .sender => s.suspendSenderThread
  | .receiver => s.suspendThread

@[simp] theorem after_side (call : Call) (elapsed : ℕ) : (call.after elapsed).side = call.side := by
  cases call <;> rfl

theorem Side.other_ne (side : Side) : side.other ≠ side := by cases side <;> decide

/-- What the loop of a call does. -/
inductive LoopStep (priority : T → ℕ) (flag : IpcFlag) (s : System T) (thread : T) (call : Call)
    (s' : System T) : Output T → Prop
  | gaveUp {err : Err} (hnone : s.mb.tokens call.side = 0) (hmb : s'.mb = s.mb)
      (hwaiting : ∀ side, s'.waiting side = s.waiting side) (hcall : s'.call = s.call)
      (herror : ∀ t, t ≠ thread → s'.error t = s.error t) (hkept : s'.error thread ≠ .efull) :
    LoopStep priority flag s thread call s' (.returned thread err)
  | suspended (hnone : s.mb.tokens call.side = 0) (hmb : s'.mb = s.mb)
      (hwaiting : s'.waiting call.side =
        ipcListSuspend priority flag (s.waiting call.side) thread)
      (hothers : s'.waiting call.side.other = s.waiting call.side.other)
      (hcall : s'.call = Function.update s.call thread (some call))
      (herror : s'.error = Function.update s.error thread .eok) :
    LoopStep priority flag s thread call s' .silent
  | proceeded {o : Output T} (hfetched : s.mb.tokens call.side = s'.mb.tokens call.side + 1)
      (hleft : s'.mb.tokens call.side.other = s.mb.tokens call.side.other + 1)
      (hwaiting : s'.waiting call.side = s.waiting call.side)
      (hwoken : s'.waiting call.side.other = (s.waiting call.side.other).tail)
      (hcall : s'.call = s.call) (herror : s'.error = s.error) :
    LoopStep priority flag s thread call s' o

/-- The mailbox as its callers know it: the mails, and the calls of the threads that were
suspended. -/
structure Box (T : Type*) where
  mails : List UInt32
  calls : T → Option Call

def System.box (s : System T) (q : List UInt32) : Box T := ⟨q, s.call⟩

def Box.setCall (b : Box T) (thread : T) (call : Option Call) : Box T :=
  { b with calls := Function.update b.calls thread call }

/-- What a call does to a queue with room for `size` mails: it is done, or gives up, or waits. -/
def Box.Tries (size : ℕ) (b : Box T) (thread : T) (o : Output T) (b' : Box T) : Call → Prop
  | .sending value timeout =>
    if b.mails.length < size then
      o = .accepted value ∧ b' = { b with mails := b.mails ++ [value] }
    else if timeout = 0 then o = .returned thread .efull ∧ b' = b
    else o = .silent ∧ b' = b.setCall thread (some (.sending value timeout))
  | .receiving timeout =>
    match b.mails with
    | mail :: mails => o = .received thread mail ∧ b' = { b with mails := mails }
    | [] =>
      if timeout = 0 then o = .returned thread .etimeout ∧ b' = b
      else o = .silent ∧ b' = b.setCall thread (some (.receiving timeout))

theorem loop_refines (priority : T → ℕ) (flag : IpcFlag) {s : System T} {q : List UInt32}
    (h : Holding s.mb q) (thread : T) (call : Call) :
    ∃ s' o q', rtMbLoop priority flag s thread call = some (s', o) ∧ Holding s'.mb q' ∧
      s'.mb.size = s.mb.size ∧ (s.box q).Tries s.mb.size thread o (s'.box q') call ∧
      LoopStep priority flag s thread call s' o := by
  have hroom := h.room
  have hentry := h.entry
  cases call with
  | sending value timeout =>
    by_cases hfull : s.mb.entry = s.mb.size
    · have hnone : s.mb.tokens .sender = 0 := by
        rw [RtMailbox.tokens, hfull, Nat.sub_self]
      have hroom' : ¬ (s.box q).mails.length < s.mb.size := by
        dsimp only [System.box]
        omega
      by_cases htime : timeout = 0
      · refine ⟨s.setError thread .eok, .returned thread .efull, q,
          by rw [rtMbLoop, if_pos hfull]; simp only [htime, if_true], h, rfl, ?_,
          .gaveUp hnone rfl (fun side => by cases side <;> rfl) rfl
            (fun t ht => Function.update_of_ne ht _ _) (by simp [System.setError])⟩
        rw [Box.Tries, if_neg hroom', if_pos htime]
        exact ⟨rfl, rfl⟩
      · refine ⟨{ (s.setError thread .eok).setCall thread (some (.sending value timeout)) with
            suspendSenderThread := ipcListSuspend priority flag s.suspendSenderThread thread },
          .silent, q, by rw [rtMbLoop, if_pos hfull]; simp only [htime, if_false]; rfl, h, rfl, ?_,
          .suspended hnone rfl rfl rfl rfl rfl⟩
        rw [Box.Tries, if_neg hroom', if_neg htime]
        exact ⟨rfl, rfl⟩
    · obtain ⟨mb', hput, hentry', hsize, hholds⟩ := h.put hfull value
      refine ⟨{ s with mb := mb', suspendThread := s.suspendThread.tail }, .accepted value,
        q ++ [value], by rw [rtMbLoop, if_neg hfull, hput, Option.map_some], hholds, hsize,
        ?_, .proceeded ?_ ?_ rfl rfl rfl rfl⟩
      · have hroom' : (s.box q).mails.length < s.mb.size := by
          dsimp only [System.box]
          omega
        rw [Box.Tries, if_pos hroom']
        exact ⟨rfl, rfl⟩
      · simp only [Call.side, RtMailbox.tokens, hsize, hentry']
        omega
      · simp only [Call.side, Side.other, RtMailbox.tokens, hentry']
  | receiving timeout =>
    cases q with
    | nil =>
      have hnone : s.mb.entry = 0 := hentry
      by_cases htime : timeout = 0
      · refine ⟨(s.setError thread .eok).setError thread .etimeout, .returned thread .etimeout, [],
          by rw [rtMbLoop, if_pos hnone]; simp only [htime, if_true], h, rfl,
          (if_pos htime).mpr ⟨rfl, rfl⟩,
          .gaveUp hnone rfl (fun side => by cases side <;> rfl) rfl (fun t ht => ?_)
            (by simp [System.setError])⟩
        simp only [System.setError]
        rw [Function.update_of_ne ht, Function.update_of_ne ht]
      · exact ⟨{ (s.setError thread .eok).setCall thread (some (.receiving timeout)) with
            suspendThread := ipcListSuspend priority flag s.suspendThread thread },
          .silent, [], by rw [rtMbLoop, if_pos hnone]; simp only [htime, if_false]; rfl, h, rfl,
          (if_neg htime).mpr ⟨rfl, rfl⟩, .suspended hnone rfl rfl rfl rfl rfl⟩
    | cons value q =>
      have hsome : s.mb.entry ≠ 0 := by
        rw [hentry, List.length_cons]
        exact Nat.succ_ne_zero _
      obtain ⟨mb', htake, hentry', hsize, hholds⟩ := h.take
      refine ⟨{ s with mb := mb', suspendSenderThread := s.suspendSenderThread.tail },
        .received thread value, q, by rw [rtMbLoop, if_neg hsome, htake, Option.map_some], hholds,
        hsize, ⟨rfl, rfl⟩, .proceeded hentry' ?_ rfl rfl rfl rfl⟩
      simp only [Call.side, Side.other, RtMailbox.tokens, hsize]
      omega

end Sides

section Steps

variable {T : Type*} [DecidableEq T] {priority : T → ℕ} {flag : IpcFlag} {s : System T}
  {q : List UInt32}

/-- What a step does to the threads. -/
inductive StepCase (priority : T → ℕ) (flag : IpcFlag) (s s' : System T) (o : Output T) : Prop
  | idle (hstate : s' = s)
  | called {thread : T} {call : Call}
      (hfree : s.call thread = none ∨ 0 < s.mb.tokens call.side)
      (hloop : LoopStep priority flag s thread call s' o)
  | rose {thread : T} {call call' : Call} (hcall : s.call thread = some call)
      (hside : call'.side = call.side) (hresumed : ¬ s.Suspended thread)
      (herror : s.error thread = .eok)
      (hloop : LoopStep priority flag (s.setCall thread none) thread call' s' o)
  | failed {thread : T} (hresumed : ¬ s.Suspended thread) (herror : s.error thread ≠ .eok)
      (hstate : s' = s.setCall thread none)
  | timedOut {thread : T} (hsuspended : s.Suspended thread)
      (hstate : s' = { s.setError thread .etimeout with
        suspendThread := s.suspendThread.erase thread
        suspendSenderThread := s.suspendSenderThread.erase thread })
  | reset (hstate : s' = rtMbReset s)

/-- One step of a queue with room for `size` mails. A thread that goes on may have to wait on, or
may have been given up. -/
def Queued (size : ℕ) (b : Box T) (a : Action T) (o : Output T) (b' : Box T) : Prop :=
  match a with
  | .sendWait thread value timeout =>
    if timeout = 0 ∨ b.calls thread = none then
      b.Tries size thread o b' (.sending value timeout)
    else o = .silent ∧ b' = b
  | .recv thread timeout =>
    if timeout = 0 ∨ b.calls thread = none then b.Tries size thread o b' (.receiving timeout)
    else o = .silent ∧ b' = b
  | .goOn thread elapsed =>
    match b.calls thread with
    | none => o = .silent ∧ b' = b
    | some call => o = .silent ∧ b' = b ∨
      (∃ err, err ≠ .eok ∧ err ≠ .efull ∧ o = .returned thread err ∧
        b' = b.setCall thread none) ∨
      (b.setCall thread none).Tries size thread o b' (call.after elapsed)
  | .threadTimeout _ => o = .silent ∧ b' = b
  | .reset => o = .silent ∧ b' = { b with mails := [] }

/-- What holds of the system between two steps; no thread error is `RT_EFULL`. -/
structure Sound (s : System T) (q : List UInt32) : Prop where
  holding : Holding s.mb q
  errors : ∀ t, s.error t ≠ .efull

theorem LoopStep.errors {s' : System T} {thread : T} {call : Call} {o : Output T}
    (h : LoopStep priority flag s thread call s' o) (herrors : ∀ t, s.error t ≠ .efull) (t : T) :
    s'.error t ≠ .efull := by
  cases h with
  | gaveUp _ _ _ _ herror hkept =>
    by_cases ht : t = thread
    · exact ht ▸ hkept
    · exact herror t ht ▸ herrors t
  | suspended _ _ _ _ _ herror =>
    rw [herror, Function.update_apply]
    split_ifs
    · decide
    · exact herrors t
  | proceeded _ _ _ _ _ herror => exact herror ▸ herrors t

/-- What every step does. -/
structure Steps (priority : T → ℕ) (flag : IpcFlag) (s s' : System T) (q q' : List UInt32)
    (a : Action T) (o : Output T) : Prop where
  sound : Sound s' q'
  size : s'.mb.size = s.mb.size
  queued : Queued s.mb.size (s.box q) a o (s'.box q')
  threads : StepCase priority flag s s' o

theorem goOn_steps (priority : T → ℕ) (flag : IpcFlag) (h : Sound s q) (thread : T) (elapsed : ℕ) :
    ∃ s' o q', goOn priority flag s thread elapsed = some (s', o) ∧
      Steps priority flag s s' q q' (.goOn thread elapsed) o := by
  cases hcall : s.call thread with
  | none =>
    refine ⟨s, .silent, q, by simp only [goOn, hcall], h, rfl, ?_, .idle rfl⟩
    simp only [Queued, System.box, hcall, and_self]
  | some call =>
    by_cases hsuspended : s.Suspended thread
    · refine ⟨s, .silent, q, by simp only [goOn, hcall, if_pos hsuspended], h, rfl, ?_, .idle rfl⟩
      simp only [Queued, System.box, hcall, and_self, true_or]
    · by_cases herror : s.error thread = .eok
      · obtain ⟨s', o, q', hrun, hholds, hsize, htries, hloop⟩ :=
          loop_refines priority flag (s := s.setCall thread none) h.holding thread
            (call.after elapsed)
        refine ⟨s', o, q', ?_, ⟨hholds, hloop.errors h.errors⟩, hsize, ?_,
          .rose hcall (after_side call elapsed) hsuspended herror hloop⟩
        · simp only [goOn, hcall, if_neg hsuspended, herror, ne_eq, not_true_eq_false, if_false,
            hrun]
        · simp only [Queued, show (s.box q).calls thread = some call from hcall]
          exact .inr (.inr htries)
      · refine ⟨s.setCall thread none, .returned thread (s.error thread), q, ?_,
          ⟨h.holding, h.errors⟩, rfl, ?_, .failed hsuspended herror rfl⟩
        · simp only [goOn, hcall, if_neg hsuspended, ne_eq, herror, not_false_eq_true, if_true]
        · simp only [Queued, show (s.box q).calls thread = some call from hcall]
          exact .inr (.inl ⟨_, herror, h.errors thread, rfl, rfl⟩)

theorem sendWait_steps (priority : T → ℕ) (flag : IpcFlag) (h : Sound s q) (thread : T)
    (value : UInt32) (timeout : ℤ) (hfree : timeout = 0 ∨ s.call thread = none) :
    ∃ s' o q', rtMbSendWait priority flag s thread value timeout = some (s', o) ∧
      Steps priority flag s s' q q' (.sendWait thread value timeout) o := by
  have hentry := h.holding.entry
  have hqueued {o : Output T} {b' : Box T}
      (htries : (s.box q).Tries s.mb.size thread o b' (.sending value timeout)) :
      Queued s.mb.size (s.box q) (.sendWait thread value timeout) o b' :=
    (if_pos hfree).mpr htries
  by_cases hfull : s.mb.entry = s.mb.size ∧ timeout = 0
  · have hroom : ¬ (s.box q).mails.length < s.mb.size := by
      dsimp only [System.box]
      omega
    refine ⟨s, .returned thread .efull, q, by rw [rtMbSendWait, if_pos hfull], h, rfl,
      hqueued ?_, .idle rfl⟩
    rw [Box.Tries, if_neg hroom, if_pos hfull.2]
    exact ⟨rfl, rfl⟩
  · obtain ⟨s', o, q', hrun, hholds, hsize, htries, hloop⟩ :=
      loop_refines priority flag h.holding thread (.sending value timeout)
    refine ⟨s', o, q', by rw [rtMbSendWait, if_neg hfull, hrun],
      ⟨hholds, hloop.errors h.errors⟩, hsize, hqueued htries, .called ?_ hloop⟩
    refine hfree.symm.imp_right fun htime => ?_
    have hroom := h.holding.room
    simp only [Call.side, RtMailbox.tokens]
    omega

theorem recv_steps (priority : T → ℕ) (flag : IpcFlag) (h : Sound s q) (thread : T) (timeout : ℤ)
    (hfree : timeout = 0 ∨ s.call thread = none) :
    ∃ s' o q', rtMbRecv priority flag s thread timeout = some (s', o) ∧
      Steps priority flag s s' q q' (.recv thread timeout) o := by
  have hqueued {o : Output T} {b' : Box T}
      (htries : (s.box q).Tries s.mb.size thread o b' (.receiving timeout)) :
      Queued s.mb.size (s.box q) (.recv thread timeout) o b' := (if_pos hfree).mpr htries
  by_cases hempty : s.mb.entry = 0 ∧ timeout = 0
  · have hnothing : q = [] := List.length_eq_zero_iff.mp (h.holding.entry.symm.trans hempty.1)
    subst hnothing
    exact ⟨s, .returned thread .etimeout, [], by rw [rtMbRecv, if_pos hempty], h, rfl,
      hqueued ((if_pos hempty.2).mpr ⟨rfl, rfl⟩), .idle rfl⟩
  · obtain ⟨s', o, q', hrun, hholds, hsize, htries, hloop⟩ :=
      loop_refines priority flag h.holding thread (.receiving timeout)
    refine ⟨s', o, q', by rw [rtMbRecv, if_neg hempty, hrun],
      ⟨hholds, hloop.errors h.errors⟩, hsize, hqueued htries, .called ?_ hloop⟩
    refine hfree.symm.imp_right fun htime => ?_
    simp only [Call.side, RtMailbox.tokens]
    omega

theorem threadTimeout_cases (s : System T) (thread : T) :
    threadTimeout s thread = s ∨ s.Suspended thread ∧
      threadTimeout s thread = { s.setError thread .etimeout with
        suspendThread := s.suspendThread.erase thread
        suspendSenderThread := s.suspendSenderThread.erase thread } := by
  cases hcall : s.call thread with
  | none => exact .inl (by simp only [threadTimeout, hcall])
  | some call =>
    by_cases hsuspended : s.Suspended thread ∧ 0 < call.timeout
    · exact .inr ⟨hsuspended.1, by simp only [threadTimeout, hcall, if_pos hsuspended]⟩
    · exact .inl (by simp only [threadTimeout, hcall, if_neg hsuspended])

theorem step_steps (priority : T → ℕ) (flag : IpcFlag) (h : Sound s q) (a : Action T) :
    ∃ s' o q', step priority flag s a = some (s', o) ∧ Steps priority flag s s' q q' a o := by
  cases a with
  | sendWait thread value timeout =>
    by_cases hfree : timeout = 0 ∨ s.call thread = none
    · obtain ⟨s', o, q', hrun, hsteps⟩ :=
        sendWait_steps priority flag h thread value timeout hfree
      exact ⟨s', o, q', by rw [step, if_pos hfree, hrun], hsteps⟩
    · exact ⟨s, .silent, q, by rw [step, if_neg hfree], h, rfl, (if_neg hfree).mpr ⟨rfl, rfl⟩,
        .idle rfl⟩
  | recv thread timeout =>
    by_cases hfree : timeout = 0 ∨ s.call thread = none
    · obtain ⟨s', o, q', hrun, hsteps⟩ :=
        recv_steps priority flag h thread timeout hfree
      exact ⟨s', o, q', by rw [step, if_pos hfree, hrun], hsteps⟩
    · exact ⟨s, .silent, q, by rw [step, if_neg hfree], h, rfl, (if_neg hfree).mpr ⟨rfl, rfl⟩,
        .idle rfl⟩
  | goOn thread elapsed => exact goOn_steps priority flag h thread elapsed
  | threadTimeout thread =>
    rcases threadTimeout_cases s thread with hsame | ⟨hsuspended, hout⟩
    · exact ⟨s, .silent, q, by rw [step, hsame], h, rfl, ⟨rfl, rfl⟩, .idle rfl⟩
    · refine ⟨_, .silent, q, by rw [step], hout ▸ ⟨h.holding, fun t => ?_⟩, hout ▸ rfl,
        hout ▸ ⟨rfl, rfl⟩, .timedOut hsuspended hout⟩
      simp only [System.setError, Function.update_apply]
      split_ifs
      · decide
      · exact h.errors t
  | reset =>
    refine ⟨rtMbReset s, .silent, [], rfl, ⟨h.holding.clear, fun t => ?_⟩, rfl, ⟨rfl, rfl⟩,
      .reset rfl⟩
    simp only [rtMbReset, ipcListResumeAll]
    split_ifs
    · decide
    · decide
    · exact h.errors t

end Steps

section Runs

variable {T : Type*}

/-- What can be seen of a step of the mails alone. -/
def Mailed (size : ℕ) (q q' : List UInt32) : Output T → Prop
  | .accepted value => q.length < size ∧ q' = q ++ [value]
  | .received _ value => q = value :: q'
  | .silent => q' = q
  | .returned _ err => q' = q ∧ (err = .efull → size ≤ q.length)

/-- What a step moves into or out of the mailbox. -/
def Output.move : Output T → Move UInt32
  | .accepted value => .accept [value]
  | .received _ value => .hand [value]
  | .silent => .accept []
  | .returned _ _ => .accept []

def move : Action T → Output T → Move UInt32
  | .reset, _ => .clear
  | _, o => o.move

theorem Mailed.moves {size : ℕ} {q q' : List UInt32} {o : Output T} (h : Mailed size q q' o)
    (hroom : q.length ≤ size) : Moves size q o.move q' := by
  cases o with
  | silent =>
    obtain rfl : q' = q := h
    exact ⟨(List.append_nil _).symm, hroom⟩
  | accepted value =>
    obtain ⟨hlt, rfl⟩ := h
    refine ⟨rfl, ?_⟩
    rw [List.length_append, List.length_singleton]
    exact hlt
  | received thread value => exact h
  | returned thread err =>
    obtain rfl : q' = q := h.1
    exact ⟨(List.append_nil _).symm, hroom⟩

/-- The system is sound with the mails `q` in a mailbox of this size. -/
def Behaves (size : ℕ) (s : System T) (q : List UInt32) : Prop := Sound s q ∧ s.mb.size = size

theorem init_behaves (msgPool : List UInt32) :
    Behaves (msgPool.length % 2 ^ 16) (rtMbInit msgPool : System T) [] where
  left := {
    holding := {
      pool := Nat.mod_le _ _
      entry := rfl
      room := Nat.zero_le _
      out := Nat.zero_mod _
      inside := (Nat.zero_mod _).symm
      content := holds_nil _ _ _ }
    errors := fun _ => by simp [rtMbInit] }
  right := rfl

variable [DecidableEq T] {size : ℕ} {b b' : Box T} {a : Action T} {o : Output T}

theorem Box.Tries.mailed {thread : T} {call : Call} (h : b.Tries size thread o b' call) :
    Mailed size b.mails b'.mails o := by
  cases call with
  | sending value timeout =>
    rw [Box.Tries] at h
    split_ifs at h with hroom htime
    · obtain ⟨rfl, rfl⟩ := h
      exact ⟨hroom, rfl⟩
    · obtain ⟨rfl, rfl⟩ := h
      exact ⟨rfl, fun _ => not_lt.mp hroom⟩
    · obtain ⟨rfl, rfl⟩ := h
      rfl
  | receiving timeout =>
    cases hmails : b.mails with
    | nil =>
      simp only [Box.Tries, hmails] at h
      split_ifs at h with htime
      · obtain ⟨rfl, rfl⟩ := h
        exact ⟨hmails, fun hfull => absurd hfull (by decide)⟩
      · obtain ⟨rfl, rfl⟩ := h
        exact hmails
    | cons mail mails =>
      simp only [Box.Tries, hmails] at h
      obtain ⟨rfl, rfl⟩ := h
      rfl

/-- A reset apart, a step moves one mail at most. -/
theorem Queued.mailed (h : Queued size b a o b') (ha : a ≠ .reset) :
    Mailed size b.mails b'.mails o := by
  have hsame (h : o = .silent ∧ b' = b) : Mailed size b.mails b'.mails o := by
    obtain ⟨rfl, rfl⟩ := h
    rfl
  cases a with
  | sendWait thread value timeout =>
    simp only [Queued] at h
    split_ifs at h with hfree
    · exact h.mailed
    · exact hsame h
  | recv thread timeout =>
    simp only [Queued] at h
    split_ifs at h with hfree
    · exact h.mailed
    · exact hsame h
  | goOn thread elapsed =>
    cases hcall : b.calls thread with
    | none =>
      simp only [Queued, hcall] at h
      exact hsame h
    | some call =>
      simp only [Queued, hcall] at h
      rcases h with h | ⟨err, -, hfull, rfl, rfl⟩ | h
      · exact hsame h
      · exact ⟨rfl, fun heq => absurd heq hfull⟩
      · exact h.mailed
  | threadTimeout thread => exact hsame h
  | reset => exact absurd rfl ha

/-- One step of the mails alone. -/
def Carried (size : ℕ) (q : List UInt32) (a : Action T) (o : Output T) (q' : List UInt32) : Prop :=
  Moves size q (move a o) q'

theorem Queued.carried (h : Queued size b a o b') (hroom : b.mails.length ≤ size) :
    Carried size b.mails a o b'.mails := by
  cases a with
  | reset =>
    obtain ⟨rfl, rfl⟩ := h
    rfl
  | sendWait | recv | goOn | threadTimeout => exact (h.mailed (by simp)).moves hroom

theorem step_refines (priority : T → ℕ) (flag : IpcFlag) (size : ℕ) :
    StepRefines (step priority flag) (Queued size)
      (fun s b => ∃ q, b = s.box q ∧ Behaves size s q) fun _ _ => True := by
  rintro s b a ⟨q, rfl, hsound, rfl⟩ -
  obtain ⟨s', o, q', hstep, hsteps⟩ := step_steps priority flag hsound a
  exact ⟨s', o, s'.box q', hstep, hsteps.queued, q', rfl, hsteps.sound, hsteps.size⟩

/-- Every interleaving of calls, timeouts and resets stays inside the message pool and is one of a
bounded first-in first-out queue: a mail that is accepted is the one that the sender passed, also
when the sender had to wait, and what was accepted since the last reset is what was received since,
followed by what the ring holds. -/
theorem run_fifo (priority : T → ℕ) (flag : IpcFlag) (msgPool : List UInt32)
    (actions : List (Action T)) :
    ∃ s outputs, run (step priority flag) (rtMbInit msgPool) actions = some (s, outputs) ∧
      Allowed (Queued (msgPool.length % 2 ^ 16)) ⟨[], fun _ => none⟩ actions outputs
        ⟨s.mb.mails, s.call⟩ ∧
      (ledger (List.zipWith move actions outputs)).Balanced s.mb.mails ∧
      s.mb.mails.length = s.mb.entry ∧ s.mb.entry ≤ msgPool.length % 2 ^ 16 := by
  obtain ⟨s, outputs, b, hrun, hallowed, q, rfl, hsound, hsize⟩ :=
    (step_refines priority flag (msgPool.length % 2 ^ 16)).run ⟨[], rfl, init_behaves msgPool⟩
      (guarded_of_forall (fun _ _ => trivial) _ actions)
  have hentry := hsound.holding.entry
  have hroom := hsound.holding.room
  have hcarried : Allowed (Carried (msgPool.length % 2 ^ 16)) [] actions outputs q :=
    hallowed.map Box.mails (fun b => b.mails.length ≤ msgPool.length % 2 ^ 16)
      (fun b a o b' hroom h => ⟨h.carried hroom, (h.carried hroom).length_le hroom⟩) (Nat.zero_le _)
  have hmoves : MovesBy (msgPool.length % 2 ^ 16) (Carried (T := T) (msgPool.length % 2 ^ 16))
      move := fun _ _ _ _ _ h => h
  refine ⟨s, outputs, hrun, ?_⟩
  rw [hsound.holding.mails_eq]
  exact ⟨hallowed, hmoves.ledger_balanced hcarried, hentry.symm, by omega⟩

end Runs

end VehicleTerminal.Kernel.Mailbox
