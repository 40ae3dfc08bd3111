import VehicleTerminal.Comm.Port

/-! The receive events of `comm.c`. Every port has a flag in an event set that accumulates until
the thread of the ports receives it, and the thread serves the set that it received. -/
namespace VehicleTerminal.CommEvent
open Comm (Com)

section Model

/-- The values of `COM_TypeDef`. -/
def index : Com → ℕ
  | .com1 => 0
  | .com2 => 1
  | .com3 => 2
  | .com4 => 3
  | .com5 => 4
  | .com6 => 5

/-- `EVENT_FLAG_COMM1` to `EVENT_FLAG_COMM6`. -/
def eventFlagComm (com : Com) : BitVec 32 := 1#32 <<< index com

inductive Reader
  | commParamCheckReadData
  | commTest4CheckReadData
  | commTest5CheckReadData
  deriving DecidableEq, Repr

/-- `rt_event_send`, as the functions of `Comm_CallbackTab` call it. -/
def eventSend (com : Com) (set : BitVec 32) : BitVec 32 := set ||| eventFlagComm com

/-- `rt_event_recv` with the options OR and CLEAR: what is received and what is left, or nothing
while the caller waits. -/
def rtEventRecv (set flags : BitVec 32) : Option (BitVec 32 × BitVec 32) :=
  if set &&& flags ≠ 0 then some (set &&& flags, set &&& ~~~flags) else none

/-- The flags that `comm_thread_entry` waits for. -/
def recvFlags : BitVec 32 :=
  eventFlagComm .com1 ||| eventFlagComm .com2 ||| eventFlagComm .com3 ||| eventFlagComm .com4 |||
    eventFlagComm .com5

/-- The `switch` of `comm_thread_entry`. -/
def switchReader (recvedEvent : BitVec 32) : Option Reader :=
  if recvedEvent = eventFlagComm .com1 then some .commParamCheckReadData
  else if recvedEvent = eventFlagComm .com2 then none
  else if recvedEvent = eventFlagComm .com3 then some .commParamCheckReadData
  else if recvedEvent = eventFlagComm .com4 then some .commTest4CheckReadData
  else if recvedEvent = eventFlagComm .com5 then some .commTest5CheckReadData
  else if recvedEvent = eventFlagComm .com6 then none
  else none

/-- One round of `comm_thread_entry`: the set it leaves, and the reader it calls. -/
def commThreadEntry (set : BitVec 32) : Option (BitVec 32 × Option Reader) :=
  (rtEventRecv set recvFlags).map fun r => (r.2, switchReader r.1)

inductive Event
  | send (com : Com)
  | dispatch
  deriving DecidableEq, Repr

/-- A dispatch does not complete while there is nothing to receive. -/
def event (set : BitVec 32) : Event → BitVec 32
  | .send com => eventSend com set
  | .dispatch => ((commThreadEntry set).map Prod.fst).getD set

def eventSet (events : List Event) : BitVec 32 := events.foldl event 0

end Model

section Service

variable {com com' : Com} {set : BitVec 32} {events : List Event}

/-- The reader of a port. -/
def readerOf : Com → Option Reader
  | .com1 => some .commParamCheckReadData
  | .com2 => none
  | .com3 => some .commParamCheckReadData
  | .com4 => some .commTest4CheckReadData
  | .com5 => some .commTest5CheckReadData
  | .com6 => none

/-- The port was posted, and no dispatch has come since. -/
def Posted (com : Com) (events : List Event) : Prop :=
  ∃ before after, events = before ++ .send com :: after ∧ .dispatch ∉ after

/-- The dispatch completes, and calls the reader of the port. -/
def Serves (set : BitVec 32) (com : Com) : Prop :=
  ∃ left reader, readerOf com = some reader ∧ commThreadEntry set = some (left, some reader)

theorem posted_append_send :
    Posted com (events ++ [.send com']) ↔ com = com' ∨ Posted com events := by
  constructor
  · rintro ⟨before, after, heq, hafter⟩
    rcases List.eq_nil_or_concat after with rfl | ⟨after', e, rfl⟩
    · obtain ⟨-, hlast⟩ := List.append_inj' heq rfl
      cases hlast
      exact .inl rfl
    · rw [List.concat_eq_append, ← List.cons_append, ← List.append_assoc] at heq
      obtain ⟨hevents, -⟩ := List.append_inj' heq rfl
      refine .inr ⟨before, after', hevents, fun hin => hafter ?_⟩
      rw [List.concat_eq_append]
      exact List.mem_append_left _ hin
  · rintro (rfl | ⟨before, after, rfl, hafter⟩)
    · exact ⟨events, [], rfl, List.not_mem_nil⟩
    · refine ⟨before, after ++ [.send com'], by simp, ?_⟩
      simpa using hafter

theorem not_posted_append_dispatch : ¬ Posted com (events ++ [.dispatch]) := by
  rintro ⟨before, after, heq, hafter⟩
  rcases List.eq_nil_or_concat after with rfl | ⟨after', e, rfl⟩
  · obtain ⟨-, hlast⟩ := List.append_inj' heq rfl
    cases hlast
  · rw [List.concat_eq_append, ← List.cons_append, ← List.append_assoc] at heq
    obtain ⟨-, hlast⟩ := List.append_inj' heq rfl
    cases hlast
    exact hafter (by simp)

theorem getLsbD_eventFlagComm (com : Com) (i : ℕ) :
    (eventFlagComm com).getLsbD i = decide (index com = i) := by
  have hindex : index com < 32 := by cases com <;> decide
  rw [eventFlagComm, ← BitVec.twoPow_eq, BitVec.getLsbD_twoPow, decide_eq_true hindex,
    Bool.true_and]

theorem index_inj : index com = index com' ↔ com = com' := by
  cases com <;> cases com' <;> decide

theorem index_lt_five : index com < 5 ↔ com ≠ .com6 := by
  cases com <;> decide

theorem exists_index {i : ℕ} (hi : i < 5) : ∃ com, index com = i := by
  interval_cases i
  · exact ⟨.com1, rfl⟩
  · exact ⟨.com2, rfl⟩
  · exact ⟨.com3, rfl⟩
  · exact ⟨.com4, rfl⟩
  · exact ⟨.com5, rfl⟩

/-- The thread waits for the first five ports. -/
theorem getLsbD_recvFlags (i : ℕ) : recvFlags.getLsbD i = decide (i < 5) := by
  simp only [recvFlags, BitVec.getLsbD_or, getLsbD_eventFlagComm]
  by_cases hi : i < 5
  · interval_cases i <;> rfl
  · have hne (com : Com) (hcom : com ≠ .com6) : index com ≠ i :=
      fun heq => hi (heq ▸ index_lt_five.mpr hcom)
    rw [decide_eq_false hi, decide_eq_false (hne .com1 (by decide)),
      decide_eq_false (hne .com2 (by decide)), decide_eq_false (hne .com3 (by decide)),
      decide_eq_false (hne .com4 (by decide)), decide_eq_false (hne .com5 (by decide))]
    rfl

theorem getLsbD_received (set : BitVec 32) (i : ℕ) :
    (set &&& recvFlags).getLsbD i = (set.getLsbD i && decide (i < 5)) := by
  rw [BitVec.getLsbD_and, getLsbD_recvFlags]

/-- A single flag is received exactly when no other port that the thread waits for is set. -/
theorem received_eq_iff (hcom : com ≠ .com6) :
    set &&& recvFlags = eventFlagComm com ↔
      ∀ com' ≠ .com6, set.getLsbD (index com') = true ↔ com = com' := by
  constructor
  · intro heq com' hcom'
    have hbit := congrArg (fun x => x.getLsbD (index com')) heq
    rw [getLsbD_received, getLsbD_eventFlagComm, decide_eq_true (index_lt_five.mpr hcom'),
      Bool.and_true] at hbit
    rw [hbit, decide_eq_true_iff, index_inj]
  · intro h
    apply BitVec.eq_of_getLsbD_eq
    intro i _
    rw [getLsbD_received, getLsbD_eventFlagComm]
    by_cases hi : i < 5
    · obtain ⟨com', rfl⟩ := exists_index hi
      rw [decide_eq_true hi, Bool.and_true, Bool.eq_iff_iff, decide_eq_true_iff, index_inj]
      exact h com' (index_lt_five.mp hi)
    · have hne : index com ≠ i := fun heq => hi (heq ▸ index_lt_five.mpr hcom)
      rw [decide_eq_false hi, Bool.and_false, decide_eq_false hne]

/-- Whatever a dispatch finds, it leaves no flag that the thread waits for. -/
theorem getLsbD_event_dispatch (set : BitVec 32) (hcom : com ≠ .com6) :
    (event set .dispatch).getLsbD (index com) = false := by
  have hlt := index_lt_five.mpr hcom
  rw [event, commThreadEntry, rtEventRecv]
  split_ifs with hset
  · rw [Option.map_some, Option.map_some, Option.getD_some, BitVec.getLsbD_and,
      BitVec.getLsbD_not, getLsbD_recvFlags, decide_eq_true hlt, Bool.not_true, Bool.and_false,
      Bool.and_false]
  · have hbit := congrArg (fun x => x.getLsbD (index com)) (not_not.mp hset)
    rw [getLsbD_received, decide_eq_true hlt, Bool.and_true] at hbit
    rw [Option.map_none, Option.map_none, Option.getD_none, hbit]
    exact BitVec.getLsbD_zero

theorem eventSet_append (events : List Event) (e : Event) :
    eventSet (events ++ [e]) = event (eventSet events) e := by
  rw [eventSet, List.foldl_append, List.foldl_cons, List.foldl_nil, eventSet]

/-- The flags of the set are the ports posted since the last dispatch. -/
theorem getLsbD_eventSet (hcom : com ≠ .com6) :
    (eventSet events).getLsbD (index com) = true ↔ Posted com events := by
  induction events using List.reverseRecOn with
  | nil =>
    refine iff_of_false ?_ ?_
    · rw [eventSet, List.foldl_nil]
      exact Bool.eq_false_iff.mp BitVec.getLsbD_zero
    · rintro ⟨before, after, heq, -⟩
      exact absurd heq.symm (by simp)
  | append_singleton events e ih =>
    rw [eventSet_append]
    cases e with
    | send com' =>
      rw [posted_append_send, event, eventSend, BitVec.getLsbD_or, getLsbD_eventFlagComm,
        Bool.or_eq_true, ih, decide_eq_true_iff, index_inj, or_comm, eq_comm]
    | dispatch =>
      rw [getLsbD_event_dispatch _ hcom]
      exact iff_of_false Bool.false_ne_true not_posted_append_dispatch

theorem switchReader_eventFlagComm (com : Com) :
    switchReader (eventFlagComm com) = readerOf com := by
  cases com <;> decide

/-- Only a single flag has a reader. -/
theorem eq_flag_of_switchReader {recvedEvent : BitVec 32} {reader : Reader}
    (h : switchReader recvedEvent = some reader) : ∃ com, recvedEvent = eventFlagComm com := by
  rw [switchReader] at h
  split_ifs at h with h1 h2 h3 h4 h5
  · exact ⟨_, h1⟩
  · exact ⟨_, h3⟩
  · exact ⟨_, h4⟩
  · exact ⟨_, h5⟩

theorem ne_com6_of_reader (h : (readerOf com).isSome) : com ≠ .com6 := by
  rintro rfl
  exact absurd h (by decide)

/-- A port whose flag is set is served exactly when no other flag is. -/
theorem serves_iff (hreader : (readerOf com).isSome) (hset : set.getLsbD (index com) = true) :
    Serves set com ↔ ∀ com' ≠ .com6, set.getLsbD (index com') = true → com' = com := by
  have hcom := ne_com6_of_reader hreader
  obtain ⟨reader, hsome⟩ := Option.isSome_iff_exists.mp hreader
  have hreceived : (set &&& recvFlags).getLsbD (index com) = true := by
    rw [getLsbD_received, hset, decide_eq_true (index_lt_five.mpr hcom), Bool.and_true]
  have hnonzero : set &&& recvFlags ≠ 0 := by
    intro hzero
    rw [hzero] at hreceived
    exact Bool.eq_false_iff.mp BitVec.getLsbD_zero hreceived
  have hentry : commThreadEntry set =
      some (set &&& ~~~recvFlags, switchReader (set &&& recvFlags)) := by
    rw [commThreadEntry, rtEventRecv, if_pos hnonzero, Option.map_some]
  constructor
  · rintro ⟨left, reader', -, hcalled⟩
    rw [hentry, Option.some_inj, Prod.mk.injEq] at hcalled
    obtain ⟨com'', hflag⟩ := eq_flag_of_switchReader hcalled.2
    have hsame : com'' = com := by
      rw [hflag, getLsbD_eventFlagComm, decide_eq_true_iff, index_inj] at hreceived
      exact hreceived
    rw [hsame] at hflag
    exact fun com' hcom' hbit => (((received_eq_iff hcom).mp hflag com' hcom').mp hbit).symm
  · intro h
    have hflag : set &&& recvFlags = eventFlagComm com := by
      refine (received_eq_iff hcom).mpr fun com' hcom' => ⟨fun hbit => (h com' hcom' hbit).symm, ?_⟩
      rintro rfl
      exact hset
    refine ⟨set &&& ~~~recvFlags, reader, hsome, ?_⟩
    rw [hentry, hflag, switchReader_eventFlagComm, hsome]

/-- Every posted event reaches its reader at the next dispatch exactly when no event of another
port is posted with it. -/
theorem posted_served_iff (events : List Event) :
    (∀ front com, front ++ [.dispatch] <+: events → (readerOf com).isSome → Posted com front →
        Serves (eventSet front) com) ↔
      ∀ front com com', front ++ [.dispatch] <+: events → (readerOf com).isSome →
        Posted com front → com' ≠ .com6 → Posted com' front → com' = com := by
  constructor
  · intro h front com com' hfront hreader hposted hcom' hposted'
    have hset := (getLsbD_eventSet (ne_com6_of_reader hreader)).mpr hposted
    exact (serves_iff hreader hset).mp (h front com hfront hreader hposted) com' hcom'
      ((getLsbD_eventSet hcom').mpr hposted')
  · intro h front com hfront hreader hposted
    have hset := (getLsbD_eventSet (ne_com6_of_reader hreader)).mpr hposted
    refine (serves_iff hreader hset).mpr fun com' hcom' hbit => ?_
    exact h front com com' hfront hreader hposted hcom' ((getLsbD_eventSet hcom').mp hbit)

/-- Two ports that are posted before the thread receives. -/
theorem not_posted_served :
    ¬ ∀ (events front : List Event) (com : Com), front ++ [.dispatch] <+: events →
      (readerOf com).isSome → Posted com front → Serves (eventSet front) com := by
  intro h
  obtain ⟨left, reader, -, hcalled⟩ := h [.send .com1, .send .com4, .dispatch]
    [.send .com1, .send .com4] .com1 List.prefix_rfl (by decide)
    ⟨[], [.send .com4], rfl, by decide⟩
  have hnone : commThreadEntry (eventSet [.send .com1, .send .com4]) = some (0, none) := by decide
  rw [hnone, Option.some_inj, Prod.mk.injEq] at hcalled
  exact absurd hcalled.2 (Option.some_ne_none reader).symm

end Service

end VehicleTerminal.CommEvent
