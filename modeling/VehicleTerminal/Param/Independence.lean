import VehicleTerminal.Param.Message

/-! The records of one message do not see each other: what becomes of one is the same whatever
follows it, exactly when every record that is reached is dealt with inside its own bytes. -/
namespace VehicleTerminal.E2ParamApp
open ByteStore BlockMemory MachineInt EepromPram InputPrefix PartialLoop

theorem message_append (rs rs' : List TlvRecord) :
    message (rs ++ rs') = message rs ++ message rs' := List.flatMap_append

section Runs

variable (env : Environment) (channel : ℕ)

/-- The parser in front of the records `rs`; `rest` is what the memory holds behind them. -/
def start (rs : List TlvRecord) (rest : List UInt8) (d : Device) : Parser :=
  ⟨message rs ++ rest, (message rs).length, d⟩

/-- The records one after the other, each as a message of its own, up to the first error. -/
def processInTurn : List TlvRecord → Device → Option (ProtocolACK × Device)
  | [], d => some (.ackOk, d)
  | r :: rs, d => do
    let (ack, d) ← disposeWriteParam env channel r.bytes r.bytes.length d
    match ack with
    | .ackError => return (.ackError, d)
    | .ackOk => processInTurn rs d

/-- The loop has returned the error, or stands in front of the records `after`. -/
def decided (ack : ProtocolACK) (d : Device) (after : List TlvRecord) (rest : List UInt8) :
    Outcome Parser (ProtocolACK × Device) :=
  match ack with
  | .ackError => .returns (.ackError, d)
  | .ackOk => .continues (start after rest d)

/-- How the records of a message are kept apart. -/
structure RecordsIndependent (rs : List TlvRecord) (d : Device) : Prop where
  /-- A record that is dealt with leaves all bytes behind it as they are. -/
  untouched : ∀ before r after rest s, rs = before ++ r :: after →
    rounds (round env channel) before.length (start rs rest d) = some (.continues s) →
      ∃ ack data d', data.length = r.data.length ∧
        disposeRecord env channel r.prePramID (s.p.drop 5) r.data.length s.device =
          some (ack, data ++ (message after ++ rest), d')
  /-- In all messages that begin with the same records these have the same effect and lead to
  the same decision. -/
  agree : ∀ before, before <+: rs → ∃ ack d', ∀ after rest,
    (message (before ++ after)).length < 32768 →
      rounds (round env channel) before.length (start (before ++ after) rest d) =
        some (decided ack d' after rest)
  /-- The message is worth its records one after the other. -/
  inTurn : ∃ result, processInTurn env channel rs d = some result ∧
    ∀ rest, disposeWriteParam env channel (message rs ++ rest) (message rs).length d = some result

/-- The record fits when it is the end of the memory. -/
def SelfContained (r : TlvRecord) (d : Device) : Prop :=
  RecordFits env r.prePramID r.data.length r.data d

/-- Every record that the loop comes to is self-contained on the EEPROM that it finds. -/
def EachSelfContained (rs : List TlvRecord) (d : Device) : Prop :=
  ∀ before r after s, rs = before ++ r :: after →
    rounds (round env channel) before.length (start rs [] d) = some (.continues s) →
      SelfContained env r s.device

end Runs

section Step

variable {env : Environment} {channel : ℕ} {r : TlvRecord} {after rs : List TlvRecord}
  {rest data : List UInt8} {ack : ProtocolACK} {d d' : Device} {s : Parser}

theorem decided_eq_continues_iff :
    decided ack d after rest = .continues s ↔ ack = .ackOk ∧ start after rest d = s := by
  cases ack with
  | ackError => exact iff_of_false (fun h => nomatch h) fun h => nomatch h.1
  | ackOk => simp [decided]

theorem disposeRecord_of_selfContained (channel : ℕ) (hclear : env.ClearsOnlyCodes)
    (hreads : env.ReadsOwnRecord) (h : SelfContained env r d) :
    ∃ ack data d', data.length = r.data.length ∧ ∀ following,
      disposeRecord env channel r.prePramID (r.data ++ following) r.data.length d =
        some (ack, data ++ following, d') := by
  have hfits : disposeRecord env channel r.prePramID r.data r.data.length d ≠ none :=
    (disposeRecord_ne_none_iff hclear hreads).mpr h
  obtain ⟨⟨ack, data, d'⟩, hdispose⟩ := Option.ne_none_iff_exists'.mp hfits
  exact ⟨ack, data, d', (disposeRecord_append hreads hdispose []).1,
    fun following => (disposeRecord_append hreads hdispose following).2⟩

theorem round_start_eq :
    round env channel (start (r :: after) rest d) =
      (disposeRecord env channel r.prePramID (r.data ++ (message after ++ rest)) r.data.length
        d).map (nextRound (message (r :: after)).length r.data.length) := by
  have hpositive : ((message (r :: after)).length : ℤ) > 0 := by
    rw [message_cons, List.length_append, TlvRecord.bytes_length]
    omega
  rw [← round_bytes hpositive, start, message_cons, List.append_assoc]

/-- A round in front of a record, when it is known what becomes of the record. -/
theorem round_start (hlength : (message (r :: after)).length < 32768)
    (hdata : data.length = r.data.length)
    (h : disposeRecord env channel r.prePramID (r.data ++ (message after ++ rest)) r.data.length d =
      some (ack, data ++ (message after ++ rest), d')) :
    round env channel (start (r :: after) rest d) = some (decided ack d' after rest) := by
  have hleft : int16 ((message (r :: after)).length - 4 - 1 - data.length) =
      (message after).length := by
    rw [message_cons, List.length_append, TlvRecord.bytes_length] at hlength ⊢
    rw [hdata, int16]
    omega
  rw [round_start_eq, h]
  cases ack with
  | ackError => rfl
  | ackOk => simp only [Option.map_some, nextRound, ← hdata, hleft, List.drop_left, decided, start]

theorem EachSelfContained.head (h : EachSelfContained env channel (r :: rs) d) :
    SelfContained env r d := h [] r rs _ rfl rfl

theorem EachSelfContained.tail (h : EachSelfContained env channel (r :: rs) d)
    (hround : round env channel (start (r :: rs) [] d) = some (.continues (start rs [] d'))) :
    EachSelfContained env channel rs d' := by
  intro before r' after s hsplit hreached
  refine h (r :: before) r' after s (by rw [hsplit, List.cons_append]) ?_
  rw [List.length_cons, rounds_of_continues _ hround]
  exact hreached

/-- The first record decides the same in every message, and the others are self-contained
when it is left behind. -/
theorem EachSelfContained.step (hclear : env.ClearsOnlyCodes) (hreads : env.ReadsOwnRecord)
    (h : EachSelfContained env channel (r :: rs) d)
    (hlength : (message (r :: rs)).length < 32768) :
    ∃ ack d', (∀ after rest, (message (r :: after)).length < 32768 →
        round env channel (start (r :: after) rest d) = some (decided ack d' after rest)) ∧
      disposeWriteParam env channel r.bytes r.bytes.length d = some (ack, d') ∧
      (ack = .ackOk → EachSelfContained env channel rs d') := by
  obtain ⟨ack, data, d', hdata, hdispose⟩ :=
    disposeRecord_of_selfContained channel hclear hreads h.head
  have hround (after : List TlvRecord) (rest : List UInt8)
      (hshort : (message (r :: after)).length < 32768) :
      round env channel (start (r :: after) rest d) = some (decided ack d' after rest) :=
    round_start hshort hdata (hdispose _)
  refine ⟨ack, d', hround, ?_, ?_⟩
  · have hsingle : disposeWriteParam env channel (r.bytes ++ []) r.bytes.length d = _ :=
      disposeWriteParam_bytes
    rw [List.append_nil, hdispose] at hsingle
    exact hsingle
  · rintro rfl
    exact h.tail (hround rs [] hlength)

end Step

section Run

variable {env : Environment} {channel : ℕ} {rs : List TlvRecord} {d : Device}

/-- Induction over the records: what lies in front of the others is the same in every
message. -/
theorem EachSelfContained.agree (hclear : env.ClearsOnlyCodes) (hreads : env.ReadsOwnRecord)
    (h : EachSelfContained env channel rs d) (hlength : (message rs).length < 32768)
    {before : List TlvRecord} (hbefore : before <+: rs) :
    ∃ ack d', ∀ after rest, (message (before ++ after)).length < 32768 →
      rounds (round env channel) before.length (start (before ++ after) rest d) =
        some (decided ack d' after rest) := by
  induction before generalizing rs d with
  | nil => exact ⟨.ackOk, d, fun after rest _ => rfl⟩
  | cons r before ih =>
    obtain ⟨others, rfl⟩ := hbefore
    rw [List.cons_append] at h hlength
    obtain ⟨ack, d₁, hround, -, htail⟩ := h.step hclear hreads hlength
    cases ack with
    | ackError =>
      refine ⟨.ackError, d₁, fun after rest hshort => ?_⟩
      exact rounds_of_returns _ (hround (before ++ after) rest hshort)
    | ackOk =>
      have hothers : (message (before ++ others)).length < 32768 := by
        rw [message_cons, List.length_append] at hlength
        omega
      obtain ⟨ack, d', hagree⟩ := ih (htail rfl) hothers (List.prefix_append _ _)
      refine ⟨ack, d', fun after rest hshort => ?_⟩
      rw [List.length_cons, List.cons_append,
        rounds_of_continues _ (hround (before ++ after) rest hshort)]
      rw [List.cons_append, message_cons, List.length_append] at hshort
      exact hagree after rest (by omega)

/-- Induction over the records: the loop of the whole message does what the loops of the
single messages do. -/
theorem EachSelfContained.inTurn (hclear : env.ClearsOnlyCodes) (hreads : env.ReadsOwnRecord)
    (h : EachSelfContained env channel rs d) (hlength : (message rs).length < 32768) :
    ∃ result, processInTurn env channel rs d = some result ∧
      ∀ rest, loop (round env channel) (fun s => s.length.toNat) (round_decreases env channel)
        (start rs rest d) = some result := by
  induction rs generalizing d with
  | nil => exact ⟨(.ackOk, d), rfl, fun rest => loop_of_returns rfl⟩
  | cons r rs ih =>
    obtain ⟨ack, d', hround, hsingle, htail⟩ := h.step hclear hreads hlength
    simp only [processInTurn, hsingle, Option.bind_eq_bind, Option.bind_some]
    cases ack with
    | ackError => exact ⟨_, rfl, fun rest => loop_of_returns (hround rs rest hlength)⟩
    | ackOk =>
      have hothers : (message rs).length < 32768 := by
        rw [message_cons, List.length_append] at hlength
        omega
      obtain ⟨result, hturn, hloop⟩ := ih (htail rfl) hothers
      refine ⟨result, hturn, fun rest => ?_⟩
      rw [loop_of_continues (hround rs rest hlength)]
      exact hloop rest

/-- What the others are like cannot matter, so that a record must do without them. -/
theorem RecordsIndependent.eachSelfContained (hclear : env.ClearsOnlyCodes)
    (hreads : env.ReadsOwnRecord) (h : RecordsIndependent env channel rs d)
    (hlength : (message rs).length < 32768) :
    EachSelfContained env channel rs d := by
  intro before r after s hsplit hreached
  subst hsplit
  have hshort : (message (before ++ [r])).length < 32768 := by
    simp only [message_append, message_cons, List.length_append] at hlength ⊢
    exact hlength.trans_le' (by simp)
  obtain ⟨ack, d₁, hagree⟩ := h.agree before (List.prefix_append _ _)
  rw [hagree (r :: after) [] hlength, Option.some_inj, decided_eq_continues_iff] at hreached
  obtain ⟨rfl, rfl⟩ := hreached
  obtain ⟨ack, d₂, hnext⟩ := h.agree (before ++ [r]) ⟨after, by simp⟩
  have hlast := hnext [] [] (by rwa [List.append_nil])
  rw [List.append_nil, List.length_append, List.length_singleton,
    rounds_succ (hagree [r] [] hshort)] at hlast
  have hfits : disposeRecord env channel r.prePramID r.data r.data.length d₁ ≠ none := by
    intro hnone
    rw [round_start_eq, message_nil, List.append_nil, List.append_nil, hnone] at hlast
    cases hlast
  exact (disposeRecord_ne_none_iff hclear hreads).mp hfits

/-- The records of a message are independent of what follows them exactly when every record
that the loop comes to is self-contained. -/
theorem recordsIndependent_iff (hclear : env.ClearsOnlyCodes) (hreads : env.ReadsOwnRecord)
    (hlength : (message rs).length < 32768) :
    RecordsIndependent env channel rs d ↔ EachSelfContained env channel rs d := by
  refine ⟨fun h => h.eachSelfContained hclear hreads hlength, fun h => ⟨?_, ?_, ?_⟩⟩
  · intro before r after rest s hsplit hreached
    obtain ⟨ack, d₁, hagree⟩ := h.agree hclear hreads hlength (hsplit ▸ List.prefix_append before _)
    subst hsplit
    rw [hagree (r :: after) rest hlength, Option.some_inj, decided_eq_continues_iff] at hreached
    obtain ⟨rfl, rfl⟩ := hreached
    have hself := h before r after _ rfl (hagree (r :: after) [] hlength)
    obtain ⟨ack, data, d', hdata, hdispose⟩ :=
      disposeRecord_of_selfContained channel hclear hreads hself
    refine ⟨ack, data, d', hdata, ?_⟩
    rw [start, message_cons, List.append_assoc]
    exact hdispose _
  · exact fun before hbefore => h.agree hclear hreads hlength hbefore
  · obtain ⟨result, hturn, hloop⟩ := h.inTurn hclear hreads hlength
    have hlarge : int16 (message rs).length = (message rs).length := by
      rw [int16]
      omega
    refine ⟨result, hturn, fun rest => ?_⟩
    rw [disposeWriteParam, hlarge]
    exact hloop rest

end Run

/-- The data of two drivers, the heartbeat interval, and a phone number. -/
def threeRecords : List TlvRecord :=
  [⟨e2AllDriverInformationId, [7, 8], by decide, by decide⟩,
    heartbeatRecord [0, 0, 0, 60] (by decide),
    ⟨e2DevicePhoneId, [1, 0x38, 0x12, 0x34, 0x56, 0x78], by decide, by decide⟩]

theorem recordsIndependent_threeRecords :
    RecordsIndependent normalOperation 1 threeRecords blankDevice ↔
      EachSelfContained normalOperation 1 threeRecords blankDevice :=
  recordsIndependent_iff normalOperation_clearsOnlyCodes normalOperation_readsOwnRecord (by decide)

/-- A unique vehicle number of three bytes in front of another record, whose ID is lost. -/
theorem not_recordsIndependent :
    ¬ ∀ (env : Environment) (channel : ℕ) (rs : List TlvRecord) (d : Device),
      env.ClearsOnlyCodes → env.ReadsOwnRecord → (message rs).length < 32768 →
        RecordsIndependent env channel rs d := by
  intro h
  have hindependent := h normalOperation 1
    [⟨0xF242, [1, 2, 3], by decide, by decide⟩, heartbeatRecord [0, 0, 0, 60] (by decide)]
    blankDevice normalOperation_clearsOnlyCodes normalOperation_readsOwnRecord (by decide)
  obtain ⟨ack, data, d', hdata, hdispose⟩ : ∃ ack data d', data.length = 3 ∧
      disposeRecord normalOperation 1 0xF242 [1, 2, 3, 0, 0, 0, 1, 4, 0, 0, 0, 60] 3 blankDevice =
        some (ack, data ++ [0, 0, 0, 1, 4, 0, 0, 0, 60], d') :=
    hindependent.untouched [] _ _ [] _ rfl rfl
  have hmemory := congrArg (Option.map fun answer => answer.2.1.drop 3) hdispose
  simp only [Option.map_some, List.drop_left' hdata] at hmemory
  revert hmemory
  decide +kernel

end VehicleTerminal.E2ParamApp
