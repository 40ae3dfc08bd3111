import VehicleTerminal.Fct.DebugFrame
import VehicleTerminal.Library.MachineInt

/-! The scanners of `fct_app.c` over the arguments of a debug command. An access outside
`FCT_recv.buf` or outside a local buffer leaves a function without result. -/
namespace VehicleTerminal.FctDebug
open BlockMemory CString MachineInt

section Model

def quote : UInt8 := 0x22

def comma : UInt8 := 0x2c

/-- The contents of `FCT_recv.buf`. -/
structure RecvBuf where
  buf : List UInt8
  size : buf.length = fctRecvLen + 1

/-- A local array of `n` bytes with whatever it holds when the function begins. -/
structure LocalBuf (n : ℕ) where
  buf : List UInt8
  size : buf.length = n

def isspace (b : UInt8) : Bool := b = 0x20 ∨ 9 ≤ b ∧ b ≤ 13

def isdigit (b : UInt8) : Bool := 0x30 ≤ b ∧ b ≤ 0x39

def digitsValue (s : List UInt8) : ℤ :=
  (s.takeWhile isdigit).foldl (fun value b => 10 * value + (b.toNat - 0x30)) 0

/-- For numbers from `-2 ^ 31` to `2 ^ 31 - 1`, the range of an `int`. C leaves the result for
others open; here they count with their value. -/
def atoi (s : List UInt8) : ℤ :=
  match s.dropWhile isspace with
  | 0x2d :: digits => -digitsValue digits
  | 0x2b :: digits => digitsValue digits
  | digits => digitsValue digits

/-- What is written to the console, or what is sent with the time limit. -/
inductive GprsCheck
  | error (console : List UInt8)
  | started (sent : List UInt8) (timeout : ℕ)
  deriving Repr, DecidableEq

/-- The loop that copies the command, on the bytes of `FCT_recv.buf` from `10 + i` on. -/
def copyCommand : List UInt8 → ℕ → List UInt8 → Option (ℕ × List UInt8)
  | [], _, _ => none
  | b :: rest, i, buf =>
    if b = 0 then some (i, buf)
    else if b = comma then some (i, buf)
    else if i > 30 then some (i, buf)
    else
      rest.head?.bind fun next =>
        (storeAt buf i next).bind fun buf => copyCommand rest (i + 1) buf

def appCheckGsmGprs (recv : List UInt8) (buf : List UInt8) : Option GprsCheck :=
  (copyCommand (recv.drop 10) 0 buf).bind fun (i, buf) =>
    (loadAt recv 10).bind fun first =>
      (loadAt recv (10 + (i : ℤ) - 1)).bind fun last =>
        if first ≠ quote ∨ last ≠ quote then some (.error (ascii "ERR=1,\"\"\"or ,\"\r"))
        else
          let timeout := uint32 (atoi (recv.drop (10 + i + 1)))
          (storeAt buf ((i : ℤ) - 2) 0x0d).bind fun buf =>
            (memcpyOut buf 0 ((i : ℤ) - 1)).map fun sent =>
              .started sent (if timeout = 0 then 10 else timeout)

/-- A scan to a comma, a NUL or past a limit, on the bytes from the position `i` on; the flag
tells whether the limit ended it. -/
def scanField (past : ℕ → Bool) : List UInt8 → ℕ → Option (ℕ × Bool)
  | [], _ => none
  | b :: rest, i =>
    if b = 0 then some (i, false)
    else if b = comma then some (i, false)
    else if past (i + 1) then some (i + 1, true)
    else scanField past rest (i + 1)

/-- What is written to the console. -/
def appCheckComunication (recv : List UInt8) : Option (List UInt8) :=
  (scanField (fun i => i > 20) (recv.drop 8) 0).bind fun (i, _) =>
    (loadAt recv 8).bind fun first =>
      (loadAt recv (8 + (i : ℤ) - 1)).bind fun last =>
        if first ≠ quote ∨ last ≠ quote then some (ascii "ERR=3,\"\"\r")
        else
          (recv[10 + i]?).bind fun behind =>
            if behind = comma then
              (recv[9 + i]?).map fun digit =>
                let channel := digit - 0x30
                if channel > 6 ∨ channel < 1 then ascii "ERR=3,\"Channel\"\r" else ascii "OK\r"
            else some (ascii "ERR=3,\"Channel\"\r")

/-- The reply to `count` edges with the bytes of the field from `offset` to `i`, as far as it is
printed. -/
def pwmReply (recv : List UInt8) (count : UInt32) (offset i : ℕ) (buf : List UInt8) :
    Option (List UInt8) :=
  let text := ascii "OK," ++ decimal (int32 (count * 10).toNat) ++ ascii ","
  let len := text.length
  (copyIn buf 0 (text ++ [0]) (len + 1)).bind fun buf =>
    (copyIn buf len (recv.drop (8 + offset)) (i - offset)).bind fun buf =>
      (store buf (len + i - offset) 0x0d).bind fun buf =>
        (store buf (len + i - offset + 1) 0).map fun buf => buf.takeWhile fun b => b ≠ 0

/-- What is written to the console once `count` edges have been measured. -/
def apiCheckPwm (recv : List UInt8) (count : UInt32) (buf : List UInt8) : Option (List UInt8) :=
  (scanField (fun _ => false) (recv.drop 8) 0).bind fun (i, _) =>
    let offset := i + 1
    (scanField (fun i => i > 4 + offset) (recv.drop (8 + offset)) offset).bind fun (i, wide) =>
      if wide then some (ascii "ERR=3,\"width\"\r") else pwmReply recv count offset i buf

end Model

/-- The bytes before the first comma or NUL. -/
def field (s : List UInt8) : List UInt8 := s.takeWhile fun b => b ≠ 0 ∧ b ≠ comma

theorem field_cons_of_stop {b : UInt8} (rest : List UInt8) (h : b = 0 ∨ b = comma) :
    field (b :: rest) = [] := by
  rw [field, List.takeWhile_cons_of_neg]
  rcases h with rfl | rfl <;> decide

theorem field_cons_of_ne {b : UInt8} (rest : List UInt8) (h : b ≠ 0) (h' : b ≠ comma) :
    field (b :: rest) = b :: field rest := by
  rw [field, List.takeWhile_cons_of_pos (by simp [h, h']), field]

section GsmGprs

/-- The text that is taken for the command with its quotes. -/
def commandText (recv : RecvBuf) : List UInt8 := (field (recv.buf.drop 10)).take 31

/-- A command between two quotes is sent with a carriage return, and nothing else is sent. -/
def SendsCommand (recv : RecvBuf) (result : GprsCheck) : Prop :=
  (∀ inner, commandText recv = quote :: inner ++ [quote] →
    ∃ timeout, result = .started (inner ++ [0x0d]) timeout) ∧
  ((∀ inner, commandText recv ≠ quote :: inner ++ [quote]) → ∃ console, result = .error console)

/-- The check stays inside its buffers and sends the command. -/
def ChecksCommand (recv : RecvBuf) (buf : LocalBuf 40) : Prop :=
  ∃ result, appCheckGsmGprs recv.buf buf.buf = some result ∧ SendsCommand recv result

/-- The copy runs over the field up to its 31st byte, one place behind. -/
theorem copyCommand_eq {l buf : List UInt8} {i : ℕ} (hi : i ≤ 31) (hbuf : buf.length = 40)
    (hroom : 33 - i ≤ l.length) :
    copyCommand l i buf = some (i + ((field l).take (31 - i)).length,
      blit buf i ((l.drop 1).take ((field l).take (31 - i)).length)) := by
  induction l generalizing i buf with
  | nil =>
    rw [List.length_nil] at hroom
    omega
  | cons b rest ih =>
    by_cases hstop : b = 0 ∨ b = comma
    · have hhere : copyCommand (b :: rest) i buf = some (i, buf) := by
        rw [copyCommand]
        rcases hstop with rfl | rfl
        · rw [if_pos rfl]
        · rw [if_neg (by decide), if_pos rfl]
      simp [hhere, field_cons_of_stop rest hstop]
    · obtain ⟨hnul, hcomma⟩ := not_or.mp hstop
      rw [copyCommand, if_neg hnul, if_neg hcomma]
      rcases hi.eq_or_lt with rfl | hlt
      · simp
      · rw [if_neg (by omega)]
        cases rest with
        | nil =>
          simp at hroom
          omega
        | cons next rest =>
          have hstore : storeAt buf (i : ℤ) next = some (blit buf i [next]) :=
            storeAt_natCast next (by omega)
          have hlen : (blit buf i [next]).length = 40 := by
            rw [blit_length _ _ _ (by simp; omega), hbuf]
          have hsteps : 31 - i = 31 - (i + 1) + 1 := by omega
          rw [List.head?_cons, Option.bind_some, hstore, Option.bind_some,
            ih (by omega) hlen (by simp at hroom ⊢; omega), field_cons_of_ne _ hnul hcomma, hsteps,
            List.take_succ_cons, List.length_cons]
          have hfits : ((field (next :: rest)).take (31 - (i + 1))).length ≤ 31 - (i + 1) :=
            List.length_take_le _ _
          have hjoin := blit_blit buf i [next]
            (rest.take ((field (next :: rest)).take (31 - (i + 1))).length) (by
              have htake := List.length_take_le
                ((field (next :: rest)).take (31 - (i + 1))).length rest
              rw [List.length_singleton]
              omega)
          simp only [List.drop_succ_cons, List.drop_zero, List.take_succ_cons,
            List.length_singleton, List.singleton_append] at hjoin ⊢
          rw [hjoin]
          congr 2
          omega

/-- The command and what is behind it. -/
theorem exists_behind (recv : RecvBuf) : ∃ behind, behind ≠ [] ∧
    recv.buf.drop 10 = commandText recv ++ behind := by
  have hfront : commandText recv <+: recv.buf.drop 10 :=
    (List.take_prefix _ _).trans (List.takeWhile_prefix _)
  obtain ⟨behind, hbehind⟩ := hfront
  refine ⟨behind, ?_, hbehind.symm⟩
  rintro rfl
  have hlength := congrArg List.length hbehind
  have htake : (commandText recv).length ≤ 31 := List.length_take_le _ _
  rw [List.append_nil, List.length_drop, recv.size, fctRecvLen] at hlength
  omega

theorem getElem?_command {recv : RecvBuf} {behind : List UInt8}
    (h : recv.buf.drop 10 = commandText recv ++ behind) (j : ℕ) :
    recv.buf[10 + j]? = (commandText recv ++ behind)[j]? := by
  rw [← h, List.getElem?_drop]

/-- The scan ends at the end of the command, with the bytes behind the first in the buffer. -/
theorem appCheckGsmGprs_scan (recv : RecvBuf) (buf : LocalBuf 40) :
    copyCommand (recv.buf.drop 10) 0 buf.buf = some ((commandText recv).length,
      blit buf.buf 0 ((recv.buf.drop 11).take (commandText recv).length)) := by
  have hsize := recv.size
  rw [copyCommand_eq (by decide) buf.size (by
    rw [List.length_drop, hsize, fctRecvLen]
    decide), List.drop_drop, Nat.zero_add, commandText]

theorem appCheckGsmGprs_nil {recv : RecvBuf} (buf : LocalBuf 40) (h : commandText recv = []) :
    appCheckGsmGprs recv.buf buf.buf = some (.error (ascii "ERR=1,\"\"\"or ,\"\r")) := by
  obtain ⟨behind, hne, hbehind⟩ := exists_behind recv
  obtain ⟨b, rest, rfl⟩ := List.exists_cons_of_ne_nil hne
  rw [h, List.nil_append] at hbehind
  have hstop : b = 0 ∨ b = comma := by
    by_contra hne
    obtain ⟨hnul, hcomma⟩ := not_or.mp hne
    rw [commandText, hbehind, field_cons_of_ne _ hnul hcomma] at h
    cases h
  have hquote : b ≠ quote := by
    rcases hstop with rfl | rfl <;> decide
  have hfirst : loadAt recv.buf 10 = some b := by
    rw [show (10 : ℤ) = ((10 : ℕ) : ℤ) from rfl, loadAt_natCast, ← Nat.add_zero 10,
      ← List.getElem?_drop, hbehind]
    rfl
  have hnine : 9 < recv.buf.length := by
    rw [recv.size]
    decide
  have hlast : loadAt recv.buf (10 + ((0 : ℕ) : ℤ) - 1) = some recv.buf[9] := by
    rw [show (10 + ((0 : ℕ) : ℤ) - 1) = ((9 : ℕ) : ℤ) from rfl, loadAt_natCast,
      List.getElem?_eq_getElem hnine]
  rw [appCheckGsmGprs, appCheckGsmGprs_scan, h]
  simp only [List.length_nil, Option.bind_some, hfirst, hlast, hquote, ne_eq, not_false_eq_true,
    true_or, if_true]

/-- With a byte in the command, both tests look into it. -/
theorem appCheckGsmGprs_cons {recv : RecvBuf} (buf : LocalBuf 40) {a z : UInt8}
    (ha : (commandText recv).head? = some a) (hz : (commandText recv).getLast? = some z) :
    appCheckGsmGprs recv.buf buf.buf =
      if a ≠ quote ∨ z ≠ quote then some (.error (ascii "ERR=1,\"\"\"or ,\"\r"))
      else
        let n := (commandText recv).length
        let timeout := uint32 (atoi (recv.buf.drop (10 + n + 1)))
        (storeAt (blit buf.buf 0 ((recv.buf.drop 11).take n)) ((n : ℤ) - 2) 0x0d).bind fun buf =>
          (memcpyOut buf 0 ((n : ℤ) - 1)).map fun sent =>
            .started sent (if timeout = 0 then 10 else timeout) := by
  obtain ⟨behind, -, hbehind⟩ := exists_behind recv
  have hpos : 0 < (commandText recv).length := by
    rw [List.length_pos_iff]
    rintro hnil
    rw [hnil] at ha
    cases ha
  have hload : loadAt recv.buf 10 = some a := by
    rw [show (10 : ℤ) = ((10 + 0 : ℕ) : ℤ) from rfl, loadAt_natCast, getElem?_command hbehind,
      List.getElem?_append_left hpos, ← List.head?_eq_getElem?, ha]
  have hload' : loadAt recv.buf (10 + ((commandText recv).length : ℤ) - 1) = some z := by
    rw [show 10 + ((commandText recv).length : ℤ) - 1 =
        ((10 + ((commandText recv).length - 1) : ℕ) : ℤ) by omega,
      loadAt_natCast, getElem?_command hbehind, List.getElem?_append_left (by omega),
      ← List.getLast?_eq_getElem?, hz]
  rw [appCheckGsmGprs, appCheckGsmGprs_scan]
  simp only [Option.bind_some, hload, hload']

/-- A lone quote puts the carriage return before the buffer. -/
theorem appCheckGsmGprs_lone {recv : RecvBuf} (buf : LocalBuf 40)
    (h : commandText recv = [quote]) : appCheckGsmGprs recv.buf buf.buf = none := by
  rw [appCheckGsmGprs_cons buf (by rw [h, List.head?_cons]) (by rw [h, List.getLast?_singleton]),
    if_neg (by simp), h]
  rfl

theorem appCheckGsmGprs_quoted {recv : RecvBuf} (buf : LocalBuf 40) {inner : List UInt8}
    (h : commandText recv = quote :: inner ++ [quote]) :
    ∃ timeout, appCheckGsmGprs recv.buf buf.buf = some (.started (inner ++ [0x0d]) timeout) := by
  obtain ⟨behind, hne, hbehind⟩ := exists_behind recv
  obtain ⟨b, rest, rfl⟩ := List.exists_cons_of_ne_nil hne
  have hlen : (commandText recv).length = inner.length + 2 := by simp [h]
  have hshort : (commandText recv).length ≤ 31 := List.length_take_le _ _
  have hcopied : (recv.buf.drop 11).take (commandText recv).length = inner ++ [quote, b] := by
    have hdrop : recv.buf.drop 11 = (inner ++ [quote, b]) ++ rest := by
      rw [← List.drop_drop (i := 1) (j := 10), hbehind, h]
      simp
    rw [hdrop, hlen]
    exact List.take_left' (by simp)
  rw [hlen] at hcopied
  have hwhole : (blit buf.buf 0 (inner ++ [quote, b])).length = 40 := by
    rw [blit_length _ _ _ (by rw [buf.size]; simp; omega), buf.size]
  have hstore : storeAt (blit buf.buf 0 (inner ++ [quote, b])) ((inner.length + 2 : ℕ) - 2) 0x0d =
      some (blit (blit buf.buf 0 (inner ++ [quote, b])) inner.length [0x0d]) := by
    rw [show ((inner.length + 2 : ℕ) : ℤ) - 2 = (inner.length : ℤ) by omega]
    exact storeAt_natCast _ (by omega)
  have hfront : (blit buf.buf 0 (inner ++ [quote, b])).take inner.length = inner := by
    simp [blit]
  have hsent : memcpyOut (blit (blit buf.buf 0 (inner ++ [quote, b])) inner.length [0x0d]) 0
      ((inner.length + 2 : ℕ) - 1) = some (inner ++ [0x0d]) := by
    rw [show ((inner.length + 2 : ℕ) : ℤ) - 1 = ((inner.length + 1 : ℕ) : ℤ) by omega]
    have hend : 0 + (inner.length + 1) ≤
        (blit (blit buf.buf 0 (inner ++ [quote, b])) inner.length [0x0d]).length := by
      rw [blit_length _ _ _ (by rw [hwhole, List.length_singleton]; omega)]
      omega
    have hout := memcpyOut_natCast (p := 0) hend (by omega)
    rw [Nat.cast_zero] at hout
    rw [hout, slice, List.drop_zero]
    have htake := take_blit (blit buf.buf 0 (inner ++ [quote, b])) inner.length [0x0d] (by omega)
    rw [List.length_singleton] at htake
    rw [htake, hfront]
  rw [appCheckGsmGprs_cons buf (a := quote) (z := quote) (by rw [h]; rfl)
    (by rw [h, List.getLast?_concat]), if_neg (by simp)]
  simp only [hcopied, hlen, hstore, hsent, Option.bind_some, Option.map_some]
  exact ⟨_, rfl⟩

/-- A text of more than one byte is a first byte, a last byte and what is between. -/
theorem exists_inner {α : Type*} {s : List α} (h : 2 ≤ s.length) :
    ∃ first inner last, s = first :: inner ++ [last] := by
  cases s with
  | nil => simp at h
  | cons first rest =>
    have hne : rest ≠ [] := by
      rintro rfl
      simp at h
    exact ⟨first, rest.dropLast, rest.getLast hne, by
      rw [List.cons_append, List.dropLast_append_getLast]⟩

theorem commandText_eq_lone_iff (recv : RecvBuf) : commandText recv = [quote] ↔
    recv.buf[10]? = some quote ∧ (recv.buf[11]? = some 0 ∨ recv.buf[11]? = some comma) := by
  have hsize := recv.size
  rw [fctRecvLen] at hsize
  have hten : 10 < recv.buf.length := by omega
  have heleven : 11 < recv.buf.length := by omega
  have hdrop : recv.buf.drop 10 = recv.buf[10] :: recv.buf[11] :: recv.buf.drop 12 := by
    rw [List.drop_eq_getElem_cons hten, List.drop_eq_getElem_cons heleven]
  rw [List.getElem?_eq_getElem hten, List.getElem?_eq_getElem heleven, commandText, hdrop]
  simp only [Option.some.injEq]
  generalize recv.buf[10] = first
  generalize recv.buf[11] = second
  by_cases hfirst : first = quote
  · subst hfirst
    rw [field_cons_of_ne _ (by decide) (by decide)]
    by_cases hsecond : second = 0 ∨ second = comma
    · simp [field_cons_of_stop _ hsecond, hsecond]
    · obtain ⟨hnul, hcomma⟩ := not_or.mp hsecond
      simp [field_cons_of_ne _ hnul hcomma, hnul, hcomma]
  · refine iff_of_false (fun h => ?_) fun h => hfirst h.1
    by_cases hstop : first = 0 ∨ first = comma
    · simp [field_cons_of_stop _ hstop] at h
    · obtain ⟨hnul, hcomma⟩ := not_or.mp hstop
      simp [field_cons_of_ne _ hnul hcomma, hfirst] at h

/-- Only a quote directly before a comma or a NUL makes the check fail. -/
theorem checksCommand_iff (recv : RecvBuf) (buf : LocalBuf 40) : ChecksCommand recv buf ↔
    ¬ (recv.buf[10]? = some quote ∧
      (recv.buf[11]? = some 0 ∨ recv.buf[11]? = some comma)) := by
  rw [← commandText_eq_lone_iff]
  rcases Nat.lt_or_ge (commandText recv).length 2 with hshort | hlong
  · rcases hcommand : commandText recv with _ | ⟨b, _ | ⟨c, rest⟩⟩
    · refine iff_of_true ⟨_, appCheckGsmGprs_nil buf hcommand, ?_⟩ (by simp)
      exact ⟨fun inner h => by simp [hcommand] at h, fun _ => ⟨_, rfl⟩⟩
    · by_cases hb : b = quote
      · subst hb
        refine iff_of_false ?_ (by simp)
        rintro ⟨result, hresult, -⟩
        rw [appCheckGsmGprs_lone buf hcommand] at hresult
        cases hresult
      · have herror := appCheckGsmGprs_cons buf (a := b) (z := b)
          (by rw [hcommand, List.head?_cons]) (by rw [hcommand, List.getLast?_singleton])
        rw [if_pos (.inl hb)] at herror
        refine iff_of_true ⟨_, herror, ?_⟩ (by simp [hb])
        exact ⟨fun inner h => by simp [hcommand] at h, fun _ => ⟨_, rfl⟩⟩
    · simp [hcommand] at hshort
  · obtain ⟨first, inner, last, hcommand⟩ := exists_inner hlong
    refine iff_of_true ?_ (by simp [hcommand])
    by_cases hquoted : first = quote ∧ last = quote
    · obtain ⟨rfl, rfl⟩ := hquoted
      obtain ⟨timeout, hsent⟩ := appCheckGsmGprs_quoted buf hcommand
      refine ⟨_, hsent, ?_, fun h => absurd hcommand (h inner)⟩
      intro inner' h
      have hsame : inner' = inner := by
        rw [hcommand] at h
        simpa using h.symm
      exact ⟨timeout, by rw [hsame]⟩
    · have herror := appCheckGsmGprs_cons buf (a := first) (z := last)
        (by rw [hcommand]; rfl) (by rw [hcommand, List.getLast?_concat])
      rw [if_pos (not_and_or.mp hquoted)] at herror
      refine ⟨_, herror, ?_, fun _ => ⟨_, rfl⟩⟩
      intro inner' h
      rw [hcommand] at h
      have hparts : first = quote ∧ inner = inner' ∧ last = quote := by simpa using h
      exact absurd ⟨hparts.1, hparts.2.2⟩ hquoted

/-- A quote alone as the command. -/
def loneQuote : RecvBuf where
  buf := ascii "EYE+MBCOM=\"" ++ List.replicate 118 0
  size := by decide +kernel

/-- A quote alone as the command is not turned down. -/
theorem not_checksCommand_lone : ¬ ∀ recv buf, ChecksCommand recv buf := by
  intro h
  obtain ⟨result, hresult, -⟩ := h loneQuote ⟨List.replicate 40 0, List.length_replicate⟩
  have hlone : commandText loneQuote = [quote] := by decide +kernel
  rw [appCheckGsmGprs_lone _ hlone] at hresult
  cases hresult

end GsmGprs

section Bounds

/-- The contents of `FCT_recv.buf` with a NUL in its last byte. -/
structure TerminatedBuf extends RecvBuf where
  terminated : buf[fctRecvLen]? = some 0

/-- Both scanners return without an access outside their buffers. -/
def StaysInside (recv : TerminatedBuf) : Prop :=
  appCheckComunication recv.buf ≠ none ∧
    ∀ count (buf : LocalBuf 30), apiCheckPwm recv.buf count buf.buf ≠ none

def Stops (s : List UInt8) : Prop := ∃ b ∈ s, b = 0 ∨ b = comma

theorem scanField_of_stop {past : ℕ → Bool} {b : UInt8} (rest : List UInt8) (i : ℕ)
    (h : b = 0 ∨ b = comma) : scanField past (b :: rest) i = some (i, false) := by
  rw [scanField]
  rcases h with rfl | rfl
  · rw [if_pos rfl]
  · rw [if_neg (by decide), if_pos rfl]

theorem scanField_of_ne {past : ℕ → Bool} {b : UInt8} (rest : List UInt8) (i : ℕ)
    (h : ¬ (b = 0 ∨ b = comma)) : scanField past (b :: rest) i =
      if past (i + 1) then some (i + 1, true) else scanField past rest (i + 1) := by
  obtain ⟨hnul, hcomma⟩ := not_or.mp h
  rw [scanField, if_neg hnul, if_neg hcomma]

theorem stops_cons_of_ne {b : UInt8} {rest : List UInt8} (h : ¬ (b = 0 ∨ b = comma)) :
    Stops (b :: rest) ↔ Stops rest := by
  simp [Stops, h]

/-- A scan over bytes with a comma or a NUL ends inside them. -/
theorem scanField_ends (past : ℕ → Bool) {s : List UInt8} (i : ℕ) (h : Stops s) :
    ∃ j limited, scanField past s i = some (j, limited) ∧ i ≤ j ∧ j ≤ i + s.length ∧
      (limited = false → past j = false ∨ j = i) := by
  induction s generalizing i with
  | nil =>
    obtain ⟨b, hb, -⟩ := h
    cases hb
  | cons b rest ih =>
    by_cases hstop : b = 0 ∨ b = comma
    · exact ⟨i, false, scanField_of_stop rest i hstop, le_rfl, Nat.le_add_right _ _,
        fun _ => .inr rfl⟩
    · rw [scanField_of_ne rest i hstop]
      by_cases hpast : past (i + 1)
      · rw [if_pos hpast]
        exact ⟨i + 1, true, rfl, Nat.le_succ i, by simp, by simp⟩
      · rw [if_neg hpast]
        obtain ⟨j, limited, hscan, hlo, hhi, hend⟩ := ih (i + 1) ((stops_cons_of_ne hstop).mp h)
        refine ⟨j, limited, hscan, (Nat.le_succ i).trans hlo, by simp; omega, fun hl => ?_⟩
        rcases hend hl with hp | rfl
        · exact .inl hp
        · exact .inl (by simpa using hpast)

/-- A scan without limit runs over the field. -/
theorem scanField_unlimited {s : List UInt8} (i : ℕ) (h : Stops s) :
    scanField (fun _ => false) s i = some (i + (field s).length, false) := by
  induction s generalizing i with
  | nil =>
    obtain ⟨b, hb, -⟩ := h
    cases hb
  | cons b rest ih =>
    by_cases hstop : b = 0 ∨ b = comma
    · rw [scanField_of_stop rest i hstop, field_cons_of_stop rest hstop, List.length_nil,
        Nat.add_zero]
    · obtain ⟨hnul, hcomma⟩ := not_or.mp hstop
      rw [scanField_of_ne rest i hstop, if_neg (by simp), ih _ ((stops_cons_of_ne hstop).mp h),
        field_cons_of_ne rest hnul hcomma, List.length_cons, Nat.add_right_comm, Nat.add_assoc]

/-- A limited scan ends one place behind the limit at the latest. -/
theorem scanField_le {m : ℕ} {s : List UInt8} {i j : ℕ} {limited : Bool} (hi : i ≤ m)
    (h : scanField (fun i => i > m) s i = some (j, limited)) : j ≤ m + 1 := by
  induction s generalizing i with
  | nil => cases h
  | cons b rest ih =>
    by_cases hstop : b = 0 ∨ b = comma
    · rw [scanField_of_stop rest i hstop] at h
      cases h
      exact hi.trans (Nat.le_succ m)
    · rw [scanField_of_ne rest i hstop] at h
      split_ifs at h with hpast
      · cases h
        exact Nat.succ_le_succ hi
      · exact ih (by simpa using hpast) h

theorem exists_copyIn (mem src : List UInt8) (pos k : ℕ) (hpos : pos + k ≤ mem.length)
    (hsrc : k ≤ src.length) : ∃ mem', copyIn mem pos src k = some mem' ∧
      mem'.length = mem.length := by
  refine ⟨_, copyIn_of_le hpos hsrc, blit_length _ _ _ ?_⟩
  rw [List.length_take_of_le hsrc]
  exact hpos

theorem exists_store (mem : List UInt8) (i : ℕ) (x : UInt8) (h : i < mem.length) :
    ∃ mem', store mem i x = some mem' ∧ mem'.length = mem.length :=
  ⟨_, store_of_lt x h, blit_length _ _ _ h⟩

/-- The reply has room for the longest count and a field of four bytes. -/
theorem pwmReply_ne_none {recv : List UInt8} {offset i : ℕ} (count : UInt32) (buf : LocalBuf 30)
    (hle : i ≤ 4 + offset) (hrecv : i ≤ offset + (recv.drop (8 + offset)).length) :
    pwmReply recv count offset i buf.buf ≠ none := by
  have hdecimal : (decimal (int32 (count * 10).toNat)).length ≤ 10 + 1 :=
    decimal_length_le (by decide) (int32_natAbs_lt _)
  obtain ⟨text, htext⟩ :
      ∃ text, text = ascii "OK," ++ decimal (int32 (count * 10).toNat) ++ ascii "," := ⟨_, rfl⟩
  have hlen : text.length ≤ 15 := by
    have hfixed : (ascii "OK,").length = 3 ∧ (ascii ",").length = 1 := by decide
    rw [htext, List.length_append, List.length_append]
    omega
  have hsize := buf.size
  obtain ⟨buf₁, hprint, hsize₁⟩ := exists_copyIn buf.buf (text ++ [0]) 0 (text.length + 1)
    (by omega) (by simp)
  obtain ⟨buf₂, hcopy, hsize₂⟩ := exists_copyIn buf₁ (recv.drop (8 + offset)) text.length
    (i - offset) (by omega) (by omega)
  obtain ⟨buf₃, hreturn, hsize₃⟩ := exists_store buf₂ (text.length + i - offset) 0x0d
    (by omega)
  obtain ⟨buf₄, hnul, -⟩ := exists_store buf₃ (text.length + i - offset + 1) 0
    (by omega)
  simp only [pwmReply, ← htext, hprint, hcopy, hreturn, hnul, Option.bind_some, Option.map_some]
  exact Option.some_ne_none _

theorem TerminatedBuf.stops_drop (recv : TerminatedBuf) {k : ℕ} (hk : k ≤ fctRecvLen) :
    Stops (recv.buf.drop k) := by
  refine ⟨0, List.mem_of_getElem? (i := fctRecvLen - k) ?_, .inl rfl⟩
  rw [List.getElem?_drop, Nat.add_sub_cancel' hk, recv.terminated]

theorem exists_getElem? (mem : List UInt8) {i : ℕ} (h : i < mem.length) :
    ∃ b, mem[i]? = some b := ⟨mem[i], List.getElem?_eq_getElem h⟩

/-- The scan of the communication test looks at the first 32 bytes at most. -/
theorem appCheckComunication_ne_none (recv : TerminatedBuf) :
    appCheckComunication recv.buf ≠ none := by
  have hsize := recv.size
  rw [fctRecvLen] at hsize
  obtain ⟨i, limited, hscan, -, -, -⟩ :=
    scanField_ends (fun i => i > 20) 0 (recv.stops_drop (k := 8) (by decide))
  have hi : i ≤ 21 := scanField_le (by decide) hscan
  obtain ⟨first, hfirst⟩ := exists_getElem? recv.buf (i := 8) (by omega)
  obtain ⟨last, hlast⟩ := exists_getElem? recv.buf (i := 7 + i) (by omega)
  obtain ⟨behind, hbehind⟩ := exists_getElem? recv.buf (i := 10 + i) (by omega)
  obtain ⟨digit, hdigit⟩ := exists_getElem? recv.buf (i := 9 + i) (by omega)
  have hload : loadAt recv.buf 8 = some first := (loadAt_natCast recv.buf 8).trans hfirst
  have hload' : loadAt recv.buf (8 + (i : ℤ) - 1) = some last := by
    rw [show 8 + (i : ℤ) - 1 = ((7 + i : ℕ) : ℤ) by omega, loadAt_natCast, hlast]
  rw [appCheckComunication, hscan]
  simp only [Option.bind_some, hload, hload', hbehind, hdigit, Option.map_some]
  split_ifs <;> exact Option.some_ne_none _

/-- The place of the first comma or NUL behind the keyword. -/
def firstStop (recv : TerminatedBuf) : ℕ := 8 + (field (recv.buf.drop 8)).length

theorem getElem?_field {s : List UInt8} {j : ℕ} (h : j < (field s).length) {b : UInt8}
    (hb : s[j]? = some b) : ¬ (b = 0 ∨ b = comma) := by
  induction s generalizing j with
  | nil => cases hb
  | cons c rest ih =>
    by_cases hstop : c = 0 ∨ c = comma
    · rw [field_cons_of_stop rest hstop] at h
      cases h
    · obtain ⟨hnul, hcomma⟩ := not_or.mp hstop
      rw [field_cons_of_ne rest hnul hcomma, List.length_cons] at h
      cases j with
      | zero =>
        cases hb
        exact hstop
      | succ j => exact ih (Nat.lt_of_succ_lt_succ h) hb

theorem stops_at_field {s : List UInt8} (h : Stops s) :
    ∃ b, s[(field s).length]? = some b ∧ (b = 0 ∨ b = comma) := by
  induction s with
  | nil =>
    obtain ⟨b, hb, -⟩ := h
    cases hb
  | cons b rest ih =>
    by_cases hstop : b = 0 ∨ b = comma
    · exact ⟨b, by rw [field_cons_of_stop rest hstop]; rfl, hstop⟩
    · obtain ⟨hnul, hcomma⟩ := not_or.mp hstop
      obtain ⟨c, hc, hcstop⟩ := ih ((stops_cons_of_ne hstop).mp h)
      exact ⟨c, by rw [field_cons_of_ne rest hnul hcomma, List.length_cons]; exact hc, hcstop⟩

/-- The second scan of the pulse test begins behind the first stop. -/
theorem apiCheckPwm_ne_none_iff (recv : TerminatedBuf) (count : UInt32) (buf : LocalBuf 30) :
    apiCheckPwm recv.buf count buf.buf ≠ none ↔ firstStop recv < fctRecvLen := by
  have hsize := recv.size
  have hscan := scanField_unlimited 0 (recv.stops_drop (k := 8) (by decide))
  set offset := (field (recv.buf.drop 8)).length + 1 with hoffset
  have hnext : 8 + offset = firstStop recv + 1 := by
    rw [firstStop, hoffset, Nat.add_assoc]
  rw [apiCheckPwm, hscan, Nat.zero_add]
  simp only [Option.bind_some, ← hoffset]
  rw [hnext]
  constructor
  · intro hreturns
    by_contra hend
    have hbehind : recv.buf.drop (firstStop recv + 1) = [] :=
      List.drop_eq_nil_of_le (by omega)
    rw [hbehind] at hreturns
    exact hreturns rfl
  · intro hinside
    obtain ⟨i, limited, hscan', hlo, hhi, hend⟩ :=
      scanField_ends (fun i => i > 4 + offset) offset
        (recv.stops_drop (k := firstStop recv + 1) hinside)
    rw [hscan', Option.bind_some]
    cases limited with
    | true => exact Option.some_ne_none _
    | false =>
      have hle : i ≤ 4 + offset := by
        rcases hend rfl with h | h
        · simpa using h
        · omega
      exact pwmReply_ne_none count buf hle (by rw [hnext]; exact hhi)

/-- The scanners stay inside their buffers exactly if a comma or a NUL stands between the keyword
and the last byte. -/
theorem staysInside_iff (recv : TerminatedBuf) : StaysInside recv ↔
    ∃ k, 8 ≤ k ∧ k < fctRecvLen ∧ (recv.buf[k]? = some 0 ∨ recv.buf[k]? = some comma) := by
  have hpwm : StaysInside recv ↔ firstStop recv < fctRecvLen := by
    constructor
    · intro h
      exact (apiCheckPwm_ne_none_iff recv 0 ⟨List.replicate 30 0, List.length_replicate⟩).mp
        (h.2 0 _)
    · intro h
      exact ⟨appCheckComunication_ne_none recv, fun count buf =>
        (apiCheckPwm_ne_none_iff recv count buf).mpr h⟩
  rw [hpwm]
  constructor
  · intro h
    obtain ⟨b, hb, hstop⟩ := stops_at_field (recv.stops_drop (k := 8) (by decide))
    rw [List.getElem?_drop] at hb
    refine ⟨firstStop recv, Nat.le_add_right 8 _, h, ?_⟩
    rcases hstop with rfl | rfl
    · exact .inl hb
    · exact .inr hb
  · rintro ⟨k, hlo, hhi, hk⟩
    by_contra hend
    have hinside : k - 8 < (field (recv.buf.drop 8)).length := by
      rw [firstStop] at hend
      omega
    have hat (b : UInt8) (hb : recv.buf[k]? = some b) : ¬ (b = 0 ∨ b = comma) := by
      apply getElem?_field hinside
      rw [List.getElem?_drop, Nat.add_sub_cancel' hlo, hb]
    rcases hk with hk | hk
    · exact hat 0 hk (.inl rfl)
    · exact hat comma hk (.inr rfl)

/-- A command that fills the buffer without a comma. -/
def fullCommand : TerminatedBuf where
  buf := ascii "EYE+PWM=" ++ List.replicate 120 0x31 ++ [0]
  size := by decide +kernel
  terminated := by decide +kernel

/-- The pulse test reads behind a full buffer. -/
theorem not_staysInside_full : ¬ ∀ recv, StaysInside recv := by
  intro h
  have hfirst : ¬ firstStop fullCommand < fctRecvLen := by decide +kernel
  exact hfirst ((apiCheckPwm_ne_none_iff fullCommand 0
    ⟨List.replicate 30 0, List.length_replicate⟩).mp ((h fullCommand).2 0 _))

end Bounds

end VehicleTerminal.FctDebug
