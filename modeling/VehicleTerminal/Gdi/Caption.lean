import VehicleTerminal.Library.CString
import VehicleTerminal.Library.MixedText

/-! The caption of several lines that `LcdShowCaptionEx` of `Gdi.c` splits and draws. An access
outside the local arrays has no result. -/
namespace VehicleTerminal.Gdi
open BlockMemory CString MixedText

section Model

/-- The variables of the scan. `Str` is one block with 17 bytes a row; `lenp`, which nothing reads,
is left out. -/
structure Tables where
  str : List UInt8
  len : List UInt8
  line : ℕ

/-- `len[line] += bytes`. -/
def Tables.count (bytes : UInt8) (t : Tables) : Option Tables :=
  (t.len[t.line]?).map fun n => { t with len := t.len.set t.line (n + bytes) }

/-- The loop `while(*p)` over the memory from `p` on. -/
def captionLoop (str : List UInt8) : List UInt8 → Tables → Option Tables
  | [], _ => none
  | b :: p, t =>
    if b = 0 then some t
    else if b > 0x9f then
      match p with
      | [] => none
      | _ :: p => (t.count 2).bind (captionLoop str p)
    else if b = 0x0a then
      (t.len[t.line]?).bind fun n =>
        if n > 16 then
          (strcpy t.str 0 str).map fun s => { t with str := s, line := 0 }
        else
          (store t.str (17 * t.line + n.toNat) 0).bind fun s =>
            let t := { t with str := s, line := t.line + 1 }
            if t.line > 3 then some t
            else
              (strcpy t.str (17 * t.line) p).bind fun s =>
                (store t.len t.line 0).bind fun len =>
                  captionLoop str p { t with str := s, len := len }
    else (t.count 1).bind (captionLoop str p)

/-- A call of `LcdShowStr`. -/
structure ShowStr where
  x : UInt8
  y : UInt8
  str : List UInt8
  deriving Repr, DecidableEq

/-- A round of the loop that draws. -/
def showLine (y : UInt8) (t : Tables) (i : ℕ) : Option ShowStr :=
  (t.len[i]?).bind fun n =>
    let tmp := n <<< 2
    let x := if 65 > tmp then 65 - tmp else 0
    (stringAt t.str (17 * i)).map fun s => ⟨x, y + UInt8.ofNat i * 16, s⟩

/-- The local arrays before anything is written to them. -/
structure Locals where
  str : List UInt8
  source : List UInt8
  len : List UInt8
  str_length : str.length = 68
  source_length : source.length = 72
  len_length : len.length = 4

def lcdShowCaptionEx (locals : Locals) (str : List UInt8) (y : UInt8) : Option (List ShowStr) :=
  (strcpy locals.source 0 str).bind fun _ =>
    (strcpy locals.str 0 str).bind fun s =>
      (store locals.len 0 0).bind fun len =>
        (captionLoop str str ⟨s, len, 0⟩).bind fun t =>
          (List.range (t.line + 1)).mapM (showLine y t)

end Model

/-- The first bytes of double-byte characters in a caption. -/
def chineseLetter (b : UInt8) : Bool := b > 0x9f

/-- A line of at most 16 bytes in whole characters. -/
structure FitsRow (line : List UInt8) : Prop where
  length_le : line.length ≤ 16
  whole : ∃ chars : List (Chr chineseLetter), line = encode chars

/-- A text for a caption. -/
structure Caption where
  text : List UInt8
  nul_free : 0 ∉ text
  length_lt : text.length < 68
  fits : ∀ line ∈ text.splitOn 0x0a, FitsRow line

namespace Caption

def lines (c : Caption) : List (List UInt8) := c.text.splitOn 0x0a

/-- The first four lines, centred one below the other. -/
def rows (c : Caption) (y : UInt8) : List ShowStr :=
  (c.lines.take 4).mapIdx fun i line =>
    ⟨UInt8.ofNat (65 - 4 * line.length), y + UInt8.ofNat i * 16, line⟩

/-- The caption is drawn line by line, without an access outside the local arrays. -/
def Shown (c : Caption) : Prop := ∀ locals behind y,
  lcdShowCaptionEx locals (c.text ++ 0 :: behind) y = some (c.rows y)

end Caption

/-- The lines with their separators. -/
def joined (lines : List (List UInt8)) : List UInt8 := [0x0a].intercalate lines

theorem joined_singleton (line : List UInt8) : joined [line] = line := List.intercalate_singleton

theorem joined_cons_cons (line next : List UInt8) (lines : List (List UInt8)) :
    joined (line :: next :: lines) = line ++ 0x0a :: joined (next :: lines) := by
  rw [joined, List.intercalate_cons_cons, List.append_assoc]
  rfl

/-- A line as the scan needs it. -/
structure Scannable (line : List UInt8) : Prop extends FitsRow line where
  nul_free : 0 ∉ line
  unbroken : 0x0a ∉ line

section Lines

variable {line : List UInt8} {lines : List (List UInt8)}

theorem Caption.scannable (c : Caption) : ∀ line ∈ c.lines, Scannable line := by
  intro line hline
  refine ⟨c.fits line hline, fun hnul => ?_, fun hbreak => ?_⟩
  · exact c.nul_free (mem_of_mem_splitOn hline hnul).1
  · exact (mem_of_mem_splitOn hline hbreak).2 rfl

theorem Caption.joined_lines (c : Caption) : joined c.lines = c.text :=
  List.intercalate_splitOn 0x0a

/-- The rest of a text fits into the rows of its lines, with its terminator. -/
theorem joined_length_lt (hlines : ∀ l ∈ line :: lines, Scannable l) :
    (joined (line :: lines)).length + 1 ≤ 17 * (lines.length + 1) := by
  induction lines generalizing line with
  | nil =>
    have hlength := (hlines line List.mem_cons_self).length_le
    rw [joined_singleton, List.length_nil]
    omega
  | cons next lines ih =>
    have hlength := (hlines line List.mem_cons_self).length_le
    have hrest := ih fun l hl => hlines l (List.mem_cons_of_mem line hl)
    rw [joined_cons_cons, List.length_append, List.length_cons, List.length_cons]
    omega

theorem nul_not_mem_joined (hlines : ∀ l ∈ line :: lines, Scannable l) :
    0 ∉ joined (line :: lines) := by
  induction lines generalizing line with
  | nil =>
    rw [joined_singleton]
    exact (hlines line List.mem_cons_self).nul_free
  | cons next lines ih =>
    rw [joined_cons_cons, List.mem_append, List.mem_cons]
    rintro (hnul | hnul | hnul)
    · exact (hlines line List.mem_cons_self).nul_free hnul
    · exact absurd hnul (by decide)
    · exact ih (fun l hl => hlines l (List.mem_cons_of_mem line hl)) hnul

end Lines

section Scan

variable {str p : List UInt8} {t : Tables} {n : UInt8}

theorem captionLoop_nul : captionLoop str (0 :: p) t = some t := by
  rw [captionLoop.eq_def]
  exact if_pos rfl

theorem count_of_some (bytes : UInt8) (hn : t.len[t.line]? = some n) :
    t.count bytes = some { t with len := t.len.set t.line (n + bytes) } := by
  rw [Tables.count, hn]
  rfl

theorem captionLoop_chr (c : Chr chineseLetter) (hnul : 0 ∉ c.bytes) (hbreak : 0x0a ∉ c.bytes)
    (hn : t.len[t.line]? = some n) : captionLoop str (c.bytes ++ p) t =
      captionLoop str p
        { t with len := t.len.set t.line (n + UInt8.ofNat c.bytes.length) } := by
  cases c with
  | single b h =>
    have hb : b ≠ 0 := fun hb => hnul (hb ▸ List.mem_singleton_self b)
    have hline : b ≠ 0x0a := fun hb => hbreak (hb ▸ List.mem_singleton_self b)
    have hsingle : ¬ b > 0x9f := of_decide_eq_false h
    rw [Chr.bytes, List.singleton_append, captionLoop.eq_def]
    dsimp only
    rw [if_neg hb, if_neg hsingle, if_neg hline, count_of_some 1 hn]
    rfl
  | double b c h =>
    have hb : b ≠ 0 := fun hb => hnul (hb ▸ List.mem_cons_self)
    have hdouble : b > 0x9f := of_decide_eq_true h
    simp only [Chr.bytes, List.cons_append, List.nil_append]
    rw [captionLoop, if_neg hb, if_pos hdouble]
    simp only [count_of_some 2 hn]
    rfl

theorem count_set (len : List UInt8) (line : ℕ) (hn : len[line]? = some n) (m : UInt8) :
    (len.set line m)[line]? = some m := by
  rw [List.getElem?_set_self (List.getElem?_eq_some_iff.mp hn).1]

/-- Scanning whole characters adds their bytes to the length of the line. -/
theorem captionLoop_chars (chars : List (Chr chineseLetter)) (hnul : 0 ∉ encode chars)
    (hbreak : 0x0a ∉ encode chars) (hn : t.len[t.line]? = some n) :
    captionLoop str (encode chars ++ p) t = captionLoop str p
      { t with len := t.len.set t.line (n + UInt8.ofNat (encode chars).length) } := by
  induction chars generalizing t n with
  | nil =>
    have hsame : t.len.set t.line (n + UInt8.ofNat 0) = t.len := by
      obtain ⟨hline, heq⟩ := List.getElem?_eq_some_iff.mp hn
      rw [show UInt8.ofNat 0 = 0 from rfl, UInt8.add_zero, ← heq]
      exact List.set_getElem_self hline
    rw [encode_nil, List.nil_append, List.length_nil, hsame]
  | cons c chars ih =>
    rw [encode_cons, List.mem_append, not_or] at hnul hbreak
    rw [encode_cons, List.append_assoc, captionLoop_chr c hnul.1 hbreak.1 hn,
      ih hnul.2 hbreak.2 (count_set t.len t.line hn _), List.set_set, List.length_append,
      UInt8.ofNat_add, UInt8.add_assoc]

theorem captionLoop_line {line : List UInt8} (hline : Scannable line)
    (hn : t.len[t.line]? = some 0) : captionLoop str (line ++ p) t = captionLoop str p
      { t with len := t.len.set t.line (UInt8.ofNat line.length) } := by
  obtain ⟨chars, rfl⟩ := hline.whole
  rw [captionLoop_chars chars hline.nul_free hline.unbroken hn, UInt8.zero_add]

theorem captionLoop_separator (hn : t.len[t.line]? = some n) (hle : n ≤ 16) :
    captionLoop str (0x0a :: p) t = (store t.str (17 * t.line + n.toNat) 0).bind fun s =>
      if t.line + 1 > 3 then some { t with str := s, line := t.line + 1 }
      else
        (strcpy s (17 * (t.line + 1)) p).bind fun s =>
          (store t.len (t.line + 1) 0).bind fun len =>
            captionLoop str p { t with str := s, len := len, line := t.line + 1 } := by
  rw [captionLoop.eq_def]
  dsimp only
  rw [if_neg (by decide), if_neg (by decide), if_pos rfl, hn, Option.bind_some,
    if_neg (UInt8.not_lt.mpr hle)]

end Scan

section Rows

/-- Row `i` of the tables is a line. -/
structure Row (t : Tables) (i : ℕ) (line : List UInt8) : Prop where
  text : Holds t.str (17 * i) (line ++ [0])
  length : t.len[i]? = some (UInt8.ofNat line.length)
  length_le : line.length ≤ 16

/-- The lines before the current one are in their rows, and the rest of the text is in the row of
the current one. -/
structure Reached (t : Tables) (done : List (List UInt8)) (rest : List UInt8) : Prop where
  line : t.line = done.length
  rows : ∀ i l, done[i]? = some l → Row t i l
  current : Holds t.str (17 * t.line) (rest ++ [0])
  count : t.len[t.line]? = some 0
  strSize : t.str.length = 68
  lenSize : t.len.length = 4

variable (str behind : List UInt8) {t : Tables} {done lines : List (List UInt8)}
  {line next : List UInt8}

theorem toNat_ofNat_length (hline : Scannable line) :
    (UInt8.ofNat line.length).toNat = line.length := by
  have hlength := hline.length_le
  rw [UInt8.toNat_ofNat']
  omega

theorem getElem?_snoc_cases {i : ℕ} {l : List UInt8} (h : (done ++ [line])[i]? = some l) :
    i < done.length ∧ done[i]? = some l ∨ i = done.length ∧ line = l := by
  by_cases hi : i < done.length
  · rw [List.getElem?_append_left hi] at h
    exact .inl ⟨hi, h⟩
  · rw [List.getElem?_append_right (not_lt.mp hi)] at h
    obtain ⟨hzero, h⟩ := List.getElem?_eq_some_iff.mp h
    rw [List.length_singleton] at hzero
    exact .inr ⟨by omega, by simpa using h⟩

/-- A separator ends its line, and the rest of the text is copied into the next row. -/
theorem Reached.advance (h : Reached t done (joined (line :: next :: lines)))
    (hlines : ∀ l ∈ line :: next :: lines, Scannable l) (hroom : done.length + lines.length ≤ 2) :
    ∃ t', captionLoop str (joined (line :: next :: lines) ++ 0 :: behind) t =
        captionLoop str (joined (next :: lines) ++ 0 :: behind) t' ∧
      Reached t' (done ++ [line]) (joined (next :: lines)) := by
  have hline := hlines line List.mem_cons_self
  have hnext : ∀ l ∈ next :: lines, Scannable l := fun l hl => hlines l (.tail line hl)
  have hlength := hline.length_le
  have hrest := joined_length_lt hnext
  have hdone := h.line
  have hstr := h.strSize
  have hlen := h.lenSize
  let s := blit t.str (17 * t.line + line.length) [0]
  have hs : s.length = 68 := by
    rw [blit_length _ _ _ (by rw [List.length_singleton]; omega), hstr]
  have htext : Holds s (17 * t.line) (line ++ [0]) := by
    refine Holds.blit_append (h.current.trans ?_) [0] (by omega)
    rw [joined_cons_cons, List.append_assoc]
    exact List.prefix_append _ _
  have hfit : 17 * (t.line + 1) + ((joined (next :: lines)).length + 1) ≤ s.length := by omega
  let s' := blit s (17 * (t.line + 1)) (joined (next :: lines) ++ [0])
  have hs' : s'.length = 68 := by
    rw [blit_length _ _ _ (by rw [List.length_append, List.length_singleton]; omega), hs]
  let len := (t.len.set t.line (UInt8.ofNat line.length)).set (t.line + 1) 0
  refine ⟨⟨s', len, t.line + 1⟩, ?_, ?_⟩
  · rw [joined_cons_cons, List.append_assoc, List.cons_append, captionLoop_line hline h.count,
      captionLoop_separator (count_set _ _ h.count _) ?_]
    · simp only [toNat_ofNat_length hline]
      rw [store_of_lt _ (by omega), Option.bind_some, if_neg (by omega),
        strcpy_of_le behind (nul_not_mem_joined hnext) hfit, Option.bind_some,
        store, if_pos (by rw [List.length_set]; omega), Option.bind_some]
    · rw [UInt8.le_iff_toNat_le, toNat_ofNat_length hline]
      exact hlength
  · refine ⟨?_, ?_, holds_blit (by omega) _, ?_, hs', ?_⟩
    · rw [List.length_append, hdone]
      rfl
    · intro i l hl
      rcases getElem?_snoc_cases hl with ⟨hi, hl⟩ | ⟨hi, rfl⟩
      · have hrow := h.rows i l hl
        have hl16 := hrow.length_le
        have hbefore : 17 * i + (l ++ [0]).length ≤ 17 * t.line := by
          rw [List.length_append, List.length_singleton]
          omega
        refine ⟨(hrow.text.blit_of_le (by omega) _).blit_of_le (by omega) _, ?_, hl16⟩
        rw [List.getElem?_set_ne (by omega), List.getElem?_set_ne (by omega)]
        exact hrow.length
      · obtain rfl : i = t.line := hi.trans hdone.symm
        refine ⟨htext.blit_of_le ?_ _, ?_, hlength⟩
        · rw [List.length_append, List.length_singleton]
          omega
        · rw [List.getElem?_set_ne (by omega)]
          exact count_set _ _ h.count _
    · exact List.getElem?_set_self (by rw [List.length_set]; omega)
    · rw [List.length_set, List.length_set, hlen]

/-- With at most four lines every line ends up in a row of its own. -/
theorem captionLoop_rows (hlines : ∀ l ∈ line :: lines, Scannable l)
    (hroom : done.length + lines.length ≤ 3) (h : Reached t done (joined (line :: lines))) :
    ∃ t', captionLoop str (joined (line :: lines) ++ 0 :: behind) t = some t' ∧
      t'.line = done.length + lines.length ∧
      ∀ i l, (done ++ line :: lines)[i]? = some l → Row t' i l := by
  induction lines generalizing line t done with
  | nil =>
    have hline := hlines line List.mem_cons_self
    refine ⟨{ t with len := t.len.set t.line (UInt8.ofNat line.length) }, ?_, h.line,
      fun i l hl => ?_⟩
    · rw [joined_singleton, captionLoop_line hline h.count, captionLoop_nul]
    · rcases getElem?_snoc_cases hl with ⟨hi, hl⟩ | ⟨hi, rfl⟩
      · have hrow := h.rows i l hl
        refine ⟨hrow.text, ?_, hrow.length_le⟩
        rw [List.getElem?_set_ne (by rw [h.line]; omega)]
        exact hrow.length
      · obtain rfl : i = t.line := hi.trans h.line.symm
        exact ⟨joined_singleton line ▸ h.current, count_set _ _ h.count _, hline.length_le⟩
  | cons next lines ih =>
    rw [List.length_cons] at hroom
    obtain ⟨t', hstep, hreached⟩ := h.advance str behind hlines (by omega)
    obtain ⟨t'', hend, hline, hrows⟩ := ih (fun l hl => hlines l (.tail line hl))
      (by rw [List.length_append, List.length_singleton]; omega) hreached
    refine ⟨t'', hstep.trans hend, ?_, fun i l hl => hrows i l ?_⟩
    · rw [hline, List.length_append, List.length_singleton, List.length_cons]
      omega
    · rw [List.append_assoc]
      exact hl

/-- With more than four lines a scan that ends at all has counted up to the row behind the
tables. -/
theorem captionLoop_overflow {t' : Tables} (hlines : ∀ l ∈ line :: lines, Scannable l)
    (hline : t.line ≤ 3) (hmany : 4 ≤ t.line + lines.length) (hlen : t.len.length = 4)
    (hcount : t.len[t.line]? = some 0)
    (h : captionLoop str (joined (line :: lines) ++ 0 :: behind) t = some t') :
    t'.line = 4 ∧ t'.len.length = 4 := by
  induction lines generalizing line t with
  | nil =>
    rw [List.length_nil] at hmany
    omega
  | cons next lines ih =>
    have hfirst := hlines line List.mem_cons_self
    have hle : UInt8.ofNat line.length ≤ 16 := by
      rw [UInt8.le_iff_toNat_le, toNat_ofNat_length hfirst]
      exact hfirst.length_le
    rw [List.length_cons] at hmany
    rw [joined_cons_cons, List.append_assoc, List.cons_append, captionLoop_line hfirst hcount,
      captionLoop_separator (count_set _ _ hcount _) hle] at h
    obtain ⟨s, -, h⟩ := Option.bind_eq_some_iff.mp h
    by_cases hlast : t.line + 1 > 3
    · rw [if_pos hlast, Option.some.injEq] at h
      rw [← h]
      refine ⟨?_, List.length_set.trans hlen⟩
      simp only
      omega
    · have hstore : t.line + 1 < (t.len.set t.line (UInt8.ofNat line.length)).length := by
        rw [List.length_set]
        omega
      rw [if_neg hlast] at h
      obtain ⟨s', -, h⟩ := Option.bind_eq_some_iff.mp h
      rw [store, if_pos hstore, Option.bind_some] at h
      refine ih (fun l hl => hlines l (.tail line hl)) ?_ ?_ ?_ ?_ h
      · simp only
        omega
      · simp only
        omega
      · rw [List.length_set, List.length_set, hlen]
      · exact List.getElem?_set_self hstore

end Rows

section Drawing

variable {β : Type*} {f : ℕ → Option β}

theorem mapM_range_of_getElem? {results : List β}
    (h : ∀ i x, results[i]? = some x → f i = some x) :
    (List.range results.length).mapM f = some results := by
  induction results using List.reverseRecOn with
  | nil => rfl
  | append_singleton results x ih =>
    have hlast : f results.length = some x := h _ x (by simp)
    have hfirst := ih fun i y hy => h i y (by
      rw [List.getElem?_append_left (List.getElem?_eq_some_iff.mp hy).1, hy])
    rw [List.length_append, List.length_singleton, List.range_succ, List.mapM_append, hfirst,
      List.mapM_cons, hlast, List.mapM_nil]
    rfl

theorem mapM_eq_none_of_mem {indices : List ℕ} {i : ℕ} (hi : i ∈ indices) (h : f i = none) :
    indices.mapM f = none := by
  induction indices with
  | nil => exact absurd hi List.not_mem_nil
  | cons j indices ih =>
    rw [List.mapM_cons]
    rcases List.mem_cons.mp hi with rfl | hi
    · rw [h]
      rfl
    · rw [ih hi]
      cases f j <;> rfl

theorem showLine_of_row {t : Tables} {i : ℕ} {line : List UInt8} (hrow : Row t i line)
    (hnul : 0 ∉ line) (y : UInt8) : showLine y t i =
      some ⟨UInt8.ofNat (65 - 4 * line.length), y + UInt8.ofNat i * 16, line⟩ := by
  have hx : ∀ n < 17, (if (65 : UInt8) > UInt8.ofNat n <<< 2 then (65 : UInt8) - UInt8.ofNat n <<< 2
      else 0) = UInt8.ofNat (65 - 4 * n) := by decide
  rw [showLine, hrow.length, Option.bind_some, stringAt_of_holds hrow.text hnul, Option.map_some]
  simp only [hx line.length (Nat.lt_succ_of_le hrow.length_le)]

end Drawing

namespace Caption

variable {c : Caption} (locals : Locals) (behind : List UInt8) (y : UInt8)

theorem exists_lines (c : Caption) : ∃ line lines, c.lines = line :: lines :=
  List.exists_cons_of_ne_nil (List.splitOn_ne_nil 0x0a c.text)

/-- The two copies of the text fit, and the scan starts with all of it in the first row. -/
theorem start_reached : ∃ t, Reached t [] c.text ∧
    lcdShowCaptionEx locals (c.text ++ 0 :: behind) y =
      (captionLoop (c.text ++ 0 :: behind) (c.text ++ 0 :: behind) t).bind fun t =>
        (List.range (t.line + 1)).mapM (showLine y t) := by
  have hlength := c.length_lt
  have hstr := locals.str_length
  have hsource := locals.source_length
  have hlen := locals.len_length
  have hblit : (blit locals.str 0 (c.text ++ [0])).length = 68 := by
    rw [blit_length _ _ _ (by rw [List.length_append, List.length_singleton]; omega), hstr]
  refine ⟨⟨blit locals.str 0 (c.text ++ [0]), locals.len.set 0 0, 0⟩, ?_, ?_⟩
  · refine ⟨rfl, fun i l hl => ?_, holds_blit (Nat.zero_le _) _, ?_, hblit, ?_⟩
    · rw [List.getElem?_nil] at hl
      cases hl
    · exact List.getElem?_set_self (by omega)
    · exact List.length_set.trans hlen
  · rw [lcdShowCaptionEx, strcpy_of_le behind c.nul_free (by omega), Option.bind_some,
      strcpy_of_le behind c.nul_free (by omega), Option.bind_some, store, if_pos (by omega),
      Option.bind_some]

/-- At most four lines are drawn as they are. -/
theorem shown_of_le (h : c.lines.length ≤ 4) : c.Shown := by
  intro locals behind y
  obtain ⟨line, lines, hc⟩ := c.exists_lines
  obtain ⟨t, hreached, hcall⟩ := c.start_reached locals behind y
  have hscan := c.scannable
  have hjoined := c.joined_lines
  rw [hc] at hscan hjoined h
  rw [List.length_cons] at h
  rw [hcall, ← hjoined]
  rw [← hjoined] at hreached
  obtain ⟨t', hloop, hline, hrows⟩ := captionLoop_rows (joined (line :: lines) ++ 0 :: behind)
    behind hscan (by rw [List.length_nil]; omega) hreached
  have hcount : t'.line + 1 = (c.rows y).length := by
    rw [rows, hc, List.length_mapIdx, List.length_take, hline, List.length_cons, List.length_nil]
    omega
  rw [hloop, Option.bind_some, hcount]
  refine mapM_range_of_getElem? fun i x hx => ?_
  rw [rows, hc, List.take_of_length_le (by rw [List.length_cons]; omega),
    List.getElem?_mapIdx] at hx
  obtain ⟨l, hl, rfl⟩ := Option.map_eq_some_iff.mp hx
  exact showLine_of_row (hrows i l hl) (hscan l (List.mem_of_getElem? hl)).nul_free y

/-- With more than four lines an access leaves the local arrays. -/
theorem lcdShowCaptionEx_eq_none (h : 4 < c.lines.length) :
    lcdShowCaptionEx locals (c.text ++ 0 :: behind) y = none := by
  obtain ⟨line, lines, hc⟩ := c.exists_lines
  obtain ⟨t, hreached, hcall⟩ := c.start_reached locals behind y
  have hscan := c.scannable
  have hjoined := c.joined_lines
  have hline := hreached.line
  rw [hc] at hscan hjoined h
  rw [List.length_cons] at h
  rw [List.length_nil] at hline
  rw [hcall, ← hjoined]
  cases hloop : captionLoop (joined (line :: lines) ++ 0 :: behind)
      (joined (line :: lines) ++ 0 :: behind) t with
  | none => rfl
  | some t' =>
    obtain ⟨hend, hlen⟩ := captionLoop_overflow _ behind hscan (by omega) (by omega)
      hreached.lenSize hreached.count hloop
    rw [Option.bind_some, hend]
    refine mapM_eq_none_of_mem (List.mem_range.mpr (Nat.lt_succ_self 4)) ?_
    rw [showLine, List.getElem?_eq_none hlen.le]
    rfl

theorem length_le_of_shown (h : c.Shown) : c.lines.length ≤ 4 := by
  by_contra hmany
  let locals : Locals :=
    ⟨List.replicate 68 0, List.replicate 72 0, List.replicate 4 0, rfl, rfl, rfl⟩
  have hcall := h locals [] 0
  rw [lcdShowCaptionEx_eq_none locals [] 0 (not_le.mp hmany)] at hcall
  cases hcall

end Caption

/-- The caption is shown exactly if it has at most four lines. -/
theorem caption_shown_iff (c : Caption) : c.Shown ↔ c.lines.length ≤ 4 :=
  ⟨Caption.length_le_of_shown, Caption.shown_of_le⟩

/-- Four separators in a row are one line too many. -/
theorem not_caption_shown : ¬ ∀ c : Caption, c.Shown := by
  intro h
  have hlines : List.splitOn (0x0a : UInt8) [0x0a, 0x0a, 0x0a, 0x0a] = [[], [], [], [], []] := by
    decide
  let c : Caption :=
    { text := [0x0a, 0x0a, 0x0a, 0x0a]
      nul_free := by decide
      length_lt := by decide
      fits := by
        intro line hline
        rw [hlines] at hline
        obtain rfl : line = [] := by simpa using hline
        exact ⟨by decide, [], rfl⟩ }
  have hle := Caption.length_le_of_shown (h c)
  rw [Caption.lines, hlines] at hle
  exact absurd hle (by decide)

end VehicleTerminal.Gdi
