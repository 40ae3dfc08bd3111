import VehicleTerminal.Gdi.Glyph
import VehicleTerminal.Library.CString
import VehicleTerminal.Library.MixedText

/-! Texts on the screen, page by page. A text is given by the memory from its first character on;
a read behind this memory has no result. -/
namespace VehicleTerminal.Gdi
open CString MixedText Painting

section Model

/-- A call of `DrawChar`. -/
structure Cell where
  x : UInt8
  y : UInt8
  hiByte : UInt8
  loByte : UInt8
  deriving Repr, DecidableEq

/-- The variables of `DrawStr`, the screen and the calls of `DrawChar` so far. -/
structure Page where
  scr : ScrBuf
  drawn : List Cell
  xx : UInt8
  yy : UInt8
  width : ℕ
  tmp : ℕ

/-- The next line if `w` columns do not fit into this one, and an error behind the last line. -/
def Page.wrap (w : ℕ) (page : Page) : Except Page Page :=
  if page.xx.toNat + w > 131 then
    let page := { page with xx := 0, yy := page.yy + 16, width := (page.width + 16) % 65536 }
    if page.width > 64 then .error { page with yy := 0, width := scrHeight } else .ok page
  else .ok page

/-- `DrawChar`, and the steps behind a character of `w` columns and `bytes` bytes. -/
def Page.put (fonts : Fonts) (mode hiByte loByte : UInt8) (w bytes : ℕ) (page : Page) : Page :=
  { page with
    scr := drawChar fonts page.xx page.yy hiByte loByte mode page.scr
    drawn := page.drawn ++ [⟨page.xx, page.yy, hiByte, loByte⟩]
    xx := page.xx + UInt8.ofNat w
    tmp := (page.tmp + bytes) % 65536 }

/-- The loop `while(*p)`. -/
def drawLoop (fonts : Fonts) (mode : UInt8) (length1 : ℕ) : List UInt8 → Page → Option Page
  | [], _ => none
  | b :: rest, page =>
    if b = 0 then some page
    else if b > 0x80 then
      match page.wrap 16 with
      | .error page => some page
      | .ok page =>
        match rest with
        | [] => none
        | c :: rest =>
          let page := page.put fonts mode b c 16 2
          if length1 ≤ page.tmp then some page else drawLoop fonts mode length1 rest page
    else
      match page.wrap 8 with
      | .error page => some page
      | .ok page =>
        let page := page.put fonts mode 0 b 8 1
        if length1 ≤ page.tmp then some page else drawLoop fonts mode length1 rest page

/-- What `DrawStr` leaves: the screen, the area that is sent to the display (`LcdPaintScreen`), and
the number of bytes that it returns. -/
structure Drawn where
  scr : ScrBuf
  drawn : List Cell
  paint : UInt8 × UInt8 × UInt8 × UInt8
  tmp : UInt8

/-- The end of `DrawStr`, behind its loop. -/
def finish (x y : UInt8) (length1 : ℕ) (page : Page) : Drawn :=
  let length1 := ((length1 <<< 3) % 65536 + x.toNat) % 65536
  let paint := if length1 ≥ scrWidth then (0, scrWidth) else (x, length1)
  { scr := page.scr
    drawn := page.drawn
    paint := (paint.1, y, UInt8.ofNat paint.2, UInt8.ofNat page.width)
    tmp := UInt8.ofNat page.tmp }

def drawStr (fonts : Fonts) (x y mode : UInt8) (length : UInt16) (mem : List UInt8)
    (s : ScrBuf) : Option Drawn :=
  (strlen mem).bind fun n =>
    let length1 := n % 65536
    let length1 := if length.toNat < length1 then length.toNat else length1
    (drawLoop fonts mode length1 mem ⟨s, [], x, y, 16 + y.toNat, 0⟩).map (finish x y length1)

end Model

/-- The first bytes of double-byte characters. -/
def lead (b : UInt8) : Bool := b > 0x80

/-- The bytes that `DrawChar` gets for a character. -/
def charBytes : Chr lead → UInt8 × UInt8
  | .single b _ => (0, b)
  | .double b c _ => (b, c)

def Cell.bytes (c : Cell) : UInt8 × UInt8 := (c.hiByte, c.loByte)

def Cell.width (c : Cell) : ℕ := charWidth c.hiByte

def Cell.region (c : Cell) : Set Pixel :=
  rectangle c.x.toNat c.y.toNat (c.x.toNat + c.width - 1) (c.y.toNat + 15)

def Cell.Inside (c : Cell) : Prop :=
  c.x.toNat + c.width ≤ scrWidth ∧ c.y.toNat + 16 ≤ scrHeight

/-- Whether the character of a cell has this pixel. -/
def Cell.glyph (fonts : Fonts) (mode : UInt8) (c : Cell) (p : Pixel) : Bool :=
  Gdi.glyph c.width (dispBuffer fonts c.hiByte c.loByte) mode (p.2.val - c.y.toNat)
    (p.1.val - c.x.toNat)

/-- The characters have been drawn, each once and in their order, in cells of their own, and the
screen `s` has changed to `s'` by that alone. -/
structure Shows (fonts : Fonts) (mode : UInt8) (s : ScrBuf) (group : List (Chr lead))
    (drawn : List Cell) (tmp : ℕ) (s' : ScrBuf) : Prop where
  characters : drawn.map Cell.bytes = group.map charBytes
  consumed : tmp = (encode group).length
  inside : ∀ c ∈ drawn, c.Inside
  apart : drawn.Pairwise fun c d => Disjoint c.region d.region
  shown : ∀ c ∈ drawn, ∀ p ∈ c.region, pixel s' p = c.glyph fonts mode p
  untouched : ∀ p, (∀ c ∈ drawn, p ∉ c.region) → pixel s' p = pixel s p

/-- A cell lies on a line above the cursor or to its left. -/
def Cell.Before (c : Cell) (xx yy : ℕ) : Prop :=
  c.y.toNat + 16 ≤ yy ∨ c.y.toNat = yy ∧ c.x.toNat + c.width ≤ xx

/-- The cursor of a page. A byte takes eight columns, so a page has no more bytes than its lines
have room for. -/
structure Page.Cursor (page : Page) : Prop where
  width : page.width = 16 + page.yy.toNat
  row : page.yy.toNat ≤ 48
  column : page.xx.toNat ≤ 131
  room : 32 * page.tmp ≤ 33 * page.yy.toNat + 4 * page.xx.toNat
  before : ∀ c ∈ page.drawn, c.Before page.xx.toNat page.yy.toNat

section Steps

variable {fonts : Fonts} {mode : UInt8} {s : ScrBuf} {done : List (Chr lead)} {page : Page}

theorem Page.Cursor.tmp_lt (h : page.Cursor) : page.tmp < 256 := by
  have hrow := h.row
  have hcolumn := h.column
  have hroom := h.room
  omega

theorem wrap_of_fits {w : ℕ} (h : page.xx.toNat + w ≤ 131) : page.wrap w = .ok page :=
  if_neg (by omega)

/-- A wrap moves the cursor only. -/
theorem wrap_cases (h : page.Cursor) {w : ℕ} (hw : w ≤ 16) :
    (∃ page', page.wrap w = .error page' ∧ page'.scr = page.scr ∧ page'.drawn = page.drawn ∧
      page'.tmp = page.tmp) ∨
    ∃ page', page.wrap w = .ok page' ∧ page'.scr = page.scr ∧ page'.drawn = page.drawn ∧
      page'.tmp = page.tmp ∧ page'.Cursor ∧ page'.xx.toNat + w ≤ 131 := by
  have hrow := h.row
  have hcolumn := h.column
  have hroom := h.room
  have hwidth := h.width
  by_cases hfits : page.xx.toNat + w ≤ 131
  · exact .inr ⟨page, wrap_of_fits hfits, rfl, rfl, rfl, h, hfits⟩
  rw [Page.wrap, if_pos (by omega)]
  by_cases hlast : (page.width + 16) % 65536 > 64
  · exact .inl ⟨_, if_pos hlast, rfl, rfl, rfl⟩
  · refine .inr ⟨_, if_neg hlast, rfl, rfl, rfl, ?_, ?_⟩
    · have hnext : (page.yy + 16).toNat = page.yy.toNat + 16 := toNat_add_ofNat (n := 16) (by omega)
      refine ⟨?_, ?_, Nat.zero_le _, ?_, fun c hc => .inl ?_⟩
      · simp only [hnext]
        omega
      · simp only [hnext]
        omega
      · simp only [hnext, UInt8.toNat_zero]
        omega
      · rw [hnext]
        rcases h.before c hc with habove | ⟨hline, -⟩ <;> omega
    · simp only [UInt8.toNat_zero]
      omega

/-- The cells before the cursor and the one at the cursor share no pixel. -/
theorem Cell.Before.disjoint {c d : Cell} (h : c.Before d.x.toNat d.y.toNat) :
    Disjoint c.region d.region := by
  have hc := charWidth_pos c.hiByte
  change 0 < c.width at hc
  refine rectangle_disjoint ?_
  rcases h with habove | ⟨hline, hleft⟩ <;> omega

theorem Cell.Inside.paints {c : Cell} (h : c.Inside) (fonts : Fonts) (mode : UInt8)
    (s : ScrBuf) : Paints pixel c.region (fun p _ => c.glyph fonts mode p) s
      (drawChar fonts c.x c.y c.hiByte c.loByte mode s) :=
  drawBuffer_paints (charWidth_pos c.hiByte) h.1 h.2 s

theorem Shows.refl (fonts : Fonts) (mode : UInt8) (s : ScrBuf) : Shows fonts mode s [] [] 0 s where
  characters := rfl
  consumed := rfl
  inside := fun _ hc => absurd hc List.not_mem_nil
  apart := .nil
  shown := fun _ hc => absurd hc List.not_mem_nil
  untouched := fun _ _ => rfl

/-- One character more, in a cell that is apart from the others. -/
theorem Shows.snoc {group : List (Chr lead)} {drawn : List Cell} {tmp : ℕ} {s' s'' : ScrBuf}
    (h : Shows fonts mode s group drawn tmp s') {c : Chr lead} {d : Cell}
    (hbytes : d.bytes = charBytes c) (hinside : d.Inside)
    (hapart : ∀ c ∈ drawn, Disjoint c.region d.region)
    (hpaints : Paints pixel d.region (fun p _ => d.glyph fonts mode p) s' s'') :
    Shows fonts mode s (group ++ [c]) (drawn ++ [d]) (tmp + c.bytes.length) s'' where
  characters := by
    rw [List.map_append, List.map_append, h.characters, List.map_singleton, List.map_singleton,
      hbytes]
  consumed := by
    rw [h.consumed, encode_append, List.length_append, encode_cons, encode_nil, List.append_nil]
  inside := by
    intro e he
    rcases List.mem_append.mp he with he | he
    · exact h.inside e he
    · rw [List.mem_singleton.mp he]
      exact hinside
  apart := by
    refine List.pairwise_append.mpr ⟨h.apart, List.pairwise_singleton _ _, fun e he e' he' => ?_⟩
    rw [List.mem_singleton.mp he']
    exact hapart e he
  shown := by
    intro e he p hp
    rcases List.mem_append.mp he with he | he
    · rw [hpaints.outside p (Set.disjoint_left.mp (hapart e he) hp), h.shown e he p hp]
    · obtain rfl := List.mem_singleton.mp he
      exact hpaints.inside p hp
  untouched := by
    intro p hp
    have hold : ∀ e ∈ drawn, p ∉ e.region := fun e he => hp e (List.mem_append_left _ he)
    have hnew : p ∉ d.region := hp d (List.mem_append_right _ (List.mem_singleton_self d))
    rw [hpaints.outside p hnew, h.untouched p hold]

theorem charWidth_eq (c : Chr lead) : charWidth (charBytes c).1 = 8 * c.bytes.length := by
  cases c with
  | single b h => rfl
  | double b c h =>
    have hne : b ≠ 0 := by
      rintro rfl
      revert h
      decide
    exact if_neg hne

/-- A character that fits into its line. -/
theorem Page.Cursor.put (hcursor : page.Cursor) (c : Chr lead)
    (hfits : page.xx.toNat + charWidth (charBytes c).1 ≤ 131)
    (hshows : Shows fonts mode s done page.drawn page.tmp page.scr) :
    let page' := page.put fonts mode (charBytes c).1 (charBytes c).2
      (charWidth (charBytes c).1) c.bytes.length
    page'.Cursor ∧ Shows fonts mode s (done ++ [c]) page'.drawn page'.tmp page'.scr := by
  intro page'
  have hrow := hcursor.row
  have hroom := hcursor.room
  have hbytes := c.bytes_length_le
  have hwidth := charWidth_eq c
  let d : Cell := ⟨page.xx, page.yy, (charBytes c).1, (charBytes c).2⟩
  have hinside : d.Inside := ⟨hfits.trans (by decide), Nat.add_le_add_right hrow 16⟩
  have hdisjoint : ∀ e ∈ page.drawn, Disjoint e.region d.region :=
    fun e he => (hcursor.before e he).disjoint
  have hnext : page'.xx.toNat = page.xx.toNat + charWidth (charBytes c).1 :=
    toNat_add_ofNat (by omega)
  have htmp : page'.tmp = page.tmp + c.bytes.length := by
    have hlt := hcursor.tmp_lt
    exact Nat.mod_eq_of_lt (by omega)
  constructor
  · refine ⟨hcursor.width, hrow, ?_, ?_, ?_⟩
    · rw [hnext]
      exact hfits
    · rw [hnext, htmp, hwidth]
      have hyy : page'.yy = page.yy := rfl
      rw [hyy]
      omega
    · intro e he
      rw [hnext]
      rcases List.mem_append.mp he with he | he
      · rcases hcursor.before e he with habove | ⟨hline, hleft⟩
        · exact .inl habove
        · exact .inr ⟨hline, by omega⟩
      · obtain rfl := List.mem_singleton.mp he
        exact .inr ⟨rfl, le_rfl⟩
  · rw [htmp]
    exact hshows.snoc rfl hinside hdisjoint (hinside.paints fonts mode page.scr)

end Steps

section Loop

variable {fonts : Fonts} {mode : UInt8} {s : ScrBuf} {length1 : ℕ}

/-- One round, on a character of either kind. -/
theorem drawLoop_cons (c : Chr lead) (hnul : 0 ∉ c.bytes) (behind : List UInt8) (page : Page) :
    drawLoop fonts mode length1 (c.bytes ++ behind) page =
      match page.wrap (charWidth (charBytes c).1) with
      | .error page => some page
      | .ok page =>
        let page := page.put fonts mode (charBytes c).1 (charBytes c).2
          (charWidth (charBytes c).1) c.bytes.length
        if length1 ≤ page.tmp then some page else drawLoop fonts mode length1 behind page := by
  have hwidth := charWidth_eq c
  cases c with
  | single b h =>
    have hb : b ≠ 0 := fun hb => hnul (hb ▸ List.mem_singleton_self b)
    have hsingle : ¬ b > 0x80 := of_decide_eq_false h
    rw [hwidth]
    simp only [Chr.bytes, List.singleton_append, List.length_singleton, charBytes]
    rw [drawLoop, if_neg hb, if_neg hsingle]
    rfl
  | double b c h =>
    have hb : b ≠ 0 := fun hb => hnul (hb ▸ List.mem_cons_self)
    have hdouble : b > 0x80 := of_decide_eq_true h
    rw [hwidth]
    simp only [Chr.bytes, List.cons_append, List.nil_append, charBytes]
    rw [drawLoop, if_neg hb, if_pos hdouble]
    rfl

/-- A round ends the page, with a character that does not fit, or draws the character. -/
theorem drawLoop_step (length1 : ℕ) {c : Chr lead} (hnul : 0 ∉ c.bytes) (behind : List UInt8)
    {done : List (Chr lead)} {page : Page} (hcursor : page.Cursor)
    (hshows : Shows fonts mode s done page.drawn page.tmp page.scr) :
    (∃ page', drawLoop fonts mode length1 (c.bytes ++ behind) page = some page' ∧
      Shows fonts mode s done page'.drawn page'.tmp page'.scr ∧ page'.tmp < 256 ∧
      ¬ page.xx.toNat + 16 ≤ 131) ∨
    ∃ page', drawLoop fonts mode length1 (c.bytes ++ behind) page =
        (if length1 ≤ page'.tmp then some page' else drawLoop fonts mode length1 behind page') ∧
      Shows fonts mode s (done ++ [c]) page'.drawn page'.tmp page'.scr ∧ page'.Cursor ∧
      page'.tmp = page.tmp + c.bytes.length := by
  have hwidth : charWidth (charBytes c).1 ≤ 16 := by
    have hbytes := c.bytes_length_le
    have heq := charWidth_eq c
    omega
  rw [drawLoop_cons c hnul]
  rcases wrap_cases hcursor hwidth with ⟨page', hwrap, hscr, hdrawn, htmp⟩ |
    ⟨page', hwrap, hscr, hdrawn, htmp, hcursor', hfits⟩
  · refine .inl ⟨page', by rw [hwrap], ?_, htmp ▸ hcursor.tmp_lt, fun hfirst => ?_⟩
    · rw [hscr, hdrawn, htmp]
      exact hshows
    · rw [wrap_of_fits (by omega)] at hwrap
      cases hwrap
  · rw [← hscr, ← hdrawn, ← htmp] at hshows
    obtain ⟨hcursor'', hshows'⟩ := hcursor'.put c hfits hshows
    refine .inr ⟨_, by rw [hwrap], hshows', hcursor'', ?_⟩
    rw [hshows'.consumed, encode_append, List.length_append, encode_cons, encode_nil,
      List.append_nil, ← hshows.consumed, htmp]

/-- The loop draws the characters of a front part of the text, at least one if the first fits. -/
theorem drawLoop_shows (cs : List (Chr lead)) (behind : List UInt8) (hnul : 0 ∉ encode cs) :
    ∀ {done : List (Chr lead)} {page : Page}, page.Cursor →
      Shows fonts mode s done page.drawn page.tmp page.scr →
      page.tmp + (encode cs).length ≤ length1 →
      ∃ group rest page', cs = group ++ rest ∧
        drawLoop fonts mode length1 (encode cs ++ 0 :: behind) page = some page' ∧
        Shows fonts mode s (done ++ group) page'.drawn page'.tmp page'.scr ∧ page'.tmp < 256 ∧
        (page.xx.toNat + 16 ≤ 131 → cs ≠ [] → group ≠ []) := by
  induction cs with
  | nil =>
    intro done page hcursor hshows _
    have hend : drawLoop fonts mode length1 (encode ([] : List (Chr lead)) ++ 0 :: behind) page =
        some page := by
      rw [encode_nil, List.nil_append, drawLoop, if_pos rfl]
    refine ⟨[], [], page, rfl, hend, ?_, hcursor.tmp_lt, fun _ h => h⟩
    rw [List.append_nil]
    exact hshows
  | cons c cs ih =>
    intro done page hcursor hshows hlength
    rw [encode_cons, List.mem_append, not_or] at hnul
    rw [encode_cons, List.append_assoc]
    rw [encode_cons, List.length_append] at hlength
    rcases drawLoop_step length1 hnul.1 (encode cs ++ 0 :: behind) hcursor hshows with
      ⟨page', hloop, hshows', hlt, hfull⟩ | ⟨page', hloop, hshows', hcursor', hconsumed⟩
    · refine ⟨[], c :: cs, page', rfl, hloop, ?_, hlt, fun hfirst => absurd hfirst hfull⟩
      rw [List.append_nil]
      exact hshows'
    · rw [hloop]
      by_cases hlast : length1 ≤ page'.tmp
      · -- nothing is left when the count reaches the length
        have hnone : cs = [] := by
          by_contra hcs
          have hpos := encode_length_pos hcs
          omega
        rw [if_pos hlast, hnone]
        exact ⟨[c], [], page', rfl, rfl, hshows', hcursor'.tmp_lt, fun _ _ h => by cases h⟩
      · rw [if_neg hlast]
        obtain ⟨group, rest, final, hcs, hrest, hfinal, hlt, -⟩ :=
          ih hnul.2 hcursor' hshows' (by omega)
        refine ⟨c :: group, rest, final, by rw [hcs, List.cons_append], hrest, ?_, hlt,
          fun _ _ h => by cases h⟩
        rw [List.append_assoc] at hfinal
        exact hfinal

end Loop

section Paging

/-- What a caller chooses for a page: where it starts, what is on the screen and what is passed as
the length. -/
structure PageCall where
  scr : ScrBuf
  x : UInt8
  y : UInt8
  mode : UInt8
  length : UInt16
  column : x.toNat ≤ 115
  row : y.toNat ≤ 48

/-- The choices for all pages, by the number of the page and the text that is left. The length is
never below that of the text. -/
structure Caller where
  calls : ℕ → List UInt8 → PageCall
  length_le : ∀ k mem n, strlen mem = some n → n < 65536 → n ≤ (calls k mem).length.toNat

/-- The caller that starts each page in the corner and passes the length of what is left. -/
instance : Inhabited Caller where
  default :=
    { calls := fun _ mem => ⟨fun _ _ => 0, 0, 0, 0, UInt16.ofNat ((strlen mem).getD 0),
        by decide, by decide⟩
      length_le := by
        intro k mem n hn hlt
        rw [hn, Option.getD_some, UInt16.toNat_ofNat', Nat.mod_eq_of_lt hlt] }

/-- `DrawStr` is called again behind the bytes that it returned, until the text is at its end. -/
def showPages (fonts : Fonts) (calls : ℕ → List UInt8 → PageCall) :
    ℕ → ℕ → List UInt8 → Option (List (PageCall × Drawn))
  | 0, _, _ => none
  | rounds + 1, k, mem =>
    if mem.head? = some 0 then some []
    else
      let call := calls k mem
      (drawStr fonts call.x call.y call.mode call.length mem call.scr).bind fun drawn =>
        (showPages fonts calls rounds (k + 1) (mem.drop drawn.tmp.toNat)).map ((call, drawn) :: ·)

/-- A text in memory: whole characters, none of them the terminator, then this and anything. -/
structure StoredText where
  chars : List (Chr lead)
  behind : List UInt8
  terminated : 0 ∉ encode chars
  short : (encode chars).length < 65536

def StoredText.mem (text : StoredText) : List UInt8 := encode text.chars ++ 0 :: text.behind

/-- A page shows some characters, and there is at least one. -/
def PageShows (fonts : Fonts) (page : PageCall × Drawn) (group : List (Chr lead)) : Prop :=
  group ≠ [] ∧ Shows fonts page.1.mode page.1.scr group page.2.drawn page.2.tmp.toNat page.2.scr

theorem drawStr_shows (fonts : Fonts) (call : PageCall) {cs : List (Chr lead)} (hne : cs ≠ [])
    (hnul : 0 ∉ encode cs) (behind : List UInt8)
    (hlength : (encode cs).length ≤ call.length.toNat) :
    ∃ group rest drawn, cs = group ++ rest ∧
      drawStr fonts call.x call.y call.mode call.length (encode cs ++ 0 :: behind) call.scr =
        some drawn ∧ PageShows fonts (call, drawn) group := by
  have hcolumn := call.column
  have hrow := call.row
  have hlt := call.length.toNat_lt
  have hmod : (encode cs).length % 65536 = (encode cs).length := Nat.mod_eq_of_lt (by omega)
  have hcursor : Page.Cursor ⟨call.scr, [], call.x, call.y, 16 + call.y.toNat, 0⟩ :=
    ⟨rfl, hrow, hcolumn.trans (by decide), Nat.zero_le _, fun _ h => absurd h List.not_mem_nil⟩
  obtain ⟨group, rest, page, hcs, hloop, hshows, hsmall, hsome⟩ :=
    drawLoop_shows cs behind hnul hcursor (Shows.refl fonts call.mode call.scr)
      (Nat.zero_add (encode cs).length).le
  have htmp : (UInt8.ofNat page.tmp).toNat = page.tmp := by
    rw [UInt8.toNat_ofNat', Nat.mod_eq_of_lt hsmall]
  refine ⟨group, rest, finish call.x call.y (encode cs).length page, hcs, ?_,
    hsome (Nat.add_le_add_right hcolumn 16) hne, ?_⟩
  · rw [drawStr, strlen_of_terminated behind hnul, Option.bind_some]
    simp only [hmod, if_neg (not_lt.mpr hlength)]
    rw [hloop, Option.map_some]
  · rw [List.nil_append] at hshows
    simp only [finish, htmp]
    exact hshows

theorem head_ne_nul {cs : List (Chr lead)} (hne : cs ≠ []) (hnul : 0 ∉ encode cs)
    (behind : List UInt8) : (encode cs ++ behind).head? ≠ some 0 := by
  obtain ⟨b, bytes, hbytes⟩ :=
    List.exists_cons_of_ne_nil (List.ne_nil_of_length_pos (encode_length_pos hne))
  rw [hbytes] at hnul ⊢
  intro hb
  exact hnul (Option.some.inj hb ▸ List.mem_cons_self)

/-- The pages from some number on. -/
theorem showPages_shows (fonts : Fonts) (caller : Caller) (behind : List UInt8) :
    ∀ (cs : List (Chr lead)) (k : ℕ), 0 ∉ encode cs → (encode cs).length < 65536 →
      ∃ pages groups, (∀ rounds > cs.length,
          showPages fonts caller.calls rounds k (encode cs ++ 0 :: behind) = some pages) ∧
        groups.flatten = cs ∧ List.Forall₂ (PageShows fonts) pages groups := by
  intro cs
  induction hn : cs.length using Nat.strong_induction_on generalizing cs with
  | _ n ih =>
    intro k hnul hshort
    by_cases hne : cs = []
    · subst hne
      refine ⟨[], [], fun rounds hrounds => ?_, rfl, .nil⟩
      obtain ⟨rounds, rfl⟩ := Nat.exists_eq_succ_of_ne_zero (Nat.ne_zero_of_lt hrounds)
      rw [encode_nil, List.nil_append, showPages, if_pos List.head?_cons]
    · have hstrlen := strlen_of_terminated behind hnul
      obtain ⟨group, rest, drawn, rfl, hdraw, hshows⟩ :=
        drawStr_shows fonts (caller.calls k (encode cs ++ 0 :: behind)) hne hnul behind
          (caller.length_le k _ _ hstrlen hshort)
      have hgroup := List.length_pos_iff.mpr hshows.1
      rw [List.length_append] at hn
      have hdrop : (encode (group ++ rest) ++ 0 :: behind).drop drawn.tmp.toNat =
          encode rest ++ 0 :: behind := by
        rw [encode_append, List.append_assoc]
        exact List.drop_left' hshows.2.consumed.symm
      obtain ⟨pages, groups, hpages, hflatten, hall⟩ := ih rest.length (by omega) rest rfl (k + 1)
        (fun h => hnul (by rw [encode_append]; exact List.mem_append_right _ h))
        (by rw [encode_append, List.length_append] at hshort; omega)
      refine ⟨_ :: pages, group :: groups, fun rounds hrounds => ?_, ?_, .cons hshows hall⟩
      · obtain ⟨rounds, rfl⟩ := Nat.exists_eq_succ_of_ne_zero (Nat.ne_zero_of_lt hrounds)
        rw [showPages, if_neg (head_ne_nul hne hnul _)]
        simp only [hdraw, Option.bind_some, hdrop]
        rw [hpages rounds (by omega), Option.map_some]
      · rw [List.flatten_cons, hflatten]

/-- The pages show the whole text, whatever the caller chooses for each of them. -/
theorem StoredText.paged (fonts : Fonts) (caller : Caller) (text : StoredText) :
    ∃ pages groups, (∀ rounds > text.chars.length,
        showPages fonts caller.calls rounds 0 text.mem = some pages) ∧
      groups.flatten = text.chars ∧ List.Forall₂ (PageShows fonts) pages groups :=
  showPages_shows fonts caller text.behind text.chars 0 text.terminated text.short

/-- A narrow character and 32 wide ones, of which the first line leaves out its last columns. -/
def longText : StoredText where
  chars := .single 0x41 rfl :: List.replicate 32 (.double 0xB0 0xA1 rfl)
  behind := []
  terminated := by decide
  short := by decide

example : (showPages ⟨fun _ => 0, fun _ => 0⟩ (default : Caller).calls 34 0 longText.mem).map
    (List.map fun page => page.2.drawn.length) = some [32, 1] := by decide +kernel

end Paging

end VehicleTerminal.Gdi
