import VehicleTerminal.Gdi.Area

/-! Moving a rectangle of pixels on the screen. The rows are visited in an order in which none is
overwritten before it is read; a move within the same rows is left out. -/
namespace VehicleTerminal.Gdi
open ByteLoop Painting

section Model

/-- One pixel of `CopyArea`. -/
def copyPixel (x1 y1 x2 y2 : UInt8) (s : ScrBuf) : ScrBuf :=
  lcdSetPixel x2 y2 (lcdGetPixel x1 y1 s) s

def copyArea (rounds : ℕ) (x1 y1 width height x2 y2 : UInt8) (s : ScrBuf) : Option ScrBuf :=
  if y2 < y1 then
    forByte height (fun j => forByte width (fun i s =>
      some (copyPixel (x1 + i) (y1 + j) (x2 + i) (y2 + j) s)) rounds 0) rounds 0 s
  else if y2 > y1 then
    forByte height (fun j => forByte width (fun i s =>
      some (copyPixel (x1 + i) (y1 + (height - j)) (x2 + i) (y2 + (height - j)) s)) rounds 0)
      rounds 0 s
  else some s

end Model

/-- Whether the pixel at these coordinates is set; none is set outside the screen. -/
def shown (s : ScrBuf) (x y : ℕ) : Bool :=
  if h : x < scrWidth ∧ y < scrHeight then pixel s (⟨x, h.1⟩, ⟨y, h.2⟩) else false

/-- Two rectangles of one size inside the screen. -/
structure CopyArgs where
  x1 : UInt8
  y1 : UInt8
  width : UInt8
  height : UInt8
  x2 : UInt8
  y2 : UInt8
  source_columns : x1.toNat + width.toNat < scrWidth
  source_rows : y1.toNat + height.toNat < scrHeight
  columns : x2.toNat + width.toNat < scrWidth
  rows : y2.toNat + height.toNat < scrHeight

namespace CopyArgs

variable (args : CopyArgs)

def destination : Set Pixel :=
  rectangle args.x2.toNat args.y2.toNat (args.x2.toNat + args.width.toNat)
    (args.y2.toNat + args.height.toNat)

/-- What the source shows for a pixel of the destination. -/
def source (s : ScrBuf) (p : Pixel) : Bool :=
  shown s (p.1.val + args.x1.toNat - args.x2.toNat) (p.2.val + args.y1.toNat - args.y2.toNat)

end CopyArgs

/-- Every pixel of the destination shows what its source has shown before the call. -/
def Copies (args : CopyArgs) (s : ScrBuf) : Prop :=
  EndsPainting
    (fun rounds => copyArea rounds args.x1 args.y1 args.width args.height args.x2 args.y2)
    args.destination (fun p _ => args.source s p) s

theorem shown_eq {s : ScrBuf} {x y : ℕ} {p : Pixel} (h : p ∈ pixelsAt x y) :
    shown s x y = pixel s p := by
  obtain ⟨rfl, rfl⟩ := mem_pixelsAt.mp h
  rw [shown, dif_pos ⟨p.1.isLt, p.2.isLt⟩]

/-- A byte that is read is not zero exactly if its pixel is shown. -/
theorem decide_lcdGetPixel (x y : UInt8) (s : ScrBuf) :
    decide (lcdGetPixel x y s ≠ 0) = shown s x.toNat y.toNat := by
  by_cases h : x.toNat < scrWidth ∧ y.toNat < scrHeight
  · have hp : ((⟨x.toNat, h.1⟩, ⟨y.toNat, h.2⟩) : Pixel) ∈ pixelsAt x.toNat y.toNat := ⟨rfl, rfl⟩
    rw [shown_eq hp, Bool.eq_iff_iff, decide_eq_true_iff]
    exact lcdGetPixel_ne_zero hp
  · have hzero : lcdGetPixel x y s = 0 := by
      by_cases hx : x.toNat < scrWidth
      · rw [lcdGetPixel, dif_pos hx, dif_neg fun hy => h ⟨hx, hy⟩]
      · rw [lcdGetPixel, dif_neg hx]
    rw [shown, dif_neg h, hzero]
    rfl

theorem paints_copyPixel (x1 y1 x2 y2 : UInt8) (s : ScrBuf) :
    Paints pixel (pixelsAt x2.toNat y2.toNat) (fun _ _ => shown s x1.toNat y1.toNat) s
      (copyPixel x1 y1 x2 y2 s) := by
  rw [← decide_lcdGetPixel]
  exact paints_lcdSetPixel x2 y2 (lcdGetPixel x1 y1 s) s

/-- A pixel outside what has been painted shows what it did. -/
theorem shown_outside {region : Set Pixel} {value : Pixel → Bool → Bool} {s s' : ScrBuf} {x y : ℕ}
    (h : Paints pixel region value s s') (hout : ∀ p ∈ pixelsAt x y, p ∉ region) :
    shown s' x y = shown s x y := by
  by_cases hscreen : x < scrWidth ∧ y < scrHeight
  · rw [shown, shown, dif_pos hscreen, dif_pos hscreen]
    exact h.outside _ (hout _ ⟨rfl, rfl⟩)
  · rw [shown, shown, dif_neg hscreen, dif_neg hscreen]

section Rows

variable (args : CopyArgs)

/-- A row of the destination. -/
def copiedRow (r : ℕ) : Set Pixel :=
  rectangle args.x2.toNat (args.y2.toNat + r) (args.x2.toNat + args.width.toNat)
    (args.y2.toNat + r)

theorem before_copiedRow (r : ℕ) :
    before (fun i => pixelsAt (args.x2.toNat + i) (args.y2.toNat + r)) 0 (args.width.toNat + 1) =
      copiedRow args r :=
  before_row args.x2.toNat (args.y2.toNat + r) (Nat.succ_pos args.width.toNat)

/-- The order in which the rows are visited: the `j`-th is the row `order j`, and none of the rows
visited so far is the source of a later one. -/
structure RowOrder (order : ℕ → ℕ) : Prop where
  le : ∀ j, j ≤ args.height.toNat → order j ≤ args.height.toNat
  onto : ∀ r, r ≤ args.height.toNat → ∃ j, j ≤ args.height.toNat ∧ order j = r
  unread : ∀ i j, i ≤ j → j ≤ args.height.toNat →
    args.y1.toNat + order j ≠ args.y2.toNat + order i

variable {args} {order : ℕ → ℕ}

theorem before_rows (horder : RowOrder args order) :
    before (fun j => copiedRow args (order j)) 0 (args.height.toNat + 1) = args.destination := by
  ext p
  simp only [before, copiedRow, CopyArgs.destination, Set.mem_ofPred_eq, mem_rectangle]
  constructor
  · rintro ⟨j, -, hj, hx, hy⟩
    have hle := horder.le j (by omega)
    exact ⟨hx, by omega⟩
  · rintro ⟨hx, hlo, hhi⟩
    obtain ⟨j, hj, hr⟩ := horder.onto (p.2.val - args.y2.toNat) (by omega)
    exact ⟨j, by omega, by omega, hx, by omega⟩

theorem toNat_add_of_lt {a b : UInt8} (h : a.toNat + b.toNat < 256) :
    (a + b).toNat = a.toNat + b.toNat := by
  rw [UInt8.toNat_add]
  omega

/-- The rows before the `j`-th, and in it the pixels before the `m`-th column. -/
def painted (args : CopyArgs) (order : ℕ → ℕ) (j m : ℕ) : Set Pixel :=
  before (fun j => copiedRow args (order j)) 0 j ∪
    before (fun i => pixelsAt (args.x2.toNat + i) (args.y2.toNat + order j)) 0 m

/-- One pixel: its source has not been painted yet. -/
theorem copyPixel_paints (horder : RowOrder args order) {j : ℕ} (hj : j ≤ args.height.toNat)
    {i y1 y2 : UInt8} (hi : i ≤ args.width) (hy1 : y1.toNat = args.y1.toNat + order j)
    (hy2 : y2.toNat = args.y2.toNat + order j) {s u : ScrBuf}
    (h : Paints pixel (painted args order j i.toNat) (fun p _ => args.source s p) s u) :
    Paints pixel (painted args order j (i.toNat + 1)) (fun p _ => args.source s p) s
      (copyPixel (args.x1 + i) y1 (args.x2 + i) y2 u) := by
  have hsource := args.source_columns
  have hcolumns := args.columns
  unfold scrWidth at hsource hcolumns
  rw [UInt8.le_iff_toNat_le] at hi
  have hx1 : (args.x1 + i).toNat = args.x1.toNat + i.toNat := toNat_add_of_lt (by omega)
  have hx2 : (args.x2 + i).toNat = args.x2.toNat + i.toNat := toNat_add_of_lt (by omega)
  have hunread : shown u (args.x1 + i).toNat y1.toNat = shown s (args.x1 + i).toNat y1.toNat := by
    refine shown_outside h fun p hp => ?_
    obtain ⟨-, hrow⟩ := mem_pixelsAt.mp hp
    rw [hy1] at hrow
    rintro (⟨k, -, hk, hpk⟩ | ⟨k, -, hk, hpk⟩)
    · have hfree := horder.unread k j hk.le hj
      simp only [copiedRow, mem_rectangle] at hpk
      omega
    · have hfree := horder.unread j j le_rfl hj
      rw [mem_pixelsAt] at hpk
      omega
  have hnext := h.extend (paints_copyPixel (args.x1 + i) y1 (args.x2 + i) y2 u) (by
    intro p hp
    obtain ⟨hpx, hpy⟩ := mem_pixelsAt.mp hp
    rw [hunread, CopyArgs.source, hpx, hpy, hx1, hx2, hy1, hy2]
    congr 1 <;> omega)
  refine hnext.of_region_eq ?_
  rw [painted, painted, before_succ _ (Nat.zero_le _), Set.union_assoc, hx2, hy2]

/-- One row of the destination. -/
theorem copyRow_paints (horder : RowOrder args order) {rounds j : ℕ} (hrounds : 257 ≤ rounds)
    (hj : j ≤ args.height.toNat) {y1 y2 : UInt8} (hy1 : y1.toNat = args.y1.toNat + order j)
    (hy2 : y2.toNat = args.y2.toNat + order j) {s t : ScrBuf}
    (h : Paints pixel (before (fun j => copiedRow args (order j)) 0 j)
      (fun p _ => args.source s p) s t) :
    ∃ t', forByte args.width (fun i s =>
        some (copyPixel (args.x1 + i) y1 (args.x2 + i) y2 s)) rounds 0 t = some t' ∧
      Paints pixel (before (fun j => copiedRow args (order j)) 0 (j + 1))
        (fun p _ => args.source s p) s t' := by
  have hwidth : args.width.toNat < 255 := by
    have hcolumns := args.columns
    unfold scrWidth at hcolumns
    omega
  have hzero : (0 : UInt8).toNat = 0 := rfl
  have henough : args.width.toNat + 2 ≤ rounds + (0 : UInt8).toNat := by omega
  have hstart : Paints pixel (painted args order j (0 : UInt8).toNat)
      (fun p _ => args.source s p) s t := by
    rw [painted, hzero, before_self, Set.union_empty]
    exact h
  obtain ⟨t', ht', hpaints⟩ := forByte_invariant
    (fun m u => Paints pixel (painted args order j m) (fun p _ => args.source s p) s u) hwidth
    (Nat.zero_le _) henough hstart
    (fun i u _ hi hu => ⟨_, rfl, copyPixel_paints horder hj hi hy1 hy2 hu⟩)
  refine ⟨t', ht', ?_⟩
  rw [painted, before_copiedRow] at hpaints
  rwa [before_succ _ (Nat.zero_le j)]

/-- All rows, in an order that reads every row before it is painted. -/
theorem copyRows_paints (horder : RowOrder args order) (row : UInt8 → UInt8)
    (hrow : ∀ j, j ≤ args.height → (row j).toNat = order j.toNat) (s : ScrBuf) :
    EndsPainting (fun rounds => forByte args.height (fun j => forByte args.width (fun i s =>
      some (copyPixel (args.x1 + i) (args.y1 + row j) (args.x2 + i) (args.y2 + row j) s))
      rounds 0) rounds 0) args.destination (fun p _ => args.source s p) s := by
  refine ⟨257, fun rounds hrounds => ?_⟩
  have hsource := args.source_rows
  have hrows := args.rows
  unfold scrHeight at hsource hrows
  have hheight : args.height.toNat < 255 := by omega
  have hzero : (0 : UInt8).toNat = 0 := rfl
  have henough : args.height.toNat + 2 ≤ rounds + (0 : UInt8).toNat := by omega
  have hstart : Paints pixel (before (fun j => copiedRow args (order j)) 0 (0 : UInt8).toNat)
      (fun p _ => args.source s p) s s := by
    rw [hzero, before_self]
    exact .refl _ s
  obtain ⟨s', hs', hpaints⟩ := forByte_invariant
    (fun j u => Paints pixel (before (fun j => copiedRow args (order j)) 0 j)
      (fun p _ => args.source s p) s u) hheight (Nat.zero_le _) henough hstart (by
    intro j u _ hj hu
    have hle := UInt8.le_iff_toNat_le.mp hj
    have horderj := horder.le j.toNat hle
    have hy1 : (args.y1 + row j).toNat = args.y1.toNat + order j.toNat := by
      rw [toNat_add_of_lt (by rw [hrow j hj]; omega), hrow j hj]
    have hy2 : (args.y2 + row j).toNat = args.y2.toNat + order j.toNat := by
      rw [toNat_add_of_lt (by rw [hrow j hj]; omega), hrow j hj]
    exact copyRow_paints horder hrounds hle hy1 hy2 hu)
  exact ⟨s', hs', hpaints.of_region_eq (before_rows horder)⟩

end Rows

section Directions

variable {args : CopyArgs}

/-- A move up reads the rows from the first on. -/
theorem rowOrder_up (h : args.y2.toNat < args.y1.toNat) : RowOrder args fun j => j where
  le _ hj := hj
  onto r hr := ⟨r, hr, rfl⟩
  unread i j hij _ := by omega

/-- A move down reads them from the last on. -/
theorem rowOrder_down (h : args.y1.toNat < args.y2.toNat) :
    RowOrder args fun j => args.height.toNat - j where
  le _ _ := Nat.sub_le _ _
  onto r hr := ⟨args.height.toNat - r, Nat.sub_le _ _, Nat.sub_sub_self hr⟩
  unread i j hij hj := by omega

theorem copies_of_ne (h : args.y1 ≠ args.y2) (s : ScrBuf) : Copies args s := by
  have hne : args.y1.toNat ≠ args.y2.toNat := fun heq => h (UInt8.toNat_inj.mp heq)
  rcases Nat.lt_or_gt_of_ne hne with hdown | hup
  · have hnot : ¬ args.y2 < args.y1 := by
      rw [UInt8.lt_iff_toNat_lt]
      omega
    have hlt : args.y2 > args.y1 := UInt8.lt_iff_toNat_lt.mpr hdown
    have hrows := copyRows_paints (rowOrder_down hdown) (fun j => args.height - j)
      (fun j hj => UInt8.toNat_sub_of_le _ _ hj) s
    simpa only [Copies, EndsPainting, copyArea, hnot, hlt, if_true, if_false] using hrows
  · have hlt : args.y2 < args.y1 := UInt8.lt_iff_toNat_lt.mpr hup
    have hrows := copyRows_paints (rowOrder_up hup) (fun j => j) (fun _ _ => rfl) s
    simpa only [Copies, EndsPainting, copyArea, hlt, if_true] using hrows

/-- Within the same rows nothing is moved. -/
theorem copies_of_eq (args : CopyArgs) (h : args.y1 = args.y2) (s : ScrBuf) :
    Copies args s ↔ ∀ p ∈ args.destination, pixel s p = args.source s p := by
  have hnot : ¬ args.y2 < args.y1 ∧ ¬ args.y2 > args.y1 := by
    rw [h]
    exact ⟨UInt8.lt_irrefl _, UInt8.lt_irrefl _⟩
  simp only [Copies, EndsPainting, copyArea, hnot.1, hnot.2, if_false, Option.some.injEq]
  constructor
  · rintro ⟨enough, hend⟩ p hp
    obtain ⟨s', rfl, hpaints⟩ := hend enough le_rfl
    exact hpaints.inside p hp
  · intro hsame
    exact ⟨0, fun _ _ => ⟨s, rfl, hsame, fun _ _ => rfl⟩⟩

/-- The copy is right unless it is a move within the same rows that would change something. -/
theorem copies_iff (args : CopyArgs) (s : ScrBuf) : Copies args s ↔
    args.y1 ≠ args.y2 ∨ ∀ p ∈ args.destination, pixel s p = args.source s p := by
  by_cases h : args.y1 = args.y2
  · rw [copies_of_eq args h]
    simp [h]
  · exact iff_of_true (copies_of_ne h s) (.inl h)

end Directions

/-- One pixel of the first row, moved to the right. -/
def moveRight : CopyArgs := ⟨0, 0, 0, 0, 1, 0, by decide, by decide, by decide, by decide⟩

/-- A pixel that is set is not moved to the right. -/
theorem not_copies_moveRight : ¬ ∀ args s, Copies args s := by
  intro h
  have hinside : ((⟨1, by decide⟩, ⟨0, by decide⟩) : Pixel) ∈ moveRight.destination := by
    rw [CopyArgs.destination, mem_rectangle]
    decide
  have hsame := (copies_of_eq moveRight rfl (lcdSetPixel 0 0 1 fun _ _ => 0)).mp (h _ _)
    _ hinside
  exact absurd hsame (by decide)

end VehicleTerminal.Gdi
