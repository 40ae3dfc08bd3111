import VehicleTerminal.Gdi.Glyph

/-! The pictures that `DrawPic` of `Gdi.c` draws. A byte of the bitmap holds eight pixels of a
column, one below the other, and `width` bytes in a row are a page. -/
namespace VehicleTerminal.Gdi
open Painting

section Model

/-- The colour of column `j` in row `i`. The index of the page's first byte is a byte itself. -/
def picColor (width mode : UInt8) (pucPic : ℕ → BitVec 8) (i j : UInt8) : BitVec 8 :=
  let index := i >>> 3
  let k := index <<< 3
  let index := index * width
  let k := 7 + k - i
  let data := pucPic (j.toNat + index.toNat)
  let data := if mode ≠ 0 then data ^^^ 0xff else data
  if data &&& 0x80#8 >>> k.toNat ≠ 0 then 1 else 0

def drawPic (x y width height : UInt8) (pucPic : ℕ → BitVec 8) (mode : UInt8) (s : ScrBuf) :
    ScrBuf :=
  (List.range height.toNat).foldl (fun s i =>
    (List.range width.toNat).foldl (fun s j =>
      lcdSetPixel (x + UInt8.ofNat j) (y + UInt8.ofNat i)
        (picColor width mode pucPic (UInt8.ofNat i) (UInt8.ofNat j)) s) s) s

end Model

/-- A picture and a place for it inside the screen. -/
structure Picture where
  x : UInt8
  y : UInt8
  width : UInt8
  height : UInt8
  mode : UInt8
  bitmap : ℕ → BitVec 8
  right_le : x.toNat + width.toNat ≤ scrWidth
  bottom_le : y.toNat + height.toNat ≤ scrHeight

namespace Picture

variable (pic : Picture)

/-- The bytes of the bitmap, a page for every eight rows. -/
def size : ℕ := pic.width.toNat * ((pic.height.toNat + 7) / 8)

/-- The first byte of the page of row `i`. -/
def page (i : ℕ) : ℕ := i / 8 * pic.width.toNat

/-- Whether the pixel in column `j` of row `i` is set. -/
def shows (i j : ℕ) : Bool :=
  (pic.bitmap (pic.page i + j)).getLsbD (i % 8) ^^ decide (pic.mode ≠ 0)

/-- The picture is on the screen afterwards, and all other pixels are as before. -/
def Drawn (s : ScrBuf) : Prop :=
  Paints pixel (block pic.x.toNat pic.y.toNat pic.width.toNat pic.height.toNat)
    (fun p _ => pic.shows (p.2.val - pic.y.toNat) (p.1.val - pic.x.toNat)) s
    (drawPic pic.x pic.y pic.width pic.height pic.bitmap pic.mode s)

/-- The pages that start at byte 256 or later have the same pixels as the bytes whose address is
256 lower, as often as it takes to get below 256. -/
def Repeats : Prop :=
  ∀ i < pic.height.toNat, 256 ≤ pic.page i → ∀ j < pic.width.toNat,
    (pic.bitmap (pic.page i % 256 + j)).getLsbD (i % 8) =
      (pic.bitmap (pic.page i + j)).getLsbD (i % 8)

variable {pic}

theorem height_le : pic.height.toNat ≤ 64 := by
  have hbottom := pic.bottom_le
  unfold scrHeight at hbottom
  omega

/-- The mask of row `i` is the bit of the row in its page. -/
theorem mask_eq_twoPow {i : ℕ} (hi : i < 64) :
    0x80#8 >>> ((7 : UInt8) + (UInt8.ofNat i >>> 3) <<< 3 - UInt8.ofNat i).toNat =
      BitVec.twoPow 8 (i % 8) := by
  revert i
  decide +kernel

theorem pageIndex_toNat {i : ℕ} (hi : i < 64) (width : UInt8) :
    ((UInt8.ofNat i >>> 3) * width).toNat = i / 8 * width.toNat % 256 := by
  have hpage : (UInt8.ofNat i >>> 3).toNat = i / 8 := by
    revert i
    decide +kernel
  rw [UInt8.toNat_mul, hpage]

/-- The bit that is drawn comes from the page at the wrapped address. -/
theorem picColor_ne_zero {i j : ℕ} (hi : i < 64) (hj : j < pic.width.toNat) :
    picColor pic.width pic.mode pic.bitmap (UInt8.ofNat i) (UInt8.ofNat j) ≠ 0 ↔
      ((pic.bitmap (pic.page i % 256 + j)).getLsbD (i % 8) ^^ decide (pic.mode ≠ 0)) = true := by
  have hcolumn : (UInt8.ofNat j).toNat = j := by
    have hwidth := pic.width.toNat_lt
    rw [UInt8.toNat_ofNat']
    omega
  simp only [picColor]
  rw [mask_eq_twoPow hi, pageIndex_toNat hi, hcolumn, Nat.add_comm j]
  exact bitColor_ne_zero (Nat.mod_lt i (by decide)) _

/-- No byte behind the bitmap is read. -/
theorem read_lt_size {i j : ℕ} (hi : i < pic.height.toNat) (hj : j < pic.width.toNat) :
    pic.page i % 256 + j < pic.size := by
  have hpage : i / 8 + 1 ≤ (pic.height.toNat + 7) / 8 := by omega
  calc pic.page i % 256 + j
      ≤ pic.page i + j := Nat.add_le_add_right (Nat.mod_le _ _) j
    _ < pic.page i + pic.width.toNat := Nat.add_lt_add_left hj _
    _ = pic.width.toNat * (i / 8 + 1) := by
      unfold page
      ring
    _ ≤ pic.size := Nat.mul_le_mul_left _ hpage

/-- What `DrawPic` puts on the screen, whatever the picture. -/
theorem drawPic_paints (pic : Picture) (s : ScrBuf) :
    Paints pixel (block pic.x.toNat pic.y.toNat pic.width.toNat pic.height.toNat)
      (fun p _ => decide (picColor pic.width pic.mode pic.bitmap
        (UInt8.ofNat (p.2.val - pic.y.toNat)) (UInt8.ofNat (p.1.val - pic.x.toNat)) ≠ 0)) s
      (drawPic pic.x pic.y pic.width pic.height pic.bitmap pic.mode s) :=
  foldl_rows_paints
    (fun i j => picColor pic.width pic.mode pic.bitmap (UInt8.ofNat i) (UInt8.ofNat j))
    pic.right_le pic.bottom_le s

theorem repeats_iff : pic.Repeats ↔ ∀ i < pic.height.toNat, ∀ j < pic.width.toNat,
    (pic.bitmap (pic.page i % 256 + j)).getLsbD (i % 8) =
      (pic.bitmap (pic.page i + j)).getLsbD (i % 8) := by
  constructor
  · intro hrepeats i hi j hj
    by_cases hpage : 256 ≤ pic.page i
    · exact hrepeats i hi hpage j hj
    · rw [Nat.mod_eq_of_lt (not_le.mp hpage)]
  · exact fun h i hi _ j hj => h i hi j hj

theorem Drawn.repeats {s : ScrBuf} (h : pic.Drawn s) : pic.Repeats := by
  rw [repeats_iff]
  intro i hi j hj
  have hright := pic.right_le
  have hbottom := pic.bottom_le
  let p : Pixel := (⟨pic.x.toNat + j, by omega⟩, ⟨pic.y.toNat + i, by omega⟩)
  have hblock : p ∈ block pic.x.toNat pic.y.toNat pic.width.toNat pic.height.toNat := by
    simp only [p, mem_block]
    omega
  have hcolor := (drawPic_paints pic s).inside p hblock
  rw [h.inside p hblock] at hcolor
  simp only [p, Nat.add_sub_cancel_left] at hcolor
  rw [Bool.eq_iff_iff, decide_eq_true_iff,
    picColor_ne_zero (hi.trans_le height_le) hj, ← Bool.eq_iff_iff] at hcolor
  exact (Bool.xor_left_inj.mp hcolor).symm

theorem Repeats.drawn (h : pic.Repeats) (s : ScrBuf) : pic.Drawn s := by
  refine (drawPic_paints pic s).of_value_eq fun p hp _ => ?_
  obtain ⟨hcolumn, hrow⟩ := mem_block.mp hp
  have hi : p.2.val - pic.y.toNat < pic.height.toNat := by omega
  have hj : p.1.val - pic.x.toNat < pic.width.toNat := by omega
  rw [Bool.eq_iff_iff, decide_eq_true_iff, picColor_ne_zero (hi.trans_le height_le) hj,
    repeats_iff.mp h _ hi _ hj]
  rfl

/-- The picture is drawn right exactly if the pages whose index does not fit into a byte repeat
the ones that are drawn instead. -/
theorem drawn_iff_repeats (pic : Picture) (s : ScrBuf) : pic.Drawn s ↔ pic.Repeats :=
  ⟨Drawn.repeats, fun h => h.drawn s⟩

/-- A picture whose last page starts below byte 256 is drawn right. -/
theorem repeats_of_small (h : pic.page (pic.height.toNat - 1) < 256) : pic.Repeats := by
  intro i hi hpage
  have hle : pic.page i ≤ pic.page (pic.height.toNat - 1) :=
    Nat.mul_le_mul_right _ (Nat.div_le_div_right (by omega))
  omega

/-- The sizes at which every bitmap is drawn right. -/
theorem repeats_forall_iff (pic : Picture) :
    (∀ bitmap, { pic with bitmap := bitmap }.Repeats) ↔
      pic.page (pic.height.toNat - 1) < 256 := by
  constructor
  · intro hall
    by_contra hlarge
    have hheight : 0 < pic.height.toNat := by
      by_contra hzero
      simp [page, Nat.eq_zero_of_not_pos hzero] at hlarge
    have hwidth : 0 < pic.width.toNat := by
      by_contra hzero
      simp [page, Nat.eq_zero_of_not_pos hzero] at hlarge
    let row := pic.height.toNat - 1
    have hrow : row < pic.height.toNat := Nat.sub_lt hheight Nat.one_pos
    have hpage : 256 ≤ pic.page row := not_lt.mp hlarge
    -- only the first byte of the last page has pixels that are set
    have hbit : (if pic.page row % 256 = pic.page row then 0xff#8 else 0).getLsbD (row % 8) =
        (if pic.page row = pic.page row then 0xff#8 else 0).getLsbD (row % 8) :=
      hall (fun n => if n = pic.page row then 0xff else 0) row hrow hpage 0 hwidth
    have hones : (0xff#8).getLsbD (row % 8) = true :=
      (by decide : ∀ bit < 8, (0xff#8).getLsbD bit = true) _ (Nat.mod_lt _ (by decide))
    have hwrapped : pic.page row % 256 ≠ pic.page row := by omega
    rw [if_neg hwrapped, if_pos rfl, hones] at hbit
    simp at hbit
  · intro hsmall bitmap
    exact repeats_of_small hsmall

end Picture

/-- A dot in the third page of a picture of 128 columns is lost. -/
theorem not_drawn_dot : ¬ ∀ (pic : Picture) (s : ScrBuf), pic.Drawn s := by
  intro h
  let pic : Picture :=
    { x := 0, y := 0, width := 128, height := 24, mode := 0
      bitmap := fun n => if n = 256 then 1 else 0
      right_le := by decide, bottom_le := by decide }
  have hrepeats : pic.Repeats := (h pic fun _ _ => 0).repeats
  have hdot := hrepeats 16 (by decide) (by decide) 0 (by decide)
  exact absurd hdot (by decide)

end VehicleTerminal.Gdi
