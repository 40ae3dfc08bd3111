import VehicleTerminal.Gdi.Area

/-! The characters that `DrawChar` of `Gdi.c` draws. What the fonts hold is a parameter. -/
namespace VehicleTerminal.Gdi
open Painting

section Model

/-- What the fonts for characters of one byte and of two hold at an address. -/
structure Fonts where
  english : BitVec 32 → BitVec 8
  chinese : BitVec 32 → BitVec 8

/-- `DispBuffer` behind the read of the character's font. -/
def dispBuffer (fonts : Fonts) (hiByte loByte : UInt8) : ℕ → BitVec 8 :=
  if hiByte = 0 then
    let address := BitVec.ofNat 32 (loByte.toNat <<< 4)
    fun n => fonts.english (address + BitVec.ofNat 32 n)
  else
    let index := ((hiByte.toNat : ℤ) - 0xa1) * 94 + ((loByte.toNat : ℤ) - 0xa1)
    let address := BitVec.ofInt 32 (index * 2 ^ 5)
    fun n => fonts.chinese (address + BitVec.ofNat 32 n)

def charWidth (hiByte : UInt8) : ℕ := if hiByte = 0 then 8 else 16

/-- The colour of column `j` in row `i`. The upper eight rows come from the first `width` bytes
of the buffer. -/
def colorAt (width : ℕ) (buffer : ℕ → BitVec 8) (mode : UInt8) (i j : ℕ) : BitVec 8 :=
  let index := (i >>> 3) * width
  let k := 7 + (i >>> 3) <<< 3 - i
  let data := buffer (j + index)
  let data := if mode ≠ 0 then data ^^^ 0xff else data
  if data &&& 0x80#8 >>> k ≠ 0 then 1 else 0

def drawBuffer (width : ℕ) (buffer : ℕ → BitVec 8) (x y mode : UInt8) (s : ScrBuf) : ScrBuf :=
  (List.range 16).foldl (fun s i =>
    (List.range width).foldl (fun s j =>
      lcdSetPixel (x + UInt8.ofNat j) (y + UInt8.ofNat i) (colorAt width buffer mode i j) s) s) s

def drawChar (fonts : Fonts) (x y hiByte loByte mode : UInt8) : ScrBuf → ScrBuf :=
  drawBuffer (charWidth hiByte) (dispBuffer fonts hiByte loByte) x y mode

end Model

theorem charWidth_pos (hiByte : UInt8) : 0 < charWidth hiByte := by
  unfold charWidth
  split_ifs <;> decide

/-- Whether a character has a pixel in column `j` of row `i`. -/
def glyph (width : ℕ) (buffer : ℕ → BitVec 8) (mode : UInt8) (i j : ℕ) : Bool :=
  (buffer (j + i / 8 * width)).getLsbD (i % 8) ^^ decide (mode ≠ 0)

section Pixels

variable {width : ℕ} {buffer : ℕ → BitVec 8} {x y mode : UInt8}

/-- The mask of row `i` is the bit of the row in its half of the character. -/
theorem mask_eq {i : ℕ} (hi : i < 16) : 0x80#8 >>> (7 + (i >>> 3) <<< 3 - i) =
    BitVec.twoPow 8 (i % 8) := by
  revert i
  decide

/-- One bit of a byte of pixels, which a mode other than zero inverts. -/
theorem bitColor_ne_zero {bit : ℕ} (hbit : bit < 8) (data : BitVec 8) :
    (if (if mode ≠ 0 then data ^^^ 0xff else data) &&& BitVec.twoPow 8 bit ≠ 0 then 1 else 0 :
      BitVec 8) ≠ 0 ↔ (data.getLsbD bit ^^ decide (mode ≠ 0)) = true := by
  have hones : (255#8).getLsbD bit = true :=
    (by decide : ∀ bit < 8, (255#8).getLsbD bit = true) _ hbit
  have hcolor (c : Prop) [Decidable c] : (if c then 1 else 0 : BitVec 8) ≠ 0 ↔ c := by
    split_ifs with hc <;> simp [hc]
  rw [hcolor, and_twoPow_ne_zero _ hbit]
  by_cases hmode : mode = 0
  · simp [hmode]
  · simp [hmode, hones]

theorem colorAt_ne_zero {i : ℕ} (hi : i < 16) (j : ℕ) :
    colorAt width buffer mode i j ≠ 0 ↔ glyph width buffer mode i j = true := by
  simp only [colorAt]
  rw [mask_eq hi, Nat.shiftRight_eq_div_pow]
  exact bitColor_ne_zero (Nat.mod_lt i (by decide)) _

theorem toNat_add_ofNat {b : UInt8} {n : ℕ} (h : b.toNat + n < 256) :
    (b + UInt8.ofNat n).toNat = b.toNat + n := by
  rw [UInt8.toNat_add, UInt8.toNat_ofNat']
  omega

/-- Rows of pixels inside the screen, each with a colour of its own. -/
theorem foldl_rows_paints {height : ℕ} (color : ℕ → ℕ → BitVec 8)
    (hx : x.toNat + width ≤ scrWidth) (hy : y.toNat + height ≤ scrHeight) (s : ScrBuf) :
    Paints pixel (block x.toNat y.toNat width height)
      (fun p _ => decide (color (p.2.val - y.toNat) (p.1.val - x.toNat) ≠ 0)) s
      ((List.range height).foldl (fun s i => (List.range width).foldl (fun s j =>
        lcdSetPixel (x + UInt8.ofNat j) (y + UInt8.ofNat i) (color i j) s) s) s) := by
  unfold scrWidth at hx
  unfold scrHeight at hy
  rw [← before_block]
  refine foldl_paints _ height (fun i s hi => ?_)
    (fun i i' h => block_disjoint (by omega)) s
  rw [← before_blockRow]
  refine foldl_paints _ width (fun j s hj => ?_) (fun j j' h => ?_) s
  · have hpixel := paints_lcdSetPixel (x + UInt8.ofNat j) (y + UInt8.ofNat i) (color i j) s
    rw [toNat_add_ofNat (by omega), toNat_add_ofNat (by omega)] at hpixel
    refine hpixel.of_value_eq fun p hp _ => ?_
    obtain ⟨hpx, hpy⟩ := mem_pixelsAt.mp hp
    rw [hpx, hpy, Nat.add_sub_cancel_left, Nat.add_sub_cancel_left]
  · refine Set.disjoint_left.mpr fun p hp hp' => h ?_
    rw [mem_pixelsAt] at hp hp'
    omega

/-- A character that lies inside the screen shows its pixels, and nothing else changes. -/
theorem drawBuffer_paints (hpos : 0 < width) (hx : x.toNat + width ≤ scrWidth)
    (hy : y.toNat + 16 ≤ scrHeight) (s : ScrBuf) :
    Paints pixel (rectangle x.toNat y.toNat (x.toNat + width - 1) (y.toNat + 15))
      (fun p _ => glyph width buffer mode (p.2.val - y.toNat) (p.1.val - x.toNat)) s
      (drawBuffer width buffer x y mode s) := by
  have hregion : block x.toNat y.toNat width 16 =
      rectangle x.toNat y.toNat (x.toNat + width - 1) (y.toNat + 15) :=
    block_eq_rectangle hpos (by decide)
  rw [← hregion]
  refine (foldl_rows_paints (colorAt width buffer mode) hx hy s).of_value_eq fun p hp _ => ?_
  have hrow : p.2.val - y.toNat < 16 := by
    have hblock := mem_block.mp hp
    omega
  rw [Bool.eq_iff_iff, decide_eq_true_iff]
  exact colorAt_ne_zero hrow _

end Pixels

end VehicleTerminal.Gdi
