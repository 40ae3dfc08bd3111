import VehicleTerminal.Io.Words
import VehicleTerminal.Library.Painting

/-! The frame buffer of `Gdi.c`. A byte holds eight pixels of a column, one below the other; the
pixels outside the screen are clipped. -/
namespace VehicleTerminal.Gdi
open Painting

section Model

def scrWidth : ℕ := 132

def scrHeight : ℕ := 64

/-- `g_aaucScrBuf`, by page and column. -/
abbrev ScrBuf := Fin 8 → Fin scrWidth → BitVec 8

theorem page_lt {y : ℕ} (h : y < scrHeight) : y >>> 3 < 8 := by
  rw [Nat.shiftRight_eq_div_pow]
  unfold scrHeight at h
  omega

def lcdSetPixel (x y : UInt8) (color : BitVec 8) (s : ScrBuf) : ScrBuf :=
  if hx : x.toNat < scrWidth then
    if hy : y.toNat < scrHeight then
      let temp : Fin 8 := ⟨y.toNat >>> 3, page_lt hy⟩
      let temp1 := y.toNat - temp.val <<< 3
      let byte := s temp ⟨x.toNat, hx⟩
      Function.update s temp (Function.update (s temp) ⟨x.toNat, hx⟩
        (if color ≠ 0 then byte ||| 1#8 <<< temp1 else byte &&& ~~~(1#8 <<< temp1)))
    else s
  else s

def lcdGetPixel (x y : UInt8) (s : ScrBuf) : BitVec 8 :=
  if hx : x.toNat < scrWidth then
    if hy : y.toNat < scrHeight then
      let temp : Fin 8 := ⟨y.toNat >>> 3, page_lt hy⟩
      let temp1 := y.toNat - temp.val <<< 3
      s temp ⟨x.toNat, hx⟩ &&& 1#8 <<< temp1
    else 0
  else 0

/-- `!k`. -/
def logicalNot (k : BitVec 8) : BitVec 8 := if k = 0 then 1 else 0

end Model

/-- A place on the screen, column first. -/
abbrev Pixel := Fin scrWidth × Fin scrHeight

def pageOf (p : Pixel) : Fin 8 := ⟨p.2.val / 8, Nat.div_lt_of_lt_mul p.2.isLt⟩

/-- Whether a pixel is set. -/
def pixel (s : ScrBuf) (p : Pixel) : Bool := (s (pageOf p) p.1).getLsbD (p.2.val % 8)

/-- The pixels of the screen with these coordinates: one, or none outside the screen. -/
def pixelsAt (x y : ℕ) : Set Pixel := {p | p.1.val = x ∧ p.2.val = y}

@[simp] theorem mem_pixelsAt {x y : ℕ} {p : Pixel} :
    p ∈ pixelsAt x y ↔ p.1.val = x ∧ p.2.val = y := Iff.rfl

/-- The pixels tell the whole frame buffer. -/
theorem scrBuf_ext {s s' : ScrBuf} (h : ∀ p, pixel s p = pixel s' p) : s = s' := by
  funext temp x
  apply BitVec.eq_of_getLsbD_eq
  intro i hi
  have hy : 8 * temp.val + i < scrHeight := by
    have htemp := temp.isLt
    unfold scrHeight
    omega
  have hp := h (x, ⟨8 * temp.val + i, hy⟩)
  have hpage : (8 * temp.val + i) / 8 = temp.val := by omega
  have hbit : (8 * temp.val + i) % 8 = i := by omega
  simpa only [pixel, pageOf, hpage, hbit] using hp

section Bits

variable {x y : UInt8} {s : ScrBuf}

theorem row_eq (y : ℕ) : y - (y >>> 3) <<< 3 = y % 8 := by
  rw [Nat.shiftRight_eq_div_pow, Nat.shiftLeft_eq]
  omega

theorem lcdSetPixel_eq (color : BitVec 8) (hx : x.toNat < scrWidth) (hy : y.toNat < scrHeight) :
    ∃ temp : Fin 8, temp.val = y.toNat / 8 ∧ lcdSetPixel x y color s =
      Function.update s temp (Function.update (s temp) ⟨x.toNat, hx⟩
        (Io.writeBit (s temp ⟨x.toNat, hx⟩) (y.toNat % 8)
          (if color ≠ 0 then .set else .reset))) := by
  refine ⟨⟨y.toNat >>> 3, page_lt hy⟩, Nat.shiftRight_eq_div_pow _ _, ?_⟩
  rw [lcdSetPixel, dif_pos hx, dif_pos hy]
  simp only [row_eq]
  split_ifs <;> rfl

theorem pixelsAt_offscreen (h : ¬ (x.toNat < scrWidth ∧ y.toNat < scrHeight)) :
    pixelsAt x.toNat y.toNat = ∅ := by
  ext p
  simp only [mem_pixelsAt, Set.mem_empty_iff_false, iff_false]
  rintro ⟨hx, hy⟩
  exact h ⟨hx ▸ p.1.isLt, hy ▸ p.2.isLt⟩

theorem lcdSetPixel_offscreen (color : BitVec 8)
    (h : ¬ (x.toNat < scrWidth ∧ y.toNat < scrHeight)) : lcdSetPixel x y color s = s := by
  by_cases hx : x.toNat < scrWidth
  · rw [lcdSetPixel, dif_pos hx, dif_neg fun hy => h ⟨hx, hy⟩]
  · rw [lcdSetPixel, dif_neg hx]

/-- A pixel that is written takes the colour, and all others keep theirs. -/
theorem paints_lcdSetPixel (x y : UInt8) (color : BitVec 8) (s : ScrBuf) :
    Paints pixel (pixelsAt x.toNat y.toNat) (fun _ _ => decide (color ≠ 0)) s
      (lcdSetPixel x y color s) := by
  by_cases hscreen : x.toNat < scrWidth ∧ y.toNat < scrHeight
  · obtain ⟨hx, hy⟩ := hscreen
    obtain ⟨temp, htemp, heq⟩ := lcdSetPixel_eq (s := s) color hx hy
    have hbit : y.toNat % 8 < 8 := Nat.mod_lt _ (by decide)
    rw [heq]
    constructor
    · intro p hp
      obtain ⟨hpx, hpy⟩ := mem_pixelsAt.mp hp
      have hpage : pageOf p = temp := Fin.ext (by rw [htemp, ← hpy]; rfl)
      have hcolumn : p.1 = ⟨x.toNat, hx⟩ := Fin.ext hpx
      rw [pixel, hpage, hcolumn, hpy, Function.update_self, Function.update_self,
        Io.getLsbD_writeBit_self hbit]
      by_cases hcolor : color = 0
      · simp [hcolor]
      · rw [if_pos hcolor, decide_eq_true hcolor]
        rfl
    · intro p hp
      rw [pixel, pixel]
      by_cases hpage : pageOf p = temp
      · rw [hpage, Function.update_self]
        by_cases hcolumn : p.1 = ⟨x.toNat, hx⟩
        · have hrow : p.2.val % 8 ≠ y.toNat % 8 := by
            intro hrow
            have hdiv : p.2.val / 8 = y.toNat / 8 := by
              rw [← htemp, ← hpage]
              rfl
            exact hp ⟨congrArg Fin.val hcolumn, by omega⟩
          rw [hcolumn, Function.update_self, Io.getLsbD_writeBit_of_ne hbit _ hrow]
        · rw [Function.update_of_ne hcolumn]
      · rw [Function.update_of_ne hpage]
  · rw [pixelsAt_offscreen hscreen, lcdSetPixel_offscreen color hscreen]
    exact .refl _ s

/-- A mask of one bit tests this bit. -/
theorem and_twoPow_ne_zero (byte : BitVec 8) {bit : ℕ} (hbit : bit < 8) :
    byte &&& BitVec.twoPow 8 bit ≠ 0 ↔ byte.getLsbD bit = true := by
  rw [BitVec.and_twoPow]
  split_ifs with hset
  · simp only [hset, iff_true]
    intro hzero
    have hlsb := congrArg (fun w => w.getLsbD bit) hzero
    simp [hbit] at hlsb
  · simp [hset]

/-- Reading a pixel gives a byte that is not zero exactly if it is set. -/
theorem lcdGetPixel_ne_zero {p : Pixel} (hp : p ∈ pixelsAt x.toNat y.toNat) :
    lcdGetPixel x y s ≠ 0 ↔ pixel s p = true := by
  obtain ⟨hpx, hpy⟩ := mem_pixelsAt.mp hp
  have hx : x.toNat < scrWidth := hpx ▸ p.1.isLt
  have hy : y.toNat < scrHeight := hpy ▸ p.2.isLt
  obtain rfl : p = (⟨x.toNat, hx⟩, ⟨y.toNat, hy⟩) := Prod.ext (Fin.ext hpx) (Fin.ext hpy)
  have hpage : (⟨y.toNat >>> 3, page_lt hy⟩ : Fin 8) = pageOf (⟨x.toNat, hx⟩, ⟨y.toNat, hy⟩) :=
    Fin.ext (Nat.shiftRight_eq_div_pow _ _)
  have hbit : y.toNat % 8 < 8 := Nat.mod_lt _ (by decide)
  rw [lcdGetPixel, dif_pos hx, dif_pos hy]
  simp only [row_eq, hpage, pixel]
  rw [← BitVec.twoPow_eq]
  exact and_twoPow_ne_zero _ hbit

/-- Writing what was not read inverts the pixel. -/
theorem paints_toggle (x y : UInt8) (s : ScrBuf) :
    Paints pixel (pixelsAt x.toNat y.toNat) (fun _ v => !v) s
      (lcdSetPixel x y (logicalNot (lcdGetPixel x y s)) s) := by
  have hpaints := paints_lcdSetPixel x y (logicalNot (lcdGetPixel x y s)) s
  refine ⟨fun p hp => ?_, hpaints.outside⟩
  rw [hpaints.inside p hp, logicalNot]
  by_cases hset : lcdGetPixel x y s = 0
  · have hclear : pixel s p = false := by
      rw [← Bool.not_eq_true, ← lcdGetPixel_ne_zero hp]
      exact not_not.mpr hset
    rw [if_pos hset, hclear]
    rfl
  · rw [if_neg hset, (lcdGetPixel_ne_zero hp).mp hset]
    rfl

end Bits

end VehicleTerminal.Gdi
