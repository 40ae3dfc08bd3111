import VehicleTerminal.Gdi.Screen

/-! The functions of `Gdi.c` that change a rectangle of pixels. `rounds` bounds the rounds of
each loop, and a loop that needs more has no result. -/
namespace VehicleTerminal.Gdi
open ByteLoop Painting

section Model

/-- The two loops over a rectangle, with what is done to a pixel. -/
def forArea (paint : UInt8 → UInt8 → ScrBuf → ScrBuf) (rounds : ℕ) (x1 y1 x2 y2 : UInt8) :
    ScrBuf → Option ScrBuf :=
  forByte x2 (fun i => forByte y2 (fun j s => some (paint i j s)) rounds y1) rounds x1

def fillArea (rounds : ℕ) (x1 y1 x2 y2 : UInt8) (color : BitVec 8) : ScrBuf → Option ScrBuf :=
  forArea (fun i j => lcdSetPixel i j color) rounds x1 y1 x2 y2

/-- `LcdSetPixel(i,j,!LcdGetPixel(i,j))`. -/
def togglePixel (i j : UInt8) (s : ScrBuf) : ScrBuf :=
  lcdSetPixel i j (logicalNot (lcdGetPixel i j s)) s

def reverseBar (rounds : ℕ) (x1 y1 x2 y2 : UInt8) : ScrBuf → Option ScrBuf :=
  forArea togglePixel rounds x1 y1 x2 y2

end Model

/-- From some number of rounds on there is a result, and it paints the region. -/
def EndsPainting (draw : ℕ → ScrBuf → Option ScrBuf) (region : Set Pixel)
    (value : Pixel → Bool → Bool) (s : ScrBuf) : Prop :=
  ∃ enough, ∀ rounds, enough ≤ rounds →
    ∃ s', draw rounds s = some s' ∧ Paints pixel region value s s'

theorem not_endsPainting {draw : ℕ → ScrBuf → Option ScrBuf} {region : Set Pixel}
    {value : Pixel → Bool → Bool} {s : ScrBuf} (h : ∀ rounds, draw rounds s = none) :
    ¬ EndsPainting draw region value s := by
  rintro ⟨enough, hend⟩
  obtain ⟨s', hs', -⟩ := hend enough le_rfl
  rw [h enough] at hs'
  cases hs'

/-- The pixels of the screen in a rectangle with inclusive bounds. -/
def rectangle (x1 y1 x2 y2 : ℕ) : Set Pixel :=
  {p | (x1 ≤ p.1.val ∧ p.1.val ≤ x2) ∧ y1 ≤ p.2.val ∧ p.2.val ≤ y2}

@[simp] theorem mem_rectangle {x1 y1 x2 y2 : ℕ} {p : Pixel} : p ∈ rectangle x1 y1 x2 y2 ↔
    (x1 ≤ p.1.val ∧ p.1.val ≤ x2) ∧ y1 ≤ p.2.val ∧ p.2.val ≤ y2 := Iff.rfl

/-- Rectangles that lie beside or above each other. -/
theorem rectangle_disjoint {x1 y1 x2 y2 x1' y1' x2' y2' : ℕ}
    (h : x2 < x1' ∨ x2' < x1 ∨ y2 < y1' ∨ y2' < y1) :
    Disjoint (rectangle x1 y1 x2 y2) (rectangle x1' y1' x2' y2') := by
  refine Set.disjoint_left.mpr fun p hp hp' => ?_
  rw [mem_rectangle] at hp hp'
  omega

section Block

variable {x y width height : ℕ}

/-- The pixels of the screen in a rectangle with a width and a height, which may be zero. -/
def block (x y width height : ℕ) : Set Pixel :=
  {p | (x ≤ p.1.val ∧ p.1.val < x + width) ∧ y ≤ p.2.val ∧ p.2.val < y + height}

@[simp] theorem mem_block {p : Pixel} : p ∈ block x y width height ↔
    (x ≤ p.1.val ∧ p.1.val < x + width) ∧ y ≤ p.2.val ∧ p.2.val < y + height := Iff.rfl

theorem block_eq_rectangle (hwidth : 0 < width) (hheight : 0 < height) :
    block x y width height = rectangle x y (x + width - 1) (y + height - 1) := by
  ext p
  rw [mem_block, mem_rectangle]
  omega

theorem block_disjoint {x' y' width' height' : ℕ}
    (h : x + width ≤ x' ∨ x' + width' ≤ x ∨ y + height ≤ y' ∨ y' + height' ≤ y) :
    Disjoint (block x y width height) (block x' y' width' height') := by
  refine Set.disjoint_left.mpr fun p hp hp' => ?_
  rw [mem_block] at hp hp'
  omega

theorem before_blockRow (x y width : ℕ) :
    before (fun j => pixelsAt (x + j) y) 0 width = block x y width 1 := by
  ext p
  simp only [before, Set.mem_ofPred_eq, mem_pixelsAt, mem_block]
  constructor
  · rintro ⟨j, -, hj, hx, rfl⟩
    omega
  · rintro ⟨⟨hlo, hhi⟩, hy⟩
    exact ⟨p.1.val - x, Nat.zero_le _, by omega, by omega, by omega⟩

/-- A row by its first pixel and its width. -/
theorem before_row (x y : ℕ) (hpos : 0 < width) :
    before (fun i => pixelsAt (x + i) y) 0 width = rectangle x y (x + width - 1) y := by
  rw [before_blockRow, block_eq_rectangle hpos Nat.one_pos, Nat.add_sub_cancel]

theorem before_block (x y width height : ℕ) :
    before (fun i => block x (y + i) width 1) 0 height = block x y width height := by
  ext p
  simp only [before, Set.mem_ofPred_eq, mem_block]
  constructor
  · rintro ⟨i, -, hi, hx, hlo, hhi⟩
    exact ⟨hx, by omega⟩
  · rintro ⟨hx, hlo, hhi⟩
    exact ⟨p.2.val - y, Nat.zero_le _, by omega, hx, by omega⟩

end Block

section ForArea

variable {paint : UInt8 → UInt8 → ScrBuf → ScrBuf} {value : Pixel → Bool → Bool}
  {x1 y1 x2 y2 : UInt8}

theorem before_column (i y1 y2 : ℕ) :
    before (fun j => pixelsAt i j) y1 (y2 + 1) = rectangle i y1 i y2 := by
  ext p
  simp only [before, Set.mem_ofPred_eq, mem_pixelsAt, mem_rectangle]
  constructor
  · rintro ⟨j, hlo, hhi, rfl, rfl⟩
    omega
  · rintro ⟨hx, hlo, hhi⟩
    exact ⟨p.2.val, hlo, Nat.lt_succ_of_le hhi, by omega, rfl⟩

theorem before_line (x1 x2 y : ℕ) :
    before (fun i => pixelsAt i y) x1 (x2 + 1) = rectangle x1 y x2 y := by
  ext p
  simp only [before, Set.mem_ofPred_eq, mem_pixelsAt, mem_rectangle]
  constructor
  · rintro ⟨i, hlo, hhi, rfl, rfl⟩
    omega
  · rintro ⟨⟨hlo, hhi⟩, hy⟩
    exact ⟨p.1.val, hlo, Nat.lt_succ_of_le hhi, rfl, by omega⟩

theorem before_columns (x1 y1 x2 y2 : ℕ) :
    before (fun i => rectangle i y1 i y2) x1 (x2 + 1) = rectangle x1 y1 x2 y2 := by
  ext p
  simp only [before, Set.mem_ofPred_eq, mem_rectangle]
  constructor
  · rintro ⟨i, hlo, hhi, hx, hy⟩
    exact ⟨by omega, hy⟩
  · rintro ⟨⟨hlo, hhi⟩, hy⟩
    exact ⟨p.1.val, hlo, Nat.lt_succ_of_le hhi, ⟨le_rfl, le_rfl⟩, hy⟩

theorem pixelsAt_disjoint (i : ℕ) {j j' : ℕ} (h : j ≠ j') :
    Disjoint (pixelsAt i j) (pixelsAt i j') :=
  Set.disjoint_left.mpr fun _ hp hp' => h (hp.2.symm.trans hp'.2)

/-- Below the largest byte the loops reach every pixel of the rectangle once. -/
theorem forArea_paints
    (hpaint : ∀ i j s, Paints pixel (pixelsAt i.toNat j.toNat) value s (paint i j s))
    (hx : x2.toNat < 255) (hy : y2.toNat < 255) (s : ScrBuf) :
    EndsPainting (fun rounds => forArea paint rounds x1 y1 x2 y2)
      (rectangle x1.toNat y1.toNat x2.toNat y2.toNat) value s := by
  refine ⟨257, fun rounds hrounds => ?_⟩
  have hpos : 0 < rounds := by omega
  have hinner : y2.toNat + 2 ≤ rounds + y1.toNat := by omega
  have houter : x2.toNat + 2 ≤ rounds + x1.toNat := by omega
  have hcolumn : ∀ i s, ∃ s', forByte y2 (fun j s => some (paint i j s)) rounds y1 s = some s' ∧
      Paints pixel (rectangle i.toNat y1.toNat i.toNat y2.toNat) value s s' := by
    intro i s
    obtain ⟨s', hs', hpaints⟩ := forByte_paints (fun j => pixelsAt i.toNat j) hy
      hinner hpos (fun j s _ _ => ⟨_, rfl, hpaint i j s⟩)
      (fun j j' h => pixelsAt_disjoint i.toNat h) s
    exact ⟨s', hs', hpaints.of_region_eq (before_column _ _ _)⟩
  obtain ⟨s', hs', hpaints⟩ := forByte_paints (fun i => rectangle i y1.toNat i y2.toNat) hx
    houter hpos (fun i s _ _ => hcolumn i s)
    (fun i i' h => rectangle_disjoint (by omega)) s
  exact ⟨s', hs', hpaints.of_region_eq (before_columns _ _ _ _)⟩

theorem forArea_endless (hle : x1 ≤ x2) (h : x2.toNat = 255 ∨ y2.toNat = 255) (rounds : ℕ)
    (s : ScrBuf) : forArea paint rounds x1 y1 x2 y2 s = none := by
  rcases h with hx | hy
  · exact forByte_endless hx rounds x1 s
  · exact forByte_stuck hle (fun i s => forByte_endless hy rounds y1 s) rounds s

theorem forArea_skip (h : x2.toNat < x1.toNat) (s : ScrBuf) :
    EndsPainting (fun rounds => forArea paint rounds x1 y1 x2 y2)
      (rectangle x1.toNat y1.toNat x2.toNat y2.toNat) value s := by
  refine ⟨1, fun rounds hrounds => ?_⟩
  obtain ⟨rounds, rfl⟩ := Nat.exists_eq_succ_of_ne_zero (show rounds ≠ 0 by omega)
  refine ⟨s, forByte_skip h s, (Paints.refl value s).of_region_eq ?_⟩
  ext p
  simp only [mem_rectangle, Set.mem_empty_iff_false, false_iff]
  omega

/-- The loops end unless they are entered with a bound that a byte cannot pass. -/
theorem forArea_iff (x1 y1 x2 y2 : UInt8)
    (hpaint : ∀ i j s, Paints pixel (pixelsAt i.toNat j.toNat) value s (paint i j s))
    (s : ScrBuf) :
    EndsPainting (fun rounds => forArea paint rounds x1 y1 x2 y2)
      (rectangle x1.toNat y1.toNat x2.toNat y2.toNat) value s ↔
    (x1 ≤ x2 → x2 ≠ 255 ∧ y2 ≠ 255) := by
  have hlargest (b : UInt8) : b ≠ 255 ↔ b.toNat < 255 := by
    have hb := b.toNat_lt
    rw [ne_eq, ← UInt8.toNat_inj, show (255 : UInt8).toNat = 255 from rfl]
    omega
  rw [hlargest, hlargest, UInt8.le_iff_toNat_le]
  constructor
  · intro hends hle
    by_contra hbound
    have hx := x2.toNat_lt
    have hy := y2.toNat_lt
    refine not_endsPainting (fun rounds => forArea_endless (UInt8.le_iff_toNat_le.mpr hle) ?_
      rounds s) hends
    omega
  · intro hbound
    by_cases hle : x1.toNat ≤ x2.toNat
    · exact forArea_paints hpaint (hbound hle).1 (hbound hle).2 s
    · exact forArea_skip (not_le.mp hle) s

end ForArea

section FillAndReverse

/-- `FillArea` and `ReverseBar` end, and change exactly the pixels of their rectangle. -/
def HitsRectangle (x1 y1 x2 y2 : UInt8) (color : BitVec 8) (s : ScrBuf) : Prop :=
  EndsPainting (fun rounds => fillArea rounds x1 y1 x2 y2 color)
    (rectangle x1.toNat y1.toNat x2.toNat y2.toNat) (fun _ _ => decide (color ≠ 0)) s ∧
  EndsPainting (fun rounds => reverseBar rounds x1 y1 x2 y2)
    (rectangle x1.toNat y1.toNat x2.toNat y2.toNat) (fun _ v => !v) s

/-- Both hit their rectangle unless it is entered with 255 as a last coordinate. -/
theorem hitsRectangle_iff (x1 y1 x2 y2 : UInt8) (color : BitVec 8) (s : ScrBuf) :
    HitsRectangle x1 y1 x2 y2 color s ↔ (x1 ≤ x2 → x2 ≠ 255 ∧ y2 ≠ 255) := by
  have hfill := forArea_iff x1 y1 x2 y2 (fun i j s => paints_lcdSetPixel i j color s) s
  have hreverse := forArea_iff x1 y1 x2 y2 paints_toggle s
  exact (and_congr hfill hreverse).trans (and_self_iff)

/-- The rectangle from the origin to the largest row is never filled. -/
theorem not_hitsRectangle_largest :
    ¬ ∀ x1 y1 x2 y2 color s, HitsRectangle x1 y1 x2 y2 color s := by
  intro h
  refine not_endsPainting (fun rounds => ?_) (h 0 0 0 255 1 fun _ _ => 0).1
  exact forArea_endless (by decide) (.inr rfl) rounds _

end FillAndReverse

end VehicleTerminal.Gdi
