import VehicleTerminal.Gdi.Area

/-! Lines and the outlines of rectangles in `Gdi.c`. The low four bits of a mode choose between
setting and inverting pixels, the high ones between real and broken lines. -/
namespace VehicleTerminal.Gdi
open ByteLoop Painting

section Model

/-- The loops of both kinds of lines, with the place of the `i`-th pixel. -/
def drawLine (rounds : ℕ) (first last mode : UInt8) (place : UInt8 → UInt8 × UInt8) :
    ScrBuf → Option ScrBuf :=
  let set (i : UInt8) (color : BitVec 8) := lcdSetPixel (place i).1 (place i).2 color
  if mode &&& 0x0F ≠ 0 then
    forByte last (fun i s => some (togglePixel (place i).1 (place i).2 s)) rounds first
  else if mode &&& 0xF0 ≠ 0 then
    forByte last (fun i s => some (set i (if i % 2 ≠ 0 ∨ i = first then 1 else 0) s)) rounds first
  else forByte last (fun i s => some (set i 1 s)) rounds first

def drawVerLine (rounds : ℕ) (x y1 y2 mode : UInt8) : ScrBuf → Option ScrBuf :=
  drawLine rounds y1 y2 mode fun i => (x, i)

def drawHorLine (rounds : ℕ) (x1 x2 y mode : UInt8) : ScrBuf → Option ScrBuf :=
  drawLine rounds x1 x2 mode fun i => (i, y)

/-- `if(v > size-1)v = size-1;`. -/
def clip (v : UInt8) (size : ℕ) : UInt8 :=
  if v.toNat > size - 1 then UInt8.ofNat (size - 1) else v

def drawRect (rounds : ℕ) (x1 y1 x2 y2 mode : UInt8) (s : ScrBuf) : Option ScrBuf :=
  let x2 := clip x2 scrWidth
  let y2 := clip y2 scrHeight
  if x1 > x2 ∨ y1 > y2 then some s
  else if x1 = x2 then drawVerLine rounds x1 y1 y2 mode s
  else
    (drawHorLine rounds x1 x2 y1 mode s).bind fun s =>
      if y1 = y2 then some s
      else
        (drawHorLine rounds x1 x2 y2 mode s).bind fun s =>
          if (y2.toNat : ℤ) - 1 ≥ y1.toNat + 1 then
            (drawVerLine rounds x1 (y1 + 1) (y2 - 1) mode s).bind fun s =>
              drawVerLine rounds x2 (y1 + 1) (y2 - 1) mode s
          else some s

end Model

/-- A mode that inverts pixels. -/
structure XorMode where
  mode : UInt8
  xor : mode &&& 0x0F ≠ 0

instance : Nonempty XorMode := ⟨⟨1, by decide⟩⟩

/-- The pixels on the edge of a rectangle with inclusive bounds, none if it is empty. -/
def outline (x1 y1 x2 y2 : ℕ) : Set Pixel :=
  {p ∈ rectangle x1 y1 x2 y2 | p.1.val = x1 ∨ p.1.val = x2 ∨ p.2.val = y1 ∨ p.2.val = y2}

/-- The part of the outline that is drawn: the last coordinates are clipped first. -/
def clippedOutline (x1 y1 x2 y2 : UInt8) : Set Pixel :=
  outline x1.toNat y1.toNat (min x2.toNat (scrWidth - 1)) (min y2.toNat (scrHeight - 1))

section Lines

variable {rounds : ℕ}

/-- A line inverts its pixels, which lie apart. -/
theorem drawLine_paints (m : XorMode) {first last : UInt8} (place : UInt8 → UInt8 × UInt8)
    (region : ℕ → Set Pixel) (hrounds : 257 ≤ rounds) (hlast : last.toNat < 255)
    (hregion : ∀ i, region i.toNat = pixelsAt (place i).1.toNat (place i).2.toNat)
    (hdisjoint : ∀ i j, i ≠ j → Disjoint (region i) (region j)) (s : ScrBuf) :
    ∃ s', drawLine rounds first last m.mode place s = some s' ∧
      Paints pixel (before region first.toNat (last.toNat + 1)) (fun _ v => !v) s s' := by
  have henough : last.toNat + 2 ≤ rounds + first.toNat := by omega
  have hpos : 0 < rounds := by omega
  simp only [drawLine, if_pos m.xor]
  refine forByte_paints region hlast henough hpos (fun i s _ _ => ⟨_, rfl, ?_⟩) hdisjoint s
  rw [hregion]
  exact paints_toggle (place i).1 (place i).2 s

theorem drawVerLine_paints (m : XorMode) (x y1 : UInt8) {y2 : UInt8} (hrounds : 257 ≤ rounds)
    (hy : y2.toNat < 255) (s : ScrBuf) : ∃ s', drawVerLine rounds x y1 y2 m.mode s = some s' ∧
      Paints pixel (rectangle x.toNat y1.toNat x.toNat y2.toNat) (fun _ v => !v) s s' := by
  obtain ⟨s', hs', hpaints⟩ := drawLine_paints m (fun j => (x, j))
    (fun j => pixelsAt x.toNat j) hrounds hy (fun _ => rfl)
    (fun i j h => pixelsAt_disjoint x.toNat h) s
  exact ⟨s', hs', hpaints.of_region_eq (before_column _ _ _)⟩

theorem drawHorLine_paints (m : XorMode) (x1 y : UInt8) {x2 : UInt8} (hrounds : 257 ≤ rounds)
    (hx : x2.toNat < 255) (s : ScrBuf) : ∃ s', drawHorLine rounds x1 x2 y m.mode s = some s' ∧
      Paints pixel (rectangle x1.toNat y.toNat x2.toNat y.toNat) (fun _ v => !v) s s' := by
  have hdisjoint (i j : ℕ) (h : i ≠ j) : Disjoint (pixelsAt i y.toNat) (pixelsAt j y.toNat) :=
    Set.disjoint_left.mpr fun _ hp hp' => h (hp.1.symm.trans hp'.1)
  obtain ⟨s', hs', hpaints⟩ := drawLine_paints m (fun i => (i, y))
    (fun i => pixelsAt i y.toNat) hrounds hx (fun _ => rfl) hdisjoint s
  exact ⟨s', hs', hpaints.of_region_eq (before_line _ _ _)⟩

end Lines

section Rectangle

theorem clip_toNat (v : UInt8) {size : ℕ} (hpos : 0 < size) (hsize : size < 256) :
    (clip v size).toNat = min v.toNat (size - 1) := by
  rw [clip]
  split_ifs with h
  · rw [UInt8.toNat_ofNat', Nat.mod_eq_of_lt (by omega), Nat.min_eq_right (by omega)]
  · rw [Nat.min_eq_left (by omega)]

theorem clip_lt (v : UInt8) {size : ℕ} (hpos : 0 < size) (hsize : size < 256) :
    (clip v size).toNat < size := by
  rw [clip_toNat v hpos hsize]
  omega

theorem clip_of_lt {v : UInt8} {size : ℕ} (h : v.toNat < size) : clip v size = v :=
  if_neg (by omega)

theorem drawRect_clip (rounds : ℕ) (x1 y1 x2 y2 mode : UInt8) (s : ScrBuf) :
    drawRect rounds x1 y1 (clip x2 scrWidth) (clip y2 scrHeight) mode s =
      drawRect rounds x1 y1 x2 y2 mode s := by
  rw [drawRect, clip_of_lt (clip_lt x2 (by decide) (by decide)),
    clip_of_lt (clip_lt y2 (by decide) (by decide))]
  rfl

@[simp] theorem mem_outline {x1 y1 x2 y2 : ℕ} {p : Pixel} : p ∈ outline x1 y1 x2 y2 ↔
    p ∈ rectangle x1 y1 x2 y2 ∧ (p.1.val = x1 ∨ p.1.val = x2 ∨ p.2.val = y1 ∨ p.2.val = y2) :=
  Iff.rfl

theorem outline_empty {x1 y1 x2 y2 : ℕ} (h : x2 < x1 ∨ y2 < y1) :
    ∅ = outline x1 y1 x2 y2 := by
  ext p
  simp only [mem_outline, mem_rectangle, Set.mem_empty_iff_false, false_iff]
  omega

theorem outline_column (x y1 y2 : ℕ) : rectangle x y1 x y2 = outline x y1 x y2 := by
  ext p
  simp only [mem_outline, mem_rectangle]
  omega

theorem outline_row (x1 x2 y : ℕ) : rectangle x1 y x2 y = outline x1 y x2 y := by
  ext p
  simp only [mem_outline, mem_rectangle]
  omega

/-- Two rows with nothing between them. -/
theorem outline_rows {x1 y1 x2 y2 : ℕ} (hy : y2 = y1 + 1) :
    rectangle x1 y1 x2 y1 ∪ rectangle x1 y2 x2 y2 = outline x1 y1 x2 y2 := by
  ext p
  simp only [mem_outline, mem_rectangle, Set.mem_union]
  omega

/-- The corners belong to the rows, and the columns run between these. -/
theorem outline_frame {x1 y1 x2 y2 : ℕ} (hx : x1 < x2) (hy : y1 + 1 < y2) :
    rectangle x1 y1 x2 y1 ∪ rectangle x1 y2 x2 y2 ∪ rectangle x1 (y1 + 1) x1 (y2 - 1) ∪
      rectangle x2 (y1 + 1) x2 (y2 - 1) = outline x1 y1 x2 y2 := by
  ext p
  simp only [mem_outline, mem_rectangle, Set.mem_union]
  omega

/-- The lines share no pixel, and together they are the outline. -/
theorem drawRect_outline (m : XorMode) {x1 y1 x2 y2 : UInt8} {rounds : ℕ}
    (hrounds : 257 ≤ rounds) (hx : x2.toNat < scrWidth) (hy : y2.toNat < scrHeight)
    (s : ScrBuf) : ∃ s', drawRect rounds x1 y1 x2 y2 m.mode s = some s' ∧
      Paints pixel (outline x1.toNat y1.toNat x2.toNat y2.toNat) (fun _ v => !v) s s' := by
  have hx255 : x2.toNat < 255 := hx.trans (by decide)
  have hy255 : y2.toNat < 255 := hy.trans (by decide)
  simp only [drawRect, clip_of_lt hx, clip_of_lt hy]
  by_cases hempty : x1 > x2 ∨ y1 > y2
  · rw [if_pos hempty]
    exact ⟨s, rfl, (Paints.refl _ s).of_region_eq (outline_empty hempty)⟩
  rw [if_neg hempty]
  obtain ⟨hle, hrow⟩ : x1.toNat ≤ x2.toNat ∧ y1.toNat ≤ y2.toNat := by
    rw [not_or, UInt8.not_lt, UInt8.not_lt] at hempty
    exact hempty
  by_cases hline : x1 = x2
  · subst hline
    rw [if_pos rfl, ← outline_column]
    exact drawVerLine_paints m x1 y1 hrounds hy255 s
  rw [if_neg hline]
  rw [← UInt8.toNat_inj] at hline
  obtain ⟨top, htop, ptop⟩ := drawHorLine_paints m x1 y1 hrounds hx255 s
  rw [htop, Option.bind_some]
  by_cases hflat : y1 = y2
  · subst hflat
    rw [if_pos rfl]
    exact ⟨top, rfl, ptop.of_region_eq (outline_row _ _ _)⟩
  rw [if_neg hflat]
  rw [← UInt8.toNat_inj] at hflat
  obtain ⟨rows, hrows, prows⟩ := drawHorLine_paints m x1 y2 hrounds hx255 top
  have pboth := ptop.trans prows (rectangle_disjoint (by omega))
  rw [hrows, Option.bind_some]
  by_cases hsides : (y2.toNat : ℤ) - 1 ≥ y1.toNat + 1
  · have hfirst : (y1 + 1).toNat = y1.toNat + 1 := toNat_succ (by omega)
    have hlast : (y2 - 1).toNat = y2.toNat - 1 :=
      UInt8.toNat_sub_of_le y2 1 (UInt8.le_iff_toNat_le.mpr (by rw [UInt8.toNat_one]; omega))
    have hend : (y2 - 1).toNat < 255 := by omega
    obtain ⟨left, hleft, pleft⟩ := drawVerLine_paints m x1 (y1 + 1) hrounds hend rows
    obtain ⟨right, hright, pright⟩ := drawVerLine_paints m x2 (y1 + 1) hrounds hend left
    rw [hfirst, hlast] at pleft pright
    rw [if_pos hsides, hleft, Option.bind_some]
    refine ⟨right, hright, ((pboth.trans pleft ?_).trans pright ?_).of_region_eq
      (outline_frame (by omega) (by omega))⟩
    · rw [Set.disjoint_union_left]
      exact ⟨rectangle_disjoint (by omega), rectangle_disjoint (by omega)⟩
    · rw [Set.disjoint_union_left, Set.disjoint_union_left]
      exact ⟨⟨rectangle_disjoint (by omega), rectangle_disjoint (by omega)⟩,
        rectangle_disjoint (by omega)⟩
  · rw [if_neg hsides]
    exact ⟨rows, rfl, pboth.of_region_eq (outline_rows (by omega))⟩

theorem drawRect_paints (m : XorMode) (x1 y1 x2 y2 : UInt8) {rounds : ℕ} (hrounds : 257 ≤ rounds)
    (s : ScrBuf) : ∃ s', drawRect rounds x1 y1 x2 y2 m.mode s = some s' ∧
      Paints pixel (clippedOutline x1 y1 x2 y2) (fun _ v => !v) s s' := by
  rw [clippedOutline, ← clip_toNat x2 (by decide) (by decide),
    ← clip_toNat y2 (by decide) (by decide), ← drawRect_clip]
  exact drawRect_outline m hrounds (clip_lt x2 (by decide) (by decide))
    (clip_lt y2 (by decide) (by decide)) s

/-- An inverted outline changes exactly its pixels, and drawing it again restores the screen. -/
theorem drawRect_undoes (m : XorMode) (x1 y1 x2 y2 : UInt8) (s : ScrBuf) :
    ∃ enough, ∀ rounds, enough ≤ rounds → ∃ s', drawRect rounds x1 y1 x2 y2 m.mode s = some s' ∧
      Paints pixel (clippedOutline x1 y1 x2 y2) (fun _ v => !v) s s' ∧
      drawRect rounds x1 y1 x2 y2 m.mode s' = some s := by
  refine ⟨257, fun rounds hrounds => ?_⟩
  obtain ⟨s', hs', hpaints⟩ := drawRect_paints m x1 y1 x2 y2 hrounds s
  obtain ⟨s'', hs'', hpaints'⟩ := drawRect_paints m x1 y1 x2 y2 hrounds s'
  have hback : s'' = s := scrBuf_ext (hpaints.undo hpaints' fun _ v => Bool.not_not v)
  exact ⟨s', hs', hpaints, hback ▸ hs''⟩

end Rectangle

end VehicleTerminal.Gdi
