import VehicleTerminal.Library.BitLayout
import VehicleTerminal.Library.Memory

/-! The two formats of a glyph of 16 by 16 pixels in `lcd_driver.C`. The graph format has a byte
for eight columns of a row, the left one in the highest bit; the format of the fonts has a byte for
eight rows of a column, the upper one in the lowest bit. -/
namespace VehicleTerminal.LcdDriver
open BitLayout BlockMemory

section Model

/-- A byte of the new format: bit `7-i` of eight bytes of the graph, from `pG` on. -/
def newChar (pGraphBuffer : List UInt8) (pG i : ℕ) : Option UInt8 :=
  (List.range 8).foldlM (fun newChar j =>
    (pGraphBuffer[pG + j]?).map fun temp =>
      let temp := temp &&& (1 : UInt8) <<< (7 - UInt8.ofNat i)
      let temp := temp >>> (7 - UInt8.ofNat i)
      newChar ||| temp <<< UInt8.ofNat j) 0

/-- One of the four loops, which goes on at `pC`. -/
def convertQuarter (pGraphBuffer : List UInt8) (pG pC : ℕ) (pChineseBuffer : List UInt8) :
    Option (List UInt8) :=
  (List.range 8).foldlM (fun pChineseBuffer i =>
    (newChar pGraphBuffer pG i).bind fun newChar => store pChineseBuffer (pC + i) newChar)
    pChineseBuffer

/-- The upper left, the upper right, the lower left and the lower right quarter. -/
def changeGraphFormatToChineseFormat (pChineseBuffer pGraphBuffer : List UInt8) :
    Option (List UInt8) :=
  (convertQuarter pGraphBuffer 0 0 pChineseBuffer).bind fun pChineseBuffer =>
    (convertQuarter pGraphBuffer 16 8 pChineseBuffer).bind fun pChineseBuffer =>
      (convertQuarter pGraphBuffer 8 16 pChineseBuffer).bind fun pChineseBuffer =>
        convertQuarter pGraphBuffer 24 24 pChineseBuffer

end Model

abbrev Glyph := Fin 32 → UInt8

/-- Row and column. -/
abbrev Pixel := Fin 16 × Fin 16

def graphLayout : Layout Pixel 32 where
  toFun p := (⟨16 * (p.2 / 8) + p.1, by omega⟩, ⟨7 - p.2 % 8, by omega⟩)
  invFun b := (⟨b.1 % 16, by omega⟩, ⟨8 * (b.1 / 16) + (7 - b.2), by omega⟩)
  left_inv p := by ext <;> dsimp only <;> omega
  right_inv b := by ext <;> dsimp only <;> omega

def chineseLayout : Layout Pixel 32 where
  toFun p := (⟨16 * (p.1 / 8) + p.2, by omega⟩, ⟨p.1 % 8, by omega⟩)
  invFun b := (⟨8 * (b.1 / 16) + b.2, by omega⟩, ⟨b.1 % 16, by omega⟩)
  left_inv p := by ext <;> dsimp only <;> omega
  right_inv b := by ext <;> dsimp only <;> omega

section Bytes

/-- The byte that `newChar` builds of the bytes at `graph`. -/
def column (graph : ℕ → UInt8) (i : ℕ) : ℕ → UInt8
  | 0 => 0
  | n + 1 => column graph i n |||
      (graph n &&& (1 : UInt8) <<< (7 - UInt8.ofNat i)) >>> (7 - UInt8.ofNat i) <<< UInt8.ofNat n

theorem pick_bit (b : UInt8) {i : ℕ} (hi : i < 8) :
    (b &&& (1 : UInt8) <<< (7 - UInt8.ofNat i)) >>> (7 - UInt8.ofNat i) =
      if b.toNat.testBit (7 - i) then 1 else 0 := by
  have hpick : ∀ n < 256, ∀ i < 8,
      (UInt8.ofNat n &&& (1 : UInt8) <<< (7 - UInt8.ofNat i)) >>> (7 - UInt8.ofNat i) =
        if n.testBit (7 - i) then 1 else 0 := by decide +kernel
  simpa using hpick b.toNat b.toNat_lt i hi

theorem bit_shiftLeft {j k : ℕ} (hj : j < 8) (hk : k < 8) (b : Bool) :
    ((if b then 1 else 0 : UInt8) <<< UInt8.ofNat j).toNat.testBit k = (decide (k = j) && b) := by
  have hplace : ∀ j < 8, ∀ k < 8, ∀ b : Bool,
      ((if b then 1 else 0 : UInt8) <<< UInt8.ofNat j).toNat.testBit k = (decide (k = j) && b) := by
    decide
  exact hplace j hj k hk b

/-- After `n` rounds the bits below `n` are those of the column. -/
theorem testBit_column (graph : ℕ → UInt8) {i k n : ℕ} (hi : i < 8) (hk : k < 8) (hn : n ≤ 8) :
    (column graph i n).toNat.testBit k =
      (decide (k < n) && (graph k).toNat.testBit (7 - i)) := by
  induction n with
  | zero => simp [column]
  | succ n ih =>
    rw [column, UInt8.toNat_or, Nat.testBit_or, ih (by omega), pick_bit _ hi,
      bit_shiftLeft (by omega) hk]
    rcases lt_trichotomy k n with hlt | rfl | hgt
    · simp [hlt, hlt.ne, hlt.trans (Nat.lt_succ_self n)]
    · simp
    · simp [hgt.not_gt, hgt.ne', Nat.not_lt.mpr hgt]

end Bytes

section Loops

variable {pGraphBuffer pChineseBuffer : List UInt8} {pG pC n : ℕ}

/-- The bytes from `pG` on. -/
def bytesFrom (pGraphBuffer : List UInt8) (pG j : ℕ) : UInt8 := pGraphBuffer.getD (pG + j) 0

theorem newChar_eq (hgraph : pG + 8 ≤ pGraphBuffer.length) (i : ℕ) :
    newChar pGraphBuffer pG i = some (column (bytesFrom pGraphBuffer pG) i 8) := by
  have hrounds : ∀ n ≤ 8, (List.range n).foldlM (fun newChar j =>
      (pGraphBuffer[pG + j]?).map fun temp => newChar |||
        (temp &&& (1 : UInt8) <<< (7 - UInt8.ofNat i)) >>> (7 - UInt8.ofNat i) <<<
          UInt8.ofNat j) 0 = some (column (bytesFrom pGraphBuffer pG) i n) := by
    intro n hn
    induction n with
    | zero => rfl
    | succ n ih =>
      have hin : pG + n < pGraphBuffer.length := by omega
      rw [List.range_succ, List.foldlM_append, ih (by omega)]
      simp [column, bytesFrom, List.getElem?_eq_getElem hin]
  exact hrounds 8 le_rfl

/-- The bytes of one loop. -/
def quarter (pGraphBuffer : List UInt8) (pG n : ℕ) : List UInt8 :=
  (List.range n).map fun i => column (bytesFrom pGraphBuffer pG) i 8

theorem quarter_length (pGraphBuffer : List UInt8) (pG n : ℕ) :
    (quarter pGraphBuffer pG n).length = n := by
  rw [quarter, List.length_map, List.length_range]

theorem quarter_succ (pGraphBuffer : List UInt8) (pG n : ℕ) :
    quarter pGraphBuffer pG (n + 1) =
      quarter pGraphBuffer pG n ++ [column (bytesFrom pGraphBuffer pG) n 8] := by
  rw [quarter, quarter, List.range_succ, List.map_append, List.map_singleton]

theorem convertQuarter_eq (hgraph : pG + 8 ≤ pGraphBuffer.length)
    (hchinese : pC + 8 ≤ pChineseBuffer.length) :
    convertQuarter pGraphBuffer pG pC pChineseBuffer =
      some (blit pChineseBuffer pC (quarter pGraphBuffer pG 8)) := by
  have hrounds : ∀ n ≤ 8, (List.range n).foldlM (fun pChineseBuffer i =>
      (newChar pGraphBuffer pG i).bind fun newChar => store pChineseBuffer (pC + i) newChar)
      pChineseBuffer = some (blit pChineseBuffer pC (quarter pGraphBuffer pG n)) := by
    intro n hn
    induction n with
    | zero =>
      rw [List.range_zero, List.foldlM_nil, quarter, List.range_zero, List.map_nil, blit_nil]
      rfl
    | succ n ih =>
      have hlength := quarter_length pGraphBuffer pG n
      have hmem := blit_length pChineseBuffer pC (quarter pGraphBuffer pG n) (by omega)
      have hnext := blit_blit pChineseBuffer pC (quarter pGraphBuffer pG n)
        [column (bytesFrom pGraphBuffer pG) n 8] (by rw [List.length_singleton]; omega)
      rw [hlength] at hnext
      rw [List.range_succ, List.foldlM_append, ih (by omega), quarter_succ, ← hnext]
      have hin : pC + n < (blit pChineseBuffer pC (quarter pGraphBuffer pG n)).length := by omega
      simp [newChar_eq hgraph, store_of_lt _ hin]
  exact hrounds 8 le_rfl

/-- A loop goes on behind what is already converted. -/
theorem convertQuarter_append {dest done : List UInt8} (hgraph : pG + 8 ≤ pGraphBuffer.length)
    (hdone : done.length = pC) (hdest : pC + 8 ≤ dest.length) :
    convertQuarter pGraphBuffer pG pC (blit dest 0 done) =
      some (blit dest 0 (done ++ quarter pGraphBuffer pG 8)) := by
  have hlength := quarter_length pGraphBuffer pG 8
  have hmem := blit_length dest 0 done (by omega)
  have hnext := blit_blit dest 0 done (quarter pGraphBuffer pG 8) (by omega)
  rw [hdone, Nat.zero_add] at hnext
  rw [convertQuarter_eq hgraph (by omega), hnext]

end Loops

section Transposition

/-- The glyph in the new format. -/
def transposed (glyph : Glyph) : Glyph := fun b =>
  column (bytesFrom (List.ofFn glyph) (16 * (b.val / 8 % 2) + 8 * (b.val / 16))) (b.val % 8) 8

theorem changeGraphFormat_eq (glyph : Glyph) {dest : List UInt8} (h : 32 ≤ dest.length) :
    changeGraphFormatToChineseFormat dest (List.ofFn glyph) =
      some (blit dest 0 (List.ofFn (transposed glyph))) := by
  have hlength : (List.ofFn glyph).length = 32 := List.length_ofFn
  have hquarter (pG : ℕ) := quarter_length (List.ofFn glyph) pG 8
  have hparts : List.ofFn (transposed glyph) = quarter (List.ofFn glyph) 0 8 ++
      quarter (List.ofFn glyph) 16 8 ++ quarter (List.ofFn glyph) 8 8 ++
        quarter (List.ofFn glyph) 24 8 := rfl
  rw [changeGraphFormatToChineseFormat, convertQuarter_eq (by omega) (by omega), Option.bind_some,
    convertQuarter_append (by omega) (hquarter 0) (by omega), Option.bind_some,
    convertQuarter_append (by omega) ?_ (by omega), Option.bind_some,
    convertQuarter_append (by omega) ?_ (by omega), hparts]
  · rw [List.length_append, List.length_append, hquarter, hquarter, hquarter]
  · rw [List.length_append, hquarter, hquarter]

theorem bytesFrom_ofFn (glyph : Glyph) {pG j : ℕ} (h : pG + j < 32) :
    bytesFrom (List.ofFn glyph) pG j = glyph ⟨pG + j, h⟩ := by
  have hin : pG + j < (List.ofFn glyph).length := by rwa [List.length_ofFn]
  rw [bytesFrom, List.getD_eq_getElem?_getD, List.getElem?_eq_getElem hin, List.getElem_ofFn]
  rfl

/-- Bit `r % 8` of the byte of column `c` in the half of row `r` is the pixel. -/
theorem picture_transposed (glyph : Glyph) (p : Pixel) :
    picture chineseLayout (transposed glyph) p = picture graphLayout glyph p := by
  obtain ⟨r, c⟩ := p
  have hr := r.isLt
  have hc := c.isLt
  have hhalf : (16 * (r.val / 8) + c) / 8 % 2 = c / 8 := by omega
  have hpage : (16 * (r.val / 8) + c) / 16 = r / 8 := by omega
  have hcolumn : (16 * (r.val / 8) + c) % 8 = c % 8 := by omega
  have hrow : 16 * (c.val / 8) + 8 * (r.val / 8) + r % 8 = 16 * (c / 8) + r := by omega
  have hbyte : 16 * (c.val / 8) + 8 * (r.val / 8) + r % 8 < 32 := by omega
  simp only [picture_apply, chineseLayout, graphLayout, Equiv.coe_fn_mk, transposed]
  rw [testBit_column _ (Nat.mod_lt _ (by decide)) (Nat.mod_lt _ (by decide)) le_rfl]
  simp only [hhalf, hpage, hcolumn]
  rw [bytesFrom_ofFn glyph hbyte]
  simp only [hrow]
  simp [Nat.mod_lt]

theorem transposed_eq_convert (glyph : Glyph) :
    transposed glyph = convert graphLayout chineseLayout glyph :=
  eq_convert_iff.mpr (picture_transposed glyph)

/-- No two glyphs have the same transposed one, and every glyph is one. -/
theorem transposed_bijective : Function.Bijective transposed := by
  have hconvert : transposed = convert graphLayout chineseLayout := funext transposed_eq_convert
  rw [hconvert]
  exact (convert graphLayout chineseLayout).bijective

/-- The whole array is written, whatever it held, pixel by pixel the glyph in the other layout, and
no glyph is lost. -/
theorem glyph_transposed (dest glyph : Glyph) :
    changeGraphFormatToChineseFormat (List.ofFn dest) (List.ofFn glyph) =
      some (List.ofFn (transposed glyph)) ∧
    (∀ (r c : ℕ) (hr : r < 16) (hc : c < 16),
      (transposed glyph ⟨16 * (r / 8) + c, by omega⟩).toNat.testBit (r % 8) =
        (glyph ⟨16 * (c / 8) + r, by omega⟩).toNat.testBit (7 - c % 8)) ∧
    Function.Bijective transposed := by
  have hdest : (List.ofFn dest).length = 32 := List.length_ofFn
  have hall := blit_all (List.length_ofFn.trans hdest.symm :
    (List.ofFn (transposed glyph)).length = (List.ofFn dest).length)
  refine ⟨?_, fun r c hr hc => ?_, transposed_bijective⟩
  · rw [changeGraphFormat_eq glyph hdest.ge, hall]
  · exact picture_transposed glyph (⟨r, hr⟩, ⟨c, hc⟩)

end Transposition

end VehicleTerminal.LcdDriver
