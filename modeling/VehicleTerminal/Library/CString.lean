import VehicleTerminal.Library.Memory
import Mathlib.Data.List.Infix

/-! Texts of C programs as lists of characters, and their comparison with a place in an array,
which reads the array up to the first difference. -/
namespace CString
open BlockMemory

/-- The characters of a literal, without its terminator. -/
def ascii (s : String) : List UInt8 := s.toList.map fun c => UInt8.ofNat c.toNat

/-- The characters that `%d` prints. -/
def decimal (x : ℤ) : List UInt8 :=
  (if x < 0 then [0x2d] else []) ++ (Nat.toDigits 10 x.natAbs).map fun c => UInt8.ofNat c.toNat

/-- The number of bytes before the first NUL, if the array has one. -/
def strlen (mem : List UInt8) : Option ℕ :=
  if 0 ∈ mem then some (mem.takeWhile fun b => b ≠ 0).length else none

/-- `strcpy(&mem[pos], src)`. -/
def strcpy (mem : List UInt8) (pos : ℕ) (src : List UInt8) : Option (List UInt8) :=
  (strlen src).bind fun n => copyIn mem pos src (n + 1)

/-- The characters from `pos` on up to a NUL. -/
def stringAt (mem : List UInt8) (pos : ℕ) : Option (List UInt8) :=
  (strlen (mem.drop pos)).map fun n => slice mem pos n

theorem decimal_length_le {x : ℤ} {digits : ℕ} (hpos : 0 < digits)
    (h : x.natAbs < 10 ^ digits) : (decimal x).length ≤ digits + 1 := by
  have hdigits := Nat.toDigits_length 10 _ digits hpos h
  rw [decimal, List.length_append, List.length_map]
  split_ifs <;> simp <;> omega

/-- The length of a text with its terminator and anything behind it. -/
theorem strlen_of_terminated {s : List UInt8} (behind : List UInt8) (h : 0 ∉ s) :
    strlen (s ++ 0 :: behind) = some s.length := by
  have htext : (s ++ 0 :: behind).takeWhile (fun b => b ≠ 0) = s := by
    rw [List.takeWhile_append_of_pos]
    · simp
    · intro b hb
      have hne : b ≠ 0 := fun heq => h (heq ▸ hb)
      simpa using hne
  rw [strlen, if_pos (by simp), htext]

theorem strcpy_of_le {mem s : List UInt8} {pos : ℕ} (behind : List UInt8) (h : 0 ∉ s)
    (hle : pos + (s.length + 1) ≤ mem.length) :
    strcpy mem pos (s ++ 0 :: behind) = some (blit mem pos (s ++ [0])) := by
  have htext : s ++ 0 :: behind = s ++ [0] ++ behind := by simp
  have hlen : (s ++ [0]).length = s.length + 1 := List.length_append
  rw [strcpy, strlen_of_terminated behind h, Option.bind_some,
    copyIn_of_le hle (by simp), htext, List.take_left' hlen]

theorem stringAt_of_holds {mem s : List UInt8} {pos : ℕ} (h : Holds mem pos (s ++ [0]))
    (hnul : 0 ∉ s) : stringAt mem pos = some s := by
  obtain ⟨behind, hbehind⟩ := h
  rw [List.append_assoc, List.singleton_append] at hbehind
  rw [stringAt, ← hbehind, strlen_of_terminated behind hnul, Option.map_some, slice, ← hbehind,
    List.take_left]

theorem mem_of_mem_splitOn {α : Type*} [DecidableEq α] {text line : List α} {x a : α}
    (hline : line ∈ text.splitOn x) (ha : a ∈ line) : a ∈ text ∧ a ≠ x := by
  induction text generalizing line with
  | nil =>
    rw [List.splitOn_nil, List.mem_singleton] at hline
    exact absurd (hline ▸ ha) List.not_mem_nil
  | cons b text ih =>
    obtain ⟨first, lines, hsplit⟩ := List.exists_cons_of_ne_nil (List.splitOn_ne_nil x text)
    rw [hsplit] at ih
    rw [List.splitOn_cons_eq_if_modifyHead, hsplit] at hline
    by_cases hb : b = x
    · rw [if_pos (beq_iff_eq.mpr hb)] at hline
      rcases List.mem_cons.mp hline with rfl | hline
      · exact absurd ha List.not_mem_nil
      · exact ⟨List.mem_cons_of_mem b (ih hline ha).1, (ih hline ha).2⟩
    · rw [if_neg (fun h => hb (beq_iff_eq.mp h)), List.modifyHead_cons] at hline
      rcases List.mem_cons.mp hline with rfl | hline
      · rcases List.mem_cons.mp ha with rfl | ha
        · exact ⟨List.mem_cons_self, hb⟩
        · have hold := ih List.mem_cons_self ha
          exact ⟨List.mem_cons_of_mem b hold.1, hold.2⟩
      · have hold := ih (List.mem_cons_of_mem first hline) ha
        exact ⟨List.mem_cons_of_mem b hold.1, hold.2⟩

/-- Whether `strncmp` finds the characters of `s`, none of which is NUL, from `pos` on. There is
no result when it reads outside the array. -/
def strncmpEq : List UInt8 → List UInt8 → ℕ → Option Bool
  | [], _, _ => some true
  | c :: s, mem, pos =>
    (mem[pos]?).bind fun b => if b = c then strncmpEq s mem (pos + 1) else some false

theorem strncmpEq_of_le {s mem : List UInt8} {pos : ℕ} (h : pos + s.length ≤ mem.length) :
    strncmpEq s mem pos = some (decide (s <+: mem.drop pos)) := by
  induction s generalizing pos with
  | nil => simp [strncmpEq]
  | cons c s ih =>
    rw [List.length_cons] at h
    have hpos : pos < mem.length := by omega
    have hsplit : c :: s <+: mem.drop pos ↔ c = mem[pos] ∧ s <+: mem.drop (pos + 1) := by
      rw [List.drop_eq_getElem_cons hpos, List.cons_prefix_cons]
    rw [strncmpEq, List.getElem?_eq_getElem hpos, Option.bind_some, ih (by omega)]
    by_cases hc : mem[pos] = c
    · rw [if_pos hc, decide_eq_decide.mpr (hsplit.trans (and_iff_right hc.symm))]
    · rw [if_neg hc, decide_eq_false fun h => hc (hsplit.mp h).1.symm]

theorem strncmpEq_iff {s mem : List UInt8} {pos : ℕ} :
    strncmpEq s mem pos = some true ↔ s <+: mem.drop pos := by
  induction s generalizing pos with
  | nil => simp [strncmpEq]
  | cons c s ih =>
    by_cases hpos : pos < mem.length
    · have hmem : mem.drop pos = mem[pos] :: mem.drop (pos + 1) := List.drop_eq_getElem_cons hpos
      rw [strncmpEq, List.getElem?_eq_getElem hpos, Option.bind_some, hmem, List.cons_prefix_cons]
      by_cases hc : mem[pos] = c
      · rw [if_pos hc, ih, and_iff_right hc.symm]
      · rw [if_neg hc]
        exact iff_of_false (by decide) fun h => hc h.1.symm
    · have hend := not_lt.mp hpos
      rw [strncmpEq, List.getElem?_eq_none hend, List.drop_eq_nil_of_le hend]
      simp

/-- A text that an array begins with is found before a character that the text lacks. -/
theorem isPrefix_iff_of_mark {α : Type*} {s t mem : List α} {x : α} (hmem : t ++ [x] <+: mem)
    (hx : x ∉ s) : s <+: mem ↔ s <+: t ++ [x] := by
  constructor
  · intro hs
    rcases List.prefix_or_prefix_of_prefix hs hmem with hinside | hover
    · exact hinside
    · exact absurd (hover.subset (by simp)) hx
  · intro hs
    exact hs.trans hmem

end CString
