import Mathlib.Data.List.Basic
import Mathlib.Tactic

/-! Texts of single-byte and double-byte characters. A lead byte takes the byte behind it, and a
text may end in a lead byte that has none. -/
namespace MixedText

/-- A whole character. -/
inductive Chr (lead : UInt8 → Bool)
  | single (b : UInt8) (h : lead b = false)
  | double (b c : UInt8) (h : lead b = true)

variable {lead : UInt8 → Bool}

def Chr.bytes : Chr lead → List UInt8
  | .single b _ => [b]
  | .double b c _ => [b, c]

def encode (chars : List (Chr lead)) : List UInt8 := chars.flatMap Chr.bytes

/-- What is left behind the last whole character. -/
def Incomplete (lead : UInt8 → Bool) (tail : List UInt8) : Prop :=
  tail = [] ∨ ∃ b, tail = [b] ∧ lead b = true

@[simp] theorem encode_nil : encode ([] : List (Chr lead)) = [] := rfl

@[simp] theorem encode_cons (c : Chr lead) (chars : List (Chr lead)) :
    encode (c :: chars) = c.bytes ++ encode chars := rfl

@[simp] theorem encode_append (chars chars' : List (Chr lead)) :
    encode (chars ++ chars') = encode chars ++ encode chars' := List.flatMap_append

theorem flatten_encode (groups : List (List (Chr lead))) :
    (groups.map encode).flatten = encode groups.flatten := by
  induction groups with
  | nil => rfl
  | cons group groups ih =>
    rw [List.map_cons, List.flatten_cons, List.flatten_cons, encode_append, ih]

theorem Chr.bytes_length_pos (c : Chr lead) : 0 < c.bytes.length := by
  cases c <;> simp [Chr.bytes]

theorem Chr.bytes_length_le (c : Chr lead) : c.bytes.length ≤ 2 := by
  cases c <;> simp [Chr.bytes]

theorem encode_length_pos {chars : List (Chr lead)} (h : chars ≠ []) :
    0 < (encode chars).length := by
  obtain ⟨c, rest, rfl⟩ := List.exists_cons_of_ne_nil h
  have hc := c.bytes_length_pos
  rw [encode_cons, List.length_append]
  omega

theorem Incomplete.length_le {tail : List UInt8} (h : Incomplete lead tail) :
    tail.length ≤ 1 := by
  rcases h with rfl | ⟨b, rfl, -⟩ <;> simp

/-- Every text is a list of whole characters with at most a lead byte behind it. -/
theorem exists_parse (lead : UInt8 → Bool) (text : List UInt8) :
    ∃ (chars : List (Chr lead)) (tail : List UInt8),
      text = encode chars ++ tail ∧ Incomplete lead tail := by
  induction hn : text.length using Nat.strong_induction_on generalizing text with
  | _ n ih =>
    cases text with
    | nil => exact ⟨[], [], rfl, .inl rfl⟩
    | cons b rest =>
      rw [List.length_cons] at hn
      cases hb : lead b with
      | false =>
        obtain ⟨chars, tail, hrest, htail⟩ := ih rest.length (by omega) rest rfl
        exact ⟨.single b hb :: chars, tail, by rw [hrest]; rfl, htail⟩
      | true =>
        cases rest with
        | nil => exact ⟨[], [b], rfl, .inr ⟨b, rfl, hb⟩⟩
        | cons c rest =>
          rw [List.length_cons] at hn
          obtain ⟨chars, tail, hrest, htail⟩ := ih rest.length (by omega) rest rfl
          exact ⟨.double b c hb :: chars, tail, by rw [hrest]; rfl, htail⟩

end MixedText
