import XinuStm32.Lib.Patch

/-!
# Strings that end with a zero

A string in an array of cells: what it is determined by, how it is found at the first zero, and what copies of it, of
its rest and of one string behind another hold.
-/

namespace CString

open Patch

variable {α : Type*} [Zero α] {cells other : Nat → α} {text text' front back : List α} {count : Nat}

/-- The cells hold the text and a zero behind it, and the text has none. -/
structure Holds (cells : Nat → α) (text : List α) : Prop where
  chars : ∀ i (inside : i < text.length), cells i = text[i]
  ends : cells text.length = 0
  plain : ∀ char ∈ text, char ≠ 0

theorem Holds.ne_zero (holds : Holds cells text) {i : Nat} (inside : i < text.length) : cells i ≠ 0 := by
  rw [holds.chars i inside]
  exact holds.plain _ (List.getElem_mem inside)

/-- The text ends at the first zero. -/
theorem Holds.length_eq (holds : Holds cells text) {place : Nat} (zero : cells place = 0)
    (first : ∀ i < place, cells i ≠ 0) : text.length = place := by
  cases Nat.lt_trichotomy text.length place with
  | inl less => exact absurd holds.ends (first _ less)
  | inr rest =>
    cases rest with
    | inl same => exact same
    | inr more => exact absurd zero (holds.ne_zero more)

theorem Holds.unique (first : Holds cells text) (second : Holds cells text') : text = text' := by
  have lengths : text.length = text'.length := first.length_eq second.ends fun i inside => second.ne_zero inside
  apply List.ext_getElem lengths
  intro i inside inside'
  rw [← first.chars i inside, ← second.chars i inside']

/-- Where there is a zero, there is a string. -/
theorem exists_holds (cells : Nat → α) {place : Nat} (zero : cells place = 0) (first : ∀ i < place, cells i ≠ 0) :
    ∃ text, Holds cells text ∧ text.length = place := by
  refine ⟨(List.range place).map cells, ⟨by simp, by simpa using zero, ?_⟩, by simp⟩
  intro char member
  obtain ⟨i, inside, rfl⟩ := List.mem_map.mp member
  exact first i (List.mem_range.mp inside)

/-- Only the cells of the string and the zero matter. -/
theorem Holds.congr (holds : Holds cells text) (same : ∀ i ≤ text.length, other i = cells i) : Holds other text := by
  refine ⟨?_, ?_, holds.plain⟩
  · intro i inside
    rw [same i (Nat.le_of_lt inside), holds.chars i inside]
  · rw [same _ (Nat.le_refl _), holds.ends]

/-- A copy that reaches the zero. -/
theorem Holds.copied (holds : Holds cells text) (reaches : text.length < count) :
    Holds (patch 0 count cells other) text := by
  apply holds.congr
  intro i inside
  rw [patch_inside (Nat.zero_le i) (by omega), Nat.sub_zero]

/-- The rest of a string behind another one. -/
theorem Holds.append (holds : Holds cells back) (plain : ∀ char ∈ front, char ≠ 0)
    (chars : ∀ i (inside : i < front.length), other i = front[i]) (reaches : back.length < count) :
    Holds (patch front.length count cells other) (front ++ back) := by
  constructor
  · intro i inside
    by_cases before : i < front.length
    · rw [patch_outside (Or.inl before), List.getElem_append_left before]
      exact chars i before
    · rw [List.length_append] at inside
      rw [patch_inside (by omega) (by omega), List.getElem_append_right (by omega)]
      exact holds.chars _ (by omega)
  · rw [List.length_append, patch_inside (by omega) (by omega), Nat.add_sub_cancel_left]
    exact holds.ends
  · intro char member
    cases List.mem_append.mp member with
    | inl early => exact plain char early
    | inr late => exact holds.plain char late

theorem Holds.drop (holds : Holds cells text) (count : Nat) (inside : count ≤ text.length) :
    Holds (fun i => cells (count + i)) (text.drop count) := by
  constructor
  · intro i within
    rw [List.length_drop] at within
    rw [List.getElem_drop]
    exact holds.chars _ (by omega)
  · rw [List.length_drop, Nat.add_sub_cancel' inside]
    exact holds.ends
  · exact fun char member => holds.plain char (List.mem_of_mem_drop member)

/-- A string begins with another one when their cells agree up to the zero of the other. -/
theorem Holds.prefix_iff (holds : Holds cells text) (begins : Holds other front) :
    front <+: text ↔ ∀ i < front.length, other i = cells i := by
  constructor
  · rintro ⟨rest, rfl⟩ i inside
    rw [begins.chars i inside, holds.chars i (by rw [List.length_append]; omega), List.getElem_append_left inside]
  · intro agree
    have shorter : front.length ≤ text.length := by
      by_contra longer
      have zero := agree text.length (by omega)
      rw [holds.ends] at zero
      exact begins.ne_zero (by omega) zero
    rw [List.prefix_iff_eq_take]
    apply List.ext_getElem (by simp [shorter])
    intro i inside inside'
    rw [List.getElem_take, ← begins.chars i inside, agree i inside, holds.chars i (by omega)]

end CString
