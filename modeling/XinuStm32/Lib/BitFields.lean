import Mathlib

/-!
# Bit fields

A field of a machine word is a range of its bits, the lowest first. Fields that do not overlap are stored independently,
and fields that cover a range determine it.
-/

namespace BitFields

variable {n width width' : Nat} {word other : BitVec n}

/-- The field of so many bits from a place on. -/
def field (place width : Nat) (word : BitVec n) : BitVec width := word.extractLsb' place width

/-- The word with a field stored in it. -/
def setField (place : Nat) (value : BitVec width) (word : BitVec n) : BitVec n :=
  word &&& ~~~((BitVec.allOnes width).setWidth n <<< place) ||| value.setWidth n <<< place

theorem getLsbD_field (place width : Nat) (word : BitVec n) (i : Nat) :
    (field place width word).getLsbD i = (decide (i < width) && word.getLsbD (place + i)) := by
  rw [field, BitVec.getLsbD_extractLsb']

theorem getLsbD_setField (place : Nat) (value : BitVec width) (word : BitVec n) {i : Nat} (inside : i < n) :
    (setField place value word).getLsbD i =
      if place ≤ i ∧ i < place + width then value.getLsbD (i - place) else word.getLsbD i := by
  simp only [setField, BitVec.getLsbD_or, BitVec.getLsbD_and, BitVec.getLsbD_not, BitVec.getLsbD_shiftLeft,
    BitVec.getLsbD_setWidth, BitVec.getLsbD_allOnes, inside, decide_true, Bool.true_and]
  by_cases low : i < place
  · rw [if_neg (by omega)]
    simp [low]
  · by_cases high : i < place + width
    · rw [if_pos ⟨by omega, high⟩]
      have within : i - place < width := by omega
      have within' : i - place < n := by omega
      simp [low, within, within']
    · rw [if_neg (by omega)]
      have beyond : ¬i - place < width := by omega
      have none : value.getLsbD (i - place) = false := BitVec.getLsbD_of_ge _ _ (by omega)
      simp [low, beyond, none]

/-- A field that was stored is read back. -/
theorem field_setField (place : Nat) (value : BitVec width) (word : BitVec n) (inside : place + width ≤ n) :
    field place width (setField place value word) = value := by
  apply BitVec.eq_of_getLsbD_eq
  intro i within
  rw [getLsbD_field, getLsbD_setField _ _ _ (by omega), if_pos (by omega), Nat.add_sub_cancel_left]
  simp [within]

/-- A field is as it was when another one is stored beside it. -/
theorem field_setField_apart {place place' : Nat} (value : BitVec width) (word : BitVec n)
    (inside : place' + width' ≤ n)
    (apart : place' + width' ≤ place ∨ place + width ≤ place') :
    field place' width' (setField place value word) = field place' width' word := by
  apply BitVec.eq_of_getLsbD_eq
  intro i within
  rw [getLsbD_field, getLsbD_field, getLsbD_setField _ _ _ (by omega), if_neg (by omega)]

/-- Two fields side by side determine the field over both. -/
theorem field_join {place : Nat} (low : field place width word = field place width other)
    (high : field (place + width) width' word = field (place + width) width' other) :
    field place (width + width') word = field place (width + width') other := by
  apply BitVec.eq_of_getLsbD_eq
  intro i within
  by_cases first : i < width
  · have same := congrArg (·.getLsbD i) low
    simp only [getLsbD_field, first, decide_true, Bool.true_and] at same
    rw [getLsbD_field, getLsbD_field, same]
  · have same := congrArg (·.getLsbD (i - width)) high
    have second : i - width < width' := by omega
    have position : place + width + (i - width) = place + i := by omega
    simp only [getLsbD_field, second, decide_true, Bool.true_and, position] at same
    rw [getLsbD_field, getLsbD_field, same]

/-- A field determines every field within it. -/
theorem field_within {place place' : Nat} (whole : field place width word = field place width other)
    (low : place ≤ place')
    (high : place' + width' ≤ place + width) : field place' width' word = field place' width' other := by
  apply BitVec.eq_of_getLsbD_eq
  intro i within
  have same := congrArg (·.getLsbD (place' + i - place)) whole
  have inside : place' + i - place < width := by omega
  have position : place + (place' + i - place) = place' + i := by omega
  simp only [getLsbD_field, inside, decide_true, Bool.true_and, position] at same
  rw [getLsbD_field, getLsbD_field, same]

end BitFields
