import Mathlib

/-!
# Stretches of cells that are overwritten

An array of cells as a function of the address, and what it is after a stretch of it was overwritten: how two such
writes compose, and what a stretch is that is written over another.
-/

namespace Patch

variable {α : Type*} {start length : Nat} {data cells : Nat → α}

/-- The cells with `length` of them replaced by data, from a start address on. -/
def patch (start length : Nat) (data cells : Nat → α) : Nat → α := fun place =>
  if start ≤ place ∧ place < start + length then data (place - start) else cells place

theorem patch_inside {place : Nat} (low : start ≤ place) (high : place < start + length) :
    patch start length data cells place = data (place - start) := if_pos ⟨low, high⟩

theorem patch_outside {place : Nat} (outside : place < start ∨ start + length ≤ place) :
    patch start length data cells place = cells place := by
  apply if_neg
  omega

@[simp]
theorem patch_zero : patch start 0 data cells = cells := by
  funext place
  exact patch_outside (by omega)

/-- What is written next to a stretch makes it longer. -/
theorem patch_append (start first second : Nat) (data cells : Nat → α) :
    patch (start + first) second (fun i => data (first + i)) (patch start first data cells) =
      patch start (first + second) data cells := by
  funext place
  by_cases before : place < start + first
  · rw [patch_outside (Or.inl before)]
    by_cases below : place < start
    · rw [patch_outside (Or.inl below), patch_outside (Or.inl below)]
    · rw [patch_inside (by omega) before, patch_inside (by omega) (by omega)]
  · by_cases inside : place < start + first + second
    · rw [patch_inside (by omega) inside, patch_inside (by omega) (by omega)]
      congr 1
      omega
    · rw [patch_outside (by omega), patch_outside (by omega), patch_outside (by omega)]

theorem patch_one (start : Nat) (data cells : Nat → α) :
    patch start 1 data cells = Function.update cells start (data 0) := by
  funext place
  simp only [Function.update_apply]
  split
  · next here => rw [patch_inside (by omega) (by omega), here, Nat.sub_self]
  · exact patch_outside (by omega)

theorem patch_cons (start length : Nat) (data cells : Nat → α) :
    patch (start + 1) length (fun i => data (i + 1)) (Function.update cells start (data 0)) =
      patch start (length + 1) data cells := by
  simp only [Nat.add_comm _ 1, ← patch_one]
  rw [Nat.add_comm 1 start, patch_append]

/-- Only the data inside the stretch counts. -/
theorem patch_congr {data' : Nat → α} (same : ∀ i < length, data i = data' i) :
    patch start length data cells = patch start length data' cells := by
  funext place
  simp only [patch]
  split
  · exact same _ (by omega)
  · rfl

/-- A stretch replaced by another one, but for a part of it that was kept: only the part between changed. -/
theorem patch_within {start' length' : Nat} {base data' : Nat → α} (low : start ≤ start')
    (high : start' + length' ≤ start + length)
    (outside : ∀ place, place < start ∨ start + length ≤ place → base place = cells place)
    (inside : ∀ i < length, data i =
      if start' ≤ start + i ∧ start + i < start' + length' then data' (start + i - start') else cells (start + i)) :
    patch start length data base = patch start' length' data' cells := by
  funext place
  by_cases within : start ≤ place ∧ place < start + length
  · rw [patch_inside within.1 within.2, inside _ (by omega), show start + (place - start) = place by omega]
    rfl
  · rw [patch_outside (by omega), outside _ (by omega), patch_outside (by omega)]

end Patch
