import Mathlib

/-!
# Ring buffers

A list laid out in the slots of a ring from a head slot on, up to a tail slot. Putting in at the
tail, taking from the head and moving the tail back are operations on the list.
-/

namespace Ring

variable {α : Type*} {size head tail : Int} {buffer : Int → α} {items : List α}

/-- The slot so many places after `start`. -/
def slot (size start : Int) (offset : Nat) : Int := (start + offset) % size

/-- The slot after a slot. -/
def next (size place : Int) : Int := if place + 1 ≥ size then 0 else place + 1

/-- The slot so many places before a slot. -/
def back (size place count : Int) : Int := if place - count < 0 then place - count + size else place - count

/-- The list is what the slots from head to tail hold. -/
structure Holds (size : Int) (buffer : Int → α) (head tail : Int) (items : List α) : Prop where
  head_low : 0 ≤ head
  head_high : head < size
  fits : (items.length : Int) ≤ size
  tail_slot : tail = slot size head items.length
  stored : ∀ offset item, items[offset]? = some item → buffer (slot size head offset) = item

/-! ## Slots -/

/-- A slot at most one round after a slot of the ring takes at most one wrap. -/
theorem slot_eq {start : Int} {offset : Nat} (low : 0 ≤ start) (high : start < size) (round : (offset : Int) ≤ size) :
    slot size start offset = if start + offset < size then start + offset else start + offset - size := by
  simp only [slot]
  split
  case isTrue before => exact Int.emod_eq_of_lt (by omega) before
  case isFalse past =>
    rw [← Int.sub_emod_right]
    exact Int.emod_eq_of_lt (by omega) (by omega)

theorem slot_range {start : Int} {offset : Nat} (low : 0 ≤ start) (high : start < size) :
    0 ≤ slot size start offset ∧ slot size start offset < size :=
  ⟨Int.emod_nonneg _ (by omega), Int.emod_lt_of_pos _ (by omega)⟩

/-- Slots less than a round away are different. -/
theorem slot_ne {start : Int} {offset offset' : Nat} (low : 0 ≤ start) (high : start < size) (less : offset < offset')
    (round : (offset' : Int) < size) : slot size start offset ≠ slot size start offset' := by
  rw [slot_eq low high (by omega), slot_eq low high (by omega)]
  split <;> split <;> omega

theorem slot_next {start : Int} {offset : Nat} (low : 0 ≤ start) (high : start < size)
    (round : (offset : Int) + 1 ≤ size) : slot size (next size start) offset = slot size start (offset + 1) := by
  have advanced : 0 ≤ next size start ∧ next size start < size := by
    simp only [next]
    split <;> omega
  rw [slot_eq low high (by omega), slot_eq advanced.1 advanced.2 (by omega)]
  simp only [next]
  split <;> split <;> split <;> omega

theorem next_slot {start : Int} {offset : Nat} (low : 0 ≤ start) (high : start < size)
    (round : (offset : Int) < size) : next size (slot size start offset) = slot size start (offset + 1) := by
  rw [slot_eq low high (by omega), slot_eq low high (by omega)]
  simp only [next]
  split <;> split <;> split <;> omega

theorem back_slot {start : Int} {offset count : Nat} (low : 0 ≤ start) (high : start < size)
    (round : ((offset + count : Nat) : Int) ≤ size) (part : (offset : Int) < size) :
    back size (slot size start (offset + count)) count = slot size start offset := by
  rw [slot_eq low high round, slot_eq low high (by omega)]
  simp only [back]
  split <;> split <;> split <;> omega

/-! ## Operations -/

namespace Holds

theorem tail_range (holds : Holds size buffer head tail items) : 0 ≤ tail ∧ tail < size := by
  rw [holds.tail_slot]
  exact slot_range holds.head_low holds.head_high

/-- An empty ring. -/
theorem empty (low : 0 ≤ head) (high : head < size) : Holds size buffer head head [] where
  head_low := low
  head_high := high
  fits := by simpa using (by omega : 0 ≤ size)
  tail_slot := by
    rw [List.length_nil, slot_eq low high (by simpa using (by omega : 0 ≤ size))]
    simp [high]
  stored offset item found := by simp at found

/-- While the ring is not full, the tail slot is none of the slots in use. -/
theorem tail_free (holds : Holds size buffer head tail items) (room : (items.length : Int) < size) {offset : Nat}
    (used : offset < items.length) : slot size head offset ≠ tail := by
  rw [holds.tail_slot]
  exact slot_ne holds.head_low holds.head_high used room

/-- Put an item in at the tail of a ring that is not full. -/
theorem put (holds : Holds size buffer head tail items) (room : (items.length : Int) < size) (item : α) :
    Holds size (Function.update buffer tail item) head (next size tail) (items ++ [item]) where
  head_low := holds.head_low
  head_high := holds.head_high
  fits := by
    rw [List.length_append]
    exact room
  tail_slot := by
    rw [holds.tail_slot, next_slot holds.head_low holds.head_high room, List.length_append]
    rfl
  stored offset found present := by
    obtain before | here | after := Nat.lt_trichotomy offset items.length
    · -- an older item keeps its slot
      rw [List.getElem?_append_left before] at present
      rw [Function.update_of_ne (holds.tail_free room before)]
      exact holds.stored offset found present
    · subst here
      rw [List.getElem?_append_right (Nat.le_refl _), Nat.sub_self] at present
      rw [← holds.tail_slot, Function.update_self]
      exact Option.some.inj present
    · rw [List.getElem?_eq_none (by rw [List.length_append]; exact after)] at present
      cases present

/-- Take the item at the head. -/
theorem take {item : α} (holds : Holds size buffer head tail (item :: items)) :
    buffer head = item ∧ Holds size buffer (next size head) tail items := by
  have fits := holds.fits
  rw [List.length_cons] at fits
  constructor
  · have first := holds.stored 0 item rfl
    rw [slot_eq holds.head_low holds.head_high (by omega), if_pos (by have := holds.head_high; omega)] at first
    simpa using first
  · have low := holds.head_low
    have high := holds.head_high
    have advanced : 0 ≤ next size head ∧ next size head < size := by
      simp only [next]
      split <;> omega
    refine ⟨advanced.1, advanced.2, by omega, ?_, ?_⟩
    · rw [holds.tail_slot, slot_next low high (by omega), List.length_cons]
    · intro offset found present
      have inside : offset < items.length := (List.getElem?_eq_some_iff.mp present).1
      rw [slot_next low high (by omega)]
      exact holds.stored (offset + 1) found (by rwa [List.getElem?_cons_succ])

/-- Move the tail back over the last items. -/
theorem retract {dropped : List α} (holds : Holds size buffer head tail (items ++ dropped)) :
    Holds size buffer head (back size tail dropped.length) items := by
  cases dropped with
  | nil =>
    have range := holds.tail_range
    rw [List.append_nil] at holds
    simp only [back, List.length_nil]
    rwa [if_neg (by omega), show tail - ((0 : Nat) : Int) = tail by omega]
  | cons last dropped =>
    have fits := holds.fits
    rw [List.length_append, List.length_cons] at fits
    refine ⟨holds.head_low, holds.head_high, by omega, ?_, ?_⟩
    · rw [holds.tail_slot, List.length_append]
      exact back_slot holds.head_low holds.head_high (by rw [List.length_cons]; omega) (by omega)
    · intro offset found present
      apply holds.stored offset found
      rw [List.getElem?_append_left (List.getElem?_eq_some_iff.mp present).1]
      exact present

end Holds

end Ring
