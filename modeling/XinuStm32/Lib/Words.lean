import Mathlib

/-!
# Little-endian words in byte memory

A memory of bytes, read and written as 32-bit words at any address. A word that was stored is read
back, and a store leaves every byte outside its four alone.
-/

namespace Words

/-- The word whose lowest byte is at an address. -/
def load (ram : Nat → UInt8) (a : Nat) : Nat :=
  (ram a).toNat + 2 ^ 8 * (ram (a + 1)).toNat + 2 ^ 16 * (ram (a + 2)).toNat +
    2 ^ 24 * (ram (a + 3)).toNat

def store (a value : Nat) (ram : Nat → UInt8) : Nat → UInt8 := fun x =>
  if x = a then UInt8.ofNat value
  else if x = a + 1 then UInt8.ofNat (value / 2 ^ 8)
  else if x = a + 2 then UInt8.ofNat (value / 2 ^ 16)
  else if x = a + 3 then UInt8.ofNat (value / 2 ^ 24)
  else ram x

variable {ram ram' : Nat → UInt8} {a b value : Nat}

theorem store_outside {x : Nat} (outside : x < a ∨ a + 4 ≤ x) : store a value ram x = ram x := by
  simp only [store]
  rw [if_neg (by omega), if_neg (by omega), if_neg (by omega), if_neg (by omega)]

theorem load_congr (same : ∀ x, a ≤ x → x < a + 4 → ram' x = ram x) : load ram' a = load ram a := by
  simp only [load]
  rw [same a (by omega) (by omega), same (a + 1) (by omega) (by omega), same (a + 2) (by omega) (by omega),
    same (a + 3) (by omega) (by omega)]

theorem load_lt (ram : Nat → UInt8) (a : Nat) : load ram a < 2 ^ 32 := by
  have b0 := (ram a).toNat_lt
  have b1 := (ram (a + 1)).toNat_lt
  have b2 := (ram (a + 2)).toNat_lt
  have b3 := (ram (a + 3)).toNat_lt
  simp only [load]
  omega

/-- A word that fits is read back. -/
theorem load_store (fits : value < 2 ^ 32) : load (store a value ram) a = value := by
  have second : a + 1 ≠ a := by omega
  have third : a + 2 ≠ a ∧ a + 2 ≠ a + 1 := by omega
  have fourth : a + 3 ≠ a ∧ a + 3 ≠ a + 1 ∧ a + 3 ≠ a + 2 := by omega
  simp only [load, store, if_true, if_neg second, if_neg third.1, if_neg third.2, if_neg fourth.1,
    if_neg fourth.2.1, if_neg fourth.2.2, UInt8.toNat_ofNat']
  omega

/-- A store leaves the words that do not overlap it. -/
theorem load_store_apart (apart : a + 4 ≤ b ∨ b + 4 ≤ a) : load (store a value ram) b = load ram b :=
  load_congr fun _ low high => store_outside (by omega)

/-- Storing what is there changes nothing. -/
theorem store_load (ram : Nat → UInt8) (a : Nat) : store a (load ram a) ram = ram := by
  have b0 := (ram a).toNat_lt
  have b1 := (ram (a + 1)).toNat_lt
  have b2 := (ram (a + 2)).toNat_lt
  have b3 := (ram (a + 3)).toNat_lt
  funext x
  simp only [store, load]
  repeat' split
  all_goals
    first
    | rfl
    | subst x
      apply UInt8.toNat_inj.mp
      rw [UInt8.toNat_ofNat']
      omega

theorem store_comm {other : Nat} (apart : a + 4 ≤ b ∨ b + 4 ≤ a) :
    store a value (store b other ram) = store b other (store a value ram) := by
  funext x
  by_cases inside : a ≤ x ∧ x < a + 4
  · rw [store_outside (a := b) (by omega)]
    simp only [store]
    repeat' split
    all_goals first | rfl | omega
  · rw [store_outside (a := a) (by omega)]
    by_cases inside' : b ≤ x ∧ x < b + 4
    · simp only [store]
      repeat' split
      all_goals first | rfl | omega
    · rw [store_outside (by omega), store_outside (by omega), store_outside (by omega)]

/-! ## Half words -/

/-- The 16-bit word whose lower byte is at an address. -/
def load16 (ram : Nat → UInt8) (a : Nat) : Nat := (ram a).toNat + 2 ^ 8 * (ram (a + 1)).toNat

def store16 (a value : Nat) (ram : Nat → UInt8) : Nat → UInt8 := fun x =>
  if x = a then UInt8.ofNat value else if x = a + 1 then UInt8.ofNat (value / 2 ^ 8) else ram x

theorem load16_lt (ram : Nat → UInt8) (a : Nat) : load16 ram a < 2 ^ 16 := by
  have b0 := (ram a).toNat_lt
  have b1 := (ram (a + 1)).toNat_lt
  simp only [load16]
  omega

theorem load16_store16 (fits : value < 2 ^ 16) : load16 (store16 a value ram) a = value := by
  have second : a + 1 ≠ a := by omega
  simp only [load16, store16, if_true, if_neg second, UInt8.toNat_ofNat']
  omega

theorem load16_store16_apart (apart : a + 2 ≤ b ∨ b + 2 ≤ a) : load16 (store16 a value ram) b = load16 ram b := by
  have first : b ≠ a ∧ b ≠ a + 1 := by omega
  have second : b + 1 ≠ a ∧ b + 1 ≠ a + 1 := by omega
  simp only [load16, store16]
  rw [if_neg first.1, if_neg first.2, if_neg second.1, if_neg second.2]

end Words
