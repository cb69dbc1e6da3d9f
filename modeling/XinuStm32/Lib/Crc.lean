import Mathlib

/-!
# Cyclic redundancy checks

Strings of bits, the first the coefficient of the highest power, are polynomials over the field of two elements. A
register of `width` bits that shifts one bit in after the other holds the remainder of what it has seen, and a word that
ends in its own remainder is a multiple of the generator: no short burst of errors leads from one such word to another.
-/

namespace Crc

open Polynomial

variable {width : Nat}

/-! ## Bits as polynomials -/

def coefficient (bit : Bool) : ZMod 2 := if bit then 1 else 0

theorem coefficient_xor (left right : Bool) : coefficient (left ^^ right) = coefficient left + coefficient right := by
  cases left <;> cases right <;> decide

theorem coefficient_injective : Function.Injective coefficient := by decide

/-- A polynomial is its own opposite. -/
theorem add_self (poly : (ZMod 2)[X]) : poly + poly = 0 := CharTwo.add_self_eq_zero poly

noncomputable def ofBits : List Bool → (ZMod 2)[X]
  | [] => 0
  | bit :: bits => C (coefficient bit) * X ^ bits.length + ofBits bits

theorem ofBits_append (left right : List Bool) :
    ofBits (left ++ right) = ofBits left * X ^ right.length + ofBits right := by
  induction left with
  | nil => simp [ofBits]
  | cons bit left inductionHypothesis =>
    rw [List.cons_append, ofBits, ofBits, inductionHypothesis, List.length_append]
    ring

theorem coeff_ofBits (bits : List Bool) (power : Nat) :
    (ofBits bits).coeff power = coefficient (bits.reverse.getD power false) := by
  induction bits with
  | nil => simp [ofBits, coefficient]
  | cons bit bits inductionHypothesis =>
    rw [ofBits, coeff_add, coeff_C_mul_X_pow, inductionHypothesis, List.reverse_cons]
    cases Nat.lt_trichotomy power bits.length with
    | inl lower =>
      rw [if_neg (by omega), zero_add, List.getD_append _ _ _ _ (by simpa using lower)]
    | inr upper =>
      cases upper with
      | inl top =>
        rw [if_pos top, List.getD_append_right _ _ _ _ (by simp [top]), List.getD_eq_default _ _ (by simp [top])]
        simp [top, coefficient]
      | inr above =>
        rw [if_neg (by omega), List.getD_eq_default _ _ (by simp; omega), List.getD_eq_default _ _ (by simp; omega)]
        simp [coefficient]

theorem degree_ofBits_lt (bits : List Bool) : (ofBits bits).degree < bits.length := by
  rw [degree_lt_iff_coeff_zero]
  intro power above
  rw [coeff_ofBits, List.getD_eq_default _ _ (by simpa using above)]
  rfl

/-- Strings of one length are told apart by their polynomials. -/
theorem ofBits_inj {left right : List Bool} (same : left.length = right.length) (equal : ofBits left = ofBits right) :
    left = right := by
  apply List.reverse_injective
  apply List.ext_getElem (by simpa using same)
  intro power inLeft inRight
  apply coefficient_injective
  have coefficients := congrArg (fun poly => poly.coeff power) equal
  simp only [coeff_ofBits] at coefficients
  rw [List.getD_eq_getElem _ _ inLeft, List.getD_eq_getElem _ _ inRight] at coefficients
  exact coefficients

/-! ## Registers as polynomials -/

/-- The bits of a register, the highest first. -/
def bitsOf (register : BitVec width) : List Bool := ((List.range width).map register.getLsbD).reverse

@[simp] theorem length_bitsOf (register : BitVec width) : (bitsOf register).length = width := by simp [bitsOf]

noncomputable def ofBitVec (register : BitVec width) : (ZMod 2)[X] := ofBits (bitsOf register)

@[simp] theorem coeff_ofBitVec (register : BitVec width) (power : Nat) :
    (ofBitVec register).coeff power = coefficient (register.getLsbD power) := by
  rw [ofBitVec, coeff_ofBits, bitsOf, List.reverse_reverse]
  by_cases inside : power < width
  · rw [List.getD_eq_getElem _ _ (by simpa using inside), List.getElem_map, List.getElem_range]
  · rw [List.getD_eq_default _ _ (by simpa using inside), BitVec.getLsbD_of_ge _ _ (by omega)]

theorem degree_ofBitVec_lt (register : BitVec width) : (ofBitVec register).degree < width := by
  have bound := degree_ofBits_lt (bitsOf register)
  rwa [length_bitsOf] at bound

theorem ofBitVec_injective : Function.Injective (ofBitVec : BitVec width → (ZMod 2)[X]) := by
  intro left right equal
  apply BitVec.eq_of_getLsbD_eq
  intro power _
  apply coefficient_injective
  rw [← coeff_ofBitVec, ← coeff_ofBitVec, equal]

@[simp] theorem ofBitVec_zero : ofBitVec (BitVec.ofNat width 0) = 0 := by
  ext power
  simp [coefficient]

@[simp] theorem ofBitVec_xor (left right : BitVec width) :
    ofBitVec (left ^^^ right) = ofBitVec left + ofBitVec right := by
  ext power
  simp [coefficient_xor]

/-- A shift multiplies by a power; the bits that leave the register are missing. -/
theorem ofBitVec_shiftLeft (register : BitVec width) (count : Nat) (bound : count ≤ width) :
    ofBitVec (register <<< count) + ofBitVec (register >>> (width - count)) * X ^ width =
      ofBitVec register * X ^ count := by
  ext power
  rw [coeff_add, coeff_mul_X_pow', coeff_mul_X_pow', coeff_ofBitVec, coeff_ofBitVec, coeff_ofBitVec,
    BitVec.getLsbD_shiftLeft, BitVec.getLsbD_ushiftRight]
  by_cases inside : power < width
  · rw [if_neg (by omega), add_zero]
    by_cases low : power < count
    · rw [if_neg (by omega)]
      simp [low, coefficient]
    · rw [if_pos (by omega)]
      simp [inside, low]
  · rw [if_pos (by omega), if_pos (by omega)]
    have position : width - count + (power - width) = power - count := by omega
    simp [inside, coefficient, position]

/-! ## One bit after the other -/

/-- A generator without its highest term, which is that of the register's width. -/
noncomputable def generator (low : BitVec width) : (ZMod 2)[X] := X ^ width + ofBitVec low

theorem monic_generator (low : BitVec width) : (generator low).Monic := monic_X_pow_add (degree_ofBitVec_lt low)

theorem degree_generator (low : BitVec width) : (generator low).degree = width := by
  rw [generator, degree_add_eq_left_of_degree_lt]
  · exact degree_X_pow width
  · rw [degree_X_pow]
    exact degree_ofBitVec_lt low

/-- A register that shifts a bit in: the generator is taken away when a term of its degree comes up. -/
def step (low register : BitVec width) (bit : Bool) : BitVec width :=
  register <<< 1 ^^^ (if register.getLsbD (width - 1) ^^ bit then low else 0)

def steps (low register : BitVec width) (bits : List Bool) : BitVec width := bits.foldl (step low) register

theorem ofBitVec_step (low register : BitVec width) (bit : Bool) (some : 0 < width) :
    ofBitVec register * X + C (coefficient bit) * X ^ width = ofBitVec (step low register bit) +
      generator low * C (coefficient (register.getLsbD (width - 1) ^^ bit)) := by
  have shifted := ofBitVec_shiftLeft register 1 (by omega)
  have top : ofBitVec (register >>> (width - 1)) = C (coefficient (register.getLsbD (width - 1))) := by
    ext power
    rw [coeff_ofBitVec, BitVec.getLsbD_ushiftRight, coeff_C]
    cases power with
    | zero => rfl
    | succ power =>
      rw [if_neg (by omega), BitVec.getLsbD_of_ge _ _ (by omega)]
      rfl
  have taken : ofBitVec (if register.getLsbD (width - 1) ^^ bit then low else 0) =
      ofBitVec low * C (coefficient (register.getLsbD (width - 1) ^^ bit)) := by
    cases register.getLsbD (width - 1) ^^ bit <;> simp [coefficient]
  rw [pow_one, top] at shifted
  rw [step, ofBitVec_xor, taken, ← shifted, generator, coefficient_xor, C_add]
  -- What the feedback adds twice is nothing.
  linear_combination -(add_self (ofBitVec low * (C (coefficient (register.getLsbD (width - 1))) +
    C (coefficient bit))))

/-- The register that has seen a string differs from it, seen from behind the register's place, by a multiple of the
generator. -/
theorem ofBitVec_steps (low register : BitVec width) (bits : List Bool) (some : 0 < width) :
    ∃ quotient, ofBitVec register * X ^ bits.length + ofBits bits * X ^ width =
      ofBitVec (steps low register bits) + generator low * quotient := by
  induction bits generalizing register with
  | nil => exact ⟨0, by simp [steps, ofBits]⟩
  | cons bit bits inductionHypothesis =>
    obtain ⟨quotient, rest⟩ := inductionHypothesis (step low register bit)
    have first := ofBitVec_step low register bit some
    refine ⟨quotient + C (coefficient (register.getLsbD (width - 1) ^^ bit)) * X ^ bits.length, ?_⟩
    rw [List.length_cons, ofBits, steps, List.foldl_cons, ← steps]
    linear_combination rest + X ^ bits.length * first

/-! ## One byte after the other -/

/-- The bits of a string of bytes. -/
def bitsOfBytes (bytes : List (BitVec 8)) : List Bool := bytes.flatMap bitsOf

theorem length_bitsOfBytes (bytes : List (BitVec 8)) : (bitsOfBytes bytes).length = 8 * bytes.length := by
  induction bytes with
  | nil => rfl
  | cons byte bytes inductionHypothesis =>
    rw [bitsOfBytes, List.flatMap_cons, List.length_append, ← bitsOfBytes, inductionHypothesis, length_bitsOf,
      List.length_cons]
    omega

/-- A register that shifts a byte in, by a table of what its highest byte leaves. -/
def byteStep (table : BitVec 8 → BitVec width) (register : BitVec width) (byte : BitVec 8) : BitVec width :=
  register <<< 8 ^^^ table ((register >>> (width - 8)).setWidth 8 ^^^ byte)

/-- The table of a generator. -/
def IsTable (low : BitVec width) (table : BitVec 8 → BitVec width) : Prop :=
  ∀ byte, table byte = steps low (BitVec.ofNat width 0) (bitsOf byte)

theorem ofBitVec_byteStep {low : BitVec width} {table : BitVec 8 → BitVec width} (isTable : IsTable low table)
    (wide : 8 ≤ width) (register : BitVec width) (byte : BitVec 8) :
    ∃ quotient, ofBitVec register * X ^ 8 + ofBitVec byte * X ^ width =
      ofBitVec (byteStep table register byte) + generator low * quotient := by
  obtain ⟨quotient, entry⟩ := ofBitVec_steps low (BitVec.ofNat width 0)
    (bitsOf ((register >>> (width - 8)).setWidth 8 ^^^ byte)) (by omega)
  have shifted := ofBitVec_shiftLeft register 8 wide
  have narrow : ofBitVec ((register >>> (width - 8)).setWidth 8) = ofBitVec (register >>> (width - 8)) := by
    ext power
    rw [coeff_ofBitVec, coeff_ofBitVec, BitVec.getLsbD_setWidth, BitVec.getLsbD_ushiftRight]
    by_cases inside : power < 8
    · simp [inside]
    · rw [BitVec.getLsbD_of_ge register _ (by omega)]
      simp
  rw [← isTable, ← ofBitVec, ofBitVec_xor, narrow, ofBitVec_zero, zero_mul, zero_add] at entry
  refine ⟨quotient, ?_⟩
  rw [byteStep, ofBitVec_xor]
  linear_combination entry - shifted

theorem ofBitVec_byteSteps {low : BitVec width} {table : BitVec 8 → BitVec width} (isTable : IsTable low table)
    (wide : 8 ≤ width) (register : BitVec width) (bytes : List (BitVec 8)) :
    ∃ quotient, ofBitVec register * X ^ (8 * bytes.length) + ofBits (bitsOfBytes bytes) * X ^ width =
      ofBitVec (bytes.foldl (byteStep table) register) + generator low * quotient := by
  induction bytes generalizing register with
  | nil => exact ⟨0, by simp [bitsOfBytes, ofBits]⟩
  | cons byte bytes inductionHypothesis =>
    obtain ⟨quotient, rest⟩ := inductionHypothesis (byteStep table register byte)
    obtain ⟨first, byteStepped⟩ := ofBitVec_byteStep isTable wide register byte
    refine ⟨quotient + first * X ^ (8 * bytes.length), ?_⟩
    rw [List.foldl_cons, bitsOfBytes, List.flatMap_cons, ofBits_append, ← ofBitVec, ← bitsOfBytes, length_bitsOfBytes,
      List.length_cons]
    linear_combination rest + X ^ (8 * bytes.length) * byteStepped

/-! ## Remainders and multiples -/

/-- What is left of a multiple is the remainder. -/
theorem eq_modByMonic {low : BitVec width} {poly : (ZMod 2)[X]} {register : BitVec width}
    (divided : ∃ quotient, poly = ofBitVec register + generator low * quotient) :
    ofBitVec register = poly %ₘ generator low := by
  obtain ⟨quotient, divided⟩ := divided
  symm
  apply (div_modByMonic_unique quotient _ (monic_generator low) ⟨divided.symm, ?_⟩).2
  rw [degree_generator]
  exact degree_ofBitVec_lt register

/-- The remainder of a string is the one ending that makes the whole a multiple of the generator. -/
theorem dvd_append_iff {low : BitVec width} {bits : List Bool} {register : BitVec width}
    (remainder : ofBitVec register = ofBits bits * X ^ width %ₘ generator low) (ending : BitVec width) :
    generator low ∣ ofBits (bits ++ bitsOf ending) ↔ ending = register := by
  rw [ofBits_append, length_bitsOf, ← ofBitVec, ← modByMonic_eq_zero_iff_dvd (monic_generator low), add_modByMonic,
    ← remainder, (modByMonic_eq_self_iff (monic_generator low)).mpr]
  · rw [← CharTwo.sub_eq_add, sub_eq_zero]
    constructor
    · exact fun equal => ofBitVec_injective equal.symm
    · exact fun equal => congrArg ofBitVec equal.symm
  · rw [degree_generator]
    exact degree_ofBitVec_lt ending

/-! ## Bursts of errors -/

/-- Two strings of one length that differ, within a window of `span` bits. -/
def Burst (span : Nat) (sent received : List Bool) : Prop :=
  ∃ front wrong wrong' back, sent = front ++ wrong ++ back ∧ received = front ++ wrong' ++ back ∧
    wrong.length = wrong'.length ∧ wrong.length ≤ span ∧ wrong ≠ wrong'

/-- No burst within the width of the register leads from a multiple to a multiple. -/
theorem Burst.not_dvd {low : BitVec width} (odd : low.getLsbD 0 = true) {sent received : List Bool}
    (burst : Burst width sent received) (multiple : generator low ∣ ofBits sent) :
    ¬generator low ∣ ofBits received := by
  intro other
  obtain ⟨front, wrong, wrong', back, rfl, rfl, same, short, differ⟩ := burst
  have some : 0 < width := by
    by_contra none
    rw [BitVec.getLsbD_of_ge _ _ (by omega)] at odd
    cases odd
  have error : ofBits (front ++ wrong ++ back) + ofBits (front ++ wrong' ++ back) =
      X ^ back.length * (ofBits wrong + ofBits wrong') := by
    simp only [ofBits_append, same]
    linear_combination add_self (ofBits front * X ^ wrong'.length * X ^ back.length) + add_self (ofBits back)
  have divides : generator low ∣ X ^ back.length * (ofBits wrong + ofBits wrong') := by
    rw [← error]
    exact dvd_add multiple other
  -- The generator has a constant term, so that it has no factor in common with a power of `X`.
  have coprime : IsCoprime (generator low) (X ^ back.length) := by
    apply IsCoprime.pow_right
    apply ((Polynomial.irreducible_X).coprime_iff_not_dvd.mpr ?_).symm
    rw [X_dvd_iff, generator, coeff_add, coeff_X_pow, if_neg (by omega), coeff_ofBitVec, odd]
    decide
  have short' : (ofBits wrong + ofBits wrong').degree < (generator low).degree := by
    rw [degree_generator]
    apply lt_of_lt_of_le (lt_of_le_of_lt (degree_add_le _ _) (max_lt (degree_ofBits_lt wrong) ?_))
    · exact_mod_cast short
    · rw [same]
      exact degree_ofBits_lt wrong'
  have nothing := eq_zero_of_dvd_of_degree_lt (coprime.dvd_of_dvd_mul_left divides) short'
  rw [← CharTwo.sub_eq_add, sub_eq_zero] at nothing
  exact differ (ofBits_inj same nothing)

end Crc
