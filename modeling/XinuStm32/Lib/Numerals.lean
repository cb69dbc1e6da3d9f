import Mathlib

/-!
# Numerals in a base

The digits of a number by repeated division, a fixed count of them, and the numeral that is left when the zeros
in front are dropped: no other numeral of the number has fewer digits.
-/

namespace Numerals

variable {α : Type*} [DecidableEq α] {base value : Nat}

/-- The lowest `count` digits, the lowest first. -/
def places (base : Nat) : Nat → Nat → List Nat
  | 0, _ => []
  | count + 1, value => value % base :: places base count (value / base)

/-- A numeral, its highest digit first, without the zeros in front; a last zero stays. -/
def unpadded (zero : α) : List α → List α
  | [] => []
  | [last] => [last]
  | lead :: next :: rest => if lead = zero then unpadded zero (next :: rest) else lead :: next :: rest

/-- The numeral of a number that has no more than `count` digits. -/
def numeral (base count value : Nat) : List Nat := unpadded 0 (places base count value).reverse

/-- `digits` denotes `value`, and so does no shorter numeral; the highest digit is the first. -/
structure IsShortest (base value : Nat) (digits : List Nat) : Prop where
  nonempty : digits ≠ []
  below : ∀ digit ∈ digits, digit < base
  denotes : Nat.ofDigits base digits.reverse = value
  shortest : ∀ other : List Nat, other ≠ [] → (∀ digit ∈ other, digit < base) →
    Nat.ofDigits base other.reverse = value → digits.length ≤ other.length

/-! ## The places of a number -/

@[simp] theorem length_places (base count value : Nat) : (places base count value).length = count := by
  induction count generalizing value with
  | zero => rfl
  | succ count inductionHypothesis => simp [places, inductionHypothesis]

theorem places_below (positive : 0 < base) {count digit : Nat} (mem : digit ∈ places base count value) :
    digit < base := by
  induction count generalizing value with
  | zero => simp [places] at mem
  | succ count inductionHypothesis =>
    cases List.mem_cons.mp mem with
    | inl lowest => rw [lowest]; exact Nat.mod_lt _ positive
    | inr later => exact inductionHypothesis later

theorem ofDigits_places (base count value : Nat) : Nat.ofDigits base (places base count value) =
    value % base ^ count := by
  induction count generalizing value with
  | zero => simp [places, Nat.mod_one]
  | succ count inductionHypothesis =>
    rw [places, Nat.ofDigits_cons, inductionHypothesis, pow_succ', Nat.mod_mul]

/-- One more place is added at the high end. -/
theorem places_succ (base count value : Nat) :
    places base (count + 1) value = places base count value ++ [value / base ^ count % base] := by
  induction count generalizing value with
  | zero => simp [places]
  | succ count inductionHypothesis =>
    rw [places, inductionHypothesis, Nat.div_div_eq_div_mul, ← pow_succ']
    rfl

/-! ## Dropping the zeros in front -/

theorem unpadded_ne_nil {zero : α} {digits : List α} (nonempty : digits ≠ []) : unpadded zero digits ≠ [] := by
  fun_induction unpadded zero digits with
  | case1 => exact absurd rfl nonempty
  | case2 => simp
  | case3 next rest inductionHypothesis => exact inductionHypothesis (by simp)
  | case4 => simp

theorem unpadded_subset {zero : α} {digits : List α} {digit : α} (mem : digit ∈ unpadded zero digits) :
    digit ∈ digits := by
  fun_induction unpadded zero digits with
  | case1 => exact mem
  | case2 => exact mem
  | case3 next rest inductionHypothesis => exact List.mem_cons_of_mem _ (inductionHypothesis mem)
  | case4 => exact mem

theorem length_unpadded_le (zero : α) (digits : List α) : (unpadded zero digits).length ≤ digits.length := by
  fun_induction unpadded zero digits with
  | case1 => rfl
  | case2 => rfl
  | case3 next rest inductionHypothesis => exact inductionHypothesis.trans (Nat.le_succ _)
  | case4 => rfl

/-- Either one digit is left, or the first is not zero. -/
theorem unpadded_head (zero : α) {digits : List α} (nonempty : digits ≠ []) :
    (unpadded zero digits).length = 1 ∨ ∃ lead rest, unpadded zero digits = lead :: rest ∧ lead ≠ zero := by
  fun_induction unpadded zero digits with
  | case1 => exact absurd rfl nonempty
  | case2 => exact Or.inl rfl
  | case3 next rest inductionHypothesis => exact inductionHypothesis (by simp)
  | case4 lead next rest leading => exact Or.inr ⟨lead, next :: rest, rfl, leading⟩

/-- The zeros in front do not count. -/
theorem ofDigits_unpadded (base : Nat) (digits : List Nat) :
    Nat.ofDigits base (unpadded 0 digits).reverse = Nat.ofDigits base digits.reverse := by
  fun_induction unpadded 0 digits with
  | case1 => rfl
  | case2 => rfl
  | case3 next rest inductionHypothesis => rw [inductionHypothesis, Nat.ofDigits_reverse_zero_cons]
  | case4 => rfl

/-- Dropping the zeros commutes with writing the digits, when only zero is written like zero. -/
theorem unpadded_map (symbol : Nat → α) {digits : List Nat}
    (faithful : ∀ digit ∈ digits, symbol digit = symbol 0 → digit = 0) :
    unpadded (symbol 0) (digits.map symbol) = (unpadded 0 digits).map symbol := by
  fun_induction unpadded 0 digits with
  | case1 => rfl
  | case2 => rfl
  | case3 next rest inductionHypothesis =>
    have tail : ∀ digit ∈ next :: rest, symbol digit = symbol 0 → digit = 0 :=
      fun digit mem => faithful digit (List.mem_cons_of_mem _ mem)
    have step := inductionHypothesis tail
    simp only [List.map_cons] at step ⊢
    rw [unpadded, if_pos rfl, step]
  | case4 lead next rest leading =>
    have written : symbol lead ≠ symbol 0 := fun same => leading (faithful lead (by simp) same)
    simp only [List.map_cons]
    rw [unpadded, if_neg written]

/-! ## The shortest numeral -/

/-- A first digit that is not zero bounds the number from below. -/
theorem le_ofDigits_reverse {lead : Nat} (rest : List Nat) (leading : lead ≠ 0) :
    base ^ rest.length ≤ Nat.ofDigits base (lead :: rest).reverse := by
  rw [Nat.ofDigits_reverse_cons]
  calc base ^ rest.length ≤ base ^ rest.length * lead := Nat.le_mul_of_pos_right _ (Nat.pos_of_ne_zero leading)
    _ ≤ Nat.ofDigits base rest.reverse + base ^ rest.length * lead := Nat.le_add_left _ _

theorem ofDigits_reverse_lt (binary : 1 < base) {digits : List Nat} (below : ∀ digit ∈ digits, digit < base) :
    Nat.ofDigits base digits.reverse < base ^ digits.length := by
  rw [← List.length_reverse]
  exact Nat.ofDigits_lt_base_pow_length binary fun digit mem => below digit (List.mem_reverse.mp mem)

/-- A numeral whose first digit is not zero is the shortest. -/
theorem IsShortest.of_lead (binary : 1 < base) {lead : Nat} {rest : List Nat} (leading : lead ≠ 0)
    (below : ∀ digit ∈ lead :: rest, digit < base) (denotes : Nat.ofDigits base (lead :: rest).reverse = value) :
    IsShortest base value (lead :: rest) := by
  constructor
  · exact List.cons_ne_nil _ _
  · exact below
  · exact denotes
  · intro other written among same
    -- The first digit puts the number at `base ^ rest.length` or above, where fewer digits do not get.
    have low : base ^ rest.length ≤ value := by
      rw [← denotes]
      exact le_ofDigits_reverse rest leading
    have high : value < base ^ other.length := by
      rw [← same]
      exact ofDigits_reverse_lt binary among
    exact (Nat.pow_lt_pow_iff_right binary).mp (low.trans_lt high)

theorem length_numeral_le (base count value : Nat) : (numeral base count value).length ≤ count := by
  have few := length_unpadded_le 0 (places base count value).reverse
  rwa [List.length_reverse, length_places] at few

/-- With enough places, what is left without the zeros is the shortest numeral. -/
theorem numeral_shortest (binary : 1 < base) {count : Nat} (nonempty : count ≠ 0) (fits : value < base ^ count) :
    IsShortest base value (numeral base count value) := by
  have full : (places base count value).reverse ≠ [] := by
    rw [← List.length_pos_iff, List.length_reverse, length_places]
    omega
  have denotes : Nat.ofDigits base (numeral base count value).reverse = value := by
    rw [numeral, ofDigits_unpadded, List.reverse_reverse, ofDigits_places, Nat.mod_eq_of_lt fits]
  have below : ∀ digit ∈ numeral base count value, digit < base := by
    intro digit mem
    exact places_below (by omega) (List.mem_reverse.mp (unpadded_subset mem))
  cases unpadded_head 0 full with
  | inl single =>
    constructor
    · exact unpadded_ne_nil full
    · exact below
    · exact denotes
    · intro other written among same
      have one : 0 < other.length := List.length_pos_iff.mpr written
      rw [numeral, single]
      exact one
  | inr led =>
    obtain ⟨lead, rest, shape, leading⟩ := led
    rw [numeral, shape] at below denotes ⊢
    exact IsShortest.of_lead binary leading below denotes

/-- The digits of a numeral are as many as its number needs. -/
theorem IsShortest.lt_length {digits : List Nat} {count : Nat} (binary : 1 < base) (large : base ^ count ≤ value)
    (short : IsShortest base value digits) : count < digits.length := by
  have high := ofDigits_reverse_lt binary short.below
  rw [short.denotes] at high
  exact (Nat.pow_lt_pow_iff_right binary).mp (large.trans_lt high)

/-- A shortest numeral has no more digits than some places that are enough for its number. -/
theorem IsShortest.length_le {digits : List Nat} {count : Nat} (binary : 1 < base) (nonempty : count ≠ 0)
    (fits : value < base ^ count) (short : IsShortest base value digits) : digits.length ≤ count := by
  have other := numeral_shortest binary nonempty fits
  exact (short.shortest _ other.nonempty other.below other.denotes).trans (length_numeral_le base count value)

/-- A shortest numeral of several digits has no zero in front. -/
theorem IsShortest.lead_ne_zero {lead : Nat} {rest : List Nat} (several : rest ≠ [])
    (short : IsShortest base value (lead :: rest)) : lead ≠ 0 := by
  intro zero
  have denotes := short.denotes
  rw [zero, Nat.ofDigits_reverse_zero_cons] at denotes
  have fewer := short.shortest rest several (fun digit mem => short.below digit (List.mem_cons_of_mem _ mem)) denotes
  simp at fewer

/-- A shortest numeral has no zero in front, unless it is that of zero. -/
theorem IsShortest.reverse_eq_digits {digits : List Nat} (binary : 1 < base) (positive : value ≠ 0)
    (short : IsShortest base value digits) : digits.reverse = Nat.digits base value := by
  cases digits with
  | nil => exact absurd rfl short.nonempty
  | cons lead rest =>
    have leading : lead ≠ 0 := by
      cases rest with
      | nil =>
        intro zero
        have denotes := short.denotes
        rw [zero] at denotes
        exact positive denotes.symm
      | cons next rest => exact short.lead_ne_zero (List.cons_ne_nil _ _)
    have below : ∀ digit ∈ (lead :: rest).reverse, digit < base :=
      fun digit mem => short.below digit (List.mem_reverse.mp mem)
    rw [← short.denotes, Nat.digits_ofDigits base binary _ below]
    intro _
    simpa using leading

/-- There is one shortest numeral. -/
theorem IsShortest.unique {digits digits' : List Nat} (binary : 1 < base) (short : IsShortest base value digits)
    (short' : IsShortest base value digits') : digits = digits' := by
  by_cases zero : value = 0
  · have only : ∀ {digits : List Nat}, IsShortest base value digits → digits = [0] := by
      intro digits short
      have few := short.shortest [0] (by simp) (by simp; omega) (by simp [zero])
      cases digits with
      | nil => exact absurd rfl short.nonempty
      | cons digit rest =>
        have none : rest = [] := by simpa using few
        have denotes := short.denotes
        rw [none, zero] at denotes
        rw [none, show digit = 0 by simpa using denotes]
    rw [only short, only short']
  · have same := (short.reverse_eq_digits binary zero).trans (short'.reverse_eq_digits binary zero).symm
    exact List.reverse_injective same

end Numerals
