import XinuStm32.Kernel.Format

/-!
# What the converters store

Every converter stores the shortest numeral of its number and a NUL: the digits come out of a loop over a fixed count
of places, and the zeros in front are dropped.
-/

namespace XinuStm32.Format

open Numerals

/-! ## The numbers -/

/-- A word as a number with sign. -/
theorem long_eq (word : UInt32) :
    long word = if word.toNat < 2147483648 then (word.toNat : Int) else word.toNat - 4294967296 := by
  have bound := word.toNat_lt
  rw [long, int32, Int.bmod]
  split <;> split <;> omega

theorem long_of_lt {word : UInt32} (low : word.toNat < 2147483648) : long word = word.toNat := by
  rw [long_eq, if_pos low]

theorem long_of_le {word : UInt32} (high : 2147483648 ≤ word.toNat) : long word = word.toNat - 4294967296 := by
  rw [long_eq, if_neg (by omega)]

theorem long_range (word : UInt32) : -2147483648 ≤ long word ∧ long word < 2147483648 := by
  have bound := word.toNat_lt
  rw [long_eq]
  split <;> omega

/-- The word differs from the number with sign by whole turns of 2^32. -/
theorem long_turns (word : UInt32) : ∃ turns : Int, long word = word.toNat + 4294967296 * turns := by
  rw [long_eq]
  split
  · exact ⟨0, by omega⟩
  · exact ⟨-1, by omega⟩

theorem int32_eq {value : Int} (low : -2147483648 ≤ value) (high : value < 2147483648) : int32 value = value := by
  rw [int32, Int.bmod]
  split <;> omega

/-! ## The characters of the digits -/

/-- The character of a digit up to 9. -/
def decimalSymbol (digit : Nat) : UInt8 := UInt8.ofNat (digit + 48)

/-- The character of a digit in a table. -/
def tableDigit (table : List Char) (digit : Nat) : UInt8 := ch (table.getD digit '0')

/-- Characters for the digits below a base: none is the NUL, and only zero is written `'0'`. -/
structure Written (base : Nat) (symbol : Nat → UInt8) : Prop where
  zero : symbol 0 = ch '0'
  faithful : ∀ digit < base, symbol digit = symbol 0 → digit = 0
  visible : ∀ digit < base, symbol digit ≠ 0

theorem written_decimal : Written 10 decimalSymbol := ⟨rfl, by decide, by decide⟩

theorem written_octal : Written 8 decimalSymbol := ⟨rfl, by decide, by decide⟩

theorem written_binary : Written 2 decimalSymbol := ⟨rfl, by decide, by decide⟩

theorem written_lower : Written 16 (tableDigit "0123456789abcdef".toList) := ⟨rfl, by decide, by decide⟩

theorem written_upper : Written 16 (tableDigit "0123456789ABCDEF".toList) := ⟨rfl, by decide, by decide⟩

/-- Characters and their NUL are stored as a C string. -/
theorem cString_digits {base : Nat} {symbol : Nat → UInt8} (written : Written base symbol) {digits : List Nat}
    (below : ∀ digit ∈ digits, digit < base) : cString (digits.map symbol ++ [0]) = digits.map symbol := by
  have visible : ∀ c ∈ digits.map symbol, decide (c ≠ 0) = true := by
    intro c mem
    obtain ⟨digit, among, rfl⟩ := List.mem_map.mp mem
    exact decide_eq_true (written.visible digit (below digit among))
  rw [cString, List.takeWhile_append_of_pos visible]
  simp

/-! ## The loops -/

theorem fromTemp_digits {base count value : Nat} {symbol : Nat → UInt8} (positive : 0 < base)
    (written : Written base symbol) :
    fromTemp ((places base count value).map symbol) = (numeral base count value).map symbol ++ [0] := by
  rw [fromTemp, ← List.map_reverse, ← written.zero, unpadded_map symbol, numeral]
  intro digit mem
  exact written.faithful digit (places_below positive (List.mem_reverse.mp mem))

/-- The places of a number that is not negative, by remainders. -/
theorem decimalLoop_places (count num : Nat) : decimalLoop count num = (places 10 count num).map decimalSymbol := by
  induction count generalizing num with
  | zero => rfl
  | succ count inductionHypothesis =>
    have remainder : ((num : Int).tmod 10 + 48) = ((num % 10 + 48 : Nat) : Int) := by
      rw [Int.tmod_eq_emod_of_nonneg (Int.natCast_nonneg num)]
      norm_cast
    have quotient : (num : Int).tdiv 10 = ((num / 10 : Nat) : Int) := by
      rw [Int.tdiv_eq_ediv_of_nonneg (Int.natCast_nonneg num)]
      norm_cast
    have symbol : UInt8.ofInt ((num % 10 + 48 : Nat) : Int) = decimalSymbol (num % 10) := by
      have below : num % 10 < 10 := Nat.mod_lt _ (by decide)
      generalize num % 10 = digit at below
      revert digit
      decide
    rw [decimalLoop, remainder, quotient, symbol, inductionHypothesis, places, List.map_cons]

/-- The places of a word, by masks and shifts; how the word is extended to the left does not matter. -/
theorem shiftLoop_places {symbol : Int → UInt8} {character : Nat → UInt8} {bits : Nat}
    (matching : ∀ num : Int, symbol num = character (num % 2 ^ bits).toNat) {count value : Nat} {num turns : Int}
    (extended : num = value + 2 ^ (bits * count) * turns) :
    shiftLoop symbol bits count num = (places (2 ^ bits) count value).map character := by
  induction count generalizing value num with
  | zero => rfl
  | succ count inductionHypothesis =>
    have split : (2 : Int) ^ (bits * (count + 1)) = 2 ^ bits * 2 ^ (bits * count) := by
      rw [← pow_add]
      congr 1
      ring
    have base : ((2 : Int) ^ bits) = ((2 ^ bits : Nat) : Int) := by push_cast; rfl
    have positive : ((2 : Int) ^ bits) ≠ 0 := by positivity
    have digit : (num % 2 ^ bits).toNat = value % 2 ^ bits := by
      rw [extended, split, mul_assoc, Int.add_mul_emod_self_left, base, ← Int.natCast_emod, Int.toNat_natCast]
    have above : num >>> bits = ((value / 2 ^ bits : Nat) : Int) + 2 ^ (bits * count) * turns := by
      rw [Int.shiftRight_eq_div_pow, extended, split, mul_assoc]
      push_cast
      rw [Int.add_mul_ediv_left _ _ positive]
    rw [shiftLoop, matching, digit, inductionHypothesis above, places, List.map_cons]

/-- The last round of a loop over the places. -/
theorem shiftLoop_succ (symbol : Int → UInt8) (bits count : Nat) (num : Int) :
    shiftLoop symbol bits (count + 1) num = shiftLoop symbol bits count num ++ [symbol (num >>> (bits * count))] := by
  induction count generalizing num with
  | zero => simp [shiftLoop]
  | succ count inductionHypothesis =>
    rw [shiftLoop, inductionHypothesis, shiftLoop, List.cons_append, ← Int.shiftRight_add]
    congr 5
    ring

@[simp] theorem length_shiftLoop (symbol : Int → UInt8) (bits count : Nat) (num : Int) :
    (shiftLoop symbol bits count num).length = count := by
  induction count generalizing num with
  | zero => rfl
  | succ count inductionHypothesis => rw [shiftLoop, List.length_cons, inductionHypothesis]

/-! ## One lemma for each converter -/

theorem octalSymbol_eq (num : Int) : octalSymbol num = decimalSymbol (num % 2 ^ 3).toNat := by
  have low : 0 ≤ num % 8 := Int.emod_nonneg _ (by decide)
  have high : num % 8 < 8 := Int.emod_lt_of_pos _ (by decide)
  have eight : (2 : Int) ^ 3 = 8 := by norm_num
  rw [octalSymbol, eight]
  generalize num % 8 = digit at low high
  interval_cases digit <;> rfl

theorem tableSymbol_eq (table : List Char) (num : Int) :
    tableSymbol table num = tableDigit table (num % 2 ^ 4).toNat := rfl

theorem binarySymbol_eq (num : Int) : binarySymbol num = decimalSymbol (num % 2 ^ 1).toNat := by
  have low : 0 ≤ num % 2 := Int.emod_nonneg _ (by decide)
  have high : num % 2 < 2 := Int.emod_lt_of_pos _ (by decide)
  have even : num.tmod 2 = 0 ↔ num % 2 = 0 := by
    rw [← Int.dvd_iff_tmod_eq_zero, Int.dvd_iff_emod_eq_zero]
  rw [binarySymbol, pow_one]
  generalize num % 2 = digit at low high even
  interval_cases digit
  · rw [if_pos (even.mpr rfl)]; rfl
  · rw [if_neg (fun zero => absurd (even.mp zero) (by decide))]; rfl

theorem prtl2_spec (word : UInt32) :
    prtl2 (long word) = (numeral 2 32 word.toNat).map decimalSymbol ++ [0] := by
  obtain ⟨turns, extended⟩ := long_turns word
  rw [prtl2, @shiftLoop_places _ _ _ binarySymbol_eq 32 _ _ _ extended]
  exact fromTemp_digits (by decide) written_binary

theorem prtl16_spec (word : UInt32) :
    prtl16 (long word) = (numeral 16 8 word.toNat).map (tableDigit "0123456789abcdef".toList) ++ [0] := by
  obtain ⟨turns, extended⟩ := long_turns word
  rw [prtl16, @shiftLoop_places _ _ _ (tableSymbol_eq _) 8 _ _ _ extended]
  exact fromTemp_digits (by decide) written_lower

theorem prtX16_spec (word : UInt32) :
    prtX16 (long word) = (numeral 16 8 word.toNat).map (tableDigit "0123456789ABCDEF".toList) ++ [0] := by
  obtain ⟨turns, extended⟩ := long_turns word
  rw [prtX16, @shiftLoop_places _ _ _ (tableSymbol_eq _) 8 _ _ _ extended]
  exact fromTemp_digits (by decide) written_upper

/-- The eleventh octal digit: two bits of the word and copies of the sign, which the mask takes off. -/
theorem octalTop (word : UInt32) : octalSymbol (long word >>> (30 : Nat)) &&& ch '3' = decimalSymbol
    (word.toNat / 8 ^ 10 % 8) := by
  have bound := word.toNat_lt
  rw [octalSymbol_eq, Int.shiftRight_eq_div_pow]
  have low : word.toNat / 8 ^ 10 < 4 := by omega
  have extended : long word / ((2 ^ 30 : Nat) : Int) % 2 ^ 3 = (word.toNat / 8 ^ 10 : Nat) ∨
      long word / ((2 ^ 30 : Nat) : Int) % 2 ^ 3 = (word.toNat / 8 ^ 10 : Nat) + 4 := by
    rw [long_eq]
    split <;> omega
  generalize word.toNat / 8 ^ 10 = digit at low extended
  cases extended with
  | inl positive => rw [positive]; interval_cases digit <;> rfl
  | inr negative => rw [negative]; interval_cases digit <;> rfl

theorem maskLast_append {low : List UInt8} {last : UInt8} (ten : low.length = 10) :
    maskLast (low ++ [last]) = low ++ [last &&& ch '3'] := by
  have split : ∀ before : List UInt8, (before ++ [last]).modify before.length (· &&& ch '3') =
      before ++ [last &&& ch '3'] := by
    intro before
    induction before with
    | nil => rfl
    | cons head before inductionHypothesis => exact congrArg (head :: ·) inductionHypothesis
  rw [maskLast, ← ten, split]

theorem prtl8_spec (word : UInt32) :
    prtl8 (long word) = (numeral 8 11 word.toNat).map decimalSymbol ++ [0] := by
  have extended : ∃ turns : Int, long word = word.toNat + 2 ^ (3 * 10) * turns := by
    obtain ⟨turns, same⟩ := long_turns word
    exact ⟨4 * turns, by rw [same]; ring⟩
  obtain ⟨turns, extended⟩ := extended
  have masked : maskLast (shiftLoop octalSymbol 3 11 (long word)) = (places 8 11 word.toNat).map decimalSymbol := by
    rw [shiftLoop_succ, maskLast_append (length_shiftLoop _ _ _ _), places_succ, List.map_append, octalTop,
      shiftLoop_places octalSymbol_eq extended]
    rfl
  rw [prtl8, masked]
  exact fromTemp_digits (by decide) written_octal

/-! ## Decimal numbers -/

theorem fdoprntPrtl10_spec (num : Nat) : fdoprntPrtl10 num = (numeral 10 10 num).map decimalSymbol ++ [0] := by
  rw [fdoprntPrtl10, decimalLoop_places]
  exact fromTemp_digits (by decide) written_decimal

/-- `_prtl10` of `doprnt.c` drops the sign, also of the least `long`. -/
theorem doprntPrtl10_natAbs (num : Int) : doprntPrtl10 num = fdoprntPrtl10 num.natAbs := by
  rw [doprntPrtl10, fdoprntPrtl10]
  by_cases negative : num < 0
  · have opposite : num = -(num.natAbs : Int) := by omega
    have remainder : -num.tmod 10 = (num.natAbs : Int).tmod 10 := by
      rw [opposite, Int.neg_tmod, neg_neg, ← opposite]
    have quotient : num.tdiv (-10) = (num.natAbs : Int).tdiv 10 := by
      rw [opposite, Int.neg_tdiv, Int.tdiv_neg, neg_neg, ← opposite]
    rw [if_pos negative, if_pos negative, remainder, quotient]
    rfl
  · have same : num = (num.natAbs : Int) := by omega
    rw [if_neg negative, if_neg negative, ← same]
    rfl

theorem doprntPrtl10_spec (num : Int) :
    doprntPrtl10 num = (numeral 10 10 num.natAbs).map decimalSymbol ++ [0] := by
  rw [doprntPrtl10_natAbs]
  exact fdoprntPrtl10_spec num.natAbs

theorem positiveLoop_of_nonneg {larg : Int} (positive : 0 ≤ larg) (fuel : Nat) (digit1 : UInt8) :
    positiveLoop fuel larg digit1 = (larg, digit1) := by
  cases fuel with
  | zero => rfl
  | succ fuel => rw [positiveLoop, if_neg (by omega)]

/-- A word with its high bit set loses billions until it is a positive `long`, which then still has ten digits. -/
theorem positiveLoop_high (fuel : Nat) {word : Nat} (digit1 : UInt8) (high : 2147483648 ≤ word)
    (bound : word < 4294967296) (enough : word < 2147483648 + fuel * 1000000000) :
    ∃ rest billions : Nat, positiveLoop fuel (word - 4294967296) digit1 =
      ((rest : Int), digit1 + UInt8.ofNat billions) ∧
      word = rest + 1000000000 * billions ∧ 1000000000 ≤ rest ∧ rest < 2147483648 := by
  induction fuel generalizing word digit1 with
  | zero => omega
  | succ fuel inductionHypothesis =>
    rw [positiveLoop, if_pos (by omega)]
    by_cases last : word - 1000000000 < 2147483648
    · -- The subtraction wraps around to a positive number.
      have wraps : int32 ((word : Int) - 4294967296 - 1000000000) = (word - 1000000000 : Nat) := by
        rw [int32, Int.bmod]
        split <;> omega
      have one : digit1 + 1 = digit1 + UInt8.ofNat 1 := rfl
      rw [wraps, positiveLoop_of_nonneg (Int.natCast_nonneg _), one]
      exact ⟨_, 1, rfl, by omega, by omega, last⟩
    · have stays : int32 ((word : Int) - 4294967296 - 1000000000) = (word - 1000000000 : Nat) - 4294967296 := by
        rw [int32, Int.bmod]
        split <;> omega
      rw [stays]
      have left : word - 1000000000 < 2147483648 + fuel * 1000000000 := by omega
      obtain ⟨rest, billions, result, total, low, small⟩ :=
        inductionHypothesis (digit1 + 1) (Nat.not_lt.mp last) (by omega) left
      have counted : digit1 + 1 + UInt8.ofNat billions = digit1 + UInt8.ofNat (billions + 1) := by
        rw [UInt8.ofNat_add, add_assoc, add_comm 1]
        rfl
      rw [result, counted]
      exact ⟨rest, billions + 1, rfl, by omega, low, small⟩

/-- What is left of a word when the billions are off. -/
theorem positiveLoop_spec (word : UInt32) :
    ∃ rest billions : Nat, positiveLoop 3 (long word) 0 = ((rest : Int), UInt8.ofNat billions) ∧
      word.toNat = rest + 1000000000 * billions ∧ (billions = 0 ∨ 1000000000 ≤ rest) ∧ rest < 2147483648 := by
  have bound := word.toNat_lt
  by_cases low : word.toNat < 2147483648
  · rw [long_of_lt low, positiveLoop_of_nonneg (Int.natCast_nonneg _)]
    exact ⟨word.toNat, 0, rfl, by omega, Or.inl rfl, low⟩
  · obtain ⟨rest, billions, result, total, large, small⟩ :=
      positiveLoop_high 3 0 (Nat.not_lt.mp low) bound (by omega)
    rw [long_of_le (Nat.not_lt.mp low), result, zero_add]
    exact ⟨rest, billions, rfl, total, Or.inr large, small⟩

/-- A digit more than nine others makes the number larger by billions. -/
theorem raise_lead {lead billions value : Nat} {others : List Nat} (nine : others.length = 9) (leading : lead ≠ 0)
    (below : ∀ digit ∈ others, digit < 10) (fits : value + 1000000000 * billions < 4294967296)
    (denotes : Nat.ofDigits 10 (lead :: others).reverse = value) :
    IsShortest 10 (value + 1000000000 * billions) ((lead + billions) :: others) := by
  rw [Nat.ofDigits_reverse_cons, nine] at denotes
  have raised : Nat.ofDigits 10 ((lead + billions) :: others).reverse = value + 1000000000 * billions := by
    rw [Nat.ofDigits_reverse_cons, nine]
    omega
  apply IsShortest.of_lead (by decide) (by omega) _ raised
  intro digit mem
  cases List.mem_cons.mp mem with
  | inl first => rw [first]; omega
  | inr later => exact below digit later

/-- What the case for `%u` stores, with a `_prtl10` that is right for numbers that are not negative. -/
theorem unsignedDigits_spec {prtl10 : Int → List UInt8}
    (positive : ∀ num : Nat, prtl10 num = (numeral 10 10 num).map decimalSymbol ++ [0]) (word : UInt32) :
    ∃ digits, IsShortest 10 word.toNat digits ∧
      unsignedDigits prtl10 (long word) = digits.map decimalSymbol ++ [0] := by
  have bound := word.toNat_lt
  obtain ⟨rest, billions, result, total, large, small⟩ := positiveLoop_spec word
  have short : IsShortest 10 rest (numeral 10 10 rest) := numeral_shortest (by decide) (by decide) (by omega)
  have stored : unsignedDigits prtl10 (long word) =
      ((numeral 10 10 rest).map decimalSymbol ++ [0]).modify 0 (· + UInt8.ofNat billions) := by
    rw [unsignedDigits, result]
    simp only
    rw [positive]
  obtain ⟨lead, others, shape⟩ := List.exists_cons_of_ne_nil short.nonempty
  rw [stored, total]
  rw [shape] at short ⊢
  refine ⟨(lead + billions) :: others, ?_, ?_⟩
  · cases large with
    | inl none => rw [none]; exact short
    | inr large =>
      have ten := length_numeral_le 10 10 rest
      have nine := IsShortest.lt_length (by decide) (by omega : 10 ^ 9 ≤ rest) short
      rw [shape] at ten
      rw [List.length_cons] at ten nine
      have below : ∀ digit ∈ others, digit < 10 := fun digit mem => short.below digit (List.mem_cons_of_mem _ mem)
      have few := @ofDigits_reverse_lt 10 (by decide) others below
      have leading : lead ≠ 0 := by
        rintro rfl
        have denotes := short.denotes
        rw [Nat.ofDigits_reverse_zero_cons] at denotes
        have nineDigits : others.length = 9 := by omega
        rw [nineDigits] at few
        omega
      exact raise_lead (by omega) leading below (by omega) short.denotes
  · have symbol : decimalSymbol lead + UInt8.ofNat billions = decimalSymbol (lead + billions) := by
      simp only [decimalSymbol, UInt8.ofNat_add]
      exact add_right_comm _ _ _
    rw [List.map_cons, List.cons_append, List.modify_zero_cons, List.map_cons, List.cons_append, symbol]

end XinuStm32.Format
