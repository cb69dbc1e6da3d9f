import XinuStm32.Refinement.Format
import XinuStm32.Refinement.Converters

/-!
# The two formatters

`_doprnt` and `_fdoprnt` output the same for every format as long as `%d` is not given the least integer, which
`_fdoprnt` negates to itself: the characters it then outputs for the digits lie below `'0'`. Where the flags are out of
order both output what `string` holds, which at the start is whatever the stack held.
-/

namespace XinuStm32.Format

open Numerals (length_unpadded_le)

variable (text : UInt32 → List UInt8)

/-- The least 32-bit integer, as a word. -/
def intMin : UInt32 := 0x80000000

/-- Two conversions that put the same field. -/
structure SameField (first second : Converted) : Prop where
  echo : first.echo = second.echo
  str : first.str = second.str
  sign : first.sign = second.sign
  fill : first.fill = second.fill
  fmax : first.fmax = second.fmax

theorem SameField.putField {first second : Converted} (same : SameField first second) (leftjust : Bool) (fmin : Int) :
    putField leftjust fmin first = putField leftjust fmin second := by
  rw [putField_eq, putField_eq, same.str, same.sign, same.fill, same.fmax]

/-! ## Numbers -/

theorem intMin_toNat : intMin.toNat = 2147483648 := by decide

theorem long_ne_least {word : UInt32} (other : word ≠ intMin) : long word ≠ -2147483648 := by
  intro least
  have bound := word.toNat_lt
  rw [long_eq] at least
  apply other
  apply UInt32.toNat_inj.mp
  rw [intMin_toNat]
  split at least <;> omega

/-- The negation of `_fdoprnt` gives the magnitude, unless it overflows. -/
theorem magnitude_eq {word : UInt32} (other : word ≠ intMin) :
    (if long word < 0 then int32 (-long word) else long word) = (long word).natAbs := by
  obtain ⟨low, high⟩ := long_range word
  have notLeast := long_ne_least other
  by_cases negative : long word < 0
  · rw [if_pos negative, int32_eq (by omega) (by omega)]
    omega
  · rw [if_neg negative]
    omega

theorem fdoprntPrtl10_magnitude {word : UInt32} (other : word ≠ intMin) :
    fdoprntPrtl10 (if long word < 0 then int32 (-long word) else long word) = doprntPrtl10 (long word) := by
  rw [magnitude_eq other]
  exact (doprntPrtl10_natAbs (long word)).symm

theorem unsignedDigits_eq (word : UInt32) :
    unsignedDigits doprntPrtl10 (long word) = unsignedDigits fdoprntPrtl10 (long word) := by
  obtain ⟨rest, billions, result, _⟩ := positiveLoop_spec word
  rw [unsignedDigits, unsignedDigits, result]
  have positive := doprntPrtl10_natAbs rest
  rw [Int.natAbs_natCast] at positive
  exact congrArg (List.modify · 0 (· + UInt8.ofNat billions)) positive

/-! ## One directive -/

/-- All conversions but `%d` are written alike. -/
theorem switch_common {conversion : Conversion} (other : conversion ≠ .decimal) (fill : UInt8) (fmax : Int)
    (ap : VaList) (string : List UInt8) :
    doprntSwitch text conversion.letter fill fmax ap string =
        commonSwitch doprntPrtl10 text conversion.letter fill fmax ap string ∧
      fdoprntSwitch text conversion.letter fill fmax ap string =
        commonSwitch fdoprntPrtl10 text conversion.letter fill fmax ap string := by
  have letters : conversion.letter ≠ ch 'd' ∧ conversion.letter ≠ ch 'H' ∧ conversion.letter ≠ ch 'h' := by
    revert other
    cases conversion <;> decide
  obtain ⟨notD, notH, noth⟩ := letters
  exact ⟨doprntSwitch_common text fill fmax ap string notD notH noth,
    fdoprntSwitch_common text fill fmax ap string notD⟩

/-- Every conversion takes one argument. -/
theorem commonSwitch_ap {conversion : Conversion} (other : conversion ≠ .decimal) (prtl10 : Int → List UInt8)
    (fill : UInt8) (fmax : Int) (ap : VaList) (string : List UInt8) :
    (commonSwitch prtl10 text conversion.letter fill fmax ap string).ap = ap.behind := by
  cases conversion with
  | character => exact congrArg Converted.ap (commonSwitch_c prtl10 text fill fmax ap string)
  | string => exact congrArg Converted.ap (commonSwitch_s prtl10 text fill fmax ap string)
  | decimal => exact absurd rfl other
  | unsigned => exact congrArg Converted.ap (commonSwitch_u prtl10 text fill fmax ap string)
  | octal => exact congrArg Converted.ap (commonSwitch_o prtl10 text fill fmax ap string)
  | lower => exact congrArg Converted.ap (commonSwitch_x prtl10 text fill fmax ap string)
  | upper => exact congrArg Converted.ap (commonSwitch_X prtl10 text fill fmax ap string)

theorem switch_ap (conversion : Conversion) (fill : UInt8) (fmax : Int) (ap : VaList) (string : List UInt8) :
    (doprntSwitch text conversion.letter fill fmax ap string).ap = ap.behind ∧
      (fdoprntSwitch text conversion.letter fill fmax ap string).ap = ap.behind := by
  by_cases decimal : conversion = .decimal
  · rw [decimal]
    exact ⟨congrArg Converted.ap (doprntSwitch_d text fill fmax ap string),
      congrArg Converted.ap (fdoprntSwitch_d text fill fmax ap string)⟩
  · obtain ⟨first, second⟩ := switch_common text decimal fill fmax ap string
    rw [first, second]
    exact ⟨commonSwitch_ap text decimal _ fill fmax ap string, commonSwitch_ap text decimal _ fill fmax ap string⟩

/-- The buffer's content from before does not show. -/
theorem commonSwitch_same {conversion : Conversion} (other : conversion ≠ .decimal) (fill : UInt8) (fmax : Int)
    (ap : VaList) (string string' : List UInt8) :
    SameField (commonSwitch doprntPrtl10 text conversion.letter fill fmax ap string)
      (commonSwitch fdoprntPrtl10 text conversion.letter fill fmax ap string') := by
  cases conversion with
  | character =>
    rw [Conversion.letter, commonSwitch_c, commonSwitch_c]
    exact ⟨rfl, rfl, rfl, rfl, rfl⟩
  | string =>
    rw [Conversion.letter, commonSwitch_s, commonSwitch_s]
    exact ⟨rfl, rfl, rfl, rfl, rfl⟩
  | decimal => exact absurd rfl other
  | unsigned =>
    rw [Conversion.letter, commonSwitch_u, commonSwitch_u, unsignedDigits_eq]
    exact ⟨rfl, rfl, rfl, rfl, rfl⟩
  | octal =>
    rw [Conversion.letter, commonSwitch_o, commonSwitch_o]
    exact ⟨rfl, rfl, rfl, rfl, rfl⟩
  | lower =>
    rw [Conversion.letter, commonSwitch_x, commonSwitch_x]
    exact ⟨rfl, rfl, rfl, rfl, rfl⟩
  | upper =>
    rw [Conversion.letter, commonSwitch_X, commonSwitch_X]
    exact ⟨rfl, rfl, rfl, rfl, rfl⟩

theorem switch_same {conversion : Conversion} {ap : VaList} (defined : ¬(conversion = .decimal ∧ ap 0 = intMin))
    (fill : UInt8) (fmax : Int) (string string' : List UInt8) :
    SameField (doprntSwitch text conversion.letter fill fmax ap string)
      (fdoprntSwitch text conversion.letter fill fmax ap string') := by
  by_cases decimal : conversion = .decimal
  · have other : ap 0 ≠ intMin := fun least => defined ⟨decimal, least⟩
    rw [decimal, Conversion.letter, doprntSwitch_d, fdoprntSwitch_d, fdoprntPrtl10_magnitude other]
    exact ⟨rfl, rfl, rfl, rfl, rfl⟩
  · rw [(switch_common text decimal fill fmax ap string).1, (switch_common text decimal fill fmax ap string').2]
    exact commonSwitch_same text decimal fill fmax ap string string'

/-! ### The buffer -/

theorem length_fromTemp_le (temp : List UInt8) : (fromTemp temp).length ≤ temp.length + 1 := by
  have few := length_unpadded_le (ch '0') temp.reverse
  rw [List.length_reverse] at few
  rw [fromTemp, List.length_append, List.length_singleton]
  omega

@[simp] theorem length_decimalLoop (count : Nat) (num : Int) : (decimalLoop count num).length = count := by
  induction count generalizing num with
  | zero => rfl
  | succ count inductionHypothesis => simp [decimalLoop, inductionHypothesis]

theorem doprntPrtl10_length (num : Int) : (doprntPrtl10 num).length ≤ stringSize := by
  rw [doprntPrtl10]
  refine (length_fromTemp_le _).trans ?_
  rw [List.length_cons, length_decimalLoop]
  decide

theorem fdoprntPrtl10_length (num : Int) : (fdoprntPrtl10 num).length ≤ stringSize := by
  rw [fdoprntPrtl10]
  refine (length_fromTemp_le _).trans ?_
  rw [length_decimalLoop]
  decide

theorem prtl8_length (num : Int) : (prtl8 num).length ≤ stringSize := by
  rw [prtl8]
  refine (length_fromTemp_le _).trans ?_
  rw [maskLast, List.length_modify, length_shiftLoop]
  decide

theorem prtl16_length (num : Int) : (prtl16 num).length ≤ stringSize := by
  rw [prtl16]
  refine (length_fromTemp_le _).trans ?_
  rw [length_shiftLoop]
  decide

theorem prtX16_length (num : Int) : (prtX16 num).length ≤ stringSize := by
  rw [prtX16]
  refine (length_fromTemp_le _).trans ?_
  rw [length_shiftLoop]
  decide

theorem unsignedDigits_length {prtl10 : Int → List UInt8} (inside : ∀ num, (prtl10 num).length ≤ stringSize)
    (larg : Int) : (unsignedDigits prtl10 larg).length ≤ stringSize := by
  rw [unsignedDigits, List.length_modify]
  exact inside _

theorem number_stored (stored : List UInt8) (sign : Bool) (fill : UInt8) (fmax : Int) (ap : VaList) :
    (number stored sign fill fmax ap).stored = stored.length := rfl

theorem number_string (stored : List UInt8) (sign : Bool) (fill : UInt8) (fmax : Int) (ap : VaList) :
    (number stored sign fill fmax ap).string = (number stored sign fill fmax ap).str := rfl

theorem commonSwitch_stored {conversion : Conversion} (other : conversion ≠ .decimal) {prtl10 : Int → List UInt8}
    (inside : ∀ num, (prtl10 num).length ≤ stringSize) (fill : UInt8) (fmax : Int) (ap : VaList) (string : List UInt8) :
    (commonSwitch prtl10 text conversion.letter fill fmax ap string).stored ≤ stringSize := by
  cases conversion with
  | character =>
    rw [Conversion.letter, commonSwitch_c]
    exact (by decide : 2 ≤ stringSize)
  | string =>
    rw [Conversion.letter, commonSwitch_s]
    exact Nat.zero_le _
  | decimal => exact absurd rfl other
  | unsigned =>
    rw [Conversion.letter, commonSwitch_u, number_stored]
    exact unsignedDigits_length inside _
  | octal =>
    rw [Conversion.letter, commonSwitch_o, number_stored]
    exact prtl8_length _
  | lower =>
    rw [Conversion.letter, commonSwitch_x, number_stored]
    exact prtl16_length _
  | upper =>
    rw [Conversion.letter, commonSwitch_X, number_stored]
    exact prtX16_length _

/-- None of these conversions stores behind the buffer. -/
theorem switch_stored (conversion : Conversion) (fill : UInt8) (fmax : Int) (ap : VaList) (string : List UInt8) :
    (doprntSwitch text conversion.letter fill fmax ap string).stored ≤ stringSize ∧
      (fdoprntSwitch text conversion.letter fill fmax ap string).stored ≤ stringSize := by
  by_cases decimal : conversion = .decimal
  · rw [decimal, Conversion.letter, doprntSwitch_d, fdoprntSwitch_d, number_stored, number_stored]
    exact ⟨doprntPrtl10_length _, fdoprntPrtl10_length _⟩
  · obtain ⟨first, second⟩ := switch_common text decimal fill fmax ap string
    rw [first, second]
    exact ⟨commonSwitch_stored text decimal doprntPrtl10_length fill fmax ap string,
      commonSwitch_stored text decimal fdoprntPrtl10_length fill fmax ap string⟩

theorem commonSwitch_string {conversion : Conversion} (notDecimal : conversion ≠ .decimal) (prtl10 : Int → List UInt8)
    (fill : UInt8) (fmax : Int) (ap : VaList) (string : List UInt8) :
    (commonSwitch prtl10 text conversion.letter fill fmax ap string).string =
      if conversion = .string then string else
        (commonSwitch prtl10 text conversion.letter fill fmax ap string).str := by
  cases conversion with
  | character => rw [Conversion.letter, commonSwitch_c]; rfl
  | string => rw [Conversion.letter, commonSwitch_s]; rfl
  | decimal => exact absurd rfl notDecimal
  | unsigned => rw [Conversion.letter, commonSwitch_u, if_neg (by decide), number_string]
  | octal => rw [Conversion.letter, commonSwitch_o, if_neg (by decide), number_string]
  | lower => rw [Conversion.letter, commonSwitch_x, if_neg (by decide), number_string]
  | upper => rw [Conversion.letter, commonSwitch_X, if_neg (by decide), number_string]

/-- All conversions but `%s` leave in the buffer what they output. -/
theorem switch_string (conversion : Conversion) (fill : UInt8) (fmax : Int) (ap : VaList) (string : List UInt8) :
    (doprntSwitch text conversion.letter fill fmax ap string).string =
        (if conversion = .string then string else (doprntSwitch text conversion.letter fill fmax ap string).str) ∧
      (fdoprntSwitch text conversion.letter fill fmax ap string).string =
        (if conversion = .string then string else (fdoprntSwitch text conversion.letter fill fmax ap string).str) := by
  by_cases decimal : conversion = .decimal
  · have other : Conversion.decimal ≠ .string := by decide
    rw [decimal, Conversion.letter, doprntSwitch_d, fdoprntSwitch_d, if_neg other, if_neg other]
    exact ⟨number_string _ _ _ _ _, number_string _ _ _ _ _⟩
  · obtain ⟨first, second⟩ := switch_common text decimal fill fmax ap string
    rw [first, second]
    exact ⟨commonSwitch_string text decimal _ fill fmax ap string,
      commonSwitch_string text decimal _ fill fmax ap string⟩

/-! ### The fields of a directive -/

/-- What the two make of the least integer: ten characters each, the first of them different. -/
theorem intMin_digits :
    (cString (doprntPrtl10 (long intMin))).length = 10 ∧
      (cString (fdoprntPrtl10 (if long intMin < 0 then int32 (-long intMin) else long intMin))).length = 10 ∧
      (cString (doprntPrtl10 (long intMin))).head? ≠
        (cString (fdoprntPrtl10 (if long intMin < 0 then int32 (-long intMin) else long intMin))).head? := by
  decide

/-- The fields are equally long, and equal unless the least integer is converted. -/
theorem field_agree (modifiers : Modifiers) (conversion : Conversion) (ap : VaList) (string string' : List UInt8) :
    (field (doprntSwitch text) modifiers conversion.letter ap string).length =
        (field (fdoprntSwitch text) modifiers conversion.letter ap string').length ∧
      (field (doprntSwitch text) modifiers conversion.letter ap string =
          field (fdoprntSwitch text) modifiers conversion.letter ap string' ↔
        ¬(conversion = .decimal ∧ modifiers.behind ap 0 = intMin)) := by
  by_cases least : conversion = .decimal ∧ modifiers.behind ap 0 = intMin
  · obtain ⟨rfl, least⟩ := least
    obtain ⟨ten, ten', different⟩ := intMin_digits
    rw [Conversion.letter, field, field, converted, converted, doprntSwitch_d, fdoprntSwitch_d, putField_eq,
      putField_eq,
      least]
    -- The same sign and the same counts around different digits.
    simp only [number, ten, ten', List.nil_append, true_and]
    constructor
    · apply layout_length
      rw [List.length_take, List.length_take, ten, ten']
    · constructor
      · intro same
        have some := shown_pos (modifiers.spec ap).fmax (by decide : 0 < 10)
        have heads := congrArg List.head? (layout_inj same)
        rw [List.head?_take, List.head?_take, if_neg (by omega), if_neg (by omega)] at heads
        exact absurd heads different
      · intro other
        exact absurd trivial other
  · have same := switch_same text least modifiers.fill (modifiers.spec ap).fmax string string'
    have equal : field (doprntSwitch text) modifiers conversion.letter ap string =
        field (fdoprntSwitch text) modifiers conversion.letter ap string' := by
      rw [field, field, converted, converted, same.echo, same.putField]
    exact ⟨congrArg List.length equal, fun _ => least, fun _ => equal⟩

/-- The characters of a conversion are as many for both, and the same unless the least integer is converted. -/
theorem str_agree (modifiers : Modifiers) (conversion : Conversion) (ap : VaList) (string string' : List UInt8) :
    (converted (doprntSwitch text) modifiers conversion.letter ap string).str.length =
        (converted (fdoprntSwitch text) modifiers conversion.letter ap string').str.length ∧
      (¬(conversion = .decimal ∧ modifiers.behind ap 0 = intMin) →
        (converted (doprntSwitch text) modifiers conversion.letter ap string).str =
          (converted (fdoprntSwitch text) modifiers conversion.letter ap string').str) := by
  by_cases least : conversion = .decimal ∧ modifiers.behind ap 0 = intMin
  · refine ⟨?_, fun other => absurd least other⟩
    obtain ⟨rfl, least⟩ := least
    obtain ⟨ten, ten', -⟩ := intMin_digits
    rw [Conversion.letter, converted, converted, doprntSwitch_d, fdoprntSwitch_d, least]
    exact ten.trans ten'.symm
  · have same := (switch_same text least modifiers.fill (modifiers.spec ap).fmax string string').str
    exact ⟨congrArg List.length same, fun _ => same⟩

/-! ## Whole formats -/

/-- Both formatters output the same, with what their buffers hold at the start. -/
def Agree (string string' : List UInt8) (pieces : List Piece) (ap : VaList) : Prop :=
  ∃ output, doprnt text string (render pieces) ap = some output ∧ fdoprnt text string' (render pieces) ap = some output

theorem agree_map {first second : Option (List UInt8)} {extend : List UInt8 → List UInt8}
    (injective : Function.Injective extend) :
    (∃ output, first.map extend = some output ∧ second.map extend = some output) ↔
      ∃ output, first = some output ∧ second = some output := by
  constructor
  · rintro ⟨output, same, same'⟩
    obtain ⟨rest, rfl, whole⟩ := Option.map_eq_some_iff.mp same
    obtain ⟨rest', rfl, whole'⟩ := Option.map_eq_some_iff.mp same'
    exact ⟨rest, rfl, congrArg some (injective (whole'.trans whole.symm))⟩
  · rintro ⟨output, rfl, rfl⟩
    exact ⟨extend output, rfl, rfl⟩

theorem agree_append {front front' : List UInt8} (lengths : front.length = front'.length)
    {first second : Option (List UInt8)} :
    (∃ output, first.map (front ++ ·) = some output ∧ second.map (front' ++ ·) = some output) ↔
      front = front' ∧ ∃ output, first = some output ∧ second = some output := by
  constructor
  · rintro ⟨output, same, same'⟩
    obtain ⟨rest, rfl, whole⟩ := Option.map_eq_some_iff.mp same
    obtain ⟨rest', rfl, whole'⟩ := Option.map_eq_some_iff.mp same'
    obtain ⟨sameFront, sameRest⟩ := List.append_inj (whole.trans whole'.symm) lengths
    exact ⟨sameFront, rest, rfl, congrArg some sameRest.symm⟩
  · rintro ⟨rfl, output, rfl, rfl⟩
    exact ⟨front ++ output, rfl, rfl⟩

section Shapes

variable (convert : UInt8 → UInt8 → Int → VaList → List UInt8 → Converted) (pieces : List Piece) (ap : VaList)
  (string : List UInt8)

theorem format_text_piece {c : UInt8} (plain : c ≠ ch '%' ∧ c ≠ 0) :
    format convert (render (.text c plain :: pieces)) ap string = (format convert (render pieces) ap string).map
      (c :: ·) :=
  format_text convert plain.1 (render pieces) ap string

theorem format_percent_piece :
    format convert (render (.percent :: pieces)) ap string =
      (format convert (render pieces) ap string).map (ch '%' :: ·) :=
  format_percent convert (render pieces) ap string

theorem render_directive (modifiers : Modifiers) (conversion : Conversion) :
    render (.directive modifiers conversion :: pieces) =
      ch '%' :: modifiers.render ++ conversion.letter :: render pieces := by
  rw [render, List.flatMap_cons]
  simp [Piece.render, render]

end Shapes

variable {text} in
/-- A directive that is read outputs its field. -/
theorem format_orderly {modifiers : Modifiers} (orderly : modifiers.Orderly) (conversion : Conversion)
    (pieces : List Piece) (ap : VaList) (string : List UInt8) :
    format (doprntSwitch text) (render (.directive modifiers conversion :: pieces)) ap string =
        (format (doprntSwitch text) (render pieces) (modifiers.behind ap).behind
          (converted (doprntSwitch text) modifiers conversion.letter ap string).string).map
            (field (doprntSwitch text) modifiers conversion.letter ap string ++ ·) ∧
      format (fdoprntSwitch text) (render (.directive modifiers conversion :: pieces)) ap string =
        (format (fdoprntSwitch text) (render pieces) (modifiers.behind ap).behind
          (converted (fdoprntSwitch text) modifiers conversion.letter ap string).string).map
            (field (fdoprntSwitch text) modifiers conversion.letter ap string ++ ·) := by
  have inside : (converted (doprntSwitch text) modifiers conversion.letter ap string).stored ≤ stringSize ∧
      (converted (fdoprntSwitch text) modifiers conversion.letter ap string).stored ≤ stringSize :=
    switch_stored text conversion _ _ _ string
  have behind : (converted (doprntSwitch text) modifiers conversion.letter ap string).ap =
    (modifiers.behind ap).behind ∧
      (converted (fdoprntSwitch text) modifiers conversion.letter ap string).ap = (modifiers.behind ap).behind :=
    switch_ap text conversion _ _ _ string
  rw [render_directive, format_directive _ orderly conversion.isLetter, format_directive _ orderly conversion.isLetter,
    if_neg (Nat.not_lt.mpr inside.1), if_neg (Nat.not_lt.mpr inside.2), behind.1, behind.2]
  exact ⟨rfl, rfl⟩

/-- What a conversion leaves in the buffer. -/
theorem converted_string (modifiers : Modifiers) (conversion : Conversion) (ap : VaList) (string : List UInt8) :
    (converted (doprntSwitch text) modifiers conversion.letter ap string).string =
        (if conversion = .string then string
          else (converted (doprntSwitch text) modifiers conversion.letter ap string).str) ∧
      (converted (fdoprntSwitch text) modifiers conversion.letter ap string).string =
        (if conversion = .string then string
          else (converted (fdoprntSwitch text) modifiers conversion.letter ap string).str) :=
  switch_string text conversion _ _ _ string

/-- How long the output is depends on the buffer's length alone, and for both formatters alike. -/
theorem output_length (pieces : List Piece) (ap : VaList) :
    ∃ fixed shown, ∀ string output,
      doprnt text string (render pieces) ap = some output ∨ fdoprnt text string (render pieces) ap = some output →
        output.length = fixed + shown * string.length := by
  change ∃ fixed shown, ∀ string output, format (doprntSwitch text) (render pieces) ap string = some output ∨
    format (fdoprntSwitch text) (render pieces) ap string = some output → _
  induction pieces generalizing ap with
  | nil =>
    refine ⟨0, 0, fun string output same => ?_⟩
    obtain same | same := same <;>
    · rw [← Option.some.inj same]
      simp
  | cons piece pieces inductionHypothesis =>
    cases piece with
    | text c plain =>
      obtain ⟨fixed, shown, rest⟩ := inductionHypothesis ap
      refine ⟨fixed + 1, shown, fun string output same => ?_⟩
      rw [format_text_piece, format_text_piece, Option.map_eq_some_iff, Option.map_eq_some_iff] at same
      obtain ⟨more, same, rfl⟩ | ⟨more, same, rfl⟩ := same
      · rw [List.length_cons, rest string more (Or.inl same)]
        omega
      · rw [List.length_cons, rest string more (Or.inr same)]
        omega
    | percent =>
      obtain ⟨fixed, shown, rest⟩ := inductionHypothesis ap
      refine ⟨fixed + 1, shown, fun string output same => ?_⟩
      rw [format_percent_piece, format_percent_piece, Option.map_eq_some_iff, Option.map_eq_some_iff] at same
      obtain ⟨more, same, rfl⟩ | ⟨more, same, rfl⟩ := same
      · rw [List.length_cons, rest string more (Or.inl same)]
        omega
      · rw [List.length_cons, rest string more (Or.inr same)]
        omega
    | directive modifiers conversion =>
      by_cases orderly : modifiers.Orderly
      · obtain ⟨fixed, shown, rest⟩ := inductionHypothesis (modifiers.behind ap).behind
        -- the field's length and, but for `%s`, that of the buffer behind it are fixed
        have fields : ∀ string, (field (doprntSwitch text) modifiers conversion.letter ap string).length =
            (field (fdoprntSwitch text) modifiers conversion.letter ap []).length ∧
              (field (fdoprntSwitch text) modifiers conversion.letter ap string).length =
                (field (fdoprntSwitch text) modifiers conversion.letter ap []).length := fun string =>
          ⟨(field_agree text modifiers conversion ap string []).1,
            (field_agree text modifiers conversion ap [] string).1.symm.trans
              (field_agree text modifiers conversion ap [] []).1⟩
        have strs : ∀ string, (converted (doprntSwitch text) modifiers conversion.letter ap string).str.length =
            (converted (fdoprntSwitch text) modifiers conversion.letter ap []).str.length ∧
              (converted (fdoprntSwitch text) modifiers conversion.letter ap string).str.length =
                (converted (fdoprntSwitch text) modifiers conversion.letter ap []).str.length := fun string =>
          ⟨(str_agree text modifiers conversion ap string []).1,
            (str_agree text modifiers conversion ap [] string).1.symm.trans
              (str_agree text modifiers conversion ap [] []).1⟩
        by_cases isString : conversion = .string
        · refine ⟨(field (fdoprntSwitch text) modifiers conversion.letter ap []).length + fixed, shown,
            fun string output same => ?_⟩
          obtain ⟨kept, kept'⟩ := converted_string text modifiers conversion ap string
          rw [if_pos isString] at kept kept'
          rw [(format_orderly orderly conversion pieces ap string).1,
            (format_orderly orderly conversion pieces ap string).2,
            kept, kept', Option.map_eq_some_iff, Option.map_eq_some_iff] at same
          obtain ⟨more, same, rfl⟩ | ⟨more, same, rfl⟩ := same
          · rw [List.length_append, (fields string).1, rest string more (Or.inl same), Nat.add_assoc]
          · rw [List.length_append, (fields string).2, rest string more (Or.inr same), Nat.add_assoc]
        · refine ⟨(field (fdoprntSwitch text) modifiers conversion.letter ap []).length + (fixed +
            shown * (converted (fdoprntSwitch text) modifiers conversion.letter ap []).str.length), 0,
            fun string output same => ?_⟩
          obtain ⟨kept, kept'⟩ := converted_string text modifiers conversion ap string
          rw [if_neg isString] at kept kept'
          rw [(format_orderly orderly conversion pieces ap string).1,
            (format_orderly orderly conversion pieces ap string).2,
            kept, kept', Option.map_eq_some_iff, Option.map_eq_some_iff] at same
          obtain ⟨more, same, rfl⟩ | ⟨more, same, rfl⟩ := same
          · rw [List.length_append, (fields string).1, rest _ more (Or.inl same), (strs string).1, Nat.zero_mul,
              Nat.add_zero]
          · rw [List.length_append, (fields string).2, rest _ more (Or.inr same), (strs string).2, Nat.zero_mul,
              Nat.add_zero]
      · obtain ⟨c, tail, misread⟩ := Modifiers.misread orderly
        obtain ⟨fixed, shown, rest⟩ := inductionHypothesis ap
        refine ⟨fixed + tail.length + 2, shown + 1, fun string output same => ?_⟩
        rw [render_directive, format_misread _ (switch_defaults text).1 misread conversion.isLetter,
          format_misread _ (switch_defaults text).2 misread conversion.isLetter, Option.map_eq_some_iff,
          Option.map_eq_some_iff] at same
        obtain ⟨more, same, rfl⟩ | ⟨more, same, rfl⟩ := same
        · have length := rest string more (Or.inl same)
          simp only [List.length_cons, List.length_append, length, Nat.add_mul]
          omega
        · have length := rest string more (Or.inr same)
          simp only [List.length_cons, List.length_append, length, Nat.add_mul]
          omega

/-- The formatters agree on a format exactly when no `%d` of it is given the least integer and the buffers, where a
directive is misread before one has been filled, hold the same at the start. -/
theorem formatters_agree_iff (string string' : List UInt8) (pieces : List Piece) (ap : VaList) :
    Agree text string string' pieces ap ↔
      (Conversion.decimal, intMin) ∉ received pieces ap ∧ (string = string' ∨ BufferFilled pieces) := by
  change (∃ output, format (doprntSwitch text) (render pieces) ap string = some output ∧
    format (fdoprntSwitch text) (render pieces) ap string' = some output) ↔ _
  induction pieces generalizing ap string string' with
  | nil => simp [render, received, format_nil, BufferFilled]
  | cons piece pieces inductionHypothesis =>
    cases piece with
    | text c plain =>
      rw [format_text_piece, format_text_piece, agree_map List.cons_injective]
      exact inductionHypothesis string string' ap
    | percent =>
      rw [format_percent_piece, format_percent_piece, agree_map List.cons_injective]
      exact inductionHypothesis string string' ap
    | directive modifiers conversion =>
      by_cases orderly : modifiers.Orderly
      · obtain ⟨lengths, fields⟩ := field_agree text modifiers conversion ap string string'
        have mixed : (Conversion.decimal, intMin) = (conversion, modifiers.behind ap 0) ↔
            conversion = .decimal ∧ modifiers.behind ap 0 = intMin := by
          rw [Prod.mk.injEq]
          exact and_congr eq_comm eq_comm
        rw [(format_orderly orderly conversion pieces ap string).1,
          (format_orderly orderly conversion pieces ap string').2,
          agree_append lengths, fields, inductionHypothesis, received, if_pos orderly, List.mem_cons, not_or, mixed,
          and_assoc]
        apply and_congr_right
        intro defined
        apply and_congr_right
        intro _
        rw [(converted_string text modifiers conversion ap string).1,
          (converted_string text modifiers conversion ap string').2]
        by_cases isString : conversion = .string
        · rw [if_pos isString, if_pos isString]
          simp [BufferFilled, orderly, isString]
        · -- the conversion has filled both buffers alike
          rw [if_neg isString, if_neg isString]
          have same := (str_agree text modifiers conversion ap string string').2 defined
          exact iff_of_true (Or.inl same) (Or.inr ⟨orderly, fun isString' => absurd isString' isString⟩)
      · obtain ⟨c, tail, misread⟩ := Modifiers.misread orderly
        have unfilled : ¬BufferFilled (.directive modifiers conversion :: pieces) := fun filled => orderly filled.1
        rw [render_directive, format_misread _ (switch_defaults text).1 misread conversion.isLetter,
          format_misread _ (switch_defaults text).2 misread conversion.isLetter, received, if_neg orderly]
        constructor
        · rintro ⟨output, first, second⟩
          obtain ⟨more, first, whole⟩ := Option.map_eq_some_iff.mp first
          obtain ⟨more', second, whole'⟩ := Option.map_eq_some_iff.mp second
          have both := List.cons.inj (whole.trans whole'.symm)
          -- the outputs are as long as each other only if the buffers are
          obtain ⟨fixed, shown, rest⟩ := output_length text pieces ap
          have lengths : string.length = string'.length := by
            have total := congrArg List.length both.2
            simp only [List.length_append, List.length_cons, rest string more (Or.inl first),
              rest string' more' (Or.inr second)] at total
            by_contra other
            cases Nat.lt_or_gt_of_ne other with
            | inl less =>
              have scaled := Nat.mul_le_mul_left shown (Nat.le_of_lt less)
              omega
            | inr less =>
              have scaled := Nat.mul_le_mul_left shown (Nat.le_of_lt less)
              omega
          obtain ⟨same, behind⟩ := List.append_inj both.2 lengths
          have equal := (List.cons.inj (List.append_cancel_left behind)).2
          have agreed := (inductionHypothesis string string' ap).mp ⟨more, first, equal ▸ second⟩
          exact ⟨agreed.1, Or.inl same⟩
        · rintro ⟨defined, same | filled⟩
          · obtain ⟨more, first, second⟩ := (inductionHypothesis string string' ap).mpr ⟨defined, Or.inl same⟩
            rw [first, second, same]
            exact ⟨_, rfl, rfl⟩
          · exact absurd filled unfilled

/-- The modifiers of a plain directive. -/
def noModifiers : Modifiers where
  flags := []
  width := .literal []
  precision := none
  significant := by
    intro digits same
    cases same

/-- `%d` of the least integer. -/
theorem formatters_differ :
    ¬∀ (text : UInt32 → List UInt8) (string string' : List UInt8) (pieces : List Piece) (ap : VaList),
      Agree text string string' pieces ap := by
  intro agree
  obtain ⟨output, first, second⟩ := agree (fun _ => []) [] [] [.directive noModifiers .decimal] (fun _ => intMin)
  have differ : doprnt (fun _ => []) [] (render [.directive noModifiers .decimal]) (fun _ => intMin) ≠
      fdoprnt (fun _ => []) [] (render [.directive noModifiers .decimal]) (fun _ => intMin) := by
    decide +kernel
  exact differ (first.trans second.symm)

end XinuStm32.Format
