import XinuStm32.Refinement.Format
import XinuStm32.Refinement.Converters

/-!
# The numbers that `_doprnt` writes

Every conversion of a number writes its shortest numeral, in a field as wide as asked for, but for four things: `%b` can
store more than the 20 bytes of `string`, a precision cuts digits of `%d` off, the flags `-` and `0` together put zeros
behind the number, and flags out of order end the directive.
-/

namespace XinuStm32.Format

open Numerals

/-- The conversions of numbers. -/
inductive Numeric where
  | decimal | unsigned | octal | lower | upper | binary
  deriving DecidableEq

namespace Numeric

def letter : Numeric → UInt8
  | decimal => ch 'd'
  | unsigned => ch 'u'
  | octal => ch 'o'
  | lower => ch 'x'
  | upper => ch 'X'
  | binary => ch 'b'

def base : Numeric → Nat
  | decimal => 10
  | unsigned => 10
  | octal => 8
  | lower => 16
  | upper => 16
  | binary => 2

/-- The character of a digit. -/
def symbol : Numeric → Nat → UInt8
  | lower => tableDigit "0123456789abcdef".toList
  | upper => tableDigit "0123456789ABCDEF".toList
  | _ => decimalSymbol

/-- The number without its sign; only `%d` takes a word as a number with sign. -/
def magnitude (word : UInt32) : Numeric → Nat
  | decimal => (long word).natAbs
  | _ => word.toNat

def negative (word : UInt32) (conversion : Numeric) : Bool := decide (conversion = .decimal ∧ long word < 0)

/-- What the conversion stores in `string`. -/
def stored (word : UInt32) : Numeric → List UInt8
  | decimal => doprntPrtl10 (long word)
  | unsigned => unsignedDigits doprntPrtl10 (long word)
  | octal => prtl8 (long word)
  | lower => prtl16 (long word)
  | upper => prtX16 (long word)
  | binary => prtl2 (long word)

theorem isLetter (conversion : Numeric) : IsLetter conversion.letter := by
  cases conversion <;> decide

theorem written (conversion : Numeric) : Written conversion.base conversion.symbol := by
  cases conversion with
  | decimal => exact written_decimal
  | unsigned => exact written_decimal
  | octal => exact written_octal
  | lower => exact written_lower
  | upper => exact written_upper
  | binary => exact written_binary

end Numeric

/-! ## The digits -/

/-- Places that are enough for every number of the conversion. -/
def Numeric.places : Numeric → Nat
  | decimal => 10
  | unsigned => 10
  | octal => 11
  | lower => 8
  | upper => 8
  | binary => 32

theorem magnitude_lt (conversion : Numeric) (word : UInt32) :
    conversion.magnitude word < conversion.base ^ conversion.places := by
  have bound := word.toNat_lt
  obtain ⟨low, high⟩ := long_range word
  cases conversion <;> simp only [Numeric.magnitude, Numeric.base, Numeric.places] <;> omega

theorem base_gt_one (conversion : Numeric) : 1 < conversion.base := by
  cases conversion <;> decide

theorem places_ne_zero (conversion : Numeric) : conversion.places ≠ 0 := by
  cases conversion <;> decide

/-- The numeral of the magnitude is its shortest. -/
theorem numeral_magnitude (conversion : Numeric) (word : UInt32) :
    IsShortest conversion.base (conversion.magnitude word)
      (numeral conversion.base conversion.places (conversion.magnitude word)) :=
  numeral_shortest (base_gt_one conversion) (places_ne_zero conversion) (magnitude_lt conversion word)

/-- Every conversion stores the shortest numeral and a NUL. -/
theorem stored_shortest (conversion : Numeric) (word : UInt32) :
    ∃ digits, IsShortest conversion.base (conversion.magnitude word) digits ∧
      conversion.stored word = digits.map conversion.symbol ++ [0] := by
  cases conversion with
  | decimal => exact ⟨_, numeral_magnitude .decimal word, doprntPrtl10_spec (long word)⟩
  | unsigned =>
    have positive : ∀ num : Nat, doprntPrtl10 num = (numeral 10 10 num).map decimalSymbol ++ [0] :=
      fun num => doprntPrtl10_spec num
    exact unsignedDigits_spec positive word
  | octal => exact ⟨_, numeral_magnitude .octal word, prtl8_spec word⟩
  | lower => exact ⟨_, numeral_magnitude .lower word, prtl16_spec word⟩
  | upper => exact ⟨_, numeral_magnitude .upper word, prtX16_spec word⟩
  | binary => exact ⟨_, numeral_magnitude .binary word, prtl2_spec word⟩

/-- The numeral of a word. -/
def Numeric.digits (word : UInt32) (conversion : Numeric) : List Nat :=
  numeral conversion.base conversion.places (conversion.magnitude word)

theorem stored_eq (conversion : Numeric) (word : UInt32) :
    conversion.stored word = (conversion.digits word).map conversion.symbol ++ [0] := by
  obtain ⟨digits, shortest, same⟩ := stored_shortest conversion word
  rw [same, shortest.unique (base_gt_one conversion) (numeral_magnitude conversion word)]
  rfl

theorem digits_below (conversion : Numeric) (word : UInt32) :
    ∀ digit ∈ conversion.digits word, digit < conversion.base :=
  (numeral_magnitude conversion word).below

theorem digits_pos (conversion : Numeric) (word : UInt32) : 0 < (conversion.digits word).length :=
  List.length_pos_iff.mpr (numeral_magnitude conversion word).nonempty

/-- The characters of the numeral. -/
def Numeric.characters (word : UInt32) (conversion : Numeric) : List UInt8 :=
  (conversion.digits word).map conversion.symbol

theorem cString_stored (conversion : Numeric) (word : UInt32) :
    cString (conversion.stored word) = conversion.characters word := by
  rw [stored_eq]
  exact cString_digits conversion.written (digits_below conversion word)

/-- The numeral and its NUL are in the buffer, except for long binary ones. -/
theorem stored_inside_iff (conversion : Numeric) (word : UInt32) :
    (conversion.stored word).length ≤ 20 ↔ (conversion = .binary → word.toNat < 2 ^ 19) := by
  obtain ⟨digits, shortest, same⟩ := stored_shortest conversion word
  have count : (conversion.stored word).length = digits.length + 1 := by
    rw [same, List.length_append, List.length_map, List.length_singleton]
  rw [count]
  by_cases binary : conversion = .binary
  · rw [binary] at shortest ⊢
    constructor
    · intro inside _
      by_contra large
      have many := IsShortest.lt_length (base_gt_one .binary) (Nat.not_lt.mp large) shortest
      omega
    · intro small
      have few := IsShortest.length_le (base_gt_one .binary) (by decide : 19 ≠ 0) (small rfl) shortest
      omega
  · -- The other bases have no more than eleven places.
    have few := IsShortest.length_le (base_gt_one conversion) (places_ne_zero conversion) (magnitude_lt conversion word)
      shortest
    have most : conversion.places ≤ 11 := by
      revert binary
      cases conversion <;> decide
    exact ⟨fun _ other => absurd other binary, fun _ => by omega⟩

/-! ## The field -/

/-- The precision that a conversion keeps: only `%d` has one. -/
def Numeric.precision (fmax : Int) (conversion : Numeric) : Int := if conversion = .decimal then fmax else 0

/-- The case of the `switch`. -/
theorem doprntSwitch_numeric (text : UInt32 → List UInt8) (conversion : Numeric) (fill : UInt8) (fmax : Int)
    (ap : VaList) (string : List UInt8) :
    doprntSwitch text conversion.letter fill fmax ap string =
      number (conversion.stored (ap 0)) (conversion.negative (ap 0)) fill (conversion.precision fmax) ap.behind := by
  cases conversion with
  | decimal =>
    have sign : Numeric.negative (ap 0) .decimal = decide (long (ap 0) < 0) := by simp [Numeric.negative]
    rw [Numeric.letter, doprntSwitch_d, sign]
    rfl
  | unsigned => exact (doprntSwitch_common _ _ _ _ _ (by decide) (by decide) (by decide)).trans (commonSwitch_u ..)
  | octal => exact (doprntSwitch_common _ _ _ _ _ (by decide) (by decide) (by decide)).trans (commonSwitch_o ..)
  | lower => exact (doprntSwitch_common _ _ _ _ _ (by decide) (by decide) (by decide)).trans (commonSwitch_x ..)
  | upper => exact (doprntSwitch_common _ _ _ _ _ (by decide) (by decide) (by decide)).trans (commonSwitch_X ..)
  | binary => exact (doprntSwitch_common _ _ _ _ _ (by decide) (by decide) (by decide)).trans (commonSwitch_b ..)

/-- The width that is written or given, as a number. -/
def Extent.width (ap : VaList) : Extent → Int
  | literal digits => (digits.foldl (fun total digit => total * 10 + digit.val) 0 : Nat)
  | star => long (ap 0)

/-- No width up to `MAXSTR` wraps around. -/
theorem Extent.value_eq_width {extent : Extent} {ap : VaList} (fits : extent.width ap ≤ MAXSTR) :
    extent.value ap = extent.width ap := by
  cases extent with
  | star => rfl
  | literal digits =>
    have exact : ∀ (digits : List (Fin 10)) (total : Nat),
        total ≤ digits.foldl (fun total digit => total * 10 + digit.val) total ∧
        (digits.foldl (fun total digit => total * 10 + digit.val) total ≤ 80 →
          digits.foldl (fun total digit => int32 (total * 10 + digit.val)) (total : Int) =
            (digits.foldl (fun total digit => total * 10 + digit.val) total : Nat)) := by
      intro digits
      induction digits with
      | nil => exact fun total => ⟨Nat.le_refl _, fun _ => rfl⟩
      | cons digit digits inductionHypothesis =>
        intro total
        obtain ⟨grows, same⟩ := inductionHypothesis (total * 10 + digit.val)
        rw [List.foldl_cons, List.foldl_cons]
        refine ⟨by omega, fun fits => ?_⟩
        have step : int32 ((total : Int) * 10 + digit.val) = (total * 10 + digit.val : Nat) := by
          rw [int32_eq (by omega) (by omega)]
          push_cast
          rfl
        rw [step]
        exact same fits
    have small : digits.foldl (fun total digit => total * 10 + digit.val) 0 ≤ 80 := by
      simpa [Extent.width, MAXSTR] using fits
    exact (exact digits 0).2 small

/-- How many digits of a number are output. -/
def Numeric.shown (modifiers : Modifiers) (ap : VaList) (conversion : Numeric) : Nat :=
  (Format.shown (conversion.precision (modifiers.spec ap).fmax)
    (conversion.digits (modifiers.behind ap 0)).length).toNat

/-- The width that the formatter goes by. -/
def effectiveWidth (modifiers : Modifiers) (ap : VaList) : Nat := (checked (modifiers.spec ap).fmin).toNat

def Numeric.sign (word : UInt32) (conversion : Numeric) : List UInt8 :=
  if conversion.negative word then [ch '-'] else []

/-- What the formatter outputs for a number. -/
theorem putField_number (modifiers : Modifiers) (conversion : Numeric) (ap : VaList) :
    putField modifiers.left (modifiers.spec ap).fmin
        (number (conversion.stored (modifiers.behind ap 0)) (conversion.negative (modifiers.behind ap 0)) modifiers.fill
          (conversion.precision (modifiers.spec ap).fmax) (modifiers.behind ap).behind) =
      layout modifiers.left (conversion.negative (modifiers.behind ap 0)) modifiers.fill
        (effectiveWidth modifiers ap -
          (conversion.shown modifiers ap + (conversion.sign (modifiers.behind ap 0)).length))
        ((conversion.characters (modifiers.behind ap 0)).take (conversion.shown modifiers ap)) := by
  have length : (conversion.characters (modifiers.behind ap 0)).length =
      (conversion.digits (modifiers.behind ap 0)).length := List.length_map _
  have few : 0 < Format.shown (conversion.precision (modifiers.spec ap).fmax)
      (conversion.digits (modifiers.behind ap 0)).length := by
    have positive := shown_pos (conversion.precision (modifiers.spec ap).fmax)
      (digits_pos conversion (modifiers.behind ap 0))
    omega
  have range : 0 ≤ checked (modifiers.spec ap).fmin := by
    rw [checked]
    split <;> omega
  have count : (leading (modifiers.spec ap).fmin (conversion.precision (modifiers.spec ap).fmax)
      (conversion.digits (modifiers.behind ap 0)).length (conversion.negative (modifiers.behind ap 0))).toNat =
        effectiveWidth modifiers ap -
          (conversion.shown modifiers ap + (conversion.sign (modifiers.behind ap 0)).length) := by
    rw [leading, effectiveWidth, Numeric.shown, Numeric.sign]
    cases conversion.negative (modifiers.behind ap 0) with
    | true =>
      simp only [and_true, if_true, List.length_singleton]
      split <;> split <;> omega
    | false =>
      simp only [Bool.false_eq_true, and_false, if_false, List.length_nil]
      split <;> omega
  rw [putField_eq]
  simp only [number, cString_stored, length, count]
  rfl

/-- A number as the flags ask for it: with `-` it stands in front of blanks, with `0` zeros stand between the sign and
the digits, and else it stands behind blanks. -/
def padded (modifiers : Modifiers) (sign digits : List UInt8) (pad : Nat) : List UInt8 :=
  if modifiers.left then sign ++ digits ++ List.replicate pad (ch ' ')
  else if modifiers.zero then sign ++ List.replicate pad (ch '0') ++ digits
  else List.replicate pad (ch ' ') ++ sign ++ digits

/-- What is asked of a conversion: at any place in a format it outputs the shortest numeral in a field as wide as asked
for, and stores in the buffer only. -/
structure WritesNumber (modifiers : Modifiers) (conversion : Numeric) (ap : VaList) : Prop where
  numeral : ∃ digits pad, IsShortest conversion.base (conversion.magnitude (modifiers.behind ap 0)) digits ∧
    let field := padded modifiers (conversion.sign (modifiers.behind ap 0)) (digits.map conversion.symbol) pad
    (modifiers.width.width ap ≤ MAXSTR → (field.length : Int) =
      max (modifiers.width.width ap) ((conversion.sign (modifiers.behind ap 0)).length + digits.length)) ∧
    ∀ (text : UInt32 → List UInt8) (string fmt : List UInt8), ∃ string',
      doprnt text string (ch '%' :: modifiers.render ++ conversion.letter :: fmt) ap =
        (doprnt text string' fmt (modifiers.behind ap).behind).map (field ++ ·)
  inside : (conversion.stored (modifiers.behind ap 0)).length ≤ stringSize

/-- What is output for a directive that is read. -/
theorem doprnt_number {modifiers : Modifiers} (orderly : modifiers.Orderly) {conversion : Numeric} {ap : VaList}
    (inside : (conversion.stored (modifiers.behind ap 0)).length ≤ stringSize) (text : UInt32 → List UInt8)
    (string fmt : List UInt8) :
    doprnt text string (ch '%' :: modifiers.render ++ conversion.letter :: fmt) ap =
      (doprnt text (conversion.characters (modifiers.behind ap 0)) fmt (modifiers.behind ap).behind).map
        (layout modifiers.left (conversion.negative (modifiers.behind ap 0)) modifiers.fill
          (effectiveWidth modifiers ap -
            (conversion.shown modifiers ap + (conversion.sign (modifiers.behind ap 0)).length))
          ((conversion.characters (modifiers.behind ap 0)).take (conversion.shown modifiers ap)) ++ ·) := by
  change format _ _ ap string = (format _ fmt _ _).map _
  have result : converted (doprntSwitch text) modifiers conversion.letter ap string =
      number (conversion.stored (modifiers.behind ap 0)) (conversion.negative (modifiers.behind ap 0)) modifiers.fill
        (conversion.precision (modifiers.spec ap).fmax) (modifiers.behind ap).behind :=
    doprntSwitch_numeric text conversion _ _ _ string
  rw [format_directive _ orderly conversion.isLetter, field, result, putField_number]
  simp only [number, cString_stored, List.nil_append, if_neg (Nat.not_lt.mpr inside)]


/-! ## When a number is written as asked -/

/-- Either all digits are output and no zeros follow them, or the zeros that follow them are the digits cut off. -/
def DigitsWhole (modifiers : Modifiers) (conversion : Numeric) (ap : VaList) : Prop :=
  let digits := conversion.digits (modifiers.behind ap 0)
  let signed := digits.length + (conversion.sign (modifiers.behind ap 0)).length
  conversion.shown modifiers ap = digits.length ∧
      (modifiers.left = true → modifiers.zero = true → effectiveWidth modifiers ap ≤ signed) ∨
    conversion.shown modifiers ap < digits.length ∧ modifiers.left = true ∧ modifiers.zero = true ∧
      effectiveWidth modifiers ap = signed ∧ ∀ digit ∈ digits.drop (conversion.shown modifiers ap), digit = 0

/-- The flags are in order, `%b` is given a number below 2^19, and the digits come out whole. -/
structure Suits (modifiers : Modifiers) (conversion : Numeric) (ap : VaList) : Prop where
  orderly : modifiers.Orderly
  short : conversion = .binary → (modifiers.behind ap 0).toNat < 2 ^ 19
  whole : DigitsWhole modifiers conversion ap

variable {modifiers : Modifiers} {conversion : Numeric} {ap : VaList}

theorem shown_le (modifiers : Modifiers) (conversion : Numeric) (ap : VaList) :
    0 < conversion.shown modifiers ap ∧
      conversion.shown modifiers ap ≤ (conversion.digits (modifiers.behind ap 0)).length := by
  refine ⟨shown_pos _ (digits_pos conversion _), ?_⟩
  rw [Numeric.shown, shown]
  split <;> omega

/-- The digits look like neither a blank nor, but for zero, like a `0`. -/
theorem symbol_spec (conversion : Numeric) {digit : Nat} (below : digit < conversion.base) :
    conversion.symbol digit ≠ ch ' ' ∧ (conversion.symbol digit = ch '0' → digit = 0) := by
  refine ⟨?_, fun same => conversion.written.faithful digit below (same.trans conversion.written.zero.symm)⟩
  revert digit
  cases conversion <;> decide

theorem characters_visible (conversion : Numeric) (word : UInt32) :
    ∀ c ∈ conversion.characters word, c ≠ ch ' ' := by
  intro c member
  obtain ⟨digit, among, rfl⟩ := List.mem_map.mp member
  exact (symbol_spec conversion (digits_below conversion word digit among)).1

theorem layout_eq (leftjust sign zero : Bool) (pad : Nat) (str : List UInt8) :
    layout leftjust sign (if zero then ch '0' else ch ' ') pad str =
      if leftjust then (if sign then [ch '-'] else []) ++ str ++ List.replicate pad (if zero then ch '0' else ch ' ')
      else if zero then (if sign then [ch '-'] else []) ++ List.replicate pad (ch '0') ++ str
      else List.replicate pad (ch ' ') ++ (if sign then [ch '-'] else []) ++ str := by
  have apart : ch ' ' ≠ ch '0' := by decide
  cases leftjust <;> cases sign <;> cases zero <;> simp [layout, apart, apart.symm]

theorem effectiveWidth_eq (fits : modifiers.width.width ap ≤ MAXSTR) :
    effectiveWidth modifiers ap = (modifiers.width.width ap).toNat := by
  have value : (modifiers.spec ap).fmin = modifiers.width.width ap := Extent.value_eq_width fits
  have notLarge : ¬modifiers.width.width ap > MAXSTR := Int.not_lt.mpr fits
  rw [effectiveWidth, value, checked]
  simp only [notLarge, false_or]
  split <;> omega

theorem padded_length (modifiers : Modifiers) (sign digits : List UInt8) (pad : Nat) :
    (padded modifiers sign digits pad).length = pad + (sign.length + digits.length) := by
  rw [padded]
  split
  · simp only [List.length_append, List.length_replicate]
    omega
  · split <;>
    · simp only [List.length_append, List.length_replicate]
      omega

/-- The field of a number that suits. -/
theorem Suits.field (suits : Suits modifiers conversion ap) :
    ∃ pad, padded modifiers (conversion.sign (modifiers.behind ap 0))
      (conversion.characters (modifiers.behind ap 0)) pad =
        layout modifiers.left (conversion.negative (modifiers.behind ap 0)) modifiers.fill
          (effectiveWidth modifiers ap -
            (conversion.shown modifiers ap + (conversion.sign (modifiers.behind ap 0)).length))
          ((conversion.characters (modifiers.behind ap 0)).take (conversion.shown modifiers ap)) ∧
      pad = effectiveWidth modifiers ap -
        ((conversion.digits (modifiers.behind ap 0)).length + (conversion.sign (modifiers.behind ap 0)).length) := by
  have length : (conversion.characters (modifiers.behind ap 0)).length =
      (conversion.digits (modifiers.behind ap 0)).length := List.length_map _
  refine ⟨_, ?_, rfl⟩
  rw [Modifiers.fill, layout_eq, padded, ← Numeric.sign]
  obtain ⟨all, noZeros⟩ | ⟨cut, left, zero, width, zeros⟩ := suits.whole
  · rw [all, ← length, List.take_length]
    cases left : modifiers.left with
    | false => rfl
    | true =>
      cases zero : modifiers.zero with
      | false => rfl
      | true =>
        have none := noZeros left zero
        rw [← length] at none
        rw [Nat.sub_eq_zero_of_le none]
        rfl
  · -- the zeros put behind the digits are those that have been cut off
    have count : effectiveWidth modifiers ap -
        (conversion.shown modifiers ap + (conversion.sign (modifiers.behind ap 0)).length) =
          (conversion.digits (modifiers.behind ap 0)).length - conversion.shown modifiers ap := by omega
    have behind : (conversion.characters (modifiers.behind ap 0)).drop (conversion.shown modifiers ap) =
        List.replicate ((conversion.digits (modifiers.behind ap 0)).length - conversion.shown modifiers ap)
          (ch '0') := by
      apply List.eq_replicate_iff.mpr
      refine ⟨by rw [List.length_drop, length], fun c member => ?_⟩
      rw [Numeric.characters, ← List.map_drop] at member
      obtain ⟨digit, among, rfl⟩ := List.mem_map.mp member
      rw [zeros digit among]
      exact conversion.written.zero
    rw [left, zero, count, if_pos rfl, if_pos rfl, if_pos rfl, ← behind, width, Nat.sub_self, List.append_assoc,
      List.append_assoc, List.take_append_drop, List.replicate_zero, List.append_nil]

theorem Suits.writes (suits : Suits modifiers conversion ap) : WritesNumber modifiers conversion ap := by
  have inside := (stored_inside_iff conversion _).mpr suits.short
  obtain ⟨pad, field, amount⟩ := suits.field
  refine ⟨⟨conversion.digits (modifiers.behind ap 0), pad, numeral_magnitude conversion _, fun fits => ?_,
    fun text string fmt => ⟨conversion.characters (modifiers.behind ap 0), ?_⟩⟩, inside⟩
  · have width := effectiveWidth_eq fits
    have some := digits_pos conversion (modifiers.behind ap 0)
    rw [padded_length, List.length_map]
    omega
  · rw [doprnt_number suits.orderly inside, ← field]
    rfl

/-! ### Every other number -/

theorem pad_cancel {c : UInt8} {pad pad' : Nat} {rest rest' : List UInt8} (other : rest.head? ≠ some c)
    (other' : rest'.head? ≠ some c) (same : List.replicate pad c ++ rest = List.replicate pad' c ++ rest') :
    rest = rest' := by
  induction pad generalizing pad' with
  | zero =>
    cases pad' with
    | zero => exact same
    | succ pad' =>
      rw [List.replicate_zero, List.nil_append] at same
      rw [same] at other
      exact absurd rfl other
  | succ pad inductionHypothesis =>
    cases pad' with
    | zero =>
      rw [List.replicate_zero, List.nil_append] at same
      rw [← same] at other'
      exact absurd rfl other'
    | succ pad' =>
      rw [List.replicate_succ, List.replicate_succ, List.cons_append, List.cons_append, List.cons_inj_right] at same
      exact inductionHypothesis same

theorem head_ne_of_visible {rest : List UInt8} {c : UInt8} (visible : ∀ d ∈ rest, d ≠ c) : rest.head? ≠ some c := by
  intro same
  exact visible c (List.mem_of_head? same) rfl

theorem sign_visible (conversion : Numeric) (word : UInt32) : ∀ c ∈ conversion.sign word, c ≠ ch ' ' := by
  intro c member
  rw [Numeric.sign] at member
  split at member
  · rw [List.mem_singleton.mp member]
    decide
  · cases member

/-- A numeral of several digits does not start with a zero. -/
theorem characters_head (conversion : Numeric) (word : UInt32) (several : 1 < (conversion.digits word).length) :
    (conversion.characters word).head? ≠ some (ch '0') := by
  have shortest := numeral_magnitude conversion word
  have below := digits_below conversion word
  rw [← Numeric.digits] at shortest
  rw [Numeric.characters]
  cases digits : conversion.digits word with
  | nil =>
    rw [digits] at several
    exact absurd several (Nat.not_lt_zero _)
  | cons lead rest =>
    rw [digits] at shortest several below
    intro same
    have written : rest ≠ [] := List.length_pos_iff.mp (by simpa using several)
    exact shortest.lead_ne_zero written
      ((symbol_spec conversion (below lead List.mem_cons_self)).2 (Option.some.inj same))

/-- From the field it can be told that the digits are whole. -/
theorem whole_of_field {pad : Nat}
    (same : padded modifiers (conversion.sign (modifiers.behind ap 0)) (conversion.characters (modifiers.behind ap 0))
        pad =
      layout modifiers.left (conversion.negative (modifiers.behind ap 0)) modifiers.fill
        (effectiveWidth modifiers ap -
          (conversion.shown modifiers ap + (conversion.sign (modifiers.behind ap 0)).length))
        ((conversion.characters (modifiers.behind ap 0)).take (conversion.shown modifiers ap))) :
    DigitsWhole modifiers conversion ap := by
  obtain ⟨positive, few⟩ := shown_le modifiers conversion ap
  have length : (conversion.characters (modifiers.behind ap 0)).length =
      (conversion.digits (modifiers.behind ap 0)).length := List.length_map _
  have visible := characters_visible conversion (modifiers.behind ap 0)
  have visible' := sign_visible conversion (modifiers.behind ap 0)
  rw [Modifiers.fill, layout_eq, padded, ← Numeric.sign] at same
  rw [DigitsWhole]
  generalize conversion.shown modifiers ap = shown at *
  generalize effectiveWidth modifiers ap = width at *
  have visibleShown : ∀ c ∈ (conversion.characters (modifiers.behind ap 0)).take shown, c ≠ ch ' ' :=
    fun c member => visible c (List.mem_of_mem_take member)
  have all : (conversion.characters (modifiers.behind ap 0)).take shown = conversion.characters
    (modifiers.behind ap 0) →
      shown = (conversion.digits (modifiers.behind ap 0)).length := by
    intro whole
    have lengths := congrArg List.length whole
    rw [List.length_take, length] at lengths
    omega
  cases left : modifiers.left with
  | false =>
    refine Or.inl ⟨all ?_, fun isLeft => absurd isLeft Bool.false_ne_true⟩
    cases zero : modifiers.zero with
    | false =>
      -- blanks stand before the first character that is none
      simp only [left, zero, Bool.false_eq_true, if_false, List.append_assoc] at same
      have both := pad_cancel (head_ne_of_visible fun d member => (List.mem_append.mp member).elim (visible' d)
        (visible d))
        (head_ne_of_visible fun d member => (List.mem_append.mp member).elim (visible' d) (visibleShown d)) same
      exact (List.append_cancel_left both).symm
    | true =>
      simp only [left, zero, Bool.false_eq_true, if_false, if_true, List.append_assoc,
        List.append_cancel_left_eq] at same
      by_contra cut
      have several : shown < (conversion.digits (modifiers.behind ap 0)).length := by
        by_contra whole
        exact cut (List.take_of_length_le (by omega))
      -- some digits are cut off, so there are several, and the first is not zero
      have leading := characters_head conversion (modifiers.behind ap 0) (by omega)
      have leading' : ((conversion.characters (modifiers.behind ap 0)).take shown).head? ≠ some (ch '0') := by
        rw [List.head?_take, if_neg (by omega)]
        exact leading
      exact cut (pad_cancel leading leading' same).symm
  | true =>
    cases zero : modifiers.zero with
    | false =>
      refine Or.inl ⟨all ?_, fun _ isZero => absurd isZero Bool.false_ne_true⟩
      simp only [left, zero, Bool.false_eq_true, if_false, if_true, List.append_assoc,
        List.append_cancel_left_eq] at same
      -- blanks stand behind the last character that is none
      have reversed := congrArg List.reverse same
      simp only [List.reverse_append, List.reverse_replicate] at reversed
      have both := pad_cancel (head_ne_of_visible fun d member => visible d (List.mem_reverse.mp member))
        (head_ne_of_visible fun d member => visibleShown d (List.mem_reverse.mp member)) reversed
      exact (List.reverse_injective both).symm
    | true =>
      simp only [left, zero, if_true, List.append_assoc, List.append_cancel_left_eq] at same
      -- there is no blank in what is output
      have none : pad = 0 := by
        by_contra blanks
        have blank : ch ' ' ∈ conversion.characters (modifiers.behind ap 0) ++ List.replicate pad (ch ' ') :=
          List.mem_append_right _ (List.mem_replicate.mpr ⟨blanks, rfl⟩)
        rw [same] at blank
        cases List.mem_append.mp blank with
        | inl shownBlank => exact visibleShown _ shownBlank rfl
        | inr zeroBlank => exact absurd (List.mem_replicate.mp zeroBlank).2 (by decide)
      rw [none, List.replicate_zero, List.append_nil] at same
      have behind : (conversion.characters (modifiers.behind ap 0)).drop shown =
          List.replicate (width - (shown + (conversion.sign (modifiers.behind ap 0)).length)) (ch '0') := by
        conv at same => lhs; rw [← List.take_append_drop shown (conversion.characters (modifiers.behind ap 0))]
        exact List.append_cancel_left same
      have count := congrArg List.length behind
      rw [List.length_drop, length, List.length_replicate] at count
      by_cases whole : shown = (conversion.digits (modifiers.behind ap 0)).length
      · exact Or.inl ⟨whole, fun _ _ => by omega⟩
      · refine Or.inr ⟨by omega, rfl, rfl, by omega, fun digit member => ?_⟩
        have below := digits_below conversion _ digit (List.mem_of_mem_drop member)
        have among : conversion.symbol digit ∈ (conversion.characters (modifiers.behind ap 0)).drop shown := by
          rw [Numeric.characters, ← List.map_drop]
          exact List.mem_map_of_mem member
        rw [behind] at among
        exact (symbol_spec conversion below).2 (List.mem_replicate.mp among).2

/-- Where the flags are out of order, what is output depends on the buffer. -/
theorem WritesNumber.orderly (writes : WritesNumber modifiers conversion ap) : modifiers.Orderly := by
  by_contra disorderly
  obtain ⟨c, tail, misread⟩ := Modifiers.misread disorderly
  obtain ⟨digits, pad, -, -, outputs⟩ := writes.numeral
  have shows (string : List UInt8) :
      c :: (string ++ (tail ++ [conversion.letter])) =
        padded modifiers (conversion.sign (modifiers.behind ap 0)) (digits.map conversion.symbol) pad := by
    obtain ⟨string', same⟩ := outputs (fun _ => []) string []
    have output : doprnt (fun _ => []) string (ch '%' :: modifiers.render ++ conversion.letter :: []) ap =
        some (c :: (string ++ (tail ++ [conversion.letter]))) :=
      format_misread _ (switch_defaults _).1 misread conversion.isLetter [] ap string
    have nothing : doprnt (fun _ => []) string' [] (modifiers.behind ap).behind = some [] := rfl
    rw [output, nothing, Option.map_some, List.append_nil] at same
    exact Option.some.inj same
  have lengths := congrArg List.length ((shows []).trans (shows [0]).symm)
  simp at lengths

theorem WritesNumber.suits (writes : WritesNumber modifiers conversion ap) : Suits modifiers conversion ap := by
  have orderly := writes.orderly
  refine ⟨orderly, (stored_inside_iff conversion _).mp writes.inside, ?_⟩
  obtain ⟨digits, pad, shortest, -, outputs⟩ := writes.numeral
  obtain ⟨string', same⟩ := outputs (fun _ => []) [] []
  have nothing (string : List UInt8) : doprnt (fun _ => []) string [] (modifiers.behind ap).behind = some [] := rfl
  rw [doprnt_number orderly writes.inside, nothing, nothing, Option.map_some, Option.map_some, List.append_nil,
    List.append_nil, shortest.unique (base_gt_one conversion) (numeral_magnitude conversion _)] at same
  exact whole_of_field (Option.some.inj same).symm

/-- The conversions write their numbers as asked exactly when the directive and the number suit. -/
theorem doprnt_number_iff (modifiers : Modifiers) (conversion : Numeric) (ap : VaList) :
    WritesNumber modifiers conversion ap ↔ Suits modifiers conversion ap :=
  ⟨WritesNumber.suits, Suits.writes⟩

/-- The digit 8. -/
def eight : Fin 10 := ⟨8, by decide⟩

theorem eight_significant (digits : List (Fin 10)) : Extent.literal [eight] ≠ .literal (0 :: digits) := by
  intro same
  injection same with same
  exact absurd (List.cons.inj same).1 (by decide)

/-- `%08`. -/
def zeroEight : Modifiers where
  flags := [.zero]
  width := .literal [eight]
  precision := none
  significant := eight_significant

/-- `%08d` of -255. -/
example : doprnt (fun _ => []) [] (ch '%' :: zeroEight.render ++ [ch 'd']) (fun _ => 0 - 255) =
    some ("-0000255".toList.map ch) := by decide +kernel

/-- `%b` of 2^19: twenty digits and the NUL. -/
theorem longBinary_overflows :
    ¬∀ (modifiers : Modifiers) (conversion : Numeric) (ap : VaList), WritesNumber modifiers conversion ap := by
  intro always
  have writes := always zeroEight .binary (fun _ => 524288)
  have overflow : ¬(Numeric.stored 524288 .binary).length ≤ stringSize := by decide +kernel
  exact overflow writes.inside

end XinuStm32.Format
