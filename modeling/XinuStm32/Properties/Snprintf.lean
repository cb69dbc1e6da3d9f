import XinuStm32.Properties.Formatters
import XinuStm32.Properties.NumberFields
import XinuStm32.Lib.Patch

/-!
# Output to a string

`snprintf` stores everything that is output from `str` on and only then cuts it off, so that a longer output goes past
the end of the buffer. The numeral of a `%b` may go past the end of the buffer of `_fdoprnt` before that.
-/

namespace XinuStm32.Format

open Patch

/-! ## The conversions of a format -/

/-- `_fdoprnt` takes an argument for this letter. -/
def takesArgument (f : UInt8) : Bool :=
  decide (f ∈ [ch 'c', ch 's', ch 'd', ch 'u', ch 'o', ch 'X', ch 'x', ch 'b'])

/-- The letters that the loop comes to in a format, each with the argument that is next. -/
def conversionLoop : Nat → List UInt8 → VaList → List (UInt8 × UInt32)
  | 0, _, _ => []
  | _ + 1, [], _ => []
  | fuel + 1, c :: fmt, ap =>
    if c ≠ ch '%' then conversionLoop fuel fmt ap
    else if fmt.head? = some (ch '%') then conversionLoop fuel fmt.tail ap
    else
      let (_, ap, fmt) := readSpec ap fmt
      match fmt with
      | [] => []
      | f :: fmt => (f, ap 0) :: conversionLoop fuel fmt (if takesArgument f then ap.behind else ap)

def conversions (fmt : List UInt8) (ap : VaList) : List (UInt8 × UInt32) := conversionLoop (fmt.length + 1) fmt ap

/-- No `%b` is given a number with more than nineteen binary digits. -/
def ShortBinaries (fmt : List UInt8) (ap : VaList) : Prop :=
  ∀ word, (ch 'b', word) ∈ conversions fmt ap → word.toNat < 2 ^ 19

variable (text : UInt32 → List UInt8)

theorem fdoprntSwitch_other {f : UInt8} (other : takesArgument f = false) (fill : UInt8) (fmax : Int) (ap : VaList)
    (string : List UInt8) :
    (fdoprntSwitch text f fill fmax ap string).stored = 0 ∧ (fdoprntSwitch text f fill fmax ap string).ap = ap := by
  have letters := of_decide_eq_false other
  simp only [List.mem_cons, List.not_mem_nil, or_false, not_or] at letters
  obtain ⟨notC, notS, notD, notU, notO, notX, notx, notB⟩ := letters
  rw [fdoprntSwitch, if_neg notD, commonSwitch, if_neg notC, if_neg notS]
  by_cases float : f = ch 'f'
  · rw [if_pos float]
    exact ⟨rfl, rfl⟩
  · rw [if_neg float, if_neg notU, if_neg notO, if_neg notX, if_neg notx, if_neg notB]
    exact ⟨rfl, rfl⟩

/-- Only a long binary numeral goes behind the buffer. -/
theorem fdoprntSwitch_stored (f fill : UInt8) (fmax : Int) (ap : VaList) (string : List UInt8) :
    ((fdoprntSwitch text f fill fmax ap string).stored ≤ stringSize ↔ (f = ch 'b' → (ap 0).toNat < 2 ^ 19)) ∧
      (fdoprntSwitch text f fill fmax ap string).ap = if takesArgument f then ap.behind else ap := by
  cases takes : takesArgument f with
  | false =>
    obtain ⟨nothing, same⟩ := fdoprntSwitch_other text takes fill fmax ap string
    rw [nothing, same]
    refine ⟨iff_of_true (Nat.zero_le _) fun binary => ?_, rfl⟩
    rw [binary] at takes
    exact absurd takes (by decide)
  | true =>
    have letters := of_decide_eq_true takes
    simp only [List.mem_cons, List.not_mem_nil, or_false] at letters
    rw [if_pos rfl]
    obtain known | rfl : (∃ conversion : Conversion, conversion.letter = f) ∨ f = ch 'b' := by
      obtain rfl | rfl | rfl | rfl | rfl | rfl | rfl | rfl := letters
      · exact Or.inl ⟨.character, rfl⟩
      · exact Or.inl ⟨.string, rfl⟩
      · exact Or.inl ⟨.decimal, rfl⟩
      · exact Or.inl ⟨.unsigned, rfl⟩
      · exact Or.inl ⟨.octal, rfl⟩
      · exact Or.inl ⟨.upper, rfl⟩
      · exact Or.inl ⟨.lower, rfl⟩
      · exact Or.inr rfl
    · obtain ⟨conversion, rfl⟩ := known
      have other : conversion.letter ≠ ch 'b' := by
        cases conversion <;> decide
      exact ⟨iff_of_true (switch_stored text conversion fill fmax ap string).2 fun binary => absurd binary other,
        (switch_ap text conversion fill fmax ap string).2⟩
    · rw [fdoprntSwitch_common text fill fmax ap string (by decide), commonSwitch_b, number_stored]
      exact ⟨(stored_inside_iff .binary (ap 0)).trans ⟨fun short _ => short rfl, fun short _ => short rfl⟩, rfl⟩

theorem formatLoop_none_iff (fuel : Nat) (fmt : List UInt8) (ap : VaList) (string : List UInt8) :
    formatLoop (fdoprntSwitch text) fuel fmt ap string = none ↔
      ∃ word, (ch 'b', word) ∈ conversionLoop fuel fmt ap ∧ 2 ^ 19 ≤ word.toNat := by
  induction fuel generalizing fmt ap string with
  | zero => simp [formatLoop, conversionLoop]
  | succ fuel inductionHypothesis =>
    cases fmt with
    | nil => simp [formatLoop, conversionLoop]
    | cons c fmt =>
      rw [formatLoop, conversionLoop]
      split
      · rw [Option.map_eq_none_iff]
        exact inductionHypothesis fmt ap string
      · split
        · rw [Option.map_eq_none_iff]
          exact inductionHypothesis fmt.tail ap string
        · generalize readSpec ap fmt = read
          obtain ⟨spec, ap, fmt⟩ := read
          cases fmt with
          | nil => simp
          | cons f fmt =>
            obtain ⟨inside, behind⟩ := fdoprntSwitch_stored text f spec.fill spec.fmax ap string
            simp only [List.mem_cons, Prod.mk.injEq]
            rw [← behind]
            by_cases overrun : stringSize < (fdoprntSwitch text f spec.fill spec.fmax ap string).stored
            · rw [if_pos overrun]
              have long : f = ch 'b' ∧ 2 ^ 19 ≤ (ap 0).toNat := by
                by_contra short
                refine Nat.not_le.mpr overrun (inside.mpr fun binary => ?_)
                by_contra large
                exact short ⟨binary, Nat.not_lt.mp large⟩
              exact iff_of_true rfl ⟨ap 0, Or.inl ⟨long.1.symm, rfl⟩, long.2⟩
            · rw [if_neg overrun, Option.map_eq_none_iff, inductionHypothesis]
              have short := inside.mp (Nat.not_lt.mp overrun)
              constructor
              · rintro ⟨word, later, large⟩
                exact ⟨word, Or.inr later, large⟩
              · rintro ⟨word, here | later, large⟩
                · rw [here.2] at large
                  exact absurd (short here.1.symm) (Nat.not_lt.mpr large)
                · exact ⟨word, later, large⟩

/-- The output has an end exactly when every `%b` keeps to the buffer. -/
theorem fdoprnt_some_iff (string fmt : List UInt8) (ap : VaList) :
    (∃ output, fdoprnt text string fmt ap = some output) ↔ ShortBinaries fmt ap := by
  rw [← Option.isSome_iff_exists, ← Option.ne_none_iff_isSome, fdoprnt, Ne, formatLoop_none_iff, ShortBinaries,
    conversions]
  simp only [not_exists, not_and, Nat.not_le]

/-! ## The memory -/

variable (string : List UInt8) (str : Nat) (fmt : List UInt8) (ap : VaList) (ram : Nat → UInt8)

/-- The memory with characters stored from an address on. -/
def stored (bytes : List UInt8) (start : Nat) (ram : Nat → UInt8) : Nat → UInt8 :=
  patch start bytes.length (fun i => bytes.getD i 0) ram

theorem foldl_sprntf (bytes : List UInt8) (s : Nat) (ram : Nat → UInt8) :
    bytes.foldl sprntf (s, ram) = (s + bytes.length, stored bytes s ram) := by
  induction bytes generalizing s ram with
  | nil => simp [stored]
  | cons c bytes inductionHypothesis =>
    have first : sprntf (s, ram) c = (s + 1, Function.update ram s c) := rfl
    have rest : stored bytes (s + 1) (Function.update ram s c) = stored (c :: bytes) s ram :=
      patch_cons s bytes.length (fun i => (c :: bytes).getD i 0) ram
    rw [List.foldl_cons, first, inductionHypothesis, rest, List.length_cons]
    congr 1
    omega

variable {text string str fmt ap ram} {output : List UInt8}

theorem formatTo_eq (outputs : fdoprnt text string fmt ap = some output) :
    formatTo text string fmt ap (str, ram) = some (str + output.length, stored output str ram) := by
  rw [formatTo, outputs, Option.map_some, foldl_sprntf]

/-- `sprintf` puts the whole output and a NUL at `str`. -/
theorem sprintf_eq (outputs : fdoprnt text string fmt ap = some output) :
    sprintf text string str fmt ap ram =
      some (str, Function.update (stored output str ram) (str + output.length) 0) := by
  rw [sprintf, formatTo_eq outputs]
  rfl

/-- How many characters `snprintf` leaves of an output. -/
def kept (output : List UInt8) (size : Nat) : Nat := min output.length (size - 1)

/-- The whole output is stored, then the NUL. -/
theorem snprintf_eq {size : Nat} (ram : Nat → UInt8) (outputs : fdoprnt text string fmt ap = some output)
    (nonempty : 1 ≤ size)
    (signed : size < 2 ^ 31) (valid : str ≠ 0) (fits : str + output.length < 2 ^ 32) :
    snprintf text string str size fmt ap ram =
      some ((kept output size : Int), Function.update (stored output str ram) (str + kept output size) 0) := by
  have buffer : ¬(str = 0 ∨ (size : Int) = 0) := by omega
  have written : (str + output.length - str : Nat) = output.length := Nat.add_sub_cancel_left _ _
  have unsigned : int32 (output.length : Int) % 2 ^ 32 = output.length := by
    rw [int32, Int.bmod]
    split <;> omega
  rw [snprintf, if_neg buffer, formatTo_eq outputs, Option.map_some]
  simp only
  rw [written, unsigned, kept]
  by_cases cut : size ≤ output.length
  · have last : ((str : Int) + size - 1).toNat = str + (size - 1) := by omega
    have count : (size : Int) - 1 = (size - 1 : Nat) := by omega
    rw [if_pos (by omega), last, Nat.min_eq_right (by omega), count]
  · have small : int32 (output.length : Int) = output.length := by
      rw [int32, Int.bmod]
      split <;> omega
    rw [if_neg (by omega), small, Nat.min_eq_left (by omega)]

/-- What is asked of `snprintf`: it returns, with `left` in memory, and `whole` is what `sprintf` would have made of the
memory with the same output. -/
structure PrintsInto (text : UInt32 → List UInt8) (string : List UInt8) (str : Nat) (fmt : List UInt8) (ap : VaList)
    (ram : Nat → UInt8) (size : Nat) (output : List UInt8) (left whole : Nat → UInt8) : Prop where
  prints : sprintf text string str fmt ap ram = some (str, whole) ∧ fdoprnt text string fmt ap = some output
  returns : snprintf text string str size fmt ap ram = some ((kept output size : Int), left)
  frame : ∀ place, place < str ∨ str + size ≤ place → left place = ram place
  content : ∀ i < kept output size, left (str + i) = whole (str + i)
  terminated : left (str + kept output size) = 0

/-- `snprintf` works as it should exactly when no binary numeral is too long for the buffer of `_fdoprnt` and everything
that is stored past the buffer is there already, so in particular when the output is not longer than the buffer. -/
theorem snprintf_iff {size : Nat} (nonempty : 1 ≤ size) (signed : size < 2 ^ 31) (valid : str ≠ 0)
    (fits : ∀ output, fdoprnt text string fmt ap = some output → str + output.length < 2 ^ 32) :
    (∃ output left whole, PrintsInto text string str fmt ap ram size output left whole) ↔
      ShortBinaries fmt ap ∧ ∀ output, fdoprnt text string fmt ap = some output →
        ∀ i (inside : i < output.length), size ≤ i → output[i] = ram (str + i) := by
  have few (output : List UInt8) : kept output size < size := by
    rw [kept]
    omega
  constructor
  · rintro ⟨output, left, whole, prints⟩
    refine ⟨(fdoprnt_some_iff text string fmt ap).mp ⟨output, prints.prints.2⟩, fun output' outputs i inside past => ?_⟩
    obtain rfl : output = output' := Option.some.inj (prints.prints.2.symm.trans outputs)
    have result := (snprintf_eq ram outputs nonempty signed valid (fits output outputs)).symm.trans prints.returns
    have memory := (Prod.mk.inj (Option.some.inj result)).2
    have frame := prints.frame (str + i) (Or.inr (by omega))
    have small := few output
    rw [← frame, ← memory, Function.update_of_ne (by omega), stored, patch_inside (by omega) (by omega),
      Nat.add_sub_cancel_left, List.getD_eq_getElem _ _ inside]
  · rintro ⟨short, same⟩
    obtain ⟨output, outputs⟩ := (fdoprnt_some_iff text string fmt ap).mpr short
    have small := few output
    have there := same output outputs
    refine ⟨output, _, _, ⟨sprintf_eq outputs, outputs⟩, snprintf_eq _ outputs nonempty signed valid
      (fits output outputs),
      ?_, ?_, Function.update_self ..⟩
    · intro place outside
      rw [Function.update_of_ne (by omega), stored]
      by_cases inside : str ≤ place ∧ place < str + output.length
      · -- Past the buffer, and what is stored there makes no change.
        have index : place - str < output.length := by omega
        have here : str + (place - str) = place := by omega
        rw [patch_inside inside.1 inside.2, List.getD_eq_getElem _ _ index, there _ index (by omega), here]
      · exact patch_outside (by omega)
    · intro i before
      have length : kept output size ≤ output.length := Nat.min_le_left _ _
      rw [Function.update_of_ne (by omega), Function.update_of_ne (by omega)]

/-- `%d` of 7 in a buffer of two bytes. -/
theorem digit_fits :
    ∃ output left whole, PrintsInto (fun _ => []) [] 0x20005000 [ch '%', ch 'd'] (fun _ => 7) (fun _ => 0) 2 output left
      whole := by
  have one : fdoprnt (fun _ => []) [] [ch '%', ch 'd'] (fun _ => 7) = some [ch '7'] := by decide +kernel
  apply (snprintf_iff (by decide) (by decide) (by decide) fun output outputs => ?_).mpr
  · refine ⟨(fdoprnt_some_iff _ _ _ _).mp ⟨_, one⟩, fun output outputs i inside past => ?_⟩
    rw [← Option.some.inj (one.symm.trans outputs), List.length_singleton] at inside
    omega
  · rw [← Option.some.inj (one.symm.trans outputs)]
    decide

/-- Three characters for a buffer of two: the last is stored behind it. -/
theorem text_overruns :
    ¬∀ (text : UInt32 → List UInt8) (string : List UInt8) (str : Nat) (fmt : List UInt8) (ap : VaList)
      (ram : Nat → UInt8) (size : Nat), 1 ≤ size → size < 2 ^ 31 → str ≠ 0 →
        (∀ output, fdoprnt text string fmt ap = some output → str + output.length < 2 ^ 32) →
          ∃ output left whole, PrintsInto text string str fmt ap ram size output left whole := by
  intro always
  have three : fdoprnt (fun _ => []) [] [ch 'a', ch 'b', ch 'c'] (fun _ => 0) = some [ch 'a', ch 'b', ch 'c'] := by
    decide +kernel
  have fits : ∀ output, fdoprnt (fun _ => []) [] [ch 'a', ch 'b', ch 'c'] (fun _ => 0) = some output →
      0x20005000 + output.length < 2 ^ 32 := by
    intro output outputs
    rw [← Option.some.inj (three.symm.trans outputs)]
    decide
  obtain ⟨output, left, whole, prints⟩ := always (fun _ => []) [] 0x20005000 [ch 'a', ch 'b', ch 'c'] (fun _ => 0)
    (fun _ => 0) 2 (by decide) (by decide) (by decide) fits
  have result := (snprintf_eq (fun _ => 0) three (by decide : 1 ≤ 2) (by decide) (by decide : 0x20005000 ≠ 0)
    (by decide)).symm.trans prints.returns
  have memory := (Prod.mk.inj (Option.some.inj result)).2
  have frame := prints.frame (0x20005000 + 2) (Or.inr (Nat.le_refl _))
  rw [← memory] at frame
  exact absurd frame (by decide +kernel)

end XinuStm32.Format
