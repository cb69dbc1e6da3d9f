import XinuStm32.Abstract.Directives

/-!
# The loop of a formatter

The formatters read a directive's modifiers as they are meant, and their loop goes over a format piece by piece.
Both facts hold for any `switch`.
-/

namespace XinuStm32.Format

/-! ## Reading a directive -/

/-- A character at which a number ends and no extent starts. -/
def IsEnd (c : UInt8) : Prop := c ≠ ch '-' ∧ c ≠ ch '*' ∧ ¬(ch '0' ≤ c ∧ c ≤ ch '9')

instance (c : UInt8) : Decidable (IsEnd c) := inferInstanceAs (Decidable (_ ∧ _))

/-- What may stand behind the modifiers. -/
def IsLetter (c : UInt8) : Prop := IsEnd c ∧ c ≠ ch '.' ∧ c ≠ ch '%'

instance (c : UInt8) : Decidable (IsLetter c) := inferInstanceAs (Decidable (_ ∧ _))

theorem Conversion.isLetter (conversion : Conversion) : IsLetter conversion.letter := by
  cases conversion <;> decide

/-- What is known of a character that starts a width. -/
theorem digitChar_spec (digit : Fin 10) :
    (ch '0' ≤ digitChar digit ∧ digitChar digit ≤ ch '9') ∧ (digitChar digit).toNat = digit.val + 48 ∧
      digitChar digit ≠ ch '-' ∧ digitChar digit ≠ ch '*' ∧ digitChar digit ≠ ch '%' ∧
      (digitChar digit = ch '0' → digit = 0) := by
  revert digit
  decide

theorem numberLoop_render (digits : List (Fin 10)) (value : Int) {c : UInt8} (ends : IsEnd c) (rest : List UInt8) :
    numberLoop value (digits.map digitChar ++ c :: rest) =
      (digits.foldl (fun total digit => int32 (total * 10 + digit.val)) value, c :: rest) := by
  induction digits generalizing value with
  | nil => rw [List.map_nil, List.nil_append, numberLoop, if_neg ends.2.2, List.foldl_nil]
  | cons digit digits inductionHypothesis =>
    obtain ⟨isDigit, number, _⟩ := digitChar_spec digit
    have next : value * 10 + ((digitChar digit).toNat : Int) - 48 = value * 10 + digit.val := by omega
    rw [List.map_cons, List.cons_append, numberLoop, if_pos isDigit, next, inductionHypothesis, List.foldl_cons]

/-- How an extent starts. -/
theorem Extent.head_render (extent : Extent) {c : UInt8} (ends : IsEnd c) (rest : List UInt8) :
    (extent.render ++ c :: rest).head? ≠ some (ch '-') ∧
      ((extent.render ++ c :: rest).head? = some (ch '*') ↔ extent = .star) ∧
      ((∀ digits, extent ≠ .literal (0 :: digits)) → (extent.render ++ c :: rest).head? ≠ some (ch '0')) := by
  obtain ⟨minus, star, digit⟩ := ends
  have zero : c ≠ ch '0' := by
    rintro rfl
    exact digit (by decide)
  cases extent with
  | star =>
    have apart : ch '*' ≠ ch '-' ∧ ch '*' ≠ ch '0' := by decide
    simp [Extent.render, apart]
  | literal digits =>
    cases digits with
    | nil => simp [Extent.render, minus, star, zero]
    | cons first digits =>
      obtain ⟨_, _, notMinus, notStar, _, isZero⟩ := digitChar_spec first
      have leading : (∀ more, Extent.literal (first :: digits) ≠ .literal (0 :: more)) → digitChar first ≠ ch '0' := by
        intro other same
        exact other digits (by rw [isZero same])
      simpa [Extent.render, notMinus, notStar] using leading

theorem readExtent_render (extent : Extent) (ap : VaList) {c : UInt8} (ends : IsEnd c) (rest : List UInt8) :
    readExtent ap (extent.render ++ c :: rest) = (extent.value ap, extent.behind ap, c :: rest) := by
  obtain ⟨_, star, _⟩ := extent.head_render ends rest
  rw [readExtent]
  cases extent with
  | star => rw [if_pos (star.mpr rfl)]; rfl
  | literal digits =>
    have noStar : ((Extent.literal digits).render ++ c :: rest).head? ≠ some (ch '*') := by
      intro starred
      cases star.mp starred
    rw [if_neg noStar, Extent.render, numberLoop_render digits 0 ends rest]
    rfl

/-- How the flags are read: one `-`, one `0`. -/
theorem readFlags (minus : Bool) (zeros : Nat) {rest : List UInt8}
    (noMinus : minus = true ∨ 0 < zeros ∨ rest.head? ≠ some (ch '-'))
      (noZero : 0 < zeros ∨ rest.head? ≠ some (ch '0')) :
    readFlag (ch '-') ((if minus then [ch '-'] else []) ++ (List.replicate zeros (ch '0') ++ rest)) =
        (minus, List.replicate zeros (ch '0') ++ rest) ∧
      readFlag (ch '0') (List.replicate zeros (ch '0') ++ rest) =
        (decide (0 < zeros), List.replicate (zeros - 1) (ch '0') ++ rest) := by
  constructor
  · cases minus with
    | true => exact if_pos rfl
    | false =>
      apply if_neg
      cases zeros with
      | zero => simpa using noMinus
      | succ zeros => exact fun same => absurd (Option.some.inj same) (by decide)
  · cases zeros with
    | zero => exact if_neg (noZero.resolve_left (Nat.lt_irrefl 0))
    | succ zeros => exact if_pos rfl

theorem readPrecision_render (modifiers : Modifiers) (ap : VaList) {letter : UInt8} (isLetter : IsLetter letter)
    (rest : List UInt8) :
    readPrecision ap (modifiers.renderPrecision ++ letter :: rest) =
      (modifiers.precision.elim 0 fun extent => extent.value ap,
        modifiers.precision.elim ap fun extent => extent.behind ap, letter :: rest) := by
  rw [readPrecision, Modifiers.renderPrecision]
  cases modifiers.precision with
  | none =>
    have other : letter ≠ ch '.' := isLetter.2.1
    exact if_neg fun point => other (Option.some.inj point)
  | some extent =>
    have point : (ch '.' :: (extent.render ++ letter :: rest)).head? = some (ch '.') := rfl
    exact (if_pos point).trans (readExtent_render extent ap isLetter.1 rest)

/-- Behind the width stands the point or the letter. -/
theorem renderPrecision_head (modifiers : Modifiers) {letter : UInt8} (isLetter : IsLetter letter) (rest : List UInt8) :
    ∃ c more, modifiers.renderPrecision ++ letter :: rest = c :: more ∧ IsEnd c := by
  rw [Modifiers.renderPrecision]
  cases modifiers.precision with
  | none => exact ⟨letter, rest, rfl, isLetter.1⟩
  | some extent => exact ⟨ch '.', extent.render ++ letter :: rest, rfl, by decide⟩

/-- The zeros among the flags. -/
def Modifiers.zeros (modifiers : Modifiers) : Nat := modifiers.flags.count .zero

theorem flags_zeros {flags : List Flag} (none : .minus ∉ flags) :
    flags.map Flag.char = List.replicate (flags.count .zero) (ch '0') := by
  induction flags with
  | nil => rfl
  | cons flag flags inductionHypothesis =>
    rw [List.mem_cons, not_or] at none
    cases flag with
    | minus => exact absurd rfl none.1
    | zero => simp [List.replicate_succ, inductionHypothesis none.2, Flag.char]

/-- Flags that are not out of order are a `-` and then zeros. -/
theorem Modifiers.flags_eq {modifiers : Modifiers} (once : .minus ∉ modifiers.flags.tail) :
    modifiers.flags.map Flag.char =
      (if modifiers.left then [ch '-'] else []) ++ List.replicate modifiers.zeros (ch '0') := by
  rw [Modifiers.left, Modifiers.zeros]
  cases flags : modifiers.flags with
  | nil => rfl
  | cons first rest =>
    rw [flags, List.tail_cons] at once
    rw [List.map_cons, flags_zeros once]
    cases first with
    | minus => simp [Flag.char]
    | zero => simp [Flag.char, once, List.replicate_succ]

theorem Modifiers.zero_eq (modifiers : Modifiers) : modifiers.zero = decide (0 < modifiers.zeros) := by
  rw [Modifiers.zero, Modifiers.zeros]
  exact decide_eq_decide.mpr List.count_pos_iff.symm

/-- More zeros in front of a width are part of it. -/
theorem readExtent_zeros (extent : Extent) (zeros : Nat) (single : extent = .star → zeros = 0) (ap : VaList) {c : UInt8}
    (ends : IsEnd c) (rest : List UInt8) :
    readExtent ap (List.replicate zeros (ch '0') ++ (extent.render ++ c :: rest)) =
      (extent.value ap, extent.behind ap, c :: rest) := by
  cases extent with
  | star =>
    rw [single rfl]
    exact readExtent_render .star ap ends rest
  | literal digits =>
    have whole : List.replicate zeros (ch '0') ++ ((Extent.literal digits).render ++ c :: rest) =
        (Extent.literal (List.replicate zeros 0 ++ digits)).render ++ c :: rest := by
      simp only [Extent.render, List.map_append, List.map_replicate, List.append_assoc]
      rfl
    have value : (Extent.literal (List.replicate zeros 0 ++ digits)).value ap = (Extent.literal digits).value ap := by
      rw [Extent.value, Extent.value, List.foldl_append]
      congr 1
      clear single whole
      induction zeros with
      | zero => rfl
      | succ zeros inductionHypothesis =>
        have start : int32 (0 * 10 + ((0 : Fin 10).val : Int)) = 0 := by decide
        rw [List.replicate_succ, List.foldl_cons, start]
        exact inductionHypothesis
    rw [whole, readExtent_render _ ap ends rest, value]
    rfl

/-- The modifiers are read as they are meant. -/
theorem readSpec_render {modifiers : Modifiers} (orderly : modifiers.Orderly) (ap : VaList) {letter : UInt8}
    (isLetter : IsLetter letter) (rest : List UInt8) :
    readSpec ap (modifiers.render ++ letter :: rest) =
      (modifiers.spec ap, modifiers.behind ap, letter :: rest) := by
  have flags := modifiers.flags_eq orderly.1
  obtain ⟨c, more, shape, ends⟩ := renderPrecision_head modifiers isLetter rest
  obtain ⟨minus, _, noZero⟩ := modifiers.width.head_render ends more
  obtain ⟨first, second⟩ := readFlags modifiers.left modifiers.zeros (Or.inr (Or.inr minus))
    (Or.inr (noZero modifiers.significant))
  have width := readExtent_zeros modifiers.width (modifiers.zeros - 1)
    (fun star => Nat.sub_eq_zero_of_le (orderly.2 star)) ap ends more
  rw [Modifiers.render, readSpec, flags]
  simp only [List.append_assoc, shape, first, second, width]
  rw [← shape, readPrecision_render modifiers _ isLetter rest, ← modifiers.zero_eq]
  rfl

/-! ### Flags out of order -/

theorem readExtent_stop (zeros : Nat) (ap : VaList) {c : UInt8} (stop : ¬(ch '0' ≤ c ∧ c ≤ ch '9'))
    (other : 0 < zeros ∨ c ≠ ch '*') (rest : List UInt8) :
    readExtent ap (List.replicate zeros (ch '0') ++ c :: rest) = (0, ap, c :: rest) := by
  have noStar : (List.replicate zeros (ch '0') ++ c :: rest).head? ≠ some (ch '*') := by
    cases zeros with
    | zero => exact fun same => other.resolve_left (Nat.lt_irrefl 0) (Option.some.inj same)
    | succ zeros => exact fun same => absurd (Option.some.inj same) (by decide)
  rw [readExtent, if_neg noStar]
  have loop : numberLoop 0 (List.replicate zeros (ch '0') ++ c :: rest) = (0, c :: rest) := by
    clear noStar other
    induction zeros with
    | zero => exact if_neg stop
    | succ zeros inductionHypothesis =>
      rw [List.replicate_succ, List.cons_append, numberLoop, if_pos (by decide)]
      exact inductionHypothesis
  rw [loop]

/-- Text in which no directive starts. -/
def Literal (plain : List UInt8) : Prop := ∀ c ∈ plain, c ≠ ch '%'

theorem Extent.render_literal (extent : Extent) : Literal extent.render := by
  intro c member
  cases extent with
  | star =>
    rw [List.mem_singleton.mp member]
    decide
  | literal digits =>
    obtain ⟨digit, -, rfl⟩ := List.mem_map.mp member
    exact (digitChar_spec digit).2.2.2.2.1

theorem Literal.append {first second : List UInt8} (plain : Literal first) (plain' : Literal second) :
    Literal (first ++ second) := fun c member => (List.mem_append.mp member).elim (plain c) (plain' c)

theorem Modifiers.renderPrecision_literal (modifiers : Modifiers) : Literal modifiers.renderPrecision := by
  rw [Modifiers.renderPrecision]
  cases modifiers.precision with
  | none => exact fun c member => absurd member List.not_mem_nil
  | some extent =>
    intro c member
    cases List.mem_cons.mp member with
    | inl point =>
      rw [point]
      decide
    | inr member => exact extent.render_literal c member

theorem flags_literal (flags : List Flag) : Literal (flags.map Flag.char) := by
  intro c member
  obtain ⟨flag, -, rfl⟩ := List.mem_map.mp member
  cases flag <;> decide

/-- What a formatter takes for the conversion where the flags are out of order: the second `-`, a `-` behind zeros, or
the `*` behind several zeros. What stands behind it is text. -/
structure Misread (modifiers : Modifiers) (c : UInt8) (tail : List UInt8) : Prop where
  letter : c = ch '-' ∨ c = ch '*'
  plain : Literal tail
  reads : ∀ (ap : VaList) (rest : List UInt8),
    ∃ spec : Spec, readSpec ap (modifiers.render ++ rest) = (spec, ap, c :: (tail ++ rest)) ∧
      spec.fmin = 0 ∧ spec.fmax = 0

theorem misread_of_shape {modifiers : Modifiers} {minus : Bool} {zeros : Nat} {c : UInt8} {tail : List UInt8}
    (shape : modifiers.render = (if minus then [ch '-'] else []) ++ (List.replicate zeros (ch '0') ++ c :: tail))
    (literal : Literal tail) (letter : c = ch '-' ∧ (minus = true ∨ 0 < zeros) ∨ c = ch '*' ∧ 2 ≤ zeros) :
    Misread modifiers c tail := by
  have stop : ¬(ch '0' ≤ c ∧ c ≤ ch '9') := by
    obtain ⟨rfl, -⟩ | ⟨rfl, -⟩ := letter <;> decide
  have point : c ≠ ch '.' := by
    obtain ⟨rfl, -⟩ | ⟨rfl, -⟩ := letter <;> decide
  have notZero : c ≠ ch '0' := by
    obtain ⟨rfl, -⟩ | ⟨rfl, -⟩ := letter <;> decide
  refine ⟨letter.imp And.left And.left, literal, fun ap rest => ?_⟩
  have noMinus : minus = true ∨ 0 < zeros ∨ (c :: (tail ++ rest)).head? ≠ some (ch '-') := by
    obtain ⟨-, some⟩ | ⟨-, several⟩ := letter
    · exact some.imp_right Or.inl
    · exact Or.inr (Or.inl (by omega))
  have noZero : 0 < zeros ∨ (c :: (tail ++ rest)).head? ≠ some (ch '0') :=
    Or.inr fun same => notZero (Option.some.inj same)
  have noStar : 0 < zeros - 1 ∨ c ≠ ch '*' := by
    obtain ⟨rfl, -⟩ | ⟨-, several⟩ := letter
    · exact Or.inr (by decide)
    · exact Or.inl (by omega)
  obtain ⟨first, second⟩ := readFlags minus zeros noMinus noZero
  have width := readExtent_stop (zeros - 1) ap stop noStar (tail ++ rest)
  have precision : readPrecision ap (c :: (tail ++ rest)) = (0, ap, c :: (tail ++ rest)) :=
    if_neg fun same => point (Option.some.inj same)
  refine ⟨⟨minus, if decide (0 < zeros) = true then ch '0' else ch ' ', 0, 0⟩, ?_, rfl, rfl⟩
  rw [shape, readSpec]
  simp only [List.append_assoc, List.cons_append, first, second, width, precision]

/-- Flags that are out of order end the directive before its width. -/
theorem Modifiers.misread {modifiers : Modifiers} (disorderly : ¬modifiers.Orderly) :
    ∃ c tail, Misread modifiers c tail := by
  by_cases once : .minus ∈ modifiers.flags.tail
  · -- the first `-` behind the first flag is taken for the conversion
    obtain ⟨front, back, split, none⟩ := List.eq_append_cons_of_mem once
    have literal : Literal (back.map Flag.char ++ (modifiers.width.render ++ modifiers.renderPrecision)) :=
      (flags_literal back).append (modifiers.width.render_literal.append modifiers.renderPrecision_literal)
    cases flags : modifiers.flags with
    | nil =>
      rw [flags] at once
      cases once
    | cons first rest =>
      rw [flags, List.tail_cons] at split
      cases first with
      | minus =>
        refine ⟨ch '-', _, @misread_of_shape _ true (front.count .zero) _ _ ?_ literal (Or.inl ⟨rfl, Or.inl rfl⟩)⟩
        simp [Modifiers.render, flags, split, flags_zeros none, Flag.char]
      | zero =>
        refine ⟨ch '-', _, @misread_of_shape _ false (front.count .zero + 1) _ _ ?_ literal
          (Or.inl ⟨rfl, Or.inr (Nat.succ_pos _)⟩)⟩
        simp [Modifiers.render, flags, split, flags_zeros none, Flag.char, List.replicate_succ]
  · -- the `*` of the width stands behind several zeros
    have several : modifiers.width = .star ∧ 2 ≤ modifiers.zeros := by
      by_contra few
      refine disorderly ⟨once, fun star => ?_⟩
      by_contra many
      exact few ⟨star, Nat.not_le.mp many⟩
    refine ⟨ch '*', modifiers.renderPrecision, @misread_of_shape _ modifiers.left modifiers.zeros _ _ ?_
      modifiers.renderPrecision_literal (Or.inr ⟨rfl, several.2⟩)⟩
    simp [Modifiers.render, modifiers.flags_eq once, several.1, Extent.render]

/-! ## The loop -/

theorem numberLoop_length (value : Int) (fmt : List UInt8) : (numberLoop value fmt).2.length ≤ fmt.length := by
  fun_induction numberLoop value fmt with
  | case1 => rfl
  | case2 value c fmt digit inductionHypothesis => exact inductionHypothesis.trans (Nat.le_succ _)
  | case3 => rfl

theorem readExtent_length (ap : VaList) (fmt : List UInt8) : (readExtent ap fmt).2.2.length ≤ fmt.length := by
  rw [readExtent]
  split
  · exact (List.length_tail).trans_le (Nat.sub_le _ _)
  · exact numberLoop_length 0 fmt

theorem readFlag_length (flag : UInt8) (fmt : List UInt8) : (readFlag flag fmt).2.length ≤ fmt.length := by
  rw [readFlag]
  split
  · exact (List.length_tail).trans_le (Nat.sub_le _ _)
  · rfl

theorem readPrecision_length (ap : VaList) (fmt : List UInt8) : (readPrecision ap fmt).2.2.length ≤ fmt.length := by
  rw [readPrecision]
  split
  · exact (readExtent_length ap _).trans ((List.length_tail).trans_le (Nat.sub_le _ _))
  · rfl

theorem readSpec_length (ap : VaList) (fmt : List UInt8) : (readSpec ap fmt).2.2.length ≤ fmt.length := by
  simp only [readSpec]
  calc _ ≤ _ := readPrecision_length _ _
    _ ≤ _ := readExtent_length _ _
    _ ≤ _ := readFlag_length _ _
    _ ≤ _ := readFlag_length _ _

variable (convert : UInt8 → UInt8 → Int → VaList → List UInt8 → Converted)

/-- The loop ends with the format, whatever fuel is left. -/
theorem formatLoop_enough {fuel fuel' : Nat} {fmt : List UInt8} (ap : VaList) (string : List UInt8)
    (enough : fmt.length < fuel) (enough' : fmt.length < fuel') :
    formatLoop convert fuel fmt ap string = formatLoop convert fuel' fmt ap string := by
  induction fuel generalizing fuel' fmt ap string with
  | zero => omega
  | succ fuel inductionHypothesis =>
    obtain _ | fuel' := fuel'
    · omega
    cases fmt with
    | nil => rfl
    | cons c fmt =>
      rw [List.length_cons] at enough enough'
      have tail : fmt.tail.length ≤ fmt.length := (List.length_tail).trans_le (Nat.sub_le _ _)
      rw [formatLoop, formatLoop]
      split
      · rw [@inductionHypothesis fuel' fmt ap string (by omega) (by omega)]
      · split
        · rw [@inductionHypothesis fuel' fmt.tail ap string (by omega) (by omega)]
        · have short := readSpec_length ap fmt
          generalize readSpec ap fmt = read at short
          obtain ⟨spec, ap, fmt'⟩ := read
          cases fmt' with
          | nil => rfl
          | cons f fmt' =>
            simp only [List.length_cons] at short ⊢
            rw [@inductionHypothesis fuel' fmt' _ _ (by omega) (by omega)]

/-- What a formatter with this `switch` outputs. -/
def format (fmt : List UInt8) (ap : VaList) (string : List UInt8) : Option (List UInt8) :=
  formatLoop convert (fmt.length + 1) fmt ap string

/-- The `switch` for a directive. -/
def converted (modifiers : Modifiers) (letter : UInt8) (ap : VaList) (string : List UInt8) : Converted :=
  convert letter modifiers.fill (modifiers.spec ap).fmax (modifiers.behind ap) string

/-- What is output for a directive. -/
def field (modifiers : Modifiers) (letter : UInt8) (ap : VaList) (string : List UInt8) : List UInt8 :=
  (converted convert modifiers letter ap string).echo ++
    putField modifiers.left (modifiers.spec ap).fmin (converted convert modifiers letter ap string)

theorem format_nil (ap : VaList) (string : List UInt8) : format convert [] ap string = some [] := rfl

theorem format_text {c : UInt8} (plain : c ≠ ch '%') (fmt : List UInt8) (ap : VaList) (string : List UInt8) :
    format convert (c :: fmt) ap string = (format convert fmt ap string).map (c :: ·) := by
  rw [format, formatLoop, if_pos plain]
  rfl

theorem format_literal {plain : List UInt8} (literal : Literal plain) (fmt : List UInt8) (ap : VaList)
    (string : List UInt8) : format convert (plain ++ fmt) ap string = (format convert fmt ap string).map
      (plain ++ ·) := by
  induction plain with
  | nil => simp
  | cons c plain inductionHypothesis =>
    obtain ⟨other, literal⟩ := List.forall_mem_cons.mp literal
    rw [List.cons_append, format_text convert other, inductionHypothesis literal, Option.map_map]
    rfl

theorem format_percent (fmt : List UInt8) (ap : VaList) (string : List UInt8) :
    format convert (ch '%' :: ch '%' :: fmt) ap string = (format convert fmt ap string).map (ch '%' :: ·) := by
  have percent : ¬ch '%' ≠ ch '%' := fun other => other rfl
  have again : (ch '%' :: fmt).head? = some (ch '%') := rfl
  rw [format, formatLoop, if_neg percent, if_pos again, List.tail_cons, List.length_cons, List.length_cons,
    @formatLoop_enough convert _ (fmt.length + 1) fmt ap string (by omega) (by omega)]
  rfl

/-- A directive is not taken for a percent sign. -/
theorem render_head (modifiers : Modifiers) {letter : UInt8} (other : letter ≠ ch '%') (rest : List UInt8) :
    (modifiers.render ++ letter :: rest).head? ≠ some (ch '%') := by
  have literal : Literal (modifiers.render ++ [letter]) :=
    (((flags_literal modifiers.flags).append modifiers.width.render_literal).append
      modifiers.renderPrecision_literal).append fun c member => by
        rw [List.mem_singleton.mp member]
        exact other
  intro same
  have whole : modifiers.render ++ letter :: rest = modifiers.render ++ [letter] ++ rest := by simp
  rw [whole] at same
  cases shape : modifiers.render ++ [letter] with
  | nil => simp at shape
  | cons c more =>
    rw [shape] at same literal
    exact literal c List.mem_cons_self (Option.some.inj same)

theorem format_directive {modifiers : Modifiers} (orderly : modifiers.Orderly) {letter : UInt8}
    (isLetter : IsLetter letter) (fmt : List UInt8) (ap : VaList) (string : List UInt8) :
    format convert (ch '%' :: modifiers.render ++ letter :: fmt) ap string =
      if stringSize < (converted convert modifiers letter ap string).stored then none
      else
        (format convert fmt (converted convert modifiers letter ap string).ap
          (converted convert modifiers letter ap string).string).map
            (field convert modifiers letter ap string ++ ·) := by
  have percent : ¬ch '%' ≠ ch '%' := fun other => other rfl
  rw [format, List.cons_append, formatLoop, if_neg percent, if_neg (render_head modifiers isLetter.2.2 fmt),
    readSpec_render orderly ap isLetter fmt]
  simp only [List.length_cons, List.length_append]
  rw [@formatLoop_enough convert _ (fmt.length + 1) fmt _ _ (by omega) (by omega)]
  rfl

/-- The `switch` knows neither `-` nor `*`. -/
def Defaults : Prop := ∀ (f fill : UInt8) (fmax : Int) (ap : VaList) (string : List UInt8), f = ch '-' ∨ f = ch '*' →
  convert f fill fmax ap string = ⟨[f], string, string, 0, false, fill, fmax, ap⟩

/-- A directive that is misread shows what `string` holds, and the rest of it. -/
theorem format_misread (defaults : Defaults convert) {modifiers : Modifiers} {c : UInt8} {tail : List UInt8}
    (misread : Misread modifiers c tail) {letter : UInt8} (isLetter : IsLetter letter) (fmt : List UInt8) (ap : VaList)
    (string : List UInt8) :
    format convert (ch '%' :: modifiers.render ++ letter :: fmt) ap string =
      (format convert fmt ap string).map fun rest => c :: (string ++ (tail ++ letter :: rest)) := by
  have percent : ¬ch '%' ≠ ch '%' := fun other => other rfl
  obtain ⟨spec, reads, noWidth, noPrecision⟩ := misread.reads ap (letter :: fmt)
  have shows (leftjust : Bool) (fill : UInt8) :
      putField leftjust 0 ⟨[c], string, string, 0, false, fill, 0, ap⟩ = string := by
    cases leftjust <;> simp [putField, layout, checked]
  have behind : format convert (tail ++ letter :: fmt) ap string =
      (format convert fmt ap string).map fun rest => tail ++ letter :: rest := by
    rw [format_literal convert misread.plain, format_text convert isLetter.2.2, Option.map_map]
    rfl
  have enough : (ch '%' :: (modifiers.render ++ letter :: fmt)).length =
    (modifiers.render ++ letter :: fmt).length + 1 :=
    List.length_cons
  have short := readSpec_length ap (modifiers.render ++ letter :: fmt)
  rw [reads] at short
  simp only [List.length_cons] at short
  rw [format, List.cons_append, enough, formatLoop, if_neg percent, if_neg (render_head modifiers isLetter.2.2 fmt),
    reads]
  simp only [defaults c _ _ _ _ misread.letter, noWidth, noPrecision, shows]
  rw [if_neg (by decide), @formatLoop_enough convert _ ((tail ++ letter :: fmt).length + 1) _ _ _ (by omega) (by omega),
    ← format, behind, Option.map_map]
  rfl

/-! ## The cases of the `switch` -/

section Cases

variable (prtl10 : Int → List UInt8) (text : UInt32 → List UInt8) (fill : UInt8) (fmax : Int) (ap : VaList)
  (string : List UInt8)

theorem commonSwitch_c : commonSwitch prtl10 text (ch 'c') fill fmax ap string =
    ⟨[], cString [(ap 0).toUInt8, 0], cString [(ap 0).toUInt8, 0], 2, false, ch ' ', 0, ap.behind⟩ := by
  rw [commonSwitch, if_pos rfl]

theorem commonSwitch_s : commonSwitch prtl10 text (ch 's') fill fmax ap string =
    ⟨[], if ap 0 = 0 then "(null)".toList.map ch else text (ap 0), string, 0, false, ch ' ', fmax, ap.behind⟩ := by
  rw [commonSwitch, if_neg (by decide), if_pos rfl]

theorem commonSwitch_u : commonSwitch prtl10 text (ch 'u') fill fmax ap string =
    number (unsignedDigits prtl10 (long (ap 0))) false fill 0 ap.behind := by
  rw [commonSwitch, if_neg (by decide), if_neg (by decide), if_neg (by decide), if_pos rfl]

theorem commonSwitch_o : commonSwitch prtl10 text (ch 'o') fill fmax ap string =
    number (prtl8 (long (ap 0))) false fill 0 ap.behind := by
  rw [commonSwitch, if_neg (by decide), if_neg (by decide), if_neg (by decide), if_neg (by decide), if_pos rfl]

theorem commonSwitch_X : commonSwitch prtl10 text (ch 'X') fill fmax ap string =
    number (prtX16 (long (ap 0))) false fill 0 ap.behind := by
  rw [commonSwitch, if_neg (by decide), if_neg (by decide), if_neg (by decide), if_neg (by decide), if_neg (by decide),
    if_pos rfl]

theorem commonSwitch_x : commonSwitch prtl10 text (ch 'x') fill fmax ap string =
    number (prtl16 (long (ap 0))) false fill 0 ap.behind := by
  rw [commonSwitch, if_neg (by decide), if_neg (by decide), if_neg (by decide), if_neg (by decide), if_neg (by decide),
    if_neg (by decide), if_pos rfl]

theorem commonSwitch_b : commonSwitch prtl10 text (ch 'b') fill fmax ap string =
    number (prtl2 (long (ap 0))) false fill 0 ap.behind := by
  rw [commonSwitch, if_neg (by decide), if_neg (by decide), if_neg (by decide), if_neg (by decide), if_neg (by decide),
    if_neg (by decide), if_neg (by decide), if_pos rfl]

/-- The letters that `_doprnt` has cases of its own for. -/
theorem doprntSwitch_common {f : UInt8} (notD : f ≠ ch 'd') (notH : f ≠ ch 'H') (noth : f ≠ ch 'h') :
    doprntSwitch text f fill fmax ap string = commonSwitch doprntPrtl10 text f fill fmax ap string := by
  rw [doprntSwitch, if_neg notD, if_neg notH, if_neg noth]

theorem fdoprntSwitch_common {f : UInt8} (notD : f ≠ ch 'd') :
    fdoprntSwitch text f fill fmax ap string = commonSwitch fdoprntPrtl10 text f fill fmax ap string := by
  rw [fdoprntSwitch, if_neg notD]

theorem doprntSwitch_d : doprntSwitch text (ch 'd') fill fmax ap string =
    number (doprntPrtl10 (long (ap 0))) (decide (long (ap 0) < 0)) fill fmax ap.behind := by
  rw [doprntSwitch, if_pos rfl]

theorem fdoprntSwitch_d : fdoprntSwitch text (ch 'd') fill fmax ap string =
    number (fdoprntPrtl10 (if long (ap 0) < 0 then int32 (-long (ap 0)) else long (ap 0))) (decide (long (ap 0) < 0))
      fill fmax ap.behind := by
  rw [fdoprntSwitch, if_pos rfl]

/-- Neither formatter has a case for a flag or a `*`. -/
theorem switch_defaults : Defaults (doprntSwitch text) ∧ Defaults (fdoprntSwitch text) := by
  constructor
  · rintro f fill fmax ap string (rfl | rfl) <;> rfl
  · rintro f fill fmax ap string (rfl | rfl) <;> rfl

end Cases

/-! ## The width of a field -/

/-- How many characters of `str` are output. -/
def shown (fmax : Int) (length : Nat) : Int := if checked fmax ≠ 0 ∧ length > checked fmax then checked fmax else length

/-- How many fill characters. -/
def leading (fmin fmax : Int) (length : Nat) (sign : Bool) : Int :=
  let leading := if checked fmin ≠ 0 then checked fmin - shown fmax length else 0
  if (checked fmax ≠ 0 ∨ checked fmin ≠ 0) ∧ sign then leading - 1 else leading

theorem putField_eq (leftjust : Bool) (fmin : Int) (converted : Converted) :
    putField leftjust fmin converted =
      layout leftjust converted.sign converted.fill
        (leading fmin converted.fmax converted.str.length converted.sign).toNat
        (converted.str.take (shown converted.fmax converted.str.length).toNat) := rfl

/-- Some of a string is output if there is some. -/
theorem shown_pos (fmax : Int) {length : Nat} (nonempty : 0 < length) : 0 < (shown fmax length).toNat := by
  rw [shown, checked]
  split <;> split <;> omega

theorem layout_length (leftjust sign : Bool) (fill : UInt8) (leading : Nat) {str other : List UInt8}
    (same : str.length = other.length) :
    (layout leftjust sign fill leading str).length = (layout leftjust sign fill leading other).length := by
  simp only [layout, List.length_append, same]

/-- The string can be told from its field. -/
theorem layout_inj {leftjust sign : Bool} {fill : UInt8} {leading : Nat} {str other : List UInt8}
    (same : layout leftjust sign fill leading str = layout leftjust sign fill leading other) : str = other := by
  simp only [layout, List.append_assoc] at same
  exact List.append_cancel_right (List.append_cancel_left (List.append_cancel_left (List.append_cancel_left same)))

end XinuStm32.Format
