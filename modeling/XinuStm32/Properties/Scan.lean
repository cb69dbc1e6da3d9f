import XinuStm32.Kernel.Scan
import XinuStm32.Properties.NumberFields
import XinuStm32.Properties.Formatters

/-!
# What `_doscan` reads of a number that `_doprnt` has written

The loop of `_innum` takes no character but a letter from `a` to `f`, and letters only in base 16: the conversions `%d`
and `%o` read no digit, and `%x` reads the digits in front of the first decimal one.
-/

namespace XinuStm32.Scan

open Format Numerals

variable {σ : Type*} {input : Input σ} {unread : σ → List UInt8}

/-- The behaviour of `getch` and `ungetch`: the characters come in their order, and the last one can be given back. -/
structure Reads (input : Input σ) (unread : σ → List UInt8) : Prop where
  take : ∀ s c rest, unread s = c :: rest → (input.getch s).1 = c.toNat ∧ unread (input.getch s).2 = rest
  back : ∀ s c rest, unread s = c :: rest → unread (input.ungetch (input.getch s).2) = c :: rest

/-- One of the three conversions that both programs have. -/
def Scannable (conversion : Numeric) : Prop := conversion = .decimal ∨ conversion = .octal ∨ conversion = .lower

/-- The character is a digit of the base, as a letter of either case where the base has letters. -/
def IsDigitOf (base : Nat) (c : UInt8) : Prop :=
  ∃ digit < base, c = Numeric.symbol .lower digit ∨ c = Numeric.symbol .upper digit

/-- One match, the number stored as an `int`, and the characters behind it still unread. -/
def ReadsBack (input : Input σ) (unread : σ → List UInt8) (sctab : Nat → UInt8) (conversion : Numeric)
    (args : Nat → UInt32) (s : σ) (number : UInt32) (following : List UInt8) : Prop :=
  ∃ fuel final, doscan input sctab fuel [ch '%', conversion.letter] args s = some (1, final) ∧
    final.stores = [.word (args 0) number] ∧ unread final.s = following

/-! ## The printed number -/

theorem Scannable.inside {conversion : Numeric} (scannable : Scannable conversion) (word : UInt32) :
    (conversion.stored word).length ≤ stringSize := by
  apply (stored_inside_iff conversion word).mpr
  intro binary
  rw [binary] at scannable
  obtain other | other | other := scannable <;> cases other

theorem doprnt_plain {conversion : Numeric} (scannable : Scannable conversion) (ap : VaList) {digits : List Nat}
    (shortest : IsShortest conversion.base (conversion.magnitude (ap 0)) digits) (text : UInt32 → List UInt8)
    (string : List UInt8) :
    doprnt text string [ch '%', conversion.letter] ap =
      some ((if conversion.negative (ap 0) then [ch '-'] else []) ++ digits.map conversion.symbol) := by
  have field := @doprnt_number noModifiers (by decide) conversion ap (scannable.inside (ap 0)) text string []
  have all : conversion.shown noModifiers ap = (conversion.digits (ap 0)).length := by
    have zero : conversion.precision 0 = 0 := by
      rw [Numeric.precision]
      split <;> rfl
    change (Format.shown (conversion.precision 0) (conversion.digits (ap 0)).length).toNat = _
    rw [zero]
    exact Int.toNat_natCast _
  have length : (conversion.characters (ap 0)).length = (conversion.digits (ap 0)).length := List.length_map _
  have width : effectiveWidth noModifiers ap = 0 := rfl
  change doprnt text string [ch '%', conversion.letter] ap =
    some (layout false (conversion.negative (ap 0)) (if false then ch '0' else ch ' ')
      (effectiveWidth noModifiers ap - _) ((conversion.characters (ap 0)).take
        (conversion.shown noModifiers ap)) ++ []) at field
  rw [field, layout_eq, width, Nat.zero_sub, all, ← length, List.take_length,
    shortest.unique (base_gt_one conversion) (numeral_magnitude conversion _)]
  simp [Numeric.characters, Numeric.digits]

/-! ## Which characters are taken -/

theorem accepts_symbol (conversion : Numeric) (scannable : Scannable conversion) {digit : Nat}
    (below : digit < conversion.base) :
    accepts (baseOf conversion.letter) (conversion.symbol digit).toNat = true ↔ conversion = .lower ∧ 10 ≤ digit := by
  obtain rfl | rfl | rfl := scannable
  · revert digit
    decide
  · revert digit
    decide
  · revert digit
    decide

/-- Every letter that is taken is a hexadecimal digit. -/
theorem letter_isDigitOf {c : UInt8} (letter : isLetter c.toNat = true) : IsDigitOf 16 c := by
  have table : ∀ n < 256, isLetter (n : Nat) = true →
      ∃ digit < 16, n = (Numeric.symbol .lower digit).toNat ∨ n = (Numeric.symbol .upper digit).toNat := by
    decide +kernel
  obtain ⟨digit, below, written⟩ := table c.toNat c.toNat_lt letter
  exact ⟨digit, below, written.imp UInt8.toNat_inj.mp UInt8.toNat_inj.mp⟩

/-- What is no digit of the base is not taken. -/
theorem accepts_other {conversion : Numeric} (scannable : Scannable conversion) {c : UInt8}
    (other : ¬IsDigitOf conversion.base c) : accepts (baseOf conversion.letter) c.toNat = false := by
  have apart : ∀ base, base ≠ 16 → accepts base c.toNat = false := by
    intro base decimal
    have noBase : (base == 16) = false := beq_false_of_ne decimal
    rw [accepts, noBase, Bool.or_false, Bool.and_eq_false_iff]
    by_cases digit : isDigit c.toNat = true
    · apply Or.inr
      simp [isDigit, isLetter, code] at digit ⊢
      omega
    · exact Or.inl (Bool.eq_false_iff.mpr digit)
  obtain rfl | rfl | rfl := scannable
  · exact apart _ (by decide)
  · exact apart _ (by decide)
  · have noLetter : isLetter c.toNat = false := Bool.eq_false_iff.mpr fun letter => other (letter_isDigitOf letter)
    rw [accepts, noLetter, Bool.and_false]

/-! ## The loop over the digits -/

/-- The character in `c` has been read, and the text begins with it. -/
structure AtHead (input : Input σ) (unread : σ → List UInt8) (digits : Digits σ) (c : UInt8) (rest : List UInt8) :
    Prop where
  char : digits.c = c.toNat
  source : ∃ before, unread before = c :: rest ∧ digits.s = (input.getch before).2

theorem char_read (reads : Reads input unread) {s : σ} {c : UInt8} {rest : List UInt8} (text : unread s = c :: rest) :
    (input.char s).1 = c.toNat ∧ unread (input.char s).2 = rest := by
  obtain ⟨read, left⟩ := reads.take s c rest text
  constructor
  · have below := c.toNat_lt
    rw [Input.char, read]
    omega
  · exact left

/-- The character that has been read is given back. -/
theorem AtHead.back (reads : Reads input unread) {digits : Digits σ} {c : UInt8} {rest : List UInt8}
    (head : AtHead input unread digits c rest) : unread (input.ungetch digits.s) = c :: rest := by
  obtain ⟨before, text, source⟩ := head.source
  rw [source]
  exact reads.back before c rest text

/-- A character that is taken: the next one is read. -/
theorem AtHead.next (reads : Reads input unread) {digits : Digits σ} {c next : UInt8} {rest : List UInt8}
    (head : AtHead input unread digits c (next :: rest)) (np : Nat) (lcval : UInt32) :
    AtHead input unread ⟨(input.char digits.s).1, np, lcval, (input.char digits.s).2⟩ next rest := by
  obtain ⟨before, text, source⟩ := head.source
  have left : unread digits.s = next :: rest := by
    rw [source]
    exact (reads.take before c _ text).2
  exact ⟨(char_read reads left).1, digits.s, left, rfl⟩

/-- The value of a letter, and how the loop adds it. -/
theorem shiftIn_letter {digit : Nat} (letter : 10 ≤ digit) (below : digit < 16) (value : Nat) :
    shiftIn 16 (UInt32.ofNat value) + UInt32.ofInt (digitValue (Numeric.symbol .lower digit).toNat) =
      UInt32.ofNat (value * 16 + digit) := by
  have written : ∀ digit < 16, 10 ≤ digit → digitValue (Numeric.symbol .lower digit).toNat = digit := by
    decide
  have small : ∀ digit < 16, UInt32.ofInt (digit : Nat) = UInt32.ofNat digit := by decide
  have shifted : shiftIn 16 (UInt32.ofNat value) = UInt32.ofNat (value * 16) := by
    apply UInt32.toNat_inj.mp
    simp [shiftIn, Nat.shiftLeft_eq]
  rw [written digit below letter, shifted, small digit below, UInt32.ofNat_add]

/-- The loop takes letters as long as there are any. -/
theorem digitLoop_letters (reads : Reads input unread) {letters : List Nat} {stop : UInt8} {base : Nat}
    (letter : ∀ digit ∈ letters, base = 16 ∧ 10 ≤ digit ∧ digit < 16) (stops : accepts base stop.toNat = false)
    {more : List UInt8} : ∀ (len : Nat) (digits : Digits σ) (value : Nat) (c : UInt8) (rest : List UInt8),
      letters.map (Numeric.symbol .lower) ++ stop :: more = c :: rest → AtHead input unread digits c rest →
      letters.length ≤ len → digits.np + letters.length ≤ 64 → digits.lcval = UInt32.ofNat value →
      ∃ final, digitLoop input base len digits = some final ∧ AtHead input unread final stop more ∧
        final.np = digits.np + letters.length ∧
        final.lcval = UInt32.ofNat (letters.foldl (fun total digit => total * 16 + digit) value) := by
  induction letters with
  | nil =>
    intro len digits value c rest text head _ _ known
    obtain ⟨rfl, rfl⟩ := List.cons.inj text
    refine ⟨digits, ?_, head, rfl, known⟩
    -- Whether characters are allowed or not, the loop is over.
    cases len with
    | zero => rfl
    | succ len =>
      rw [digitLoop, head.char, stops]
      rfl
  | cons digit letters inductionHypothesis =>
    intro len digits value c rest text head allowed room known
    obtain ⟨taken, behind⟩ := List.cons.inj text
    change letters.map (Numeric.symbol .lower) ++ stop :: more = rest at behind
    obtain ⟨next, rest', shape⟩ : ∃ next rest', letters.map (Numeric.symbol .lower) ++ stop :: more = next :: rest' :=
      List.exists_cons_of_ne_nil (by simp)
    rw [List.length_cons] at allowed room
    obtain ⟨hexadecimal, large, below⟩ := letter digit List.mem_cons_self
    have accepted : accepts base digits.c = true := by
      rw [head.char, ← taken, hexadecimal]
      exact (accepts_symbol .lower (Or.inr (Or.inr rfl)) below).mpr ⟨rfl, large⟩
    have head' : AtHead input unread digits c (next :: rest') := by
      rw [← shape, behind]
      exact head
    cases len with
    | zero => omega
    | succ len =>
      have value' : shiftIn base digits.lcval + UInt32.ofInt (digitValue digits.c) =
          UInt32.ofNat (value * 16 + digit) := by
        rw [head.char, ← taken, hexadecimal, known]
        exact shiftIn_letter large below value
      obtain ⟨final, runs, last, count, total⟩ := inductionHypothesis
        (fun other mem => letter other (List.mem_cons_of_mem _ mem)) len _ (value * 16 + digit) next rest' shape
        (head'.next reads (digits.np + 1) (shiftIn base digits.lcval + UInt32.ofInt (digitValue digits.c)))
        (by omega) (by change digits.np + 1 + letters.length ≤ 64; omega) value'
      refine ⟨final, ?_, last, ?_, total⟩
      · rw [digitLoop, if_pos accepted, if_neg (by omega)]
        exact runs
      · rw [count, List.length_cons]
        change digits.np + 1 + letters.length = _
        omega

/-! ## The conversion of a numeral -/

/-- The digits in front that are taken. -/
def taken (conversion : Numeric) (digits : List Nat) : List Nat :=
  digits.takeWhile fun digit => conversion = .lower ∧ 10 ≤ digit

/-- The digits that are left. -/
def untaken (conversion : Numeric) (digits : List Nat) : List Nat :=
  digits.dropWhile fun digit => conversion = .lower ∧ 10 ≤ digit

/-- All digits are taken if each of them is a letter of `%x`. -/
theorem untaken_nil_iff {conversion : Numeric} {digits : List Nat} (nonempty : digits ≠ []) :
    untaken conversion digits = [] ↔ conversion = .lower ∧ ∀ digit ∈ digits, 10 ≤ digit := by
  rw [untaken, List.dropWhile_eq_nil_iff]
  simp only [decide_eq_true_eq]
  constructor
  · intro all
    obtain ⟨digit, mem⟩ := List.exists_mem_of_ne_nil digits nonempty
    exact ⟨(all digit mem).1, fun digit mem => (all digit mem).2⟩
  · intro letters digit mem
    exact ⟨letters.1, letters.2 digit mem⟩

/-- Behind the digits that are taken is a character that is not. -/
theorem stop_of_digits {conversion : Numeric} (scannable : Scannable conversion) {digits : List Nat}
    (below : ∀ digit ∈ digits, digit < conversion.base) {next : UInt8} (other : ¬IsDigitOf conversion.base next)
    (more : List UInt8) :
    ∃ stop rest, (untaken conversion digits).map conversion.symbol ++ next :: more = stop :: rest ∧
      accepts (baseOf conversion.letter) stop.toNat = false := by
  cases left : untaken conversion digits with
  | nil => exact ⟨next, more, rfl, accepts_other scannable other⟩
  | cons digit rest =>
    refine ⟨conversion.symbol digit, rest.map conversion.symbol ++ next :: more, rfl, ?_⟩
    have inside : digit ∈ digits := by
      have mem : digit ∈ untaken conversion digits := by
        rw [left]
        exact List.mem_cons_self
      exact (List.dropWhile_sublist _).subset mem
    have first := List.head?_dropWhile_not (fun digit => decide (conversion = .lower ∧ 10 ≤ digit)) digits
    rw [untaken] at left
    rw [left] at first
    rw [Bool.eq_false_iff]
    intro accepted
    exact of_decide_eq_false first ((accepts_symbol conversion scannable (below digit inside)).mp accepted)

/-- The end of `_innum` gives the stopping character back, and stores what has been read. -/
theorem finish_atHead (reads : Reads input unread) {digits : Digits σ} {stop : UInt8} {more : List UInt8}
    (head : AtHead input unread digits stop more) (room : digits.np < 64) (address : UInt32) (negflg : Bool) :
    ∃ scanned, finish input (some address) .regular negflg digits = some scanned ∧ scanned.ended = false ∧
      unread scanned.s = stop :: more ∧
      (negflg = false → digits.np ≠ 0 → scanned.found = true ∧ scanned.stores = [.word address digits.lcval]) := by
  have character : digits.c ≠ EOF := by
    rw [head.char, EOF]
    omega
  have back := head.back reads
  rw [finish]
  simp only [ne_eq, character, not_false_eq_true, if_true]
  by_cases empty : digits.np = 0
  · rw [if_pos empty]
    exact ⟨_, rfl, rfl, back, fun _ some => absurd empty some⟩
  · rw [if_neg empty, if_neg (Nat.not_le.mpr room)]
    refine ⟨_, rfl, rfl, back, ?_⟩
    intro positive _
    rw [positive]
    exact ⟨rfl, rfl⟩

/-- What is asked of `_innum` for a printed number. -/
structure InnumReads (unread : σ → List UInt8) (conversion : Numeric) (address : UInt32) (signed : Bool)
    (digits : List Nat) (following : List UInt8) (scanned : Scanned σ) : Prop where
  ended : scanned.ended = false
  left : unread scanned.s = (untaken conversion digits).map conversion.symbol ++ following
  number : signed = false → taken conversion digits ≠ [] →
    scanned.found = true ∧ scanned.stores = [.word address
      (UInt32.ofNat ((taken conversion digits).foldl (fun total digit => total * 16 + digit) 0))]

/-- From the first digit on. -/
theorem digits_read (reads : Reads input unread) {conversion : Numeric} (scannable : Scannable conversion)
    {digits : List Nat} (below : ∀ digit ∈ digits, digit < conversion.base) (few : digits.length ≤ 11) {next : UInt8}
    (other : ¬IsDigitOf conversion.base next) {more : List UInt8} {first : UInt8} {rest : List UInt8}
    (text : digits.map conversion.symbol ++ next :: more = first :: rest) {start : Digits σ}
    (head : AtHead input unread start first rest) (fresh : start.lcval = 0) (few' : start.np ≤ 1) {len : Nat}
    (many : 11 ≤ len) (address : UInt32) (signed : Bool) :
    ∃ scanned, (digitLoop input (baseOf conversion.letter) len start).bind
        (finish input (some address) .regular signed) = some scanned ∧
      InnumReads unread conversion address signed digits (next :: more) scanned := by
  obtain ⟨stop, behind, shape, stops⟩ := stop_of_digits scannable below other more
  have split : taken conversion digits ++ untaken conversion digits = digits := List.takeWhile_append_dropWhile
  have count : (taken conversion digits).length ≤ 11 := by
    have sizes := congrArg List.length split
    rw [List.length_append] at sizes
    omega
  have letter : ∀ digit ∈ taken conversion digits,
      baseOf conversion.letter = 16 ∧ 10 ≤ digit ∧ digit < 16 ∧ conversion = .lower := by
    intro digit mem
    have accepted : decide (conversion = .lower ∧ 10 ≤ digit) = true :=
      List.mem_takeWhile_imp (p := fun digit => decide (conversion = .lower ∧ 10 ≤ digit)) mem
    obtain ⟨lower, large⟩ := of_decide_eq_true accepted
    have inside := below digit ((List.takeWhile_sublist _).subset mem)
    rw [lower] at inside ⊢
    exact ⟨rfl, large, inside, rfl⟩
  have written : (taken conversion digits).map (Numeric.symbol .lower) ++ stop :: behind = first :: rest := by
    rw [← shape, ← text]
    conv_rhs => rw [← split, List.map_append, List.append_assoc]
    rw [List.append_cancel_right_eq]
    apply List.map_congr_left
    intro digit mem
    rw [(letter digit mem).2.2.2]
  obtain ⟨final, runs, last, np, lcval⟩ := digitLoop_letters reads
    (fun digit mem => ⟨(letter digit mem).1, (letter digit mem).2.1,
      (letter digit mem).2.2.1⟩) stops len start 0 first rest
    written head (by omega) (by omega) fresh
  obtain ⟨scanned, finished, open', left, number⟩ := finish_atHead reads last (by omega) address signed
  refine ⟨scanned, ?_, open', ?_, ?_⟩
  · rw [runs]
    exact finished
  · rw [left, shape]
  · intro positive some
    have nonempty : (taken conversion digits).length ≠ 0 := fun none => some (List.length_eq_zero_iff.mp none)
    rw [← lcval]
    exact number positive (by omega)

/-! ## The number between its sign and the character behind it -/

theorem skipBlanks_first (reads : Reads input unread) {s : σ} {c : UInt8} {rest : List UInt8}
    (text : unread s = c :: rest) (visible : isBlank c.toNat = false) (fuel : Nat) :
    skipBlanks input.char (fuel + 1) s = some ((c.toNat : Int), (input.char s).2) := by
  have first := (char_read reads text).1
  rw [skipBlanks, first, visible, if_neg Bool.false_ne_true, ← first]

theorem symbol_visible {conversion : Numeric} (scannable : Scannable conversion) {digit : Nat}
    (below : digit < conversion.base) :
    isBlank (conversion.symbol digit).toNat = false ∧ (((conversion.symbol digit).toNat : Int) == code '-') = false ∧
      (((conversion.symbol digit).toNat : Int) == code '+') = false := by
  obtain rfl | rfl | rfl := scannable
  · revert digit
    decide
  · revert digit
    decide
  · revert digit
    decide

theorem innum_reads (reads : Reads input unread) {conversion : Numeric} (scannable : Scannable conversion)
    {digits : List Nat} (nonempty : digits ≠ []) (below : ∀ digit ∈ digits, digit < conversion.base)
    (few : digits.length ≤ 11) {next : UInt8} (other : ¬IsDigitOf conversion.base next) {more : List UInt8}
    {signed : Bool} {s : σ}
    (text : unread s = (if signed then [ch '-'] else []) ++ digits.map conversion.symbol ++ next :: more)
    (fuel : Nat) (address : UInt32) :
    ∃ scanned, innum input (fuel + 1) (some address) conversion.letter 30000 .regular s = some scanned ∧
      InnumReads unread conversion address signed digits (next :: more) scanned := by
  obtain ⟨digit, digits', rfl⟩ := List.exists_cons_of_ne_nil nonempty
  have shape : (digit :: digits').map conversion.symbol ++ next :: more =
      conversion.symbol digit :: (digits'.map conversion.symbol ++ next :: more) := rfl
  cases signed with
  | true =>
    change unread s = ch '-' :: ((digit :: digits').map conversion.symbol ++ next :: more) at text
    have visible : isBlank (ch '-').toNat = false := by decide
    have minus : (((ch '-').toNat : Int) == code '-') = true := by decide
    have unreadDigits := (char_read reads text).2
    rw [shape] at unreadDigits
    rw [innum, skipBlanks_first reads text visible, Option.bind_some]
    simp only [minus, Bool.true_or, if_true]
    apply digits_read reads scannable below few other shape
    · exact ⟨(char_read reads unreadDigits).1, _, unreadDigits, rfl⟩
    · rfl
    · exact Nat.le_refl 1
    · decide
  | false =>
    change unread s = (digit :: digits').map conversion.symbol ++ next :: more at text
    rw [shape] at text
    obtain ⟨visible, minus, plus⟩ := symbol_visible scannable (below digit List.mem_cons_self)
    rw [innum, skipBlanks_first reads text visible, Option.bind_some]
    simp only [minus, plus, Bool.or_self, Bool.false_eq_true, if_false]
    apply digits_read reads scannable below few other shape
    · exact ⟨rfl, s, text, rfl⟩
    · rfl
    · exact Nat.zero_le 1
    · decide

/-- The format of one plain conversion: one call of `_innum`. -/
theorem doscan_conversion {conversion : Numeric} (scannable : Scannable conversion) (sctab : Nat → UInt8) (fuel : Nat)
    (args : Nat → UInt32) (s : σ) :
    doscan input sctab fuel [ch '%', conversion.letter] args s =
      (innum input fuel (some (args 0)) conversion.letter 30000 .regular s).bind fun scanned =>
        let nmatch : Int := if scanned.found then 1 else 0
        some (if scanned.ended ∧ nmatch = 0 then -1 else nmatch, ⟨nmatch, 1, scanned.stores, sctab, scanned.s⟩) := by
  have directive : readDirective sctab [conversion.letter] = some
    ⟨false, 30000, .regular, [conversion.letter], sctab⟩ := by
    obtain rfl | rfl | rfl := scannable <;> rfl
  have converts : convert input sctab fuel (some (args 0)) conversion.letter 30000 .regular s =
      innum input fuel (some (args 0)) conversion.letter 30000 .regular s := by
    obtain rfl | rfl | rfl := scannable <;> rfl
  have small : ¬128 ≤ conversion.letter ∧ ¬(ch 'A' ≤ conversion.letter ∧ conversion.letter ≤ ch 'Z') ∧
      conversion.letter ≠ ch '%' := by
    obtain rfl | rfl | rfl := scannable <;> decide
  obtain ⟨ascii, lower, plain⟩ := small
  rw [doscan, doscanLoop, List.head?_cons, if_pos ⟨rfl, by simpa using plain⟩, directive, Option.bind_some]
  simp only [ascii, lower, if_false, decide_false, Bool.false_eq_true]
  rw [converts]
  congr 1
  funext scanned
  cases scanned.found <;> cases scanned.ended <;> simp [doscanLoop]

/-! ## Reading a printed number back -/

theorem foldl_eq_ofDigits (base : Nat) (digits : List Nat) :
    digits.foldl (fun total digit => total * base + digit) 0 = Nat.ofDigits base digits.reverse := by
  rw [Nat.ofDigits_eq_foldr, List.foldr_reverse]
  congr 1
  funext total digit
  rw [Nat.cast_id, Nat.add_comm, Nat.mul_comm]

/-- The characters behind the number are what is unread only if every digit has been taken. -/
theorem readsBack_iff_untaken (reads : Reads input unread) {conversion : Numeric} (scannable : Scannable conversion)
    (sctab : Nat → UInt8) {number : UInt32} {digits : List Nat}
    (shortest : IsShortest conversion.base (conversion.magnitude number) digits) {next : UInt8}
    (other : ¬IsDigitOf conversion.base next) {more : List UInt8} {s : σ}
    (text : unread s =
      (if conversion.negative number then [ch '-'] else []) ++ digits.map conversion.symbol ++ next :: more)
    (args : Nat → UInt32) :
    ReadsBack input unread sctab conversion args s number (next :: more) ↔ untaken conversion digits = [] := by
  have few : digits.length ≤ 11 := by
    have bound := IsShortest.length_le (base_gt_one conversion) (places_ne_zero conversion)
      (magnitude_lt conversion number) shortest
    obtain rfl | rfl | rfl := scannable
    · exact bound.trans (by decide)
    · exact bound
    · exact bound.trans (by decide)
  have runs := innum_reads reads scannable shortest.nonempty shortest.below few other text
  constructor
  · intro back
    obtain ⟨fuel, final, scans, _, left⟩ := back
    rw [doscan_conversion scannable] at scans
    cases fuel with
    | zero => cases scans
    | succ fuel =>
      obtain ⟨scanned, read, result⟩ := runs fuel (args 0)
      rw [read, Option.bind_some] at scans
      -- The text that is left begins with the digits that have not been taken.
      have behind : unread final.s = (untaken conversion digits).map conversion.symbol ++ next :: more := by
        rw [← (Prod.mk.inj (Option.some.inj scans)).2]
        exact result.left
      rw [left, List.self_eq_append_left, List.map_eq_nil_iff] at behind
      exact behind
  · intro none
    obtain ⟨lower, letters⟩ := (untaken_nil_iff shortest.nonempty).mp none
    have all : taken conversion digits = digits := by
      have split : taken conversion digits ++ untaken conversion digits = digits := List.takeWhile_append_dropWhile
      rwa [none, List.append_nil] at split
    obtain ⟨scanned, read, result⟩ := runs 0 (args 0)
    have positive : conversion.negative number = false := by
      rw [lower]
      rfl
    obtain ⟨found, stores⟩ := result.number positive (by rw [all]; exact shortest.nonempty)
    have value : digits.foldl (fun total digit => total * 16 + digit) 0 = number.toNat := by
      have denotes := shortest.denotes
      rw [lower] at denotes
      rw [foldl_eq_ofDigits]
      exact denotes
    refine ⟨1, ⟨1, 1, scanned.stores, sctab, scanned.s⟩, ?_, ?_, ?_⟩
    · rw [doscan_conversion scannable, read, Option.bind_some]
      simp [found]
    · rw [stores, all, value, UInt32.ofNat_toNat]
    · rw [result.left, none]
      rfl

/-- A number printed and scanned with the same conversion comes back if and only if the conversion is `%x` and every
hexadecimal digit of the number is a letter. -/
theorem doscan_undoes_doprnt_iff (reads : Reads input unread) (conversion : Numeric) (scannable : Scannable conversion)
    (sctab : Nat → UInt8) (text : UInt32 → List UInt8) (string : List UInt8) (ap : VaList) {next : UInt8}
    (other : ¬IsDigitOf conversion.base next) {emitted more : List UInt8} {s : σ}
    (emits : doprnt text string [ch '%', conversion.letter] ap = some emitted)
    (printed : unread s = emitted ++ next :: more) (args : Nat → UInt32) :
    ReadsBack input unread sctab conversion args s (ap 0) (next :: more) ↔
      conversion = .lower ∧ ap 0 ≠ 0 ∧ ∀ digit ∈ Nat.digits 16 (ap 0).toNat, 10 ≤ digit := by
  obtain ⟨digits, shortest, same⟩ := stored_shortest conversion (ap 0)
  rw [doprnt_plain scannable ap shortest, Option.some.injEq] at emits
  rw [← emits] at printed
  rw [readsBack_iff_untaken reads scannable sctab shortest other printed args, untaken_nil_iff shortest.nonempty]
  apply and_congr_right
  intro lower
  rw [lower] at shortest
  by_cases zero : ap 0 = 0
  · -- The numeral of zero is its only digit, and no letter.
    have denotes := shortest.denotes
    have nothing : Numeric.magnitude (ap 0) .lower = 0 := congrArg UInt32.toNat zero
    rw [nothing] at shortest denotes
    have few := shortest.length_le (by decide : 1 < 16) (by decide : 1 ≠ 0) (by decide)
    have single : 0 ∈ digits := by
      cases digits with
      | nil => exact absurd rfl shortest.nonempty
      | cons digit digits =>
        have alone : digits = [] := List.length_eq_zero_iff.mp (Nat.le_zero.mp (Nat.le_of_succ_le_succ few))
        rw [alone, List.reverse_singleton, Nat.ofDigits_singleton] at denotes
        rw [denotes]
        exact List.mem_cons_self
    constructor
    · intro letters
      exact absurd (letters 0 single) (by decide)
    · intro letters
      exact absurd zero letters.1
  · have positive : (ap 0).toNat ≠ 0 := fun none => zero (UInt32.toNat_inj.mp none)
    have reversed : digits.reverse = Nat.digits 16 (ap 0).toNat :=
      IsShortest.reverse_eq_digits (by decide) positive shortest
    rw [← reversed]
    simp only [List.mem_reverse, ne_eq, zero, not_false_eq_true, true_and]

/-! ## A string as the input -/

/-- The characters that have been read, the last one first, and those that have not. -/
structure Tape where
  behind : List UInt8
  rest : List UInt8

def tape : Input Tape where
  getch s :=
    match s.rest with
    | [] => (EOF, s)
    | c :: rest => (c.toNat, ⟨c :: s.behind, rest⟩)
  ungetch s :=
    match s.behind with
    | [] => s
    | c :: behind => ⟨behind, c :: s.rest⟩

theorem tape_reads : Reads tape Tape.rest := by
  constructor
  · intro s c rest text
    rw [tape]
    simp only [text]
    exact ⟨trivial, trivial⟩
  · intro s c rest text
    rw [tape]
    simp only [text]

theorem space_other (conversion : Numeric) : ¬IsDigitOf conversion.base (ch ' ') := by
  intro digit
  obtain ⟨digit, below, written⟩ := digit
  have bound : conversion.base ≤ 16 := by cases conversion <;> decide
  have table : ∀ digit < 16, ch ' ' ≠ Numeric.symbol .lower digit ∧ ch ' ' ≠ Numeric.symbol .upper digit := by
    decide
  obtain ⟨lower, upper⟩ := table digit (by omega)
  exact written.elim lower upper

/-- `%x` of 0xcafe and a blank. -/
theorem doscan_undoes_doprnt_cafe :
    doprnt (fun _ => []) [] [ch '%', ch 'x'] (fun _ => 0xcafe) = some ("cafe".toList.map ch) ∧
      ReadsBack tape Tape.rest initialSctab .lower (fun _ => 4096) ⟨[], "cafe".toList.map ch ++ [ch ' ']⟩ 0xcafe
        [ch ' '] := by
  have emits : doprnt (fun _ => []) [] [ch '%', ch 'x'] (fun _ => 0xcafe) = some ("cafe".toList.map ch) := by
    decide +kernel
  exact ⟨emits, (doscan_undoes_doprnt_iff tape_reads .lower (Or.inr (Or.inr rfl)) initialSctab (fun _ => []) []
    (fun _ => 0xcafe) (space_other .lower) emits rfl fun _ => 4096).mpr ⟨rfl, by decide, by decide⟩⟩

/-- `%d` of 5 and a blank: nothing matches. -/
theorem decimal_not_read_back :
    ¬∀ (conversion : Numeric) (number : UInt32) (emitted : List UInt8), Scannable conversion →
      doprnt (fun _ => []) [] [ch '%', conversion.letter] (fun _ => number) = some emitted →
      ReadsBack tape Tape.rest initialSctab conversion (fun _ => 4096) ⟨[], emitted ++ [ch ' ']⟩ number [ch ' '] := by
  intro always
  obtain ⟨digits, shortest, same⟩ := stored_shortest .decimal 5
  have printed := doprnt_plain (Or.inl rfl) (fun _ => 5) shortest (fun _ => []) []
  have back := always .decimal 5 _ (Or.inl rfl) printed
  have none := (readsBack_iff_untaken tape_reads (Or.inl rfl) initialSctab shortest (space_other .decimal) rfl
    fun _ => 4096).mp back
  exact Numeric.noConfusion ((untaken_nil_iff shortest.nonempty).mp none).1

end XinuStm32.Scan
