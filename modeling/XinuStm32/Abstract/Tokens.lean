import XinuStm32.Kernel.Lexan

/-!
# The tokens of a command line

What the shell's scanner is for: a line is split into tokens at blanks and tabs, around `&` and `<`, and around
quoted strings. A quote that is not closed, and a word with a quote, `<` or `>` right behind it, are errors.
-/

namespace XinuStm32

structure Token where
  text : List UInt8
  type : TokType
  deriving DecidableEq

namespace Tokens

def isBlank (c : UInt8) : Bool := c = SH_BLANK ∨ c = SH_TAB

def isQuote (c : UInt8) : Bool := c = SH_SQUOTE ∨ c = SH_DQUOTE

/-- A word goes on up to one of these. -/
def stopsWord (c : UInt8) : Bool := isBlank c ∨ c = SH_LESS ∨ c = SH_GREATER ∨ c = SH_AMPER ∨ isQuote c

/-- No word has one of these right behind it. -/
def clings (c : UInt8) : Bool := isQuote c ∨ c = SH_LESS ∨ c = SH_GREATER

/-- The text of a line, before the newline or NUL that ends it. -/
def lineText (line : List UInt8) : List UInt8 := line.takeWhile fun c => c ≠ NULLCH ∧ c ≠ SH_NEWLINE

/-- The word at the front of a line behind its first character, and what is behind the word. -/
def wordText (line : List UInt8) : List UInt8 := line.takeWhile fun c => !stopsWord c

def wordRest (line : List UInt8) : List UInt8 := line.dropWhile fun c => !stopsWord c

/-- The string at the front of a line behind its opening quote, and what is behind the closing one. -/
def quotedText (quote : UInt8) (line : List UInt8) : List UInt8 := line.takeWhile (· ≠ quote)

def quotedRest (quote : UInt8) (line : List UInt8) : List UInt8 := (line.dropWhile (· ≠ quote)).tail

theorem length_wordRest_le (line : List UInt8) : (wordRest line).length ≤ line.length :=
  List.length_dropWhile_le _ line

theorem length_quotedRest_le (quote : UInt8) (line : List UInt8) : (quotedRest quote line).length ≤ line.length := by
  rw [quotedRest, List.length_tail]
  exact (Nat.sub_le _ 1).trans (List.length_dropWhile_le _ line)

/-- The tokens of the text of a line, if it has no error. -/
def scan : List UInt8 → Option (List Token)
  | [] => some []
  | c :: line =>
    if isBlank c then scan line
    else if c = SH_AMPER then (scan line).map (⟨[c], .amper⟩ :: ·)
    else if c = SH_LESS then (scan line).map (⟨[c], .less⟩ :: ·)
    else if isQuote c then
      if c ∈ line then (scan (quotedRest c line)).map (⟨quotedText c line, .other⟩ :: ·) else none
    else if (wordRest line).head?.any clings then none
    else (scan (wordRest line)).map (⟨c :: wordText line, .other⟩ :: ·)
termination_by line => line.length
decreasing_by
  all_goals rw [List.length_cons]
  · exact Nat.lt_succ_self _
  · exact Nat.lt_succ_self _
  · exact Nat.lt_succ_self _
  · exact Nat.lt_succ_of_le (length_quotedRest_le _ _)
  · exact Nat.lt_succ_of_le (length_wordRest_le _)

/-- The text ends in a blank or tab. -/
def EndsBlank (text : List UInt8) : Prop := ∃ c ∈ text.getLast?, isBlank c

instance (text : List UInt8) : Decidable (EndsBlank text) :=
  decidable_of_iff (text.getLast?.any isBlank) (by
    rw [EndsBlank]
    cases text.getLast? with
    | none => simp
    | some c => simp)

/-! ## Pieces of a line -/

variable {c quote : UInt8} {line text rest : List UInt8} {tokens : List Token}

theorem word_append (line : List UInt8) : wordText line ++ wordRest line = line := List.takeWhile_append_dropWhile

/-- A quoted string, its closing quote and the rest are the line. -/
theorem quoted_append (closed : quote ∈ line) : quotedText quote line ++ quote :: quotedRest quote line = line := by
  have split := List.takeWhile_append_dropWhile (p := (· ≠ quote)) (l := line)
  cases dropped : line.dropWhile (· ≠ quote) with
  | nil =>
    -- every character would be another one than the quote
    have all := List.dropWhile_eq_nil_iff.mp dropped
    simpa using all quote closed
  | cons c rest =>
    have head := List.head?_dropWhile_not (· ≠ quote) line
    rw [dropped] at head
    have same : c = quote := by simpa using head
    rw [quotedText, quotedRest, dropped, List.tail_cons, ← same]
    rw [same] at dropped ⊢
    rwa [dropped] at split

theorem quotedText_missing (quote : UInt8) (line : List UInt8) : quote ∉ quotedText quote line := by
  intro member
  simpa using List.mem_takeWhile_imp member

/-- Behind a string without the quote in it comes the closing one. -/
theorem quotedText_append (missing : quote ∉ text) :
    quotedText quote (text ++ quote :: rest) = text ∧ quotedRest quote (text ++ quote :: rest) = rest := by
  have others : ∀ c ∈ text, decide (c ≠ quote) = true := by
    intro c member
    exact decide_eq_true (fun same => missing (same ▸ member))
  constructor
  · rw [quotedText, List.takeWhile_append_of_pos others]
    simp
  · rw [quotedRest, List.dropWhile_append_of_pos others]
    simp

/-! ## Ends of a line -/

theorem endsBlank_append (text : List UInt8) (some : rest ≠ []) : EndsBlank (text ++ rest) ↔ EndsBlank rest := by
  rw [EndsBlank, EndsBlank, List.getLast?_append_of_ne_nil _ some]

/-- Behind a character that is no blank only the rest decides. -/
theorem endsBlank_behind (text : List UInt8) (notBlank : isBlank c = false) :
    EndsBlank (text ++ c :: rest) ↔ EndsBlank rest := by
  cases rest with
  | nil => simp [EndsBlank, notBlank]
  | cons d rest =>
    rw [List.append_cons, endsBlank_append _ (List.cons_ne_nil d rest)]

/-- The same behind a word. -/
theorem endsBlank_word (first : isBlank c = false) (line : List UInt8) : EndsBlank (c :: line) ↔ EndsBlank
    (wordRest line) := by
  have inside : ∀ d ∈ c :: wordText line, isBlank d = false := by
    intro d member
    cases List.mem_cons.mp member with
    | inl same => rw [same, first]
    | inr member =>
      have goesOn := List.mem_takeWhile_imp member
      simp only [stopsWord, Bool.not_eq_true', decide_eq_false_iff_not, not_or] at goesOn
      exact Bool.eq_false_iff.mpr goesOn.1
  conv_lhs => rw [← word_append line, ← List.cons_append]
  generalize wordRest line = rest
  cases split : c :: wordText line using List.reverseRecOn with
  | nil => cases split
  | append_singleton front last =>
    rw [split] at inside
    have notBlank := inside last (List.mem_append_right front List.mem_cons_self)
    rw [List.append_assoc, List.singleton_append]
    exact endsBlank_behind front notBlank

/-- A text without a token is blank to its end. -/
theorem endsBlank_of_scan_nil (scanned : scan text = some []) (some : text ≠ []) : EndsBlank text := by
  induction text with
  | nil => exact absurd rfl some
  | cons c line inductionHypothesis =>
    rw [scan] at scanned
    by_cases blank : isBlank c
    · rw [if_pos blank] at scanned
      cases line with
      | nil => exact ⟨c, rfl, blank⟩
      | cons d line =>
        have rest := inductionHypothesis scanned (List.cons_ne_nil d line)
        rwa [← endsBlank_append [c] (List.cons_ne_nil d line)] at rest
    · rw [if_neg blank] at scanned
      split at scanned
      · simp at scanned
      split at scanned
      · simp at scanned
      split at scanned
      · split at scanned <;> simp at scanned
      · split at scanned <;> simp at scanned

end Tokens

end XinuStm32
