import XinuStm32.Abstract.Tokens

/-!
# The scanner agrees with its tokens

Each round of `lexan` takes one token off the line, with the blanks before it. The limit is tested before the blanks
are skipped, so that blanks behind the last token allowed are taken for one more.
-/

namespace XinuStm32

open Tokens

/-! ## What is stored -/

namespace Lexed

/-- Store a whole token. -/
def push (token : Token) (out : Lexed) : Lexed := (out.start token.type token.text).finish

def pushAll (tokens : List Token) (out : Lexed) : Lexed := tokens.foldl (fun out token => out.push token) out

variable {out : Lexed} {token : Token} {tokens : List Token}

@[simp] theorem pushAll_nil : out.pushAll [] = out := rfl

@[simp] theorem pushAll_cons : out.pushAll (token :: tokens) = (out.push token).pushAll tokens := rfl

@[simp] theorem ntok_push : (out.push token).ntok = out.ntok + 1 := rfl

theorem length_tokbuf_push : (out.push token).tokbuf.length = out.tokbuf.length + (token.text.length + 1) := by
  change (out.tokbuf ++ token.text ++ [NULLCH]).length = _
  rw [List.append_assoc, List.length_append, List.length_append, List.length_singleton]

theorem room_push (room : out.ntok < SHELL_MAXTOK) (token : Token) : (out.push token).ntok ≤ SHELL_MAXTOK := room

theorem ntok_pushAll : (out.pushAll tokens).ntok = out.ntok + tokens.length := by
  induction tokens generalizing out with
  | nil => rfl
  | cons token tokens inductionHypothesis =>
    rw [pushAll_cons, inductionHypothesis, ntok_push, List.length_cons]
    omega

theorem toktyp_pushAll : (out.pushAll tokens).toktyp = out.toktyp ++ tokens.map Token.type := by
  induction tokens generalizing out with
  | nil => simp
  | cons token tokens inductionHypothesis =>
    rw [pushAll_cons, inductionHypothesis]
    exact List.append_assoc ..

theorem tokbuf_pushAll : (out.pushAll tokens).tokbuf = out.tokbuf ++ tokens.flatMap fun token =>
    token.text ++ [NULLCH] := by
  induction tokens generalizing out with
  | nil => simp
  | cons token tokens inductionHypothesis =>
    rw [pushAll_cons, inductionHypothesis, List.flatMap_cons]
    change out.tokbuf ++ token.text ++ [NULLCH] ++ _ = _
    simp only [List.append_assoc]

theorem tok_pushAll : out.tok <+: (out.pushAll tokens).tok := by
  induction tokens generalizing out with
  | nil => exact List.prefix_rfl
  | cons token tokens inductionHypothesis =>
    exact (List.prefix_append out.tok [out.tbindex]).trans (@inductionHypothesis (out.push token))

/-- Each offset is where the text of its token stands in the buffer, with a NUL behind it. -/
theorem offset_pushAll {i : Nat} (found : tokens[i]? = some token) :
    ∃ offset, (out.pushAll tokens).tok[out.tok.length + i]? = some offset ∧
      token.text ++ [NULLCH] <+: (out.pushAll tokens).tokbuf.drop offset := by
  induction tokens generalizing out i with
  | nil => cases found
  | cons first tokens inductionHypothesis =>
    cases i with
    | zero =>
      cases found
      refine ⟨out.tbindex, ?_, ?_⟩
      · obtain ⟨later, whole⟩ := @tok_pushAll (out.push token) tokens
        rw [pushAll_cons, ← whole]
        change (out.tok ++ [out.tbindex] ++ later)[out.tok.length]? = _
        simp
      · rw [tokbuf_pushAll, List.flatMap_cons, tbindex, List.drop_left]
        exact List.prefix_append ..
    | succ i =>
      obtain ⟨offset, place, text⟩ := @inductionHypothesis (out.push first) i found
      have length : (out.push first).tok.length = out.tok.length + 1 := List.length_append
      rw [length, Nat.add_assoc, Nat.add_comm 1 i] at place
      exact ⟨offset, place, text⟩

end Lexed

/-! ## Lines -/

/-- The text has no character that ends a line. -/
def OnLine (text : List UInt8) : Prop := ∀ c ∈ text, c ≠ NULLCH ∧ c ≠ SH_NEWLINE

/-- The line ends here. -/
def LineEnd (tail : List UInt8) : Prop := char tail = NULLCH ∨ char tail = SH_NEWLINE

variable {text line tail rest : List UInt8} {c quote : UInt8} {tokens : List Token} {out : Lexed}

theorem OnLine.append (onLine : OnLine (text ++ rest)) : OnLine text ∧ OnLine rest :=
  ⟨fun c member => onLine c (List.mem_append_left rest member), fun c member => onLine c
    (List.mem_append_right text member)⟩

theorem OnLine.behind (onLine : OnLine (c :: text)) : OnLine text := fun d member => onLine d
    (List.mem_cons_of_mem c member)

theorem onLine_lineText (line : List UInt8) : OnLine (lineText line) := by
  intro c member
  simpa using List.mem_takeWhile_imp member

/-- A line is its text and something that starts with its end. -/
theorem exists_lineEnd (line : List UInt8) : ∃ tail, lineText line ++ tail = line ∧ LineEnd tail := by
  refine ⟨_, List.takeWhile_append_dropWhile, ?_⟩
  have head := List.head?_dropWhile_not (fun c : UInt8 => c ≠ NULLCH ∧ c ≠ SH_NEWLINE) line
  rw [LineEnd, char, List.headD_eq_head?_getD]
  cases first : (line.dropWhile fun c => c ≠ NULLCH ∧ c ≠ SH_NEWLINE).head? with
  | none => exact Or.inl rfl
  | some c =>
    rw [first] at head
    simp only [decide_eq_false_iff_not, not_and_or, not_not] at head
    exact head

@[simp] theorem char_cons (c : UInt8) (line : List UInt8) : char (c :: line) = c := rfl

/-! ## The inner loops -/

/-- A closed string is copied up to its closing quote. -/
theorem copyQuoted_closed (onLine : OnLine text) (missing : quote ∉ text) :
    copyQuoted quote (text ++ quote :: rest) = (text, quote, rest) := by
  induction text with
  | nil => simp [copyQuoted]
  | cons c text inductionHypothesis =>
    obtain ⟨notNull, notNewline⟩ := onLine c List.mem_cons_self
    have other : c ≠ quote := fun same => missing (same ▸ List.mem_cons_self)
    rw [List.cons_append, copyQuoted, if_pos ⟨other, notNewline, notNull⟩,
      inductionHypothesis onLine.behind (fun member => missing (List.mem_cons_of_mem c member))]

/-- An open string is copied up to the end of the line, which is not the quote. -/
theorem copyQuoted_open (onLine : OnLine text) (missing : quote ∉ text) (lineEnd : LineEnd tail)
    (isQuote : isQuote quote) :
    (copyQuoted quote (text ++ tail)).1 = text ∧ (copyQuoted quote (text ++ tail)).2.1 ≠ quote := by
  induction text with
  | nil =>
    have notEnd : quote ≠ NULLCH ∧ quote ≠ SH_NEWLINE := by
      rw [Tokens.isQuote, decide_eq_true_eq] at isQuote
      rcases isQuote with rfl | rfl <;> decide
    cases tail with
    | nil => exact ⟨rfl, notEnd.1.symm⟩
    | cons c tail =>
      have stops : ¬ (c ≠ quote ∧ c ≠ SH_NEWLINE ∧ c ≠ NULLCH) := by
        rintro ⟨-, notNewline, notNull⟩
        exact lineEnd.elim notNull notNewline
      rw [List.nil_append, copyQuoted, if_neg stops]
      refine ⟨rfl, ?_⟩
      rintro rfl
      exact lineEnd.elim notEnd.1 notEnd.2
  | cons c text inductionHypothesis =>
    obtain ⟨notNull, notNewline⟩ := onLine c List.mem_cons_self
    have other : c ≠ quote := fun same => missing (same ▸ List.mem_cons_self)
    obtain ⟨copied, stop⟩ := inductionHypothesis onLine.behind (fun member => missing (List.mem_cons_of_mem c member))
    rw [List.cons_append, copyQuoted, if_pos ⟨other, notNewline, notNull⟩]
    exact ⟨congrArg (c :: ·) copied, stop⟩

theorem isWordChar_iff (onLine : c ≠ NULLCH ∧ c ≠ SH_NEWLINE) : isWordChar c ↔ stopsWord c = false := by
  simp only [isWordChar, stopsWord, isBlank, isQuote, decide_eq_false_iff_not, decide_eq_true_eq, not_or]
  tauto

theorem not_isWordChar_lineEnd (lineEnd : LineEnd (c :: tail)) : ¬ isWordChar c := by
  rintro ⟨notNewline, notNull, -⟩
  exact lineEnd.elim notNull notNewline

/-- A word is copied up to a character that stops it, or to the end of the line. -/
theorem copyWord_eq (onLine : OnLine line) (lineEnd : LineEnd tail) :
    copyWord (line ++ tail) = (wordText line, wordRest line ++ tail) := by
  induction line with
  | nil =>
    cases tail with
    | nil => rfl
    | cons c tail => exact if_neg (not_isWordChar_lineEnd lineEnd)
  | cons c line inductionHypothesis =>
    have goesOn := isWordChar_iff (onLine c List.mem_cons_self)
    rw [List.cons_append, copyWord, wordText, wordRest]
    cases stops : stopsWord c with
    | true =>
      rw [if_neg (by rw [goesOn, stops]; decide)]
      simp [stops]
    | false =>
      rw [if_pos (goesOn.mpr stops), inductionHypothesis onLine.behind]
      simp [stops, wordText, wordRest]

theorem skipWhitespace_blank (blank : isBlank c) : skipWhitespace (c :: line) = skipWhitespace line := by
  rw [skipWhitespace, List.dropWhile_cons_of_pos]
  · rfl
  · exact blank

theorem skipWhitespace_other (other : ¬ isBlank c) : skipWhitespace (c :: line) = c :: line := by
  rw [skipWhitespace, List.dropWhile_cons_of_neg]
  exact other

theorem skipWhitespace_lineEnd (lineEnd : LineEnd tail) : skipWhitespace tail = tail := by
  cases tail with
  | nil => rfl
  | cons c tail =>
    apply skipWhitespace_other
    rw [isBlank, decide_eq_true_eq]
    have stop : c = NULLCH ∨ c = SH_NEWLINE := lineEnd
    rintro (rfl | rfl) <;> revert stop <;> decide

/-! ## The loop -/

section rounds

variable {fuel : Nat} (onLine : c ≠ NULLCH ∧ c ≠ SH_NEWLINE)

theorem lexanLoop_end (lineEnd : LineEnd tail) (fuel : Nat) (out : Lexed) :
    lexanLoop (fuel + 1) tail out = ⟨out.ntok, some out.tbindex, out⟩ := by
  rw [lexanLoop, if_neg]
  rintro ⟨notNull, notNewline⟩
  exact lineEnd.elim notNull notNewline

include onLine

theorem lexanLoop_full (full : SHELL_MAXTOK ≤ out.ntok) : lexanLoop (fuel + 1) (c :: line) out =
    ⟨SYSERR, none, out⟩ := by
  rw [lexanLoop, char_cons, if_pos onLine, if_pos full]

theorem lexanLoop_blank (room : out.ntok < SHELL_MAXTOK) (blank : isBlank c) (rest : OnLine line)
    (lineEnd : LineEnd tail) :
    lexanLoop (fuel + 1) (c :: (line ++ tail)) out = lexanLoop (fuel + 1) (line ++ tail) out := by
  rw [lexanLoop, char_cons, if_pos onLine, if_neg (Nat.not_le.mpr room), skipWhitespace_blank blank]
  cases line with
  | nil =>
    rw [List.nil_append, skipWhitespace_lineEnd lineEnd, lexanLoop_end lineEnd]
    exact if_pos lineEnd.symm
  | cons d line =>
    rw [List.cons_append, lexanLoop, char_cons, if_pos (rest d List.mem_cons_self), if_neg (Nat.not_le.mpr room)]

/-- A round at the first character of a token. -/
theorem lexanLoop_token (room : out.ntok < SHELL_MAXTOK) (token : ¬ isBlank c) :
    lexanLoop (fuel + 1) (c :: line) out =
      if c = SH_AMPER then lexanLoop fuel line (out.push ⟨[c], .amper⟩)
      else if c = SH_LESS then lexanLoop fuel line (out.push ⟨[c], .less⟩)
      else if isQuote c then
        if (copyQuoted c line).2.1 ≠ c then ⟨SYSERR, none, out.start .other (copyQuoted c line).1⟩
        else lexanLoop fuel (copyQuoted c line).2.2 (out.push ⟨(copyQuoted c line).1, .other⟩)
      else if isAppended (char (copyWord line).2) then ⟨SYSERR, none, out.start .other (c :: (copyWord line).1)⟩
      else lexanLoop fuel (copyWord line).2 (out.push ⟨c :: (copyWord line).1, .other⟩) := by
  rw [lexanLoop, char_cons, if_pos onLine, if_neg (Nat.not_le.mpr room), skipWhitespace_other token]
  have notEnd : ¬ (c = SH_NEWLINE ∨ c = NULLCH) := by
    rintro (newline | null)
    · exact onLine.2 newline
    · exact onLine.1 null
  simp only [isQuote, decide_eq_true_eq]
  exact if_neg notEnd

end rounds

/-! ## What the loop does with a text -/

/-- The tokens are not too many, and if they are as many as allowed there is no blank behind them. -/
def TokensFit (ntok : Nat) (tokens : List Token) (text : List UInt8) : Prop :=
  ntok + tokens.length ≤ SHELL_MAXTOK ∧ (ntok + tokens.length = SHELL_MAXTOK → ¬ EndsBlank text)

/-- With tokens that fit, all of them are stored and counted; otherwise the result is `SYSERR`. What is stored is no
more than the text and a NUL for each token there is room for. -/
structure LexanOutcome (out : Lexed) (text : List UInt8) (result : LexanResult) : Prop where
  stored : ∀ tokens, scan text = some tokens → TokensFit out.ntok tokens text →
    result = ⟨(out.pushAll tokens).ntok, some (out.pushAll tokens).tbindex, out.pushAll tokens⟩
  refused : (∀ tokens, scan text = some tokens → ¬ TokensFit out.ntok tokens text) → result.ret = SYSERR
  used : result.out.tokbuf.length + out.ntok ≤ out.tokbuf.length + text.length + SHELL_MAXTOK

namespace LexanOutcome

variable {token : Token} {result : LexanResult}

/-- A token is stored, and the loop goes on behind it. -/
theorem next (after : LexanOutcome (out.push token) rest result) (scanned : scan text = (scan rest).map (token :: ·))
    (ends : EndsBlank text ↔ EndsBlank rest) (length : token.text.length + rest.length ≤ text.length) :
    LexanOutcome out text result := by
  have fits : ∀ tokens, TokensFit out.ntok (token :: tokens) text ↔ TokensFit (out.push token).ntok tokens rest := by
    intro tokens
    rw [TokensFit, TokensFit, ends, List.length_cons, Lexed.ntok_push, Nat.add_right_comm, Nat.add_assoc out.ntok]
  refine ⟨?_, ?_, ?_⟩
  · intro tokens all room
    rw [scanned, Option.map_eq_some_iff] at all
    obtain ⟨others, behind, rfl⟩ := all
    exact after.stored others behind ((fits others).mp room)
  · intro none
    apply after.refused
    intro others behind room
    exact none (token :: others) (by rw [scanned, behind]; rfl) ((fits others).mpr room)
  · have used := after.used
    rw [Lexed.length_tokbuf_push, Lexed.ntok_push] at used
    omega

/-- The text has an error, and the token it is in was begun. -/
theorem error (room : out.ntok < SHELL_MAXTOK) (scanned : scan text = none) {type : TokType} {stored : List UInt8}
    (length : stored.length ≤ text.length) : LexanOutcome out text ⟨SYSERR, none, out.start type stored⟩ := by
  refine ⟨?_, fun _ => rfl, ?_⟩
  · intro tokens all
    rw [scanned] at all
    cases all
  · change (out.tokbuf ++ stored).length + out.ntok ≤ _
    rw [List.length_append]
    omega

/-- There is no room for another token, and the line is not at its end. -/
theorem full (full : out.ntok = SHELL_MAXTOK) (some : text ≠ []) : LexanOutcome out text ⟨SYSERR, none, out⟩ := by
  refine ⟨?_, fun _ => rfl, ?_⟩
  · rintro tokens all ⟨room, last⟩
    have none : tokens = [] := List.eq_nil_of_length_eq_zero (by omega)
    rw [none] at all last
    exact absurd (endsBlank_of_scan_nil all some) (last full)
  · change out.tokbuf.length + out.ntok ≤ _
    omega

/-- A blank before the text changes nothing while there is room. -/
theorem blank (outcome : LexanOutcome out line result) (room : out.ntok < SHELL_MAXTOK) (blank : isBlank c) :
    LexanOutcome out (c :: line) result := by
  have scanned : scan (c :: line) = scan line := by rw [scan, if_pos blank]
  have fits : ∀ tokens, scan line = some tokens → (TokensFit out.ntok tokens (c :: line) ↔
    TokensFit out.ntok tokens line) := by
    intro tokens all
    cases line with
    | nil =>
      -- no token at all, so that there is room left
      have none : tokens = [] := by
        rw [scan] at all
        exact (Option.some.inj all).symm
      rw [TokensFit, TokensFit, none]
      constructor
      · exact fun fine => ⟨fine.1, fun last => absurd last (by simp only [List.length_nil]; omega)⟩
      · exact fun fine => ⟨fine.1, fun last => absurd last (by simp only [List.length_nil]; omega)⟩
    | cons d line =>
      rw [TokensFit, TokensFit, ← endsBlank_append [c] (List.cons_ne_nil d line)]
      rfl
  refine ⟨?_, ?_, ?_⟩
  · intro tokens all fine
    rw [scanned] at all
    exact outcome.stored tokens all ((fits tokens all).mp fine)
  · intro none
    apply outcome.refused
    intro tokens all fine
    exact none tokens (by rw [scanned, all]) ((fits tokens all).mpr fine)
  · have used := outcome.used
    rw [List.length_cons]
    omega

end LexanOutcome

theorem isAppended_iff : isAppended (char (rest ++ tail)) ↔ rest.head?.any clings ∨ rest = [] ∧ isAppended
    (char tail) := by
  cases rest with
  | nil => simp
  | cons c rest =>
    simp only [List.cons_append, char, List.headD_cons, List.head?_cons, Option.any_some, isAppended, clings, isQuote,
      decide_eq_true_eq, reduceCtorEq, false_and, or_false]
    tauto

theorem not_isAppended_lineEnd (lineEnd : LineEnd tail) : ¬ isAppended (char tail) := by
  rw [isAppended]
  cases lineEnd with
  | inl null =>
    rw [null]
    decide
  | inr newline =>
    rw [newline]
    decide

/-- A round on a text that is not empty; without room for a token it is the last one. -/
theorem outcome_cons {fuel : Nat} (enough : (c :: line).length < fuel) (onLine : OnLine (c :: line))
    (room : out.ntok ≤ SHELL_MAXTOK)
    (round : ∀ rounds, fuel = rounds + 1 → line.length < rounds → out.ntok < SHELL_MAXTOK →
      LexanOutcome out (c :: line) (lexanLoop (rounds + 1) (c :: (line ++ tail)) out)) :
    LexanOutcome out (c :: line) (lexanLoop fuel (c :: line ++ tail) out) := by
  rw [List.length_cons] at enough
  obtain ⟨rounds, rfl⟩ : ∃ rounds, fuel = rounds + 1 := ⟨fuel - 1, by omega⟩
  rw [List.cons_append]
  cases Nat.lt_or_eq_of_le room with
  | inl more => exact round rounds rfl (by omega) more
  | inr full =>
    rw [lexanLoop_full (onLine c List.mem_cons_self) (Nat.le_of_eq full.symm)]
    exact .full full (List.cons_ne_nil c line)

/-- The loop of `lexan` over a text, by the tokens in it. -/
theorem lexanLoop_outcome (text : List UInt8) {fuel : Nat} (enough : text.length < fuel) (onLine : OnLine text)
    (lineEnd : LineEnd tail) (room : out.ntok ≤ SHELL_MAXTOK) :
    LexanOutcome out text (lexanLoop fuel (text ++ tail) out) := by
  fun_induction scan text generalizing fuel out with
  | case1 =>
    obtain ⟨rounds, rfl⟩ : ∃ rounds, fuel = rounds + 1 := ⟨fuel - 1, by omega⟩
    rw [List.nil_append, lexanLoop_end lineEnd]
    refine ⟨?_, ?_, ?_⟩
    · intro tokens all _
      rw [scan, Option.some.injEq] at all
      rw [← all]
      rfl
    · intro none
      refine absurd ?_ (none [] (by rw [scan]))
      exact ⟨room, fun _ blank => by simp [EndsBlank] at blank⟩
    · change out.tokbuf.length + out.ntok ≤ _
      omega
  | case2 c line blank inductionHypothesis =>
    refine outcome_cons enough onLine room fun rounds _ fewer more => ?_
    rw [lexanLoop_blank (onLine c List.mem_cons_self) more blank onLine.behind lineEnd]
    exact (inductionHypothesis (Nat.lt_succ_of_lt fewer) onLine.behind room).blank more blank
  | case3 line notBlank inductionHypothesis =>
    refine outcome_cons enough onLine room fun rounds _ fewer more => ?_
    rw [lexanLoop_token (onLine _ List.mem_cons_self) more notBlank, if_pos rfl]
    refine (inductionHypothesis fewer onLine.behind (Lexed.room_push more _)).next ?_ (endsBlank_behind [] rfl) ?_
    · rw [scan, if_neg notBlank, if_pos rfl]
    · exact Nat.le_of_eq (Nat.add_comm 1 line.length)
  | case4 line notBlank notAmper inductionHypothesis =>
    refine outcome_cons enough onLine room fun rounds _ fewer more => ?_
    rw [lexanLoop_token (onLine _ List.mem_cons_self) more notBlank, if_neg notAmper, if_pos rfl]
    refine (inductionHypothesis fewer onLine.behind (Lexed.room_push more _)).next ?_ (endsBlank_behind [] rfl) ?_
    · rw [scan, if_neg notBlank, if_neg notAmper, if_pos rfl]
    · exact Nat.le_of_eq (Nat.add_comm 1 line.length)
  | case5 c line notBlank notAmper notLess quotes closed inductionHypothesis =>
    refine outcome_cons enough onLine room fun rounds _ fewer more => ?_
    have whole := quoted_append closed
    have lengths := congrArg List.length whole
    rw [List.length_append, List.length_cons] at lengths
    have onLine' := onLine.behind
    rw [← whole] at onLine'
    have copied : copyQuoted c (line ++ tail) = (quotedText c line, c, quotedRest c line ++ tail) := by
      have closes := @copyQuoted_closed _ (quotedRest c line ++ tail) _ onLine'.append.1 (quotedText_missing c line)
      rwa [← List.cons_append, ← List.append_assoc, whole] at closes
    rw [lexanLoop_token (onLine _ List.mem_cons_self) more notBlank, if_neg notAmper, if_neg notLess, if_pos quotes,
      copied, if_neg (fun other => other rfl)]
    refine (inductionHypothesis (by omega) onLine'.append.2.behind (Lexed.room_push more _)).next ?_ ?_ ?_
    · rw [scan, if_neg notBlank, if_neg notAmper, if_neg notLess, if_pos quotes, if_pos closed]
    · -- the closing quote is no blank
      have ends : EndsBlank (c :: quotedText c line ++ c :: quotedRest c line) ↔ EndsBlank (quotedRest c line) :=
        endsBlank_behind _ (Bool.eq_false_iff.mpr notBlank)
      rwa [List.cons_append, whole] at ends
    · rw [List.length_cons]
      change (quotedText c line).length + _ ≤ _
      omega
  | case6 c line notBlank notAmper notLess quotes unclosed =>
    refine outcome_cons enough onLine room fun rounds _ _ more => ?_
    obtain ⟨copied, stop⟩ := copyQuoted_open onLine.behind unclosed lineEnd quotes
    rw [lexanLoop_token (onLine _ List.mem_cons_self) more notBlank, if_neg notAmper, if_neg notLess, if_pos quotes,
      if_pos stop, copied]
    refine .error more ?_ (Nat.le_succ line.length)
    rw [scan, if_neg notBlank, if_neg notAmper, if_neg notLess, if_pos quotes, if_neg unclosed]
  | case7 c line notBlank notAmper notLess notQuote appended =>
    refine outcome_cons enough onLine room fun rounds _ _ more => ?_
    have lengths := congrArg List.length (word_append line)
    rw [List.length_append] at lengths
    rw [lexanLoop_token (onLine _ List.mem_cons_self) more notBlank, if_neg notAmper, if_neg notLess, if_neg notQuote,
      copyWord_eq onLine.behind lineEnd, if_pos (isAppended_iff.mpr (Or.inl appended))]
    refine .error more ?_ ?_
    · rw [scan, if_neg notBlank, if_neg notAmper, if_neg notLess, if_neg notQuote, if_pos appended]
    · change (wordText line).length + 1 ≤ line.length + 1
      omega
  | case8 c line notBlank notAmper notLess notQuote alone inductionHypothesis =>
    refine outcome_cons enough onLine room fun rounds _ fewer more => ?_
    have whole := word_append line
    have lengths := congrArg List.length whole
    rw [List.length_append] at lengths
    have onLine' := onLine.behind
    rw [← whole] at onLine'
    have notAppended : ¬ isAppended (char (wordRest line ++ tail)) := by
      rw [isAppended_iff, not_or]
      exact ⟨alone, fun ends => not_isAppended_lineEnd lineEnd ends.2⟩
    rw [lexanLoop_token (onLine _ List.mem_cons_self) more notBlank, if_neg notAmper, if_neg notLess, if_neg notQuote,
      copyWord_eq onLine.behind lineEnd, if_neg notAppended]
    refine (inductionHypothesis (by omega) onLine'.append.2 (Lexed.room_push more _)).next ?_ ?_ ?_
    · rw [scan, if_neg notBlank, if_neg notAmper, if_neg notLess, if_neg notQuote, if_neg alone]
    · exact endsBlank_word (Bool.eq_false_iff.mpr notBlank) line
    · change (wordText line).length + 1 + (wordRest line).length ≤ line.length + 1
      omega

/-! ## `lexan` -/

/-- The tokens behind a first one take their characters from the rest of the text. -/
theorem subset_of_cons {first : Token} (scanned : (scan rest).map (first :: ·) = some tokens) (own : first.text ⊆ text)
    (others : ∀ {tokens}, scan rest = some tokens → ∀ token ∈ tokens, token.text ⊆ rest) (behind : rest ⊆ text) :
    ∀ token ∈ tokens, token.text ⊆ text := by
  obtain ⟨later, scanned', rfl⟩ := Option.map_eq_some_iff.mp scanned
  intro token member
  cases List.mem_cons.mp member with
  | inl same =>
    rw [same]
    exact own
  | inr member => exact List.Subset.trans (others scanned' token member) behind

/-- The characters of the tokens are characters of the text. -/
theorem scan_subset (scanned : scan text = some tokens) : ∀ token ∈ tokens, token.text ⊆ text := by
  fun_induction scan text generalizing tokens with
  | case1 =>
    cases scanned
    simp
  | case2 c line blank inductionHypothesis =>
    intro token member
    exact List.Subset.trans (inductionHypothesis scanned token member) (List.subset_cons_self c line)
  | case3 line notBlank inductionHypothesis =>
    exact subset_of_cons scanned (by simp) inductionHypothesis (List.subset_cons_self _ line)
  | case4 line notBlank notAmper inductionHypothesis =>
    exact subset_of_cons scanned (by simp) inductionHypothesis (List.subset_cons_self _ line)
  | case5 c line notBlank notAmper notLess quotes closed inductionHypothesis =>
    refine subset_of_cons scanned ?_ inductionHypothesis ?_
    · exact List.Subset.trans (List.takeWhile_subset _) (List.subset_cons_self c line)
    · have behind := List.Subset.trans (List.tail_subset _) (List.dropWhile_subset (· ≠ c) (l := line))
      exact List.Subset.trans behind (List.subset_cons_self c line)
  | case6 => cases scanned
  | case7 => cases scanned
  | case8 c line notBlank notAmper notLess notQuote alone inductionHypothesis =>
    refine subset_of_cons scanned ?_ inductionHypothesis ?_
    · exact List.cons_subset_cons c (List.takeWhile_subset _)
    · exact List.Subset.trans (List.dropWhile_subset _) (List.subset_cons_self c line)

/-- All the tokens were counted and stored, with their types and the length of it all. -/
structure Stores (result : LexanResult) (tokens : List Token) : Prop where
  ret : result.ret = tokens.length
  tok : ∀ (i : Nat) (token : Token), tokens[i]? = some token → NULLCH ∉ token.text ∧
    ∃ offset, result.out.tok[i]? = some offset ∧ token.text ++ [NULLCH] <+: result.out.tokbuf.drop offset
  toktyp : result.out.toktyp = tokens.map Token.type
  tlen : result.tlen = some (tokens.map fun token => token.text.length + 1).sum

/-- `lexan` stores the tokens of a line, if it has no error and not too many of them, and else returns `SYSERR`; the
buffer needs no more than the length of the text and a byte for each token there may be. -/
structure LexanAgrees (line : List UInt8) : Prop where
  stores : ∀ tokens, scan (lineText line) = some tokens → tokens.length ≤ SHELL_MAXTOK → Stores (lexan line) tokens
  error : (∀ tokens, scan (lineText line) = some tokens → SHELL_MAXTOK < tokens.length) → (lexan line).ret = SYSERR
  used : (lexan line).out.tokbuf.length ≤ (lineText line).length + SHELL_MAXTOK

/-- As many tokens as are allowed, with a blank or tab at the end of the text. -/
def FullThenBlank (line : List UInt8) : Prop :=
  EndsBlank (lineText line) ∧ ∃ tokens, scan (lineText line) = some tokens ∧ tokens.length = SHELL_MAXTOK

theorem lexan_outcome (line : List UInt8) : LexanOutcome ⟨0, [], [], []⟩ (lineText line) (lexan line) := by
  obtain ⟨tail, whole, lineEnd⟩ := exists_lineEnd line
  have shorter : (lineText line).length < line.length + 1 :=
    Nat.lt_succ_of_le (List.takeWhile_prefix _).length_le
  have outcome := @lexanLoop_outcome tail ⟨0, [], [], []⟩ (lineText line) _ shorter (onLine_lineText line) lineEnd
    (Nat.zero_le _)
  rwa [whole] at outcome

/-- Without blanks behind the last token allowed, the tokens of a line are stored. -/
theorem lexanAgrees_of_not (notLate : ¬ FullThenBlank line) : LexanAgrees line := by
  have outcome := lexan_outcome line
  refine ⟨?_, ?_, ?_⟩
  · intro tokens scanned few
    have fits : TokensFit 0 tokens (lineText line) := by
      rw [TokensFit, Nat.zero_add]
      exact ⟨few, fun full blank => notLate ⟨blank, tokens, scanned, full⟩⟩
    rw [outcome.stored tokens scanned fits]
    refine ⟨?_, ?_, ?_, ?_⟩
    · rw [Lexed.ntok_pushAll, Nat.zero_add]
    · intro i token found
      have inside := scan_subset scanned token (List.mem_of_getElem? found)
      refine ⟨fun null => (onLine_lineText line _ (inside null)).1 rfl, ?_⟩
      obtain ⟨offset, place, text⟩ := @Lexed.offset_pushAll ⟨0, [], [], []⟩ token tokens i found
      rw [List.length_nil, Nat.zero_add] at place
      exact ⟨offset, place, text⟩
    · exact Lexed.toktyp_pushAll
    · rw [Lexed.tbindex, Lexed.tokbuf_pushAll, List.nil_append, List.length_flatMap]
      simp only [List.length_append, List.length_singleton]
  · intro many
    apply outcome.refused
    rintro tokens scanned ⟨few, -⟩
    rw [Nat.zero_add] at few
    exact absurd few (Nat.not_le.mpr (many tokens scanned))
  · have used := outcome.used
    rwa [List.length_nil, Nat.zero_add, Nat.add_zero] at used

/-- `lexan` agrees with the tokens of a line unless blanks follow the last token allowed. -/
theorem lexan_agrees_iff (line : List UInt8) : LexanAgrees line ↔ ¬ FullThenBlank line := by
  constructor
  · rintro agrees ⟨blank, tokens, scanned, full⟩
    have returned := (agrees.stores tokens scanned (Nat.le_of_eq full)).ret
    have refused : (lexan line).ret = SYSERR := by
      apply (lexan_outcome line).refused
      rintro others scanned' ⟨-, last⟩
      rw [scanned, Option.some.injEq] at scanned'
      exact last (by rw [← scanned', full, Nat.zero_add]) blank
    rw [refused, full] at returned
    exact absurd returned (by decide)
  · exact lexanAgrees_of_not

/-- Thirty-two ampersands and a blank. -/
def manyThenBlank : List UInt8 := List.replicate 32 SH_AMPER ++ [SH_BLANK, SH_NEWLINE]

theorem manyThenBlank_refused : (scan (lineText manyThenBlank)).map List.length = some SHELL_MAXTOK ∧
    (lexan manyThenBlank).ret = SYSERR ∧ ¬ LexanAgrees manyThenBlank := by
  have tokens : scan (lineText manyThenBlank) = some (List.replicate 32 ⟨[SH_AMPER], .amper⟩) := by
    rw [show lineText manyThenBlank = List.replicate 32 SH_AMPER ++ [SH_BLANK] by decide]
    simp [scan, List.replicate, isBlank]
  have refused : (lexan manyThenBlank).ret = SYSERR := by decide
  refine ⟨by rw [tokens]; rfl, refused, ?_⟩
  intro agrees
  have returned := (agrees.stores _ tokens (by decide)).ret
  rw [refused] at returned
  exact absurd returned (by decide)

end XinuStm32
