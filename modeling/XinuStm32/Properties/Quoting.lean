import XinuStm32.Properties.Lexan

/-!
# Quoted command lines

Any text on a line can be one token of a command: it is written between quotes that are not in it.
-/

namespace XinuStm32

open Tokens

/-- A text and the quote it is written in. -/
structure Quoted where
  quote : UInt8
  text : List UInt8

namespace Quoted

def write (item : Quoted) : List UInt8 := item.quote :: (item.text ++ [item.quote])

def token (item : Quoted) : Token := ⟨item.text, .other⟩

/-- The quote is one and is not in the text, and the text is one of a line. -/
structure Legible (item : Quoted) : Prop where
  quotes : isQuote item.quote
  missing : item.quote ∉ item.text
  onLine : OnLine item.text

end Quoted

/-- The texts in their quotes, with single blanks between them and a newline at the end. -/
def quotedLine (items : List Quoted) : List UInt8 :=
  [SH_BLANK].intercalate (items.map Quoted.write) ++ [SH_NEWLINE]

/-- The NUL-terminated text at the offset of a token. -/
def LexanResult.text (result : LexanResult) (i : Nat) : List UInt8 :=
  (result.out.tokbuf.drop (result.out.tok.getD i 0)).takeWhile (· ≠ NULLCH)

/-- The texts of the tokens that were counted. -/
def LexanResult.texts (result : LexanResult) : List (List UInt8) := (List.range result.ret.toNat).map result.text

variable {item : Quoted} {items : List Quoted} {rest : List UInt8} {tokens : List Token} {result : LexanResult}

/-! ## Reading tokens back -/

theorem Stores.text (stores : Stores result tokens) {i : Nat} {token : Token} (found : tokens[i]? = some token) :
    result.text i = token.text := by
  obtain ⟨noNull, offset, place, behind, stored⟩ := stores.tok i token found
  rw [LexanResult.text, List.getD_eq_getElem?_getD, place, Option.getD_some, ← stored, List.append_assoc]
  have others : ∀ c ∈ token.text, decide (c ≠ NULLCH) = true := by
    intro c member
    exact decide_eq_true (fun same => noNull (same ▸ member))
  rw [List.takeWhile_append_of_pos others]
  simp

theorem Stores.texts (stores : Stores result tokens) : result.texts = tokens.map Token.text := by
  rw [LexanResult.texts, stores.ret, Int.toNat_natCast]
  apply List.ext_getElem
  · simp
  · intro i _ inside
    rw [List.length_map] at inside
    rw [List.getElem_map, List.getElem_range, List.getElem_map]
    exact stores.text (List.getElem?_eq_getElem inside)

/-! ## The line -/

theorem isBlank_of_isQuote {c : UInt8} (quotes : isQuote c) : isBlank c = false := by
  rw [isQuote, decide_eq_true_eq] at quotes
  cases quotes with
  | inl single =>
    rw [single]
    decide
  | inr double =>
    rw [double]
    decide

/-- A quoted text is scanned as one token. -/
theorem scan_write (legible : item.Legible) : scan (item.write ++ rest) = (scan rest).map (item.token :: ·) := by
  obtain ⟨text, behind⟩ := @quotedText_append item.quote item.text rest legible.missing
  have quotes := legible.quotes
  have notBlank := isBlank_of_isQuote quotes
  have notAmper : item.quote ≠ SH_AMPER := by
    intro amper
    rw [amper] at quotes
    exact absurd quotes (by decide)
  have notLess : item.quote ≠ SH_LESS := by
    intro less
    rw [less] at quotes
    exact absurd quotes (by decide)
  have whole : item.write ++ rest = item.quote :: (item.text ++ item.quote :: rest) := by
    simp [Quoted.write]
  rw [whole, scan, if_neg (by rw [notBlank]; decide), if_neg notAmper, if_neg notLess, if_pos quotes, if_pos (by simp),
    text, behind]
  rfl

/-- Every text is one token of the line. -/
theorem scan_quotedLine (legible : ∀ item ∈ items, item.Legible) :
    scan ([SH_BLANK].intercalate (items.map Quoted.write)) = some (items.map Quoted.token) := by
  induction items with
  | nil => simp [scan]
  | cons item items inductionHypothesis =>
    obtain ⟨first, others⟩ := List.forall_mem_cons.mp legible
    cases items with
    | nil =>
      have single := @scan_write item [] first
      rw [List.append_nil, scan] at single
      rw [List.map_singleton, List.intercalate_singleton, single]
      rfl
    | cons second items =>
      have later := inductionHypothesis others
      rw [List.map_cons] at later
      rw [List.map_cons, List.map_cons, List.intercalate_cons_cons, List.append_assoc, scan_write first,
        List.singleton_append, scan, if_pos (by decide), later]
      rfl

theorem Quoted.Legible.onLine_write (legible : item.Legible) : OnLine item.write := by
  have onLine := legible.onLine
  have quotes := legible.quotes
  have notEnd : item.quote ≠ NULLCH ∧ item.quote ≠ SH_NEWLINE := by
    constructor
    · intro null
      rw [null] at quotes
      exact absurd quotes (by decide)
    · intro newline
      rw [newline] at quotes
      exact absurd quotes (by decide)
  exact List.forall_mem_cons.mpr ⟨notEnd, List.forall_mem_append.mpr ⟨onLine, List.forall_mem_singleton.mpr notEnd⟩⟩

theorem onLine_quoted (legible : ∀ item ∈ items, item.Legible) :
    OnLine ([SH_BLANK].intercalate (items.map Quoted.write)) := by
  induction items with
  | nil => exact List.forall_mem_nil _
  | cons item items inductionHypothesis =>
    obtain ⟨first, others⟩ := List.forall_mem_cons.mp legible
    cases items with
    | nil =>
      rw [List.map_singleton, List.intercalate_singleton]
      exact first.onLine_write
    | cons second items =>
      have later := inductionHypothesis others
      rw [List.map_cons] at later
      rw [List.map_cons, List.map_cons, List.intercalate_cons_cons]
      have blank : OnLine [SH_BLANK] := List.forall_mem_singleton.mpr (by decide)
      exact List.forall_mem_append.mpr ⟨List.forall_mem_append.mpr ⟨first.onLine_write, blank⟩, later⟩

/-- The line has no other end than its newline. -/
theorem lineText_quotedLine (legible : ∀ item ∈ items, item.Legible) :
    lineText (quotedLine items) = [SH_BLANK].intercalate (items.map Quoted.write) := by
  have onLine := onLine_quoted legible
  have goesOn : ∀ c ∈ [SH_BLANK].intercalate (items.map Quoted.write), decide (c ≠ NULLCH ∧ c ≠ SH_NEWLINE) = true :=
    fun c member => decide_eq_true (onLine c member)
  rw [lineText, quotedLine, List.takeWhile_append_of_pos goesOn]
  simp

/-- The last character of the text is a quote, if there is one. -/
theorem not_endsBlank_quoted (legible : ∀ item ∈ items, item.Legible) :
    ¬ EndsBlank ([SH_BLANK].intercalate (items.map Quoted.write)) := by
  have nothing : ¬ EndsBlank [] := by simp [EndsBlank]
  induction items with
  | nil => exact nothing
  | cons item items inductionHypothesis =>
    obtain ⟨first, others⟩ := List.forall_mem_cons.mp legible
    cases items with
    | nil =>
      have ends : EndsBlank item.write ↔ EndsBlank [] :=
        endsBlank_behind (item.quote :: item.text) (isBlank_of_isQuote first.quotes)
      rw [List.map_singleton, List.intercalate_singleton]
      exact fun blank => nothing (ends.mp blank)
    | cons second items =>
      have some : [SH_BLANK].intercalate ((second :: items).map Quoted.write) ≠ [] := by
        rw [List.map_cons, Quoted.write, List.intercalate_cons_cons_left]
        exact List.cons_ne_nil _ _
      have later := inductionHypothesis others
      rw [← endsBlank_append (item.write ++ [SH_BLANK]) some] at later
      rw [List.map_cons, List.map_cons, List.intercalate_cons_cons]
      exact later

/-- Up to the limit, the texts come back in order, each as one token of the type for words and strings. -/
theorem lexan_quotedLine (legible : ∀ item ∈ items, item.Legible) (few : items.length ≤ SHELL_MAXTOK) :
    (lexan (quotedLine items)).ret = items.length ∧ (lexan (quotedLine items)).texts = items.map Quoted.text ∧
      (lexan (quotedLine items)).out.toktyp = items.map fun _ => .other := by
  have scanned := scan_quotedLine legible
  have notBlank := not_endsBlank_quoted legible
  rw [← lineText_quotedLine legible] at scanned notBlank
  have agrees := @lexanAgrees_of_not (quotedLine items) fun late => notBlank late.1
  have stores := agrees.stores _ scanned (by rwa [List.length_map])
  refine ⟨?_, ?_, ?_⟩
  · rw [stores.ret, List.length_map]
  · rw [stores.texts, List.map_map]
    rfl
  · rw [stores.toktyp, List.map_map]
    rfl

/-- Two strings, one with a blank and a single quote in it. -/
theorem lexan_twoStrings : (lexan (quotedLine [⟨SH_DQUOTE, [105, 116, 39, 115, 32, 97]⟩, ⟨SH_SQUOTE, []⟩])).ret = 2 ∧
    (lexan (quotedLine [⟨SH_DQUOTE, [105, 116, 39, 115, 32, 97]⟩, ⟨SH_SQUOTE, []⟩])).texts =
      [[105, 116, 39, 115, 32, 97], []] ∧
      (lexan (quotedLine [⟨SH_DQUOTE, [105, 116, 39, 115, 32, 97]⟩, ⟨SH_SQUOTE, []⟩])).out.toktyp =
        [.other, .other] := by
  refine lexan_quotedLine ?_ (by decide)
  intro item member
  simp only [List.mem_cons, List.not_mem_nil, or_false] at member
  cases member with
  | inl same =>
    rw [same]
    exact ⟨by decide, by decide, by simp [OnLine]⟩
  | inr same =>
    rw [same]
    exact ⟨by decide, by decide, by simp [OnLine]⟩

end XinuStm32
