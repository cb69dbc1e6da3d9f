import Mathlib
import XinuStm32.Kernel.Console

/-!
# Line editing

What the line discipline is for: characters make up a line that erase and kill edit, and newline
hands the finished line to the readers.
-/

namespace XinuStm32

/-! ## Characters -/

/-- The character as the line discipline sees it: return is newline. -/
def lineChar (c : UInt8) : UInt8 := if c = TY_RETURN then TY_NEWLINE else c

def isErase (ch : UInt8) : Prop := ch = TY_BACKSP ∨ ch = TY_BACKSP2

instance (ch : UInt8) : Decidable (isErase ch) := inferInstanceAs (Decidable (_ ∨ _))

/-- A character that goes into the line, or is the end-of-file character. -/
def isText (ch : UInt8) : Prop := ch ≠ TY_KILLCH ∧ ¬ isErase ch ∧ ch ≠ TY_NEWLINE

instance (ch : UInt8) : Decidable (isText ch) := inferInstanceAs (Decidable (_ ∧ _ ∧ _))

theorem isErase.text {ch : UInt8} (erase : isErase ch) : ch ≠ TY_KILLCH ∧ ch ≠ TY_NEWLINE := by
  rcases erase with rfl | rfl <;> decide

/-! ## What is typed and not yet read -/

/-- The bytes that readers may take, and the line that is being typed. -/
structure Content where
  unread : List UInt8
  current : List UInt8

namespace Content

/-- Everything held, in the order it was typed. -/
def bytes (q : Content) : List UInt8 := q.unread ++ q.current

/-- A character arrives; `full` says whether text is refused. -/
def arrive (full : Prop) [Decidable full] (ch : UInt8) (q : Content) : Content :=
  if ch = TY_KILLCH then { q with current := [] }
  else if isErase ch then { q with current := q.current.dropLast }
  else if ch = TY_NEWLINE then ⟨q.bytes ++ [ch], []⟩
  else if full then q
  else if ch = TY_EOFCH then if q.current = [] then { q with unread := q.unread ++ [ch] } else q
  else { q with current := q.current ++ [ch] }

end Content

/-! ## The reference editor -/

/-- The lines finished so far, the line being typed, and how many bytes of the lines were read. -/
structure Editor where
  lines : List (List UInt8)
  current : List UInt8
  read : Nat

namespace Editor

def empty : Editor := ⟨[], [], 0⟩

def unread (e : Editor) : Nat := e.lines.flatten.length - e.read

/-- A character is typed, return already mapped. -/
def type (ch : UInt8) (e : Editor) : Editor :=
  if ch = TY_KILLCH then { e with current := [] }
  else if isErase ch then { e with current := e.current.dropLast }
  else if ch = TY_NEWLINE then { e with lines := e.lines ++ [e.current ++ [ch]], current := [] }
  else if (e.unread : Int) + e.current.length ≥ TY_IBUFLEN - 1 then e
  else { e with current := e.current ++ [ch] }

/-- A byte of the lines is read. -/
def readByte (e : Editor) : Editor := { e with read := e.read + 1 }

end Editor

/-- A byte inside a line: it neither ends the line nor the file. -/
def isInner (ch : UInt8) : Prop := ch ≠ TY_NEWLINE ∧ ch ≠ TY_RETURN ∧ ch ≠ TY_EOFCH

/-- A finished line, or the end of one. -/
def isLine (line : List UInt8) : Prop := ∃ body, line = body ++ [TY_NEWLINE] ∧ ∀ ch ∈ body, isInner ch

/-- What is left of a line is a line. -/
theorem isLine.suffix {piece rest : List UInt8} (some : rest ≠ []) (line : isLine (piece ++ rest)) : isLine rest := by
  obtain ⟨body, same, inner⟩ := line
  rw [← List.dropLast_append_getLast some, ← List.append_assoc] at same
  obtain ⟨front, last⟩ := List.append_inj' same rfl
  refine ⟨rest.dropLast, ?_, fun ch member => inner ch ?_⟩
  · rw [← last]
    exact (List.dropLast_append_getLast some).symm
  · rw [← front]
    exact List.mem_append_right _ member

namespace Editor

/-- Every line is finished by its only newline. -/
structure Tidy (e : Editor) : Prop where
  lines : ∀ line ∈ e.lines, isLine line
  current : ∀ ch ∈ e.current, isInner ch

theorem Tidy.type {e : Editor} (tidy : e.Tidy) {ch : UInt8} (notReturn : ch ≠ TY_RETURN) (notEof : ch ≠ TY_EOFCH) :
    (e.type ch).Tidy := by
  simp only [Editor.type]
  split
  · exact ⟨tidy.lines, by simp⟩
  split
  · exact ⟨tidy.lines, fun ch member => tidy.current ch ((List.dropLast_subset _) member)⟩
  split
  case isTrue newline =>
    refine ⟨fun line member => ?_, by simp⟩
    cases List.mem_append.mp member with
    | inl old => exact tidy.lines line old
    | inr new =>
      rw [List.mem_singleton.mp new, newline]
      exact ⟨e.current, rfl, tidy.current⟩
  case isFalse notNewline =>
  split
  · exact tidy
  · refine ⟨tidy.lines, fun ch' member => ?_⟩
    cases List.mem_append.mp member with
    | inl old => exact tidy.current ch' old
    | inr new =>
      rw [List.mem_singleton.mp new]
      exact ⟨notNewline, notReturn, notEof⟩

end Editor

end XinuStm32
