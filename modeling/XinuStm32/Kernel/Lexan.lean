import XinuStm32.Kernel.Tables

/-!
# The shell's scanner, `lexan.c`

A line is the list of its characters up to the NUL; it may end before, at a newline. The index into `tokbuf` only
moves forward, so the buffer is the list of what was stored in it, and likewise the arrays of offsets and types.
-/

namespace XinuStm32

@[simp] abbrev NULLCH : UInt8 := 0
@[simp] abbrev SH_NEWLINE : UInt8 := 10
@[simp] abbrev SH_AMPER : UInt8 := 38
@[simp] abbrev SH_BLANK : UInt8 := 32
@[simp] abbrev SH_TAB : UInt8 := 9
@[simp] abbrev SH_SQUOTE : UInt8 := 39
@[simp] abbrev SH_DQUOTE : UInt8 := 34
@[simp] abbrev SH_LESS : UInt8 := 60
@[simp] abbrev SH_GREATER : UInt8 := 62

@[simp] abbrev SHELL_MAXTOK : Nat := 32

/-- Token types, `SH_TOK_AMPER` to `SH_TOK_OTHER`. -/
inductive TokType where
  | amper | less | greater | other
  deriving DecidableEq, Repr

/-- What `lexan` has stored. -/
structure Lexed where
  ntok : Nat
  tok : List Nat
  toktyp : List TokType
  tokbuf : List UInt8

/-- The value returned and `*tlen`, which is not set with `SYSERR`. -/
structure LexanResult where
  ret : Int
  tlen : Option Nat
  out : Lexed

namespace Lexed

def tbindex (out : Lexed) : Nat := out.tokbuf.length

/-- Store where a token starts, its type and its characters. -/
def start (type : TokType) (text : List UInt8) (out : Lexed) : Lexed :=
  { out with tok := out.tok ++ [out.tbindex], toktyp := out.toktyp ++ [type], tokbuf := out.tokbuf ++ text }

/-- Terminate the token and count it. -/
def finish (out : Lexed) : Lexed := { out with ntok := out.ntok + 1, tokbuf := out.tokbuf ++ [NULLCH] }

end Lexed

/-- `*p`. -/
def char (p : List UInt8) : UInt8 := p.headD NULLCH

/-- "Skip whitespace before token". -/
def skipWhitespace (p : List UInt8) : List UInt8 := p.dropWhile fun c => c = SH_BLANK ∨ c = SH_TAB

/-- The loop behind an opening quote: what it stores, the character it stops at and the line behind that one. -/
def copyQuoted (quote : UInt8) : List UInt8 → List UInt8 × UInt8 × List UInt8
  | [] => ([], NULLCH, [])
  | ch :: p =>
    if ch ≠ quote ∧ ch ≠ SH_NEWLINE ∧ ch ≠ NULLCH then
      let (text, stop, rest) := copyQuoted quote p
      (ch :: text, stop, rest)
    else ([], ch, p)

/-- A character that goes on with a word. -/
def isWordChar (ch : UInt8) : Prop :=
  ch ≠ SH_NEWLINE ∧ ch ≠ NULLCH ∧ ch ≠ SH_LESS ∧ ch ≠ SH_GREATER ∧ ch ≠ SH_BLANK ∧ ch ≠ SH_TAB ∧ ch ≠ SH_AMPER ∧
    ch ≠ SH_SQUOTE ∧ ch ≠ SH_DQUOTE

instance (ch : UInt8) : Decidable (isWordChar ch) := inferInstanceAs (Decidable (_ ∧ _))

/-- The loop over the rest of a word: what it stores, and the line from where it stops. -/
def copyWord : List UInt8 → List UInt8 × List UInt8
  | [] => ([], [])
  | ch :: p =>
    if isWordChar ch then
      let (text, rest) := copyWord p
      (ch :: text, rest)
    else ([], ch :: p)

/-- "Report error if other token is appended". -/
def isAppended (ch : UInt8) : Prop := ch = SH_SQUOTE ∨ ch = SH_DQUOTE ∨ ch = SH_LESS ∨ ch = SH_GREATER

instance (ch : UInt8) : Decidable (isAppended ch) := inferInstanceAs (Decidable (_ ∨ _))

/-- The loop of `lexan`. A round takes a character of the line at least, so there are no more rounds than characters. -/
def lexanLoop : Nat → List UInt8 → Lexed → LexanResult
  | 0, _, out => ⟨SYSERR, none, out⟩
  | fuel + 1, p, out =>
    if char p ≠ NULLCH ∧ char p ≠ SH_NEWLINE then
      if out.ntok ≥ SHELL_MAXTOK then ⟨SYSERR, none, out⟩
      else
        let p := skipWhitespace p
        let ch := char p
        if ch = SH_NEWLINE ∨ ch = NULLCH then ⟨out.ntok, some out.tbindex, out⟩
        else if ch = SH_AMPER then lexanLoop fuel p.tail (out.start .amper [ch]).finish
        else if ch = SH_LESS then lexanLoop fuel p.tail (out.start .less [ch]).finish
        else if ch = SH_SQUOTE ∨ ch = SH_DQUOTE then
          let (text, stop, p) := copyQuoted ch p.tail
          let out := out.start .other text
          if stop ≠ ch then ⟨SYSERR, none, out⟩ else lexanLoop fuel p out.finish
        else
          let (text, p) := copyWord p.tail
          let out := out.start .other (ch :: text)
          if isAppended (char p) then ⟨SYSERR, none, out⟩ else lexanLoop fuel p out.finish
    else ⟨out.ntok, some out.tbindex, out⟩

/-- `lexan`. -/
def lexan (line : List UInt8) : LexanResult := lexanLoop (line.length + 1) line ⟨0, [], [], []⟩

end XinuStm32
