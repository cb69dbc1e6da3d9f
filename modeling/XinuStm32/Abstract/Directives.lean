import XinuStm32.Kernel.Format

/-!
# Format strings

A format is built from literal text and directives; a directive is a `%`, its modifiers and a conversion character.
Flags may stand in any order and number. The formatters take one `-` and then one `0`, and read on with the width.
-/

namespace XinuStm32.Format

/-- A width or a precision. -/
inductive Extent where
  | literal (digits : List (Fin 10))
  | star
  deriving DecidableEq

def digitChar (digit : Fin 10) : UInt8 := UInt8.ofNat (digit.val + 48)

namespace Extent

def render : Extent → List UInt8
  | literal digits => digits.map digitChar
  | star => [ch '*']

/-- The number meant, in 32 bits. -/
def value (ap : VaList) : Extent → Int
  | literal digits => digits.foldl (fun total digit => int32 (total * 10 + digit.val)) 0
  | star => long (ap 0)

/-- The arguments it leaves. -/
def behind (ap : VaList) : Extent → VaList
  | literal _ => ap
  | star => ap.behind

end Extent

inductive Flag where
  | minus | zero
  deriving DecidableEq

def Flag.char : Flag → UInt8
  | minus => ch '-'
  | zero => ch '0'

/-- What stands between the `%` and the conversion character. -/
structure Modifiers where
  flags : List Flag
  width : Extent
  precision : Option Extent
  /-- A zero in front of the width is a flag. -/
  significant : ∀ digits, width ≠ .literal (0 :: digits)

namespace Modifiers

/-- The precision with its point. -/
def renderPrecision (modifiers : Modifiers) : List UInt8 :=
  modifiers.precision.elim [] fun extent => ch '.' :: extent.render

def render (modifiers : Modifiers) : List UInt8 :=
  modifiers.flags.map Flag.char ++ modifiers.width.render ++ modifiers.renderPrecision

def left (modifiers : Modifiers) : Bool := decide (.minus ∈ modifiers.flags)

def zero (modifiers : Modifiers) : Bool := decide (.zero ∈ modifiers.flags)

def fill (modifiers : Modifiers) : UInt8 := if modifiers.zero then ch '0' else ch ' '

/-- The formatters read the modifiers as they are meant: only the first flag is a `-`, and in front of a `*` there is
only one `0`. More zeros in front of a number belong to the number. -/
def Orderly (modifiers : Modifiers) : Prop :=
  .minus ∉ modifiers.flags.tail ∧ (modifiers.width = .star → modifiers.flags.count .zero ≤ 1)

instance (modifiers : Modifiers) : Decidable modifiers.Orderly := inferInstanceAs (Decidable (_ ∧ _))

/-- What the formatters read. -/
def spec (ap : VaList) (modifiers : Modifiers) : Spec where
  leftjust := modifiers.left
  fill := modifiers.fill
  fmin := modifiers.width.value ap
  fmax := modifiers.precision.elim 0 fun extent => extent.value (modifiers.width.behind ap)

/-- The arguments behind those that the width and the precision take. -/
def behind (ap : VaList) (modifiers : Modifiers) : VaList :=
  let ap := modifiers.width.behind ap
  modifiers.precision.elim ap fun extent => extent.behind ap

end Modifiers

/-- The conversions of both formatters, without `%b` and `%f`. -/
inductive Conversion where
  | character | string | decimal | unsigned | octal | lower | upper
  deriving DecidableEq

def Conversion.letter : Conversion → UInt8
  | character => ch 'c'
  | string => ch 's'
  | decimal => ch 'd'
  | unsigned => ch 'u'
  | octal => ch 'o'
  | lower => ch 'x'
  | upper => ch 'X'

/-- A piece of a format. -/
inductive Piece where
  | text (c : UInt8) (plain : c ≠ ch '%' ∧ c ≠ 0)
  | percent
  | directive (modifiers : Modifiers) (conversion : Conversion)

def Piece.render : Piece → List UInt8
  | text c _ => [c]
  | percent => [ch '%', ch '%']
  | directive modifiers conversion => ch '%' :: modifiers.render ++ [conversion.letter]

/-- The format string. -/
def render (pieces : List Piece) : List UInt8 := pieces.flatMap Piece.render

/-- Each conversion with the argument it converts. A directive that is misread takes no argument. -/
def received : List Piece → VaList → List (Conversion × UInt32)
  | [], _ => []
  | .directive modifiers conversion :: pieces, ap =>
    if modifiers.Orderly then (conversion, modifiers.behind ap 0) :: received pieces (modifiers.behind ap).behind
    else received pieces ap
  | .text _ _ :: pieces, ap => received pieces ap
  | .percent :: pieces, ap => received pieces ap

/-- Every directive that is misread comes behind a conversion that has stored its characters in `string`. -/
def BufferFilled : List Piece → Prop
  | [] => True
  | .directive modifiers conversion :: pieces => modifiers.Orderly ∧ (conversion = .string → BufferFilled pieces)
  | .text _ _ :: pieces => BufferFilled pieces
  | .percent :: pieces => BufferFilled pieces

end XinuStm32.Format
