import XinuStm32.Kernel.Tables

/-!
# qsort, qs1, qsexc, qstexc

The library sort (`lib/qsort.c`) over bytes. Memory is a byte for every mapped address, so that a call that reads or
writes an unmapped one has no result. `qscmp` reads both elements it is given and nothing else; the two file variables
`qscmp` and `qses` are arguments here.
-/

namespace XinuStm32.Qsort

/-- A byte for every address that is mapped. -/
abbrev Bytes := Nat → Option UInt8

def Bytes.set (m : Bytes) (p : Nat) (byte : UInt8) : Bytes := Function.update m p (some byte)

def Bytes.store (m : Bytes) (p : Nat) (byte : UInt8) : Option Bytes := (m p).map fun _ => m.set p byte

/-- The `n` bytes from `p` on. -/
def Bytes.read (m : Bytes) (p : Nat) : Nat → Option (List UInt8)
  | 0 => some []
  | n + 1 => do return (← m p) :: (← m.read (p + 1) n)

/-- `(*qscmp)(p, q)`. -/
def qscmp (fc : List UInt8 → List UInt8 → Int) (es : Nat) (m : Bytes) (p q : Nat) : Option Int := do
  let left ← m.read p es
  let right ← m.read q es
  return fc left right

/-- The `do` loop of `qsexc`, which for a positive size runs that many times. -/
def qsexc (ri rj : Nat) : Nat → Bytes → Option Bytes
  | 0, m => some m
  | n + 1, m => do
    let c ← m ri
    let m ← m.store ri (← m rj)
    let m ← m.store rj c
    qsexc (ri + 1) (rj + 1) n m

/-- The `do` loop of `qstexc`. -/
def qstexc (ri rj rk : Nat) : Nat → Bytes → Option Bytes
  | 0, m => some m
  | n + 1, m => do
    let c ← m ri
    let m ← m.store ri (← m rk)
    let m ← m.store rk (← m rj)
    let m ← m.store rj c
    qstexc (ri + 1) (rj + 1) (rk + 1) n m

structure Pointers where
  i : Nat
  lp : Nat
  hp : Nat
  j : Nat
  deriving DecidableEq, Repr

/-- Where `qs1` is in its partition: at `for (;;)`, at `loop:`, or behind the loop. -/
inductive Place
  | forever (m : Bytes) (at' : Pointers)
  | loop (m : Bytes) (at' : Pointers)
  | apart (m : Bytes) (at' : Pointers)

/-- From one of the two labels to the next jump. -/
def step (fc : List UInt8 → List UInt8 → Int) (es : Nat) : Place → Option Place
  | .forever m s =>
    if s.i < s.lp then do
      let c ← qscmp fc es m s.i s.lp
      if c = 0 then
        let m ← qsexc s.i (s.lp - es) es m
        return .forever m { s with lp := s.lp - es }
      else if c < 0 then
        return .forever m { s with i := s.i + es }
      else
        return .loop m s
    else
      some (.loop m s)
  | .loop m s =>
    if s.j > s.hp then do
      let c ← qscmp fc es m s.hp s.j
      if c = 0 then
        let m ← qsexc (s.hp + es) s.j es m
        return .loop m { s with hp := s.hp + es }
      else if c > 0 then
        if s.i = s.lp then
          let m ← qstexc s.i (s.hp + es) s.j es m
          return .loop m { s with i := s.lp + es, lp := s.lp + es, hp := s.hp + es }
        else
          let m ← qsexc s.i s.j es m
          return .forever m { s with i := s.i + es, j := s.j - es }
      else
        return .loop m { s with j := s.j - es }
    else if s.i = s.lp then
      some (.apart m s)
    else do
      let m ← qstexc s.j (s.lp - es) s.i es m
      return .forever m { s with lp := s.lp - es, hp := s.hp - es, j := s.hp - es }
  | .apart m s => some (.apart m s)

/-- The loop, until both sides are apart or the fuel is used up. -/
def partition (fc : List UInt8 → List UInt8 → Int) (es : Nat) : Nat → Place → Option (Bytes × Pointers)
  | _, .apart m s => some (m, s)
  | 0, _ => none
  | fuel + 1, place => do partition fc es fuel (← step fc es place)

/-- `goto start` is the second call, with one end of the range moved. `2 * es` is only reached with two elements or
more, where it does not overflow. -/
def qs1 (fc : List UInt8 → List UInt8 → Int) (es : Nat) : Nat → Bytes → (a l : Nat) → Option Bytes
  | 0, _, _, _ => none
  | fuel + 1, m, a, l =>
    let n := sub32 l a
    if n ≤ es then
      some m
    else do
      let n := es * (n / (2 * es))
      let (m, s) ← partition fc es fuel (.forever m { i := a, lp := a + n, hp := a + n, j := l - es })
      if s.lp - a ≥ l - s.hp then
        let m ← qs1 fc es fuel m (s.hp + es) l
        qs1 fc es fuel m a s.lp
      else
        let m ← qs1 fc es fuel m a s.lp
        qs1 fc es fuel m (s.hp + es) l

/-- `n * es` is an unsigned product. -/
def qsort (fuel : Nat) (m : Bytes) (a n es : Nat) (fc : List UInt8 → List UInt8 → Int) : Option Bytes :=
  qs1 fc es fuel m a (a + n * es % 2 ^ 32)

end XinuStm32.Qsort
