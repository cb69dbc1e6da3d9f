import XinuStm32.Kernel.Process

/-!
# Arguments of a command, `addargs.c`
-/

namespace XinuStm32

/-- Memory with a record of the bytes stored to, newest first. -/
structure Traced where
  ram : Nat → UInt8
  stored : List Nat

namespace Traced

def storeWord (a value : Nat) (t : Traced) : Traced :=
  ⟨Words.store a value t.ram, [a, a + 1, a + 2, a + 3] ++ t.stored⟩

def storeByte (a : Nat) (value : UInt8) (t : Traced) : Traced :=
  ⟨fun x => if x = a then value else t.ram x, a :: t.stored⟩

/-- `memcpy` over `count` bytes. -/
def memcpy : Nat → Nat → Nat → Traced → Traced
  | 0, _, _, t => t
  | count + 1, dst, src, t => memcpy count (add32 dst 1) (add32 src 1) (t.storeByte dst (t.ram src))

/-- Set each location in the args vector to the address of its string; `tok` is the array of the
offsets of the tokens. Also the location behind the vector. -/
def pointArgs (tok argstr : Nat) : Nat → Nat → Nat → Traced → Nat × Traced
  | 0, _, aptr, t => (aptr, t)
  | count + 1, i, aptr, t =>
    pointArgs tok argstr count (i + 1) (add32 aptr 4)
      (t.storeWord aptr (add32 argstr (Words.load t.ram (add32 tok (4 * i)))))

/-- Find the dummy argument on the stack and put the address of the args vector in its place. -/
def replaceDummy (dummy argloc : Nat) : Nat → Nat → Traced → Int × Traced
  | 0, _, t => (SYSERR, t)
  | count + 1, search, t =>
    if Words.load t.ram search = dummy then (OK, t.storeWord search argloc)
    else replaceDummy dummy argloc count (add32 search 4) t

end Traced

/-- Where `addargs` puts the args vector. Both the length and the size of a word are added to a
`uint32 *`, so they count in words. -/
def argsLocation (entry : Procent) : Nat :=
  let aloc := add32 (sub32 entry.prstkbase (4 * entry.prstklen)) (4 * 4)
  add32 aloc 3 / 4 * 4

/-- `addargs`, on the memory; `ntok` and `tlen` have passed the check. -/
def storeArgs (entry : Procent) (ntok tok tlen tokbuf dummy : Nat) (t : Traced) : Int × Traced :=
  let argloc := argsLocation entry
  let argstr := add32 argloc (4 * (ntok + 1))
  let (aptr, t) := t.pointArgs tok argstr ntok 0 argloc
  let t := t.storeWord aptr 0
  let t := t.memcpy tlen (add32 aptr 4) tokbuf
  let words := (entry.prstkbase - entry.prstkptr + 3) / 4
  t.replaceDummy dummy argloc words entry.prstkptr

def addargs (pid ntok : Int) (tok : Nat) (tlen : Int) (tokbuf dummy : Nat) (s : Kernel) : Int × Kernel × List Nat :=
  let (mask, s) := disable s
  if ntok ≤ 0 ∨ tlen < 0 then (SYSERR, restore mask s, [])
  else
    let (result, t) := storeArgs (s.proctab pid) ntok.toNat tok tlen.toNat tokbuf dummy ⟨s.mem.ram, []⟩
    (result, restore mask { s with mem := { s.mem with ram := t.ram } }, t.stored)

end XinuStm32
