import XinuStm32.Kernel.Memory

/-!
# `realloc` of `malloc.c` and `memcpy` of `string.c`

A copy is kept with the addresses that it reads, in their order.
-/

namespace XinuStm32

/-- The loop of `memcpy` over the bytes that are left, with the addresses it reads. -/
def memcpyLoop : Nat → Nat → Nat → (Nat → UInt8) → (Nat → UInt8) × List Nat
  | 0, _, _, ram => (ram, [])
  | left + 1, dst, src, ram =>
    let (ram, read) := memcpyLoop left (add32 dst 1) (add32 src 1) (Function.update ram dst (ram src))
    (ram, src :: read)

/-- `memcpy`: `n` is an `int`, and the loop does not begin for a negative one. -/
def memcpy (s ct : Nat) (n : Int) (ram : Nat → UInt8) : (Nat → UInt8) × List Nat := memcpyLoop n.toNat s ct ram

/-- The part of `realloc` behind `malloc`, with which the call without an old block ends; `n` is the size as `memcpy`
takes it. -/
def moveBlock (ptr newData : Nat) (n : Int) (s : Kernel) : Nat × List Nat × Kernel :=
  if ptr = 0 ∨ newData = 0 then (newData, [], s)
  else
    let copied := memcpy newData ptr n s.mem.ram
    (newData, copied.2, free ptr (s.setMem { s.mem with ram := copied.1 }))

/-- `realloc`, with the addresses that it reads from; 0 is `NULL`. -/
def realloc (ptr size : Nat) (s : Kernel) : Nat × List Nat × Kernel :=
  if size = 0 then (0, [], s)
  else moveBlock ptr (s.mem.malloc size).1 (int32 size) (s.setMem (s.mem.malloc size).2)

end XinuStm32
