import XinuStm32.Kernel.Shell
import XinuStm32.Properties.InitialStack

/-!
# Where `addargs` puts the arguments of a command

`addargs` counts the length of the stack in words although `prstklen` is in bytes, so the args vector
of a new process always ends up below its stack.
-/

namespace XinuStm32

open FreeBlocks

namespace Traced

/-! ## What was stored to stays recorded -/

variable {t : Traced}

theorem stored_memcpy (count dst src : Nat) : t.stored ⊆ (t.memcpy count dst src).stored := by
  induction count generalizing dst src t with
  | zero => exact List.Subset.refl _
  | succ count inductionHypothesis =>
    intro x member
    apply inductionHypothesis
    exact List.mem_cons_of_mem _ member

theorem stored_pointArgs (tok argstr count i aptr : Nat) :
    t.stored ⊆ (t.pointArgs tok argstr count i aptr).2.stored := by
  induction count generalizing i aptr t with
  | zero => exact List.Subset.refl _
  | succ count inductionHypothesis =>
    intro x member
    apply inductionHypothesis
    exact List.mem_append_right _ member

theorem stored_replaceDummy (dummy argloc count search : Nat) :
    t.stored ⊆ (t.replaceDummy dummy argloc count search).2.stored := by
  induction count generalizing search with
  | zero => exact List.Subset.refl _
  | succ count inductionHypothesis =>
    rw [replaceDummy]
    split
    · exact List.subset_append_right _ _
    · exact inductionHypothesis _

/-- The first argument is stored to the location of the vector. -/
theorem pointArgs_stores {tok argstr count i aptr : Nat} (some : 0 < count) :
    aptr ∈ (t.pointArgs tok argstr count i aptr).2.stored := by
  cases count with
  | zero => exact absurd some (Nat.lt_irrefl 0)
  | succ count =>
    have first : aptr ∈ (t.storeWord aptr (add32 argstr (Words.load t.ram (add32 tok (4 * i))))).stored :=
      List.mem_cons_self
    exact stored_pointArgs tok argstr count (i + 1) (add32 aptr 4) first

end Traced

variable {s : Kernel} {blocks : List Block}

theorem storeArgs_stores (entry : Procent) {ntok : Nat} (tok tlen tokbuf dummy : Nat) (t : Traced) (some : 0 < ntok) :
    argsLocation entry ∈ (storeArgs entry ntok tok tlen tokbuf dummy t).2.stored := by
  apply Traced.stored_replaceDummy
  apply Traced.stored_memcpy
  apply List.mem_append_right
  exact Traced.pointArgs_stores some

/-! ## The promise -/

/-- Every byte stored to lies in the stack of the process. -/
def StoresInside (entry : Procent) (stored : List Nat) : Prop :=
  ∀ x ∈ stored, entry.prstkbase + 4 ≤ x + entry.prstklen ∧ x < entry.prstkbase + 4

/-- There is a copy of the string at `src`, up to its NUL, at `dst`. -/
def CopiedTo (before after : Nat → UInt8) (src dst : Nat) : Prop :=
  ∃ length, (∀ k < length, before (src + k) ≠ 0 ∧ after (dst + k) = before (src + k)) ∧
    before (src + length) = 0 ∧ after (dst + length) = 0

/-- The saved `r1` points at the args vector, and the rest of the saved frame is as it was. -/
structure ArgsPassed (entry : Procent) (ntok tok tokbuf : Nat) (before after : Nat → UInt8) : Prop where
  strings : ∀ i < ntok, CopiedTo before after (add32 tokbuf (Words.load before (add32 tok (4 * i))))
    (Words.load after (Words.load after (entry.prstkptr + 36) + 4 * i))
  null : Words.load after (Words.load after (entry.prstkptr + 36) + 4 * ntok) = 0
  frame : ∀ j < 16, j ≠ 9 →
    Words.load after (entry.prstkptr + 4 * j) = Words.load before (entry.prstkptr + 4 * j)

/-- What `addargs` should do for a process with this entry. -/
def PassesArgs (pid ntok : Int) (tok : Nat) (tlen : Int) (tokbuf dummy : Nat) (s : Kernel) : Prop :=
  StoresInside (s.proctab pid) (addargs pid ntok tok tlen tokbuf dummy s).2.2 ∧
    ArgsPassed (s.proctab pid) ntok.toNat tok tokbuf s.mem.ram (addargs pid ntok tok tlen tokbuf dummy s).2.1.mem.ram

theorem addargs_stores {pid ntok : Int} (tok : Nat) {tlen : Int} (tokbuf dummy : Nat) (some : 0 < ntok)
    (length : 0 ≤ tlen) : argsLocation (s.proctab pid) ∈ (addargs pid ntok tok tlen tokbuf dummy s).2.2 := by
  have valid : ¬(ntok ≤ 0 ∨ tlen < 0) := by omega
  simp only [addargs]
  rw [if_neg valid]
  exact storeArgs_stores _ _ _ _ _ _ (by omega)

/-- The heap lies where `meminit` puts it. -/
structure InRam (m : Mem) : Prop where
  low : 0x20000000 ≤ m.minheap
  high : m.maxheap = MAXADDR - HANDLERSTACK

/-- Four times the length of the stack below its base is below the stack. -/
theorem argsLocation_outside {entry : Procent} (low : 0x20000000 ≤ entry.prstkbase + 4)
    (high : entry.prstkbase + 4 ≤ MAXADDR - HANDLERSTACK)
    (size : 400 ≤ entry.prstklen ∧ entry.prstklen ≤ 0x1f000 ∨ entry.prstklen = 2 ^ 32 - 4) :
    ¬(entry.prstkbase + 4 ≤ argsLocation entry + entry.prstklen ∧ argsLocation entry < entry.prstkbase + 4) := by
  simp only [MAXADDR, HANDLERSTACK, Nat.reduceSub] at high
  simp only [argsLocation]
  cases size with
  | inl size =>
    have start : sub32 entry.prstkbase (4 * entry.prstklen) = entry.prstkbase - 4 * entry.prstklen :=
      sub32_of_le (by omega) (by omega)
    have aloc : add32 (entry.prstkbase - 4 * entry.prstklen) (4 * 4) = entry.prstkbase - 4 * entry.prstklen + 16 :=
      add32_of_lt (by omega)
    rw [start, aloc, add32_of_lt (by omega)]
    omega
  | inr wrapped =>
    -- the length wraps to minus four words, and the location is above the stack
    have start : sub32 entry.prstkbase (4 * entry.prstklen) = entry.prstkbase + 16 := by
      rw [wrapped]
      simp only [sub32]
      omega
    have aloc : add32 (entry.prstkbase + 16) (4 * 4) = entry.prstkbase + 32 := add32_of_lt (by omega)
    rw [start, aloc, add32_of_lt (by omega)]
    omega

/-- The process of a successful `create` has a stack for which the location is wrong. -/
theorem create_outside (list : s.mem.FreeList blocks) (inRam : InRam s.mem) {procaddr ssize : UInt32}
    {priority : Int16} {name : List UInt8} {args : List UInt32}
    (success : (create procaddr ssize priority name args s).1 ≠ SYSERR) :
    let entry := (create procaddr ssize priority name args s).2.proctab (create procaddr ssize priority name args s).1
    ¬(entry.prstkbase + 4 ≤ argsLocation entry + entry.prstklen ∧ argsLocation entry < entry.prstkbase + 4) := by
  obtain ⟨address, memory, found, -, -, base, length⟩ := create_success procaddr ssize priority name args success
  obtain ⟨nonzero, -, inHeap⟩ := stack_in_heap list found
  have low := inRam.low
  have bounds := inHeap (by omega)
  rw [inRam.high] at bounds
  apply argsLocation_outside
  · rw [base]
    omega
  · rw [base]
    exact bounds.2
  · rw [length]
    have size := (stackSize_ge ssize).resolve_left nonzero
    by_cases kept : roundmb (stackSize ssize) = 0
    · apply Or.inr
      -- only the largest multiple of four is rounded up to nothing
      have wraps : 2 ^ 32 ≤ Mem.rounded (stackSize ssize) := by
        by_contra fits
        rw [Mem.roundmb_of_lt (Nat.not_le.mp fits)] at kept
        have large := Mem.le_rounded (stackSize ssize)
        omega
      have multiple : 4 ∣ stackSize ssize := Nat.dvd_mul_left 4 _
      simp only [Mem.rounded] at wraps
      omega
    · have large := roundmb_ge size.2 kept
      simp only [MAXADDR, HANDLERSTACK, Nat.reduceSub] at bounds
      omega

/-- For no new process and no token table does `addargs` keep to the stack of the process. -/
theorem addargs_never (list : s.mem.FreeList blocks) (inRam : InRam s.mem) {procaddr ssize : UInt32}
    {priority : Int16} {name : List UInt8} {ntok tlen : Int} {tok tokbuf : Nat} {dummy : UInt32}
    (success : (create procaddr ssize priority name [UInt32.ofNat ntok.toNat, dummy] s).1 ≠ SYSERR) (some : 0 < ntok)
    (length : 0 ≤ tlen) :
    ¬PassesArgs (create procaddr ssize priority name [UInt32.ofNat ntok.toNat, dummy] s).1 ntok tok tlen tokbuf
      dummy.toNat (create procaddr ssize priority name [UInt32.ofNat ntok.toNat, dummy] s).2 := by
  rintro ⟨inside, -⟩
  exact create_outside list inRam success (inside _ (addargs_stores tok tokbuf dummy.toNat some length))

/-! ## Right after start-up -/

set_option maxRecDepth 100000 in
theorem started_inRam : InRam started.mem := ⟨by decide +kernel, by decide +kernel⟩

set_option maxRecDepth 100000 in
/-- One token, for a process with a stack of 1024 bytes. -/
theorem oneToken_lost : ¬PassesArgs (startedWith [1, 0x2001dff0]).1 1 0x2001df00 5 0x2001df80 0x2001dff0
    (startedWith [1, 0x2001dff0]).2 :=
  @addargs_never _ _ started_list started_inRam _ _ _ _ 1 5 0x2001df00 0x2001df80 0x2001dff0 (by decide +kernel)
    (by decide) (by decide)

set_option maxRecDepth 100000 in
/-- The stack of that process starts at `0x2001e800`, and the vector of its two arguments is stored
3060 bytes below. -/
theorem twoTokens_below : ((startedWith [2, 0x2001dff0]).2.proctab (startedWith [2, 0x2001dff0]).1).prstkbase =
    0x2001ebfc ∧
    argsLocation ((startedWith [2, 0x2001dff0]).2.proctab (startedWith [2, 0x2001dff0]).1) = 0x2001dc0c ∧
    ¬PassesArgs (startedWith [2, 0x2001dff0]).1 2 0x2001df00 9 0x2001df80 0x2001dff0
      (startedWith [2, 0x2001dff0]).2 := by
  have location : argsLocation ((startedWith [2, 0x2001dff0]).2.proctab (startedWith [2, 0x2001dff0]).1) =
    0x2001dc0c := by
    decide +kernel
  refine ⟨by decide +kernel, location, fun passes => ?_⟩
  have here := passes.1 _ (addargs_stores _ _ _ (by decide) (by decide))
  rw [location] at here
  revert here
  decide +kernel

end XinuStm32
