import XinuStm32.Properties.Consistency
import XinuStm32.Refinement.Heap

/-!
# What `create` leaves behind

`create` takes the stack before it looks for an entry and before it tests the priority, and it does not
give the stack back when one of these fails.
-/

namespace XinuStm32

open FreeBlocks

/-! ## `getstk` on any list that ends -/

namespace Mem

variable {m m' : Mem} {front back nodes : List Block} {b : Block}

/-- The walk over the list comes to an end, as it must for an allocation to return. -/
structure Ends (m : Mem) : Prop where
  links : m.Links m.mnext m.freeList 0
  enough : m.freeList.length < walkFuel
  pointers : ∀ b ∈ m.freeList, 0 < b.addr
  mlength : m.mlength < 2 ^ 32

/-- The last block on the list that is large enough for `n` bytes. -/
def lastFit (m : Mem) (n : Nat) : Option Block := (m.freeList.filter fun b => n ≤ b.size).getLast?

theorem length_lt (a : Nat) : m.length (some a) < 2 ^ 32 := Words.load_lt m.ram (a + 4)

theorem setLength_same (a : Nat) : m.setLength (some a) (m.length (some a)) = m := by
  simp [setLength, poke, length, Words.store_load]

/-- What `getstk` does once it has found the last block that fits. -/
def takeFit (size : Nat) (prev : Option Nat) (fits : Nat) (m : Mem) : Mem :=
  let m := if size = m.length (some fits) then m.setNext prev (m.next (some fits)) else (m.takeHigh size fits).2
  { m with mlength := sub32 m.mlength size }

theorem mlength_takeFit (size : Nat) (prev : Option Nat) (fits : Nat) :
    (m.takeFit size prev fits).mlength = sub32 m.mlength size := by
  simp only [takeFit]
  split <;> simp [takeHigh]

/-- `getstk` takes from the last block that fits, and returns its last word. -/
theorem Ends.getstk (ends : m.Ends) {n : Nat} (nonzero : n ≠ 0) :
    (m.lastFit (roundmb n) = none ∧ m.getstk n = none) ∨
      ∃ skip fits rest, m.freeList = skip ++ fits :: rest ∧ (∀ c ∈ rest, c.size < roundmb n) ∧
        m.length (some fits.addr) = fits.size ∧ m.lastFit (roundmb n) = some fits ∧
        m.getstk n = some (sub32 (add32 fits.addr fits.size) 4, m.takeFit (roundmb n) (lastNode skip) fits.addr) := by
  have scan := @getstkScan_spec m [] m.freeList (roundmb n) walkFuel m.mnext none ends.enough ends.links ends.pointers
  simp only [Mem.getstk, if_neg nonzero, lastFit]
  obtain ⟨small, none⟩ | ⟨skip, fits, rest, split, behind, large, found⟩ := scan
  · rw [lastNode_nil] at none
    rw [none]
    refine Or.inl ⟨?_, rfl⟩
    rw [List.getLast?_eq_none_iff, List.filter_eq_nil_iff]
    intro b member
    simpa using small b member
  · rw [lastNode_nil, List.nil_append] at found
    have links := ends.links
    rw [split] at links
    obtain ⟨r, -, -, size, -⟩ := links_append.mp links
    have bound := length_lt (m := m) fits.addr
    rw [size] at bound
    refine Or.inr ⟨skip, fits, rest, split, behind, size, ?_, ?_⟩
    · have none : rest.filter (fun b => roundmb n ≤ b.size) = [] := by
        rw [List.filter_eq_nil_iff]
        intro c member
        simpa using behind c member
      rw [split, List.filter_append, List.filter_cons_of_pos (by simpa using large), none]
      simp
    · simp only [found, takeFit, size]
      by_cases whole : roundmb n = fits.size
      · simp only [whole, if_true]
      · have left : (m.setLength (some fits.addr) (fits.size - roundmb n)).length (some fits.addr) =
            fits.size - roundmb n := length_setLength (by omega)
        have less : sub32 fits.size (roundmb n) = fits.size - roundmb n := sub32_of_le large bound
        have whole' : add32 (add32 fits.addr (fits.size - roundmb n)) (roundmb n) = add32 fits.addr fits.size := by
          rw [add32, add32, add32, Nat.mod_add_mod, Nat.add_assoc, Nat.sub_add_cancel large]
        simp only [if_neg whole, takeHigh, size, less, left, whole']

/-- Taking no bytes from a block that is not empty changes nothing. -/
theorem takeFit_nothing (ends : m.Ends) {prev : Option Nat} {fits : Nat} (full : m.length (some fits) ≠ 0) :
    m.takeFit 0 prev fits = m := by
  have same : sub32 (m.length (some fits)) 0 = m.length (some fits) :=
    sub32_of_le (Nat.zero_le _) (length_lt fits)
  have same' : sub32 m.mlength 0 = m.mlength := sub32_of_le (Nat.zero_le _) ends.mlength
  simp only [takeFit, if_neg full.symm, takeHigh, same, setLength_same, same']

/-- Taking anything else changes the list or its length. -/
theorem takeFit_changes (ends : m.Ends) {size : Nat} {skip rest : List Block} {fits : Block}
    (split : m.freeList = skip ++ fits :: rest) (behind : ∀ c ∈ rest, c.size < size) (small : size < 2 ^ 32)
    (taken : size ≠ 0 ∨ fits.size = 0) :
    ¬((m.takeFit size (lastNode skip) fits.addr).freeList = m.freeList ∧
      (m.takeFit size (lastNode skip) fits.addr).mlength = m.mlength) := by
  rintro ⟨list, length⟩
  by_cases zero : size = 0
  · -- an empty block at the end of the list is unlinked
    subst zero
    have empty : fits.size = 0 := taken.resolve_left (by simp)
    have last : rest = [] := List.eq_nil_iff_forall_not_mem.mpr fun c member => Nat.not_lt_zero _ (behind c member)
    have links := ends.links
    rw [split, last] at links
    obtain ⟨r, -, -, length', next⟩ := links_append.mp links
    have next : m.next (some fits.addr) = 0 := next
    have unlinked : m.takeFit 0 (lastNode skip) fits.addr =
        { m.setNext (lastNode skip) 0 with mlength := sub32 (m.setNext (lastNode skip) 0).mlength 0 } := by
      simp [takeFit, length', empty, next]
    rw [unlinked, split, last] at list
    obtain rfl | ⟨init, a, rfl⟩ := List.eq_nil_or_concat' skip
    · cases list
    · rw [List.append_assoc, List.singleton_append, lastNode_concat] at list
      obtain ⟨stop, pointer⟩ := freeListScan_next list
      have zero : (m.setNext (some a.addr) 0).next (some a.addr) = 0 := next_setNext (Nat.two_pow_pos 32)
      refine pointer (stop.symm.trans (Eq.trans ?_ zero))
      exact next_congr fun _ _ _ => rfl
  · rw [mlength_takeFit] at length
    have bound := ends.mlength
    simp only [sub32] at length
    omega

end Mem

variable {s : Kernel}

/-! ## `newpid` looks at every entry -/

theorem newpidLoop_rest (fuel : Nat) : ∃ position, (newpidLoop fuel s).2 = { s with nextpid := position } := by
  induction fuel generalizing s with
  | zero => exact ⟨s.nextpid, rfl⟩
  | succ fuel inductionHypothesis =>
    simp only [newpidLoop]
    split
    · exact ⟨_, rfl⟩
    · exact inductionHypothesis

theorem newpidLoop_found (fuel : Nat) :
    ((newpidLoop fuel s).1 = SYSERR ∧
        ∀ i : Nat, i < fuel → (s.proctab ((s.nextpid + i) % NPROC)).prstate ≠ .free) ∨
      (0 ≤ (newpidLoop fuel s).1 ∧ (newpidLoop fuel s).1 < NPROC ∧
        (s.proctab (newpidLoop fuel s).1).prstate = .free) := by
  induction fuel generalizing s with
  | zero => exact Or.inl ⟨rfl, fun i before => absurd before (Nat.not_lt_zero i)⟩
  | succ fuel inductionHypothesis =>
    simp only [newpidLoop]
    split
    · next free => exact Or.inr ⟨Int.emod_nonneg _ (by decide), Int.emod_lt_of_pos _ (by decide), free⟩
    · next taken =>
      obtain ⟨failed, rest⟩ | found := @inductionHypothesis { s with nextpid := s.nextpid % NPROC + 1 }
      · refine Or.inl ⟨failed, fun i before => ?_⟩
        cases i with
        | zero => simpa using taken
        | succ i =>
          have next := rest i (by omega)
          have same : (s.nextpid % NPROC + 1 + i) % NPROC = (s.nextpid + (i + 1 : Nat)) % NPROC := by
            rw [Int.add_assoc, Int.emod_add_emod]
            push_cast
            rw [Int.add_comm 1]
          rwa [same] at next
      · exact Or.inr found

/-- Some entry is free. -/
def HasFree (s : Kernel) : Prop := ∃ pid, 0 ≤ pid ∧ pid < NPROC ∧ (s.proctab pid).prstate = .free

theorem newpid_cases : (newpid s).1 = SYSERR ∧ ¬ HasFree s ∨ 0 ≤ (newpid s).1 ∧ HasFree s := by
  obtain ⟨failed, rest⟩ | ⟨low, high, free⟩ := newpidLoop_found (s := s) NPROC.toNat
  · refine Or.inl ⟨failed, ?_⟩
    rintro ⟨pid, low, high, free⟩
    -- the loop meets every entry, whatever the position it starts at
    have met := rest ((pid - s.nextpid) % NPROC).toNat
      ((Int.toNat_lt_toNat (by decide)).mpr (Int.emod_lt_of_pos _ (by decide)))
    rw [Int.toNat_of_nonneg (Int.emod_nonneg _ (by decide)), Int.add_emod_emod] at met
    rw [show s.nextpid + (pid - s.nextpid) = pid by omega, Int.emod_eq_of_lt low high] at met
    exact met free
  · exact Or.inr ⟨low, _, low, high, free⟩

/-! ## The outcomes of `create` -/

/-- The stack size `create` asks for. -/
def stackSize (ssize : UInt32) : Nat := roundew (if ssize.toNat < MINSTK then MINSTK else ssize.toNat)

section Outcomes

variable (procaddr ssize : UInt32) (priority : Int16) (name : List UInt8) (args : List UInt32)

/-- Everything but the stack and the search position of `newpid` is as before. -/
structure Untouched (s s' : Kernel) : Prop where
  proctab : s'.proctab = s.proctab
  queuetab : s'.queuetab = s.queuetab
  prcount : s'.prcount = s.prcount

theorem create_refused (none : s.mem.getstk (stackSize ssize) = none) :
    (create procaddr ssize priority name args s).1 = SYSERR ∧
      (create procaddr ssize priority name args s).2.mem = s.mem ∧
      Untouched s (create procaddr ssize priority name args s).2 := by
  rw [stackSize] at none
  have none' : (disable (disable s).2).2.mem.getstk (roundew (if ssize.toNat < MINSTK then MINSTK else ssize.toNat)) =
      .none := none
  simp only [create, getstk, none']
  exact ⟨rfl, rfl, rfl, rfl, rfl⟩

/-- Once there is a stack, `create` fails for three reasons, and keeps the stack. -/
theorem create_granted {address : Nat} {memory : Mem}
    (found : s.mem.getstk (stackSize ssize) = some (address, memory)) :
    ((create procaddr ssize priority name args s).1 = SYSERR ↔
        address = SYSERR32 ∨ ¬ HasFree s ∨ priority.toInt < 1) ∧
      ((create procaddr ssize priority name args s).1 = SYSERR →
        (create procaddr ssize priority name args s).2.mem = memory ∧
        Untouched s (create procaddr ssize priority name args s).2) := by
  have found' : (disable (disable s).2).2.mem.getstk (roundew (if ssize.toNat < MINSTK then MINSTK else ssize.toNat)) =
      some (address, memory) := found
  simp only [create, getstk, found']
  by_cases invalid : address = SYSERR32
  · rw [if_pos invalid]
    exact ⟨⟨fun _ => Or.inl invalid, fun _ => rfl⟩, fun _ => ⟨rfl, rfl, rfl, rfl⟩⟩
  · rw [if_neg invalid]
    generalize got : restore (disable (disable s).2).1 ((disable (disable s).2).2.setMem memory) = s'
    have same : s'.mem = memory ∧ Untouched s s' := by
      rw [← got]
      exact ⟨rfl, rfl, rfl, rfl⟩
    have free : HasFree s' ↔ HasFree s := by
      simp only [HasFree, same.2.proctab]
    obtain ⟨position, rest⟩ := newpidLoop_rest (s := s') NPROC.toNat
    have rest : (newpid s').2 = { s' with nextpid := position } := rest
    obtain ⟨failed, full⟩ | ⟨pid, room⟩ := newpid_cases (s := s')
    · rw [if_pos (Or.inl failed), rest]
      rw [free] at full
      exact ⟨⟨fun _ => Or.inr (Or.inl full), fun _ => rfl⟩,
        fun _ => ⟨same.1, same.2.proctab, same.2.queuetab, same.2.prcount⟩⟩
    · rw [free] at room
      have valid : (newpid s').1 ≠ SYSERR := by
        simp only [SYSERR]
        omega
      by_cases low : priority.toInt < 1
      · rw [if_pos (Or.inr low), rest]
        exact ⟨⟨fun _ => Or.inr (Or.inr low), fun _ => rfl⟩,
          fun _ => ⟨same.1, same.2.proctab, same.2.queuetab, same.2.prcount⟩⟩
      · rw [if_neg (by tauto)]
        refine ⟨⟨fun failed => absurd failed valid, fun reasons => ?_⟩, fun failed => absurd failed valid⟩
        obtain bad | full | bad := reasons
        · exact absurd bad invalid
        · exact absurd room full
        · exact absurd bad low

/-- A successful `create` builds the frame in the stack it took, and notes both in the entry. -/
theorem create_success (success : (create procaddr ssize priority name args s).1 ≠ SYSERR) :
    ∃ address memory, s.mem.getstk (stackSize ssize) = some (address, memory) ∧
      (create procaddr ssize priority name args s).2.mem =
        (buildFrame address procaddr.toNat s.userret (args.map UInt32.toNat) memory).2 ∧
      ((create procaddr ssize priority name args s).2.proctab
          (create procaddr ssize priority name args s).1).prstkptr =
        (buildFrame address procaddr.toNat s.userret (args.map UInt32.toNat) memory).1 ∧
      ((create procaddr ssize priority name args s).2.proctab
        (create procaddr ssize priority name args s).1).prstkbase = address ∧
      ((create procaddr ssize priority name args s).2.proctab
        (create procaddr ssize priority name args s).1).prstklen = stackSize ssize := by
  cases found : s.mem.getstk (stackSize ssize) with
  | none => exact absurd (create_refused procaddr ssize priority name args found).1 success
  | some stack =>
    obtain ⟨address, memory⟩ := stack
    refine ⟨address, memory, rfl, ?_⟩
    have valid := (create_granted procaddr ssize priority name args found).1.not.mp success
    simp only [not_or] at valid
    have found' :
        (disable (disable s).2).2.mem.getstk (roundew (if ssize.toNat < MINSTK then MINSTK else ssize.toNat)) =
          some (address, memory) := found
    simp only [create, getstk, found', if_neg valid.1]
    generalize got : restore (disable (disable s).2).1 ((disable (disable s).2).2.setMem memory) = s'
    have same : s'.mem = memory ∧ s'.userret = s.userret ∧ (HasFree s' ↔ HasFree s) := by
      rw [← got]
      exact ⟨rfl, rfl, Iff.rfl⟩
    obtain ⟨position, rest⟩ := newpidLoop_rest (s := s') NPROC.toNat
    have rest : (newpid s').2 = { s' with nextpid := position } := rest
    obtain ⟨-, full⟩ | ⟨pid, -⟩ := newpid_cases (s := s')
    · rw [same.2.2] at full
      exact absurd full valid.2.1
    · rw [if_neg (by simp only [SYSERR]; omega), rest]
      simp [fillEntry, restore, Kernel.setProc, Kernel.touch, same.1, same.2.1, stackSize]

/-- A failed `create` leaves the free list, the table, the queues and the count as they were. -/
def FailsClean (s : Kernel) : Prop :=
  (create procaddr ssize priority name args s).1 = SYSERR →
    (create procaddr ssize priority name args s).2.mem.freeList = s.mem.freeList ∧
    (create procaddr ssize priority name args s).2.mem.mlength = s.mem.mlength ∧
    Untouched s (create procaddr ssize priority name args s).2

/-- Nothing is taken for the stack, or `create` can go on once it is taken: the stack's last word is
not at the address that means `SYSERR`, an entry is free and the priority is positive. -/
def Keeps (s : Kernel) : Prop :=
  stackSize ssize = 0 ∨ ∀ fits, s.mem.lastFit (roundmb (stackSize ssize)) = some fits →
    (roundmb (stackSize ssize) = 0 ∧ fits.size ≠ 0) ∨
      (add32 fits.addr fits.size ≠ 3 ∧ HasFree s ∧ 1 ≤ priority.toInt)

theorem syserr_address {x : Nat} (small : x < 2 ^ 32) : sub32 x 4 = SYSERR32 ↔ x = 3 := by
  simp only [sub32, SYSERR32]
  omega

/-- `create` cleans up after itself exactly when it has nothing to clean up. -/
theorem create_failsClean_iff (ends : s.mem.Ends) :
    FailsClean procaddr ssize priority name args s ↔ Keeps ssize priority s := by
  by_cases zero : stackSize ssize = 0
  · have none : s.mem.getstk (stackSize ssize) = none := by simp [Mem.getstk, zero]
    obtain ⟨-, same, untouched⟩ := create_refused procaddr ssize priority name args none
    refine ⟨fun _ => Or.inl zero, fun _ _ => ⟨?_, ?_, untouched⟩⟩ <;> rw [same]
  rcases ends.getstk zero with ⟨nothing, none⟩ | ⟨skip, fits, rest, split, behind, size, last, found⟩
  · obtain ⟨-, same, untouched⟩ := create_refused procaddr ssize priority name args none
    refine ⟨fun _ => Or.inr fun fits some => ?_, fun _ _ => ⟨?_, ?_, untouched⟩⟩
    · rw [nothing] at some
      cases some
    · rw [same]
    · rw [same]
  · obtain ⟨fails, leaves⟩ := create_granted procaddr ssize priority name args found
    have wraps : add32 fits.addr fits.size < 2 ^ 32 := Nat.mod_lt _ (by decide)
    have small : roundmb (stackSize ssize) < 2 ^ 32 := by
      have bound : add32 7 (stackSize ssize) < 2 ^ 32 := Nat.mod_lt _ (by decide)
      simp only [roundmb]
      omega
    rw [syserr_address wraps] at fails
    constructor
    · intro clean
      refine Or.inr fun fits' last' => ?_
      rw [last, Option.some.injEq] at last'
      subst last'
      by_contra keeps
      obtain ⟨takes, stops⟩ := not_or.mp keeps
      -- `create` fails, and what it took is gone
      have reasons : add32 fits.addr fits.size = 3 ∨ ¬ HasFree s ∨ priority.toInt < 1 := by
        simpa only [not_and_or, not_not, Int.not_le] using stops
      have failed := fails.mpr reasons
      obtain ⟨list, length, -⟩ := clean failed
      rw [(leaves failed).1] at list length
      exact Mem.takeFit_changes ends split behind small ((not_and_or.mp takes).imp_right not_not.mp) ⟨list, length⟩
    · rintro keeps failed
      obtain ⟨same, untouched⟩ := leaves failed
      rw [same]
      rcases (keeps.resolve_left zero) fits last with ⟨nothing, full⟩ | goes
      · have kept : s.mem.takeFit 0 (Mem.lastNode skip) fits.addr = s.mem :=
          Mem.takeFit_nothing ends (by rw [size]; exact full)
        rw [nothing, kept]
        exact ⟨rfl, rfl, untouched⟩
      · rcases fails.mp failed with invalid | full | low
        · exact absurd invalid goes.1
        · exact absurd goes.2.1 full
        · omega

end Outcomes

/-! ## After start-up -/

/-- The kernel in which the null process starts to run. -/
def started : Kernel := (boot smallImage int32 fun _ => 0).kernel

set_option maxRecDepth 100000 in
theorem started_freeList : started.mem.freeList = [⟨0x20002ff8, 0x1bc08⟩] := by decide +kernel

set_option maxRecDepth 100000 in
theorem started_ends : started.mem.Ends := by
  constructor
  · rw [started_freeList]
    exact ⟨by decide +kernel, by decide +kernel, show started.mem.next (some 0x20002ff8) = 0 by decide +kernel⟩
  · rw [started_freeList]
    decide
  · rw [started_freeList]
    decide
  · decide +kernel

set_option maxRecDepth 100000 in
/-- Right after start-up a `create` that asks for more stack than there is memory fails and keeps nothing. -/
theorem create_started_clean :
    (create 0x08017000 0x20000 20 [] [] started).1 = SYSERR ∧
      (create 0x08017000 0x20000 20 [] [] started).2.mem.freeList = started.mem.freeList ∧
      (create 0x08017000 0x20000 20 [] [] started).2.mem.mlength = started.mem.mlength ∧
      Untouched started (create 0x08017000 0x20000 20 [] [] started).2 := by
  have failed : (create 0x08017000 0x20000 20 [] [] started).1 = SYSERR := by decide +kernel
  have none : started.mem.lastFit (roundmb (stackSize 0x20000)) = none := by
    rw [Mem.lastFit, started_freeList]
    decide
  have keeps : Keeps 0x20000 20 started := by
    refine Or.inr fun fits last => ?_
    rw [none] at last
    cases last
  exact ⟨failed, (create_failsClean_iff _ _ _ _ _ started_ends).mpr keeps failed⟩

set_option maxRecDepth 100000 in
/-- Right after start-up a `create` with priority 0 fails and keeps 1024 bytes. -/
theorem create_leaks : System.Run [] (boot smallImage int32 fun _ => 0) (boot smallImage int32 fun _ => 0) ∧
    ¬ FailsClean 0x08017000 1024 0 [] [] started := by
  refine ⟨.nil _, fun clean => ?_⟩
  have failed : (create 0x08017000 1024 0 [] [] started).1 = SYSERR := by decide +kernel
  have length : (create 0x08017000 1024 0 [] [] started).2.mem.mlength ≠ started.mem.mlength := by decide +kernel
  exact length (clean failed).2.1

end XinuStm32
