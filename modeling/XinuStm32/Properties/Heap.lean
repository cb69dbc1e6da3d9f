import XinuStm32.Refinement.Heap

/-!
# What a heap call promises

`freemem` frees exactly the given range or refuses and changes nothing, except for ranges that reach
past the end of the heap and ranges that start under the header of a short free block. An allocation is as large as the
request unless the size, with its header and rounded up, does not fit into 32 bits.
-/

namespace XinuStm32

open FreeBlocks

namespace Mem

variable {m m' : Mem} {blocks blocks' : List Block} {a n : Nat}

/-- `roundmb` over the integers. -/
def rounded (n : Nat) : Nat := (n + 7) / 8 * 8

theorem le_rounded (n : Nat) : n ≤ rounded n := by
  simp only [rounded]
  omega

theorem le_rounded_of_ne (nonzero : n ≠ 0) : 8 ≤ rounded n := by
  simp only [rounded]
  omega

theorem roundmb_of_lt (fits : rounded n < 2 ^ 32) : roundmb n = rounded n := by
  simp only [roundmb, rounded, add32] at *
  omega

theorem roundmb_zero (small : n < 2 ^ 32) (wraps : 2 ^ 32 ≤ rounded n) : roundmb n = 0 := by
  simp only [roundmb, rounded, add32] at *
  omega

/-! ## `freemem` -/

/-- The range is one that may be freed: in the heap, and nothing of it free. -/
def Freeable (m : Mem) (blocks : List Block) (a n : Nat) : Prop :=
  n ≠ 0 ∧ m.minheap ≤ a ∧ a + rounded n ≤ m.maxheap ∧ ∀ x, a ≤ x → x < a + rounded n → ¬ Covers blocks x

/-- `freemem` frees such a range, and refuses every other one. -/
def FreesExactly (m : Mem) (blocks : List Block) (a n : Nat) : Prop :=
  (Freeable m blocks a n → (m.freemem a n).1 = OK ∧ ∃ blocks', (m.freemem a n).2.FreeList blocks' ∧
    ∀ x, Covers blocks' x ↔ Covers blocks x ∨ (a ≤ x ∧ x < a + rounded n)) ∧
  (¬ Freeable m blocks a n → m.freemem a n = (SYSERR, m))

/-- The range starts in the heap outside the free blocks and reaches past the end of the heap, and
there is no block behind its start or its end does not fit into 32 bits. -/
def Overreaches (m : Mem) (blocks : List Block) (a n : Nat) : Prop :=
  n ≠ 0 ∧ m.minheap ≤ a ∧ a ≤ m.maxheap ∧ (∀ f ∈ blocks, ¬ (f.addr < a ∧ a < f.limit)) ∧
    m.maxheap < a + rounded n ∧ ((∀ f ∈ blocks, f.addr < a) ∨ 2 ^ 32 ≤ a + rounded n)

/-- `freemem` accepts a range that overreaches. -/
theorem FreeList.overreach_accepted (list : m.FreeList blocks) (small : n < 2 ^ 32)
    (overreaches : Overreaches m blocks a n) : (m.freemem a n).1 = OK := by
  obtain ⟨nonzero, low, high, outside, -, unseen⟩ := overreaches
  obtain ⟨front, back, rfl, before, behind, accepts, -⟩ := list.freemem_spec nonzero ⟨low, high⟩
  rw [accepts ⟨fun f member => ?_, fun c member => ?_⟩]
  · have apart := outside f (by simp [member])
    have start := before f member
    omega
  · have start := behind c member
    cases unseen with
    | inl first => exact absurd start (Nat.not_le.mpr (first c (by simp [member])))
    | inr wraps =>
      -- the end of the range wraps to an address that is not behind its start
      have bound := list.maxheap_lt
      by_cases fits : rounded n < 2 ^ 32
      · rw [roundmb_of_lt fits, add32]
        omega
      · rw [roundmb_zero small (by omega), add32]
        omega

/-- The walk splits the blocks at a range that may be freed, and the range goes on the list there. -/
theorem FreeList.freed (list : m.FreeList blocks) (freeable : Freeable m blocks a n) :
    ∃ front back, blocks = front ++ back ∧ (∀ f ∈ front, f.limit ≤ a) ∧ (∀ c ∈ back, a + rounded n ≤ c.addr) ∧
      m.freemem a n = (OK, m.release (lastNode front) a (firstNode back) (rounded n)) := by
  obtain ⟨nonzero, low, high, apart⟩ := freeable
  have bound := list.maxheap_lt
  have room := le_rounded_of_ne nonzero
  have size : roundmb n = rounded n := roundmb_of_lt (by omega)
  obtain ⟨front, back, rfl, before, behind, accepts, -⟩ := list.freemem_spec nonzero ⟨low, by omega⟩
  -- a block that starts before the range ends before it, and one that starts behind it does not overlap it
  have beforeRange : ∀ f ∈ front, f.limit ≤ a := fun f member => by
    have start := before f member
    by_contra overlaps
    exact apart a (Nat.le_refl _) (by omega) ⟨f, by simp [member], by omega, by omega⟩
  have behindRange : ∀ c ∈ back, a + rounded n ≤ c.addr := fun c member => by
    have start := behind c member
    have positive := (list.inside (b := c) (by simp [member])).2.1
    by_contra overlaps
    refine apart c.addr start (by omega) ⟨c, by simp [member], Nat.le_refl _, ?_⟩
    simp only [Block.limit]
    omega
  rw [size, add32_of_lt (by omega)] at accepts
  exact ⟨front, back, rfl, beforeRange, behindRange, accepts ⟨beforeRange, behindRange⟩⟩

theorem FreeList.frees (list : m.FreeList blocks) (roomy : Roomy blocks) (freeable : Freeable m blocks a n) :
    (m.freemem a n).1 = OK ∧ ∃ blocks', Returned m blocks a (rounded n) (m.freemem a n).2 blocks' := by
  obtain ⟨front, back, rfl, before, behind, result⟩ := list.freed freeable
  rw [result]
  exact ⟨rfl, _, list.release (b := ⟨a, rounded n⟩) roomy (le_rounded_of_ne freeable.1)
    ⟨freeable.2.1, freeable.2.2.1⟩ before behind⟩

/-! ### Short blocks -/

/-- The range may be freed, but a free block of less than eight bytes lies so close before it that the
header of this block reaches over the start of the range, where `freemem` writes the next header. -/
def Smears (m : Mem) (blocks : List Block) (a n : Nat) : Prop :=
  Freeable m blocks a n ∧ ∃ f ∈ blocks, f.limit < a ∧ a < f.addr + 8

theorem FreeList.frees_clear (list : m.FreeList blocks) (freeable : Freeable m blocks a n)
    (clear : ¬ Smears m blocks a n) :
    (m.freemem a n).1 = OK ∧ ∃ blocks', (m.freemem a n).2.FreeList blocks' ∧
      ∀ x, Covers blocks' x ↔ Covers blocks x ∨ (a ≤ x ∧ x < a + rounded n) := by
  obtain ⟨front, back, rfl, before, behind, result⟩ := list.freed freeable
  have clearOf : ClearOf a front := fun f member => by
    have stop := before f member
    by_contra reaches
    rw [not_or] at reaches
    exact clear ⟨freeable, f, by simp [member], by omega, by omega⟩
  rw [result]
  refine ⟨rfl, _, list.release_list (b := ⟨a, rounded n⟩) clearOf (le_rounded_of_ne freeable.1)
    ⟨freeable.2.1, freeable.2.2.1⟩ before behind, fun x => ?_⟩
  rw [covers_release, or_comm]
  rfl

theorem joinRight_head (b : Block) (back : List Block) :
    ∃ size rest, joinRight b back = ⟨b.addr, size⟩ :: rest := by
  cases back with
  | nil => exact ⟨b.size, [], rfl⟩
  | cons c back =>
    rw [joinRight]
    split
    · exact ⟨_, _, rfl⟩
    · exact ⟨_, _, rfl⟩

/-- The range would be a block whose header overlaps the header of the short block. -/
theorem FreeList.smear_overlaps {b f : Block} {front back : List Block} (list : m.FreeList (front ++ back))
    (member : f ∈ front) (stop : f.limit < b.addr) (reaches : b.addr < f.addr + 8) :
    ¬ Laid (FreeBlocks.release front b back) := by
  intro laid
  obtain rfl | ⟨init, l, rfl⟩ := List.eq_nil_or_concat' front
  · cases member
  · rw [release_concat] at laid
    split at laid
    · next touch =>
      -- the short block is not the one that touches the range, and the header of that one is clear of it
      cases List.mem_append.mp member with
      | inl member =>
        have order := list.laid.append.1.append.2.2 f member l (List.mem_singleton.mpr rfl)
        simp only [Block.limit] at touch
        omega
      | inr member =>
        rw [List.mem_singleton.mp member] at stop
        omega
    · obtain ⟨size, rest, first⟩ := joinRight_head b back
      rw [first] at laid
      have order := laid.append.2.2 f member _ List.mem_cons_self
      simp only at order
      omega

/-- After such a call no free list has exactly the range and the bytes that were free. -/
theorem FreeList.smear_fails (list : m.FreeList blocks) (smears : Smears m blocks a n) :
    ¬ FreesExactly m blocks a n := by
  rintro ⟨frees, -⟩
  obtain ⟨freeable, f, member, stop, reaches⟩ := smears
  obtain ⟨-, blocks', list', covers⟩ := frees freeable
  obtain ⟨front, back, rfl, before, behind, result⟩ := list.freed freeable
  rw [result] at list'
  obtain ⟨minheap, maxheap⟩ := bounds_release (m := m) (lastNode front) a (firstNode back) (rounded n)
  have canonical := list'.canonical
  rw [minheap, maxheap] at canonical
  have room := le_rounded_of_ne freeable.1
  have expected : Canonical m.minheap m.maxheap (FreeBlocks.release front ⟨a, rounded n⟩ back) :=
    list.canonical.release ⟨freeable.2.1, by simp only; omega, freeable.2.2.1⟩ before behind
  -- the bytes determine the blocks
  have same : blocks' = FreeBlocks.release front ⟨a, rounded n⟩ back := by
    apply canonical.unique expected
    intro x
    rw [covers, covers_release, or_comm]
    rfl
  have inFront : f ∈ front := by
    cases List.mem_append.mp member with
    | inl member => exact member
    | inr member =>
      have start := behind f member
      simp only [Block.limit] at stop
      omega
  exact list.smear_overlaps (b := ⟨a, rounded n⟩) inFront stop reaches (same ▸ list'.laid)

theorem FreeList.refuses (list : m.FreeList blocks) (unfit : ¬ Freeable m blocks a n)
    (seen : ¬ Overreaches m blocks a n) : m.freemem a n = (SYSERR, m) := by
  by_cases guard : n = 0 ∨ a < m.minheap ∨ a > m.maxheap
  · rw [freemem, if_pos guard]
  · obtain ⟨front, back, rfl, before, behind, -, refuses⟩ :=
      list.freemem_spec (n := n) (a := a) (by omega) ⟨by omega, by omega⟩
    apply refuses
    rintro ⟨beforeRange, behindRange⟩
    have outside : ∀ f ∈ front ++ back, ¬ (f.addr < a ∧ a < f.limit) := by
      intro f member
      cases List.mem_append.mp member with
      | inl member =>
        have stop := beforeRange f member
        omega
      | inr member =>
        have start := behind f member
        omega
    by_cases past : m.maxheap < a + rounded n
    · -- the range overreaches: where a block is behind it, its end must have wrapped
      refine seen ⟨by omega, by omega, by omega, outside, past, ?_⟩
      cases back with
      | nil => exact Or.inl (by simpa using before)
      | cons c back =>
        by_contra fits
        rw [not_or] at fits
        have stop := behindRange c List.mem_cons_self
        have inHeap := list.canonical.within c (by simp)
        rw [roundmb_of_lt (by omega), add32_of_lt (by omega)] at stop
        simp only [Block.limit] at inHeap
        omega
    · have bound := list.maxheap_lt
      rw [roundmb_of_lt (by omega), add32_of_lt (by omega)] at behindRange
      refine unfit ⟨by omega, by omega, by omega, ?_⟩
      rintro x low high ⟨f, member, start, stop⟩
      cases List.mem_append.mp member with
      | inl member =>
        have apart := beforeRange f member
        omega
      | inr member =>
        have apart := behindRange f member
        omega

/-- `freemem` does what it should for every range that neither overreaches nor starts under the header
of a short free block, and for no other. -/
theorem freemem_exact (list : m.FreeList blocks) (small : n < 2 ^ 32) :
    FreesExactly m blocks a n ↔ ¬ Overreaches m blocks a n ∧ ¬ Smears m blocks a n := by
  constructor
  · intro exactly
    refine ⟨fun overreaches => ?_, fun smears => list.smear_fails smears exactly⟩
    have unfit : ¬ Freeable m blocks a n := fun freeable =>
      Nat.not_lt.mpr freeable.2.2.1 overreaches.2.2.2.2.1
    have accepted := list.overreach_accepted small overreaches
    rw [exactly.2 unfit] at accepted
    cases accepted
  · rintro ⟨seen, clear⟩
    exact ⟨fun freeable => list.frees_clear freeable clear, fun unfit => list.refuses unfit seen⟩

/-! ### The heap after start-up -/

/-- A heap of 116 kilobytes after `meminit`. -/
def freshHeap : Mem := meminit 0x20002000 fun _ => 0

theorem freshHeap_list : freshHeap.FreeList [⟨0x20002000, 0x1d000⟩] :=
  meminit_freeList (by decide) (by decide) _

/-- The heap after `getmem(16)`. -/
def usedHeap : Mem := freshHeap.takeLow 16 none 0x20002000

theorem usedHeap_list : usedHeap.FreeList [⟨0x20002010, 0x1cff0⟩] :=
  have list : freshHeap.FreeList ([] ++ ⟨0x20002000, 0x1d000⟩ :: []) := freshHeap_list
  list.takeLow (Or.inr (by decide)) (by decide) (by simp)

theorem usedHeap_free (x : Nat) : Covers [⟨0x20002010, 0x1cff0⟩] x ↔ 0x20002010 ≤ x ∧ x < 0x2001f000 := by
  simp [Block.Covers, Block.limit]

/-- The sixteen bytes can be freed, and what is free already cannot. -/
theorem freemem_used :
    (FreesExactly usedHeap [⟨0x20002010, 0x1cff0⟩] 0x20002000 16 ∧ (usedHeap.freemem 0x20002000 16).1 = OK) ∧
      FreesExactly usedHeap [⟨0x20002010, 0x1cff0⟩] 0x20003000 16 ∧
        usedHeap.freemem 0x20003000 16 = (SYSERR, usedHeap) := by
  have held : Freeable usedHeap [⟨0x20002010, 0x1cff0⟩] 0x20002000 16 := by
    refine ⟨by decide, by decide, by decide, fun x low high free => ?_⟩
    have start := ((usedHeap_free x).mp free).1
    exact absurd high (Nat.not_lt.mpr start)
  have free : ¬ Freeable usedHeap [⟨0x20002010, 0x1cff0⟩] 0x20003000 16 := by
    rintro ⟨-, -, -, apart⟩
    exact apart 0x20003000 (by decide) (by decide) ((usedHeap_free _).mpr (by decide))
  have frees : FreesExactly usedHeap [⟨0x20002010, 0x1cff0⟩] 0x20002000 16 := by
    apply (freemem_exact usedHeap_list (by decide)).mpr
    constructor
    · rintro ⟨-, -, -, -, past, -⟩
      exact absurd past (by decide)
    · rintro ⟨-, f, member, stop, -⟩
      rw [List.mem_singleton.mp member] at stop
      exact absurd stop (by decide)
  have refuses : FreesExactly usedHeap [⟨0x20002010, 0x1cff0⟩] 0x20003000 16 := by
    apply (freemem_exact usedHeap_list (by decide)).mpr
    refine ⟨?_, fun smears => free smears.1⟩
    rintro ⟨-, -, -, outside, -⟩
    exact outside _ List.mem_cons_self (by decide)
  exact ⟨⟨frees, (frees.1 held).1⟩, refuses, refuses.2 free⟩

/-- The eight bytes behind the heap can be freed. -/
theorem freemem_past_heap :
    freshHeap.FreeList [⟨0x20002000, 0x1d000⟩] ∧
      ¬ FreesExactly freshHeap [⟨0x20002000, 0x1d000⟩] 0x2001f000 8 := by
  have overreaches : Overreaches freshHeap [⟨0x20002000, 0x1d000⟩] 0x2001f000 8 := by
    refine ⟨by decide, by decide, by decide, ?_, by decide, Or.inl ?_⟩ <;>
      exact List.forall_mem_singleton.mpr (by decide)
  refine ⟨freshHeap_list, fun exactly => ?_⟩
  have accepted := freshHeap_list.overreach_accepted (by decide) overreaches
  have unfit : ¬ Freeable freshHeap [⟨0x20002000, 0x1d000⟩] 0x2001f000 8 := fun freeable =>
    Nat.not_lt.mpr freeable.2.2.1 overreaches.2.2.2.2.1
  rw [exactly.2 unfit] at accepted
  cases accepted

/-! ## Allocation -/

/-- Lists that `meminit` makes and valid calls keep, for every image: the grain is four bytes. -/
structure WellFormed (m : Mem) (blocks : List Block) : Prop where
  list : m.FreeList blocks
  grained : Grained 4 blocks

/-- The `size` bytes at `a` have been removed from the free list. -/
def Removed (blocks : List Block) (a size : Nat) (m' : Mem) : Prop :=
  ∃ blocks', m'.FreeList blocks' ∧ (∀ x, a ≤ x → x < a + size → Covers blocks x) ∧
    ∀ x, Covers blocks' x ↔ Covers blocks x ∧ ¬ (a ≤ x ∧ x < a + size)

/-- `getmem` returns `SYSERR` or a block of at least `n` bytes. -/
def GetmemGrants (m : Mem) (blocks : List Block) (n : Nat) : Prop :=
  ∀ a m', m.getmem n = some (a, m') → ∃ size, n ≤ size ∧ Removed blocks a size m'

/-- `getstk` returns `SYSERR` or the address of the last word of such a block. -/
def GetstkGrants (m : Mem) (blocks : List Block) (n : Nat) : Prop :=
  ∀ top m', m.getstk n = some (top, m') →
    ∃ a size, n ≤ size ∧ a + size = top + 4 ∧ Removed blocks a size m'

/-- At least `n` bytes at `p` are in the heap and in no free or held block. -/
def Usable (held : List Block) (p n : Nat) (m' : Mem) : Prop :=
  ∃ blocks', m'.FreeList blocks' ∧ ∀ x, p ≤ x → x < p + n →
    m'.minheap ≤ x ∧ x < m'.maxheap ∧ ¬ Covers blocks' x ∧ ¬ Covers held x

def MallocGrants (m : Mem) (held : List Block) (n : Nat) : Prop :=
  (m.malloc n).1 = 0 ∨ Usable held (m.malloc n).1 n (m.malloc n).2

def CallocGrants (m : Mem) (held : List Block) (nmemb size : Nat) : Prop :=
  (m.calloc nmemb size).1 = 0 ∨
    Usable held (m.calloc nmemb size).1 (nmemb * size) (m.calloc nmemb size).2 ∧
      ∀ x, (m.calloc nmemb size).1 ≤ x → x < (m.calloc nmemb size).1 + nmemb * size →
        (m.calloc nmemb size).2.ram x = 0

theorem Taken.in_heap (list : m.FreeList blocks) (taken : Taken m blocks a n m' blocks') :
    m.minheap ≤ a ∧ a + n ≤ m.maxheap := by
  obtain ⟨b, member, low, high⟩ := taken.free
  have within := list.canonical.within b member
  omega

theorem Taken.were_free (taken : Taken m blocks a n m' blocks') :
    ∀ x, a ≤ x → x < a + n → Covers blocks x := by
  obtain ⟨b, member, low, high⟩ := taken.free
  exact fun x start stop => ⟨b, member, by omega, by omega⟩

theorem Taken.removed (taken : Taken m blocks a n m' blocks') : Removed blocks a n m' :=
  ⟨blocks', taken.list, taken.were_free, taken.covers⟩

theorem FreeList.covers_in_heap (list : m.FreeList blocks) {x : Nat} (covers : Covers blocks x) :
    m.minheap ≤ x ∧ x < m.maxheap := by
  obtain ⟨b, member, low, high⟩ := covers
  have within := list.canonical.within b member
  omega

/-- Sizes from `2 ^ 32 - 7` on are rounded up to zero. -/
theorem rounded_lt_iff (small : n < 2 ^ 32) : rounded n < 2 ^ 32 ↔ n ≤ 2 ^ 32 - 8 := by
  simp only [rounded]
  omega

/-- No block on the list is as large as that. -/
def Small (blocks : List Block) (n : Nat) : Prop := ∀ b ∈ blocks, b.size < n

theorem getmem_grants_iff (heap : WellFormed m blocks) (small : n < 2 ^ 32) :
    GetmemGrants m blocks n ↔ n ≤ 2 ^ 32 - 8 ∨ blocks = [] := by
  obtain rfl | positive := Nat.eq_zero_or_pos n
  · simp [GetmemGrants, getmem]
  constructor
  · intro grants
    by_contra fails
    rw [not_or] at fails
    have zero : roundmb n = 0 := roundmb_zero small (Nat.not_lt.mp ((rounded_lt_iff small).not.mpr fails.1))
    obtain ⟨none, -⟩ | found := heap.list.getmem_spec heap.grained (Nat.ne_of_gt positive)
    · -- with a size of zero the first block fits
      rw [zero] at none
      exact fails.2 (List.eq_nil_iff_forall_not_mem.mpr fun b member => Nat.not_lt_zero _ (none b member))
    · obtain ⟨a, m', blocks', returns, taken, -⟩ := found
      obtain ⟨size, large, -, -, free, -⟩ := grants a m' returns
      have inHeap := heap.list.covers_in_heap (free (a + size - 1) (by omega) (by omega))
      have bound := heap.list.high
      omega
  · rintro fits a m' returns
    obtain ⟨-, none⟩ | found := heap.list.getmem_spec heap.grained (Nat.ne_of_gt positive)
    · rw [none] at returns
      cases returns
    · obtain ⟨a', memory, blocks', found, taken, -⟩ := found
      rw [found, Option.some.injEq, Prod.mk.injEq] at returns
      obtain ⟨rfl, rfl⟩ := returns
      cases fits with
      | inl fits =>
        rw [roundmb_of_lt ((rounded_lt_iff small).mpr fits)] at taken
        exact ⟨rounded n, le_rounded n, taken.removed⟩
      | inr empty =>
        obtain ⟨b, member, -⟩ := taken.free
        rw [empty] at member
        cases member

theorem getstk_grants_iff (list : m.FreeList blocks) (small : n < 2 ^ 32) :
    GetstkGrants m blocks n ↔ n ≤ 2 ^ 32 - 8 ∨ blocks = [] := by
  obtain rfl | positive := Nat.eq_zero_or_pos n
  · simp [GetstkGrants, getstk]
  constructor
  · intro grants
    by_contra fails
    rw [not_or] at fails
    have zero : roundmb n = 0 := roundmb_zero small (Nat.not_lt.mp ((rounded_lt_iff small).not.mpr fails.1))
    obtain ⟨none, -⟩ | found := list.getstk_spec (Nat.ne_of_gt positive)
    · rw [zero] at none
      exact fails.2 (List.eq_nil_iff_forall_not_mem.mpr fun b member => Nat.not_lt_zero _ (none b member))
    · obtain ⟨a, m', blocks', returns, -⟩ := found
      obtain ⟨start, size, large, -, -, -, free, -⟩ := grants _ m' returns
      have inHeap := list.covers_in_heap (free (start + size - 1) (by omega) (by omega))
      have bound := list.high
      omega
  · rintro fits top m' returns
    obtain ⟨-, none⟩ | found := list.getstk_spec (Nat.ne_of_gt positive)
    · rw [none] at returns
      cases returns
    · obtain ⟨a, memory, blocks', found, taken⟩ := found
      rw [found, Option.some.injEq, Prod.mk.injEq] at returns
      obtain ⟨rfl, rfl⟩ := returns
      cases fits with
      | inl fits =>
        have size := roundmb_of_lt ((rounded_lt_iff small).mpr fits)
        have large := le_rounded n
        have inHeap := taken.in_heap list
        have bound := list.high
        have multiple := roundmb_dvd n
        rw [size] at taken inHeap multiple ⊢
        refine ⟨a, rounded n, large, ?_, taken.removed⟩
        -- neither sum wraps, since the block ends in the heap
        rw [add32_of_lt (by omega), sub32_of_le (by omega) (by omega)]
        omega
      | inr empty =>
        obtain ⟨b, member, -⟩ := taken.free
        rw [empty] at member
        cases member

/-! ### `malloc` -/

/-- `malloc` has no block for this size: it is zero, or with the header it wraps to zero, or no block
on the list is large enough for what it wraps to. -/
def Refused (blocks : List Block) (n : Nat) : Prop :=
  n = 0 ∨ n = 2 ^ 32 - 8 ∨ Small blocks (roundmb (add32 n 8))

theorem WellFormed.malloc_null (heap : WellFormed m blocks) (refused : Refused blocks n) :
    m.malloc n = (0, m) := by
  rw [malloc]
  obtain rfl | rfl | none := refused
  · rfl
  · rfl
  · split
    · rfl
    · by_cases zero : add32 n 8 = 0
      · simp [getmem, zero]
      · obtain ⟨-, none⟩ | ⟨a, m', blocks', -, taken, -⟩ := heap.list.getmem_spec heap.grained zero
        · simp [none]
        · obtain ⟨b, member, low, high⟩ := taken.free
          have small := none b member
          simp only [Block.limit] at high
          omega

/-- Otherwise it takes a block, and what it returns lies behind the header. -/
theorem WellFormed.malloc_block (heap : WellFormed m blocks) (small : n < 2 ^ 32)
    (granted : ¬ Refused blocks n) :
    ∃ a m' blocks', Taken m blocks a (roundmb (add32 n 8)) m' blocks' ∧
      (∀ c ∈ blocks', c.addr + 8 ≤ a ∨ a + roundmb (add32 n 8) ≤ c.addr) ∧
      m.malloc n = (a + 8, (m'.setNext (some a) a).setLength (some a) (add32 n 8)) := by
  simp only [Refused, not_or] at granted
  obtain ⟨nonzero, fits, large⟩ := granted
  have positive : add32 n 8 ≠ 0 := by
    rw [add32]
    omega
  obtain ⟨none, -⟩ | ⟨a, m', blocks', found, taken, clear⟩ := heap.list.getmem_spec heap.grained positive
  · exact absurd none large
  · refine ⟨a, m', blocks', taken, clear, ?_⟩
    have inHeap := taken.in_heap heap.list
    have bound := heap.list.high
    rw [malloc, if_neg nonzero]
    simp only [found]
    rw [add32_of_lt (by omega)]

/-- The list is still there after the owner's stores into the taken block. -/
theorem Taken.list_frame (taken : Taken m blocks a n m' blocks')
    (clear : ∀ c ∈ blocks', c.addr + 8 ≤ a ∨ a + n ≤ c.addr) {m'' : Mem} (mnext : m''.mnext = m'.mnext)
    (bounds : m''.minheap = m'.minheap ∧ m''.maxheap = m'.maxheap)
    (inside : ∀ x, ¬ (a ≤ x ∧ x < a + n) → m''.ram x = m'.ram x) : m''.FreeList blocks' := by
  apply taken.list.frame mnext bounds
  intro c member x low high
  apply inside
  cases clear c member with
  | inl before => omega
  | inr behind => omega

/-- The header of a block of `malloc` lies inside the block. -/
theorem malloc_header {size : Nat} (room : 8 ≤ n) (x : Nat) (outside : ¬ (a ≤ x ∧ x < a + n)) :
    ((m.setNext (some a) a).setLength (some a) size).ram x = m.ram x :=
  (ram_setLength (by omega)).trans (ram_setNext (by omega))

/-- No `2 ^ 32 - 15` bytes fit behind a header. -/
theorem not_usable {held : List Block} {p : Nat} (past : 9 ≤ p) (large : 2 ^ 32 - 16 < n)
    (high : m.maxheap + 8 < 2 ^ 32) : ¬ Usable held p n m := by
  rintro ⟨blocks, -, usable⟩
  have last := usable (p + n - 1) (by omega) (by omega)
  omega

theorem Taken.usable {held : List Block} (taken : Taken m blocks a n m' blocks') (list : m.FreeList blocks)
    (apart : ∀ x, Covers held x → ¬ Covers blocks x) {m'' : Mem} (list' : m''.FreeList blocks')
    (bounds : m''.minheap = m'.minheap ∧ m''.maxheap = m'.maxheap) {p size : Nat} (start : a ≤ p)
    (stop : p + size ≤ a + n) : Usable held p size m'' := by
  refine ⟨blocks', list', fun x low high => ?_⟩
  have free := taken.were_free x (by omega) (by omega)
  have inHeap := list.covers_in_heap free
  rw [bounds.1, bounds.2, taken.bounds.1, taken.bounds.2]
  refine ⟨inHeap.1, inHeap.2, fun covers => ?_, fun covers => apart x covers free⟩
  exact ((taken.covers x).mp covers).2 ⟨by omega, by omega⟩

theorem malloc_grants_iff (heap : WellFormed m blocks) {held : List Block}
    (apart : ∀ x, Covers held x → ¬ Covers blocks x) (small : n < 2 ^ 32) :
    MallocGrants m held n ↔ Refused blocks n ∨ n ≤ 2 ^ 32 - 16 := by
  constructor
  · intro grants
    by_contra fails
    rw [not_or] at fails
    obtain ⟨a, m', blocks', taken, -, returns⟩ := heap.malloc_block small fails.1
    have low := (taken.in_heap heap.list).1
    have positive := heap.list.low
    rw [MallocGrants, returns] at grants
    refine not_usable (by omega) (by omega) ?_ (grants.resolve_left (by simp))
    change m'.maxheap + 8 < 2 ^ 32
    rw [taken.bounds.2]
    exact heap.list.high
  · intro fits
    by_cases refused : Refused blocks n
    · left
      rw [heap.malloc_null refused]
    · right
      obtain ⟨a, m', blocks', taken, clear, returns⟩ := heap.malloc_block small refused
      have large : n + 8 ≤ roundmb (add32 n 8) := by
        have fits := fits.resolve_left refused
        rw [add32_of_lt (by omega), roundmb_of_lt ((rounded_lt_iff (by omega)).mpr (by omega))]
        exact le_rounded _
      rw [returns]
      have list' : ((m'.setNext (some a) a).setLength (some a) (add32 n 8)).FreeList blocks' :=
        taken.list_frame clear rfl ⟨rfl, rfl⟩ (malloc_header (by omega))
      exact taken.usable heap.list apart list' ⟨rfl, rfl⟩ (by simp only; omega) (by simp only; omega)

/-! ### `calloc` -/

theorem fill_apply (value : UInt8) (count p : Nat) (ram : Nat → UInt8) (x : Nat) :
    fill value count p ram x = if p ≤ x ∧ x < p + count then value else ram x := by
  induction count generalizing p ram with
  | zero =>
    rw [fill, if_neg (by omega)]
  | succ count inductionHypothesis =>
    rw [fill, inductionHypothesis]
    by_cases here : x = p
    · rw [if_neg (by omega), if_pos here, if_pos (by omega)]
    · rw [if_neg here]
      exact if_congr (by omega) rfl rfl

/-- `memset` writes the range when its end does not wrap. -/
theorem memset_ram {p size : Nat} (value : UInt8) (fits : p + size < 2 ^ 32) (x : Nat) :
    (m.memset p value size).ram x = if p ≤ x ∧ x < p + size then value else m.ram x := by
  have stop : add32 p size = p + size := add32_of_lt fits
  simp only [memset, stop, fill_apply, Nat.add_sub_cancel_left]

theorem calloc_null {nmemb size : Nat} (null : m.malloc (nmemb * size % 2 ^ 32) = (0, m)) :
    m.calloc nmemb size = (0, m) := by
  simp only [calloc, null, if_true]

theorem calloc_block {nmemb size p : Nat} (block : m.malloc (nmemb * size % 2 ^ 32) = (p, m')) (some : p ≠ 0) :
    m.calloc nmemb size = (p, m'.memset p 0 (nmemb * size % 2 ^ 32)) := by
  simp only [calloc, block, if_neg some]

theorem calloc_grants_iff (heap : WellFormed m blocks) {held : List Block}
    (apart : ∀ x, Covers held x → ¬ Covers blocks x) (nmemb size : Nat) :
    CallocGrants m held nmemb size ↔
      Refused blocks (nmemb * size % 2 ^ 32) ∨ nmemb * size ≤ 2 ^ 32 - 16 := by
  have small : nmemb * size % 2 ^ 32 < 2 ^ 32 := Nat.mod_lt _ (by decide)
  constructor
  · intro grants
    by_contra fails
    rw [not_or] at fails
    obtain ⟨a, m', blocks', taken, -, returns⟩ := heap.malloc_block small fails.1
    have low := (taken.in_heap heap.list).1
    have positive := heap.list.low
    rw [CallocGrants, calloc_block returns (by omega)] at grants
    refine not_usable (by omega) (by omega) ?_ (grants.resolve_left (by simp)).1
    change m'.maxheap + 8 < 2 ^ 32
    rw [taken.bounds.2]
    exact heap.list.high
  · intro fits
    by_cases refused : Refused blocks (nmemb * size % 2 ^ 32)
    · left
      rw [calloc_null (heap.malloc_null refused)]
    · right
      obtain ⟨a, m', blocks', taken, clear, returns⟩ := heap.malloc_block small refused
      have fits := fits.resolve_left refused
      have product : nmemb * size % 2 ^ 32 = nmemb * size := Nat.mod_eq_of_lt (by omega)
      rw [calloc_block returns (by omega)]
      rw [product] at taken clear ⊢
      have large : nmemb * size + 8 ≤ roundmb (add32 (nmemb * size) 8) := by
        rw [add32_of_lt (by omega), roundmb_of_lt ((rounded_lt_iff (by omega)).mpr (by omega))]
        exact le_rounded _
      have inHeap := taken.in_heap heap.list
      have high := heap.list.high
      let header := (m'.setNext (some a) a).setLength (some a) (add32 (nmemb * size) 8)
      have zeroed (x : Nat) := @memset_ram header (a + 8) (nmemb * size) 0 (by omega) x
      have list' : (header.memset (a + 8) 0 (nmemb * size)).FreeList blocks' := by
        refine taken.list_frame clear rfl ⟨rfl, rfl⟩ fun x outside => ?_
        rw [zeroed x, if_neg (by omega)]
        exact malloc_header (by omega) x outside
      refine ⟨taken.usable heap.list apart list' ⟨rfl, rfl⟩ (by omega) (by omega), ?_⟩
      intro x low high
      exact (zeroed x).trans (if_pos ⟨low, high⟩)

/-- Every layer of allocation keeps its promise exactly for the sizes that do not wrap, where it finds
a block at all. -/
theorem allocation_exact (heap : WellFormed m blocks) {held : List Block}
    (apart : ∀ x, Covers held x → ¬ Covers blocks x) :
    (∀ n < 2 ^ 32, GetmemGrants m blocks n ↔ n ≤ 2 ^ 32 - 8 ∨ blocks = []) ∧
    (∀ n < 2 ^ 32, GetstkGrants m blocks n ↔ n ≤ 2 ^ 32 - 8 ∨ blocks = []) ∧
    (∀ n < 2 ^ 32, MallocGrants m held n ↔ Refused blocks n ∨ n ≤ 2 ^ 32 - 16) ∧
    ∀ nmemb < 2 ^ 32, ∀ size < 2 ^ 32, CallocGrants m held nmemb size ↔
      Refused blocks (nmemb * size % 2 ^ 32) ∨ nmemb * size ≤ 2 ^ 32 - 16 :=
  ⟨fun _ small => getmem_grants_iff heap small, fun _ small => getstk_grants_iff heap.list small,
    fun _ small => malloc_grants_iff heap apart small, fun nmemb _ size _ => calloc_grants_iff heap apart nmemb size⟩

theorem freshHeap_wellFormed : WellFormed freshHeap [⟨0x20002000, 0x1d000⟩] := by
  refine ⟨freshHeap_list, fun b member => ?_⟩
  rw [List.mem_singleton.mp member]
  decide

/-- On a fresh heap `calloc` of ten elements of eight bytes keeps its promise. -/
theorem freshHeap_calloc : CallocGrants freshHeap [] 10 8 :=
  ((allocation_exact freshHeap_wellFormed (by simp)).2.2.2 10 (by decide) 8 (by decide)).mpr (Or.inr (by decide))

/-- `calloc` of 65537 elements of 65536 bytes returns a block of 65536 bytes, and `getmem` of
`2 ^ 32 - 1` bytes a block that stays free. -/
theorem allocation_wraps :
    WellFormed freshHeap [⟨0x20002000, 0x1d000⟩] ∧ ¬ CallocGrants freshHeap [] 65537 65536 ∧
      ¬ GetmemGrants freshHeap [⟨0x20002000, 0x1d000⟩] (2 ^ 32 - 1) := by
  refine ⟨freshHeap_wellFormed, fun grants => ?_, fun grants => ?_⟩
  · have fits := (calloc_grants_iff freshHeap_wellFormed (by simp) 65537 65536).mp grants
    simp [Refused, Small, roundmb, add32] at fits
  · have fits := (getmem_grants_iff freshHeap_wellFormed (by decide)).mp grants
    simp at fits

end Mem

end XinuStm32
