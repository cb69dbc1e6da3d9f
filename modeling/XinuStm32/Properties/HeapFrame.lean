import XinuStm32.Properties.DoubleFree

/-!
# What heap calls write

`malloc` and `free` write the headers of the list and of the block they are about, eight bytes each, and nothing else.
So what is in a free block behind its header stays there, and so does what is in a block that is given out. This holds
for every grain, also where a rest of four bytes has no room for its header.
-/

namespace XinuStm32

open FreeBlocks

namespace Mem

variable {m m' : Mem} {blocks front back : List Block} {b : Block} {a n : Nat}

/-- The headers of the blocks. -/
def headers (blocks : List Block) : List Block := blocks.map fun b => ⟨b.addr, 8⟩

theorem headers_roomy (blocks : List Block) : Roomy (headers blocks) := by
  intro c member
  obtain ⟨b, -, rfl⟩ := List.mem_map.mp member
  exact Nat.le_refl 8

theorem headers_append : headers (front ++ back) = headers front ++ headers back := List.map_append

theorem lastNode_headers (front : List Block) : lastNode (headers front) = lastNode front := by
  simp [lastNode, headers, Function.comp_def]

theorem header_mem (member : b ∈ blocks) : ∃ c ∈ headers blocks, c.addr ≤ b.addr ∧ b.addr + 8 ≤ c.limit :=
  ⟨⟨b.addr, 8⟩, List.mem_map_of_mem member, Nat.le_refl _, Nat.le_refl _⟩

theorem covers_headers {x : Nat} : Covers (headers blocks) x ↔ ∃ b ∈ blocks, b.addr ≤ x ∧ x < b.addr + 8 := by
  simp [Covers, headers, Block.Covers, Block.limit]

/-! ## `getmem` and `malloc` -/

/-- `getmem` writes headers of the list as it is then. -/
theorem FreeList.getmem_edits (list : m.FreeList blocks) (grained : Grained 4 blocks) (nonzero : n ≠ 0)
    (found : m.getmem n = some (a, m')) : EditsOnly (headers m'.freeList) m m' := by
  have scan := @getmemScan_spec m [] blocks (roundmb n) walkFuel m.mnext list.enough_fuel list.links list.pointers
  rw [getmem, if_neg nonzero] at found
  rw [lastNode_nil] at scan
  rw [found] at scan
  obtain ⟨-, none⟩ | ⟨front, b, back, rfl, -, fits, taken⟩ := scan
  · cases none
  · have clear (less : roundmb n < b.size) (c : Block) (member : c ∈ back) : b.addr + roundmb n + 8 ≤ c.addr := by
      have apart := (List.pairwise_cons.mp (List.pairwise_append.mp list.canonical.apart).2.1).1 c member
      have grains := grained b (by simp)
      have grains' := grained c (by simp [member])
      have rounded := roundmb_dvd n
      simp only [Block.limit] at apart
      omega
    have next := (list.taken_low (roundmb_cases n) fits clear).list
    rw [List.nil_append, Option.some.injEq, Prod.mk.injEq] at taken
    obtain ⟨-, rfl⟩ := taken
    rw [next.eq_freeList, headers_append, headers_append, ← lastNode_headers]
    have sub : headers front ⊆ headers front ++ headers (remainder b (roundmb n)) ++ headers back := by
      intro c member
      rw [List.mem_append, List.mem_append]
      exact .inl (.inl member)
    by_cases whole : b.size = roundmb n
    · rw [if_pos whole]
      exact ((headers_roomy front).editsOnly_last sub _).withLength _
    · have less : roundmb n < b.size := by omega
      rw [if_neg whole, lastNode_headers, list.takeLow_eq (roundmb_cases n) less, ← lastNode_headers]
      have node : ∃ c ∈ headers front ++ headers (remainder b (roundmb n)) ++ headers back,
          c.addr ≤ b.addr + roundmb n ∧ b.addr + roundmb n + 8 ≤ c.limit := by
        refine ⟨⟨b.addr + roundmb n, 8⟩, ?_, Nat.le_refl _, Nat.le_refl _⟩
        rw [remainder, if_neg whole]
        simp [headers]
      exact ((headers_roomy front).editsOnly_link (b := ⟨b.addr + roundmb n, b.size - roundmb n⟩) sub _
        node).withLength _

/-- What `malloc` gives out: a block that was free, apart from the headers that stay. -/
structure Given (m : Mem) (blocks : List Block) (a size : Nat) (m' : Mem) (blocks' : List Block) : Prop where
  heap : m'.WellFormed blocks'
  room : 8 ≤ size
  within : ∃ b ∈ blocks, b.addr ≤ a ∧ a + size ≤ b.limit
  covers : ∀ x, Covers blocks' x ↔ Covers blocks x ∧ ¬ (a ≤ x ∧ x < a + size)
  clear : ∀ c ∈ blocks', c.addr + 8 ≤ a ∨ a + size ≤ c.addr
  edits : EditsOnly (⟨a, 8⟩ :: headers blocks') m m'

theorem WellFormed.malloc_given (heap : WellFormed m blocks) (small : n < 2 ^ 32) (granted : (m.malloc n).1 ≠ 0)
    (unwrapped : roundmb (add32 n 8) ≠ 0) :
    ∃ a blocks', (m.malloc n).1 = a + 8 ∧ Given m blocks a (roundmb (add32 n 8)) (m.malloc n).2 blocks' := by
  have nonzero : n ≠ 0 := by
    rintro rfl
    exact granted rfl
  have positive : add32 n 8 ≠ 0 := by
    intro zero
    rw [zero] at unwrapped
    exact unwrapped rfl
  obtain ⟨-, none⟩ | ⟨a, m', blocks', found, taken, clear⟩ := heap.list.getmem_spec heap.grained positive
  · rw [malloc, if_neg nonzero] at granted
    simp only [none] at granted
    exact absurd rfl granted
  · have edits := heap.list.getmem_edits heap.grained positive found
    rw [taken.list.eq_freeList] at edits
    have inHeap := taken.in_heap heap.list
    have bound := heap.list.high
    have room : 8 ≤ roundmb (add32 n 8) := (roundmb_cases _).resolve_left unwrapped
    have whole := roundmb_dvd (add32 n 8)
    have pointer : (m.malloc n).1 = a + 8 := by
      rw [malloc, if_neg nonzero]
      simp only [found]
      exact add32_of_lt (by omega)
    have memory : (m.malloc n).2 = (m'.setNext (some a) a).setLength (some a) (add32 n 8) := by
      rw [malloc, if_neg nonzero]
      simp only [found]
    rw [memory]
    refine ⟨a, blocks', pointer, ?_, room, taken.free, taken.covers, clear, ?_⟩
    · exact ⟨taken.list_frame clear rfl ⟨rfl, rfl⟩ (malloc_header room),
        (taken.grained 4 (Nat.dvd_trans (by decide) whole) heap.grained).2⟩
    · have node : ∃ c ∈ ⟨a, 8⟩ :: headers blocks', c.addr ≤ a ∧ a + 8 ≤ c.limit :=
        ⟨⟨a, 8⟩, List.mem_cons_self, Nat.le_refl _, Nat.le_refl _⟩
      have wider : EditsOnly (⟨a, 8⟩ :: headers blocks') m m' := by
        refine ⟨edits.minheap, edits.maxheap, fun x outside => edits.ram x fun covered => outside ?_⟩
        rw [covers_cons]
        exact .inr covered
      exact wider.trans ((editsOnly_setNext a fun c same => Option.some.inj same ▸ node).trans
        (editsOnly_setLength _ node))

variable {size : Nat} {blocks' : List Block}

theorem Given.were_free (given : Given m blocks a size m' blocks') {x : Nat} (low : a ≤ x) (high : x < a + size) :
    Covers blocks x := by
  obtain ⟨b, member, first, last⟩ := given.within
  exact ⟨b, member, by omega, by omega⟩

theorem Given.limit_lt (given : Given m blocks a size m' blocks') (list : m.FreeList blocks) :
    0 < a ∧ a + size < 2 ^ 32 := by
  obtain ⟨b, member, first, last⟩ := given.within
  obtain ⟨pointer, -, inSpace⟩ := list.inside member
  omega

/-- The list is still there after stores into the block. -/
theorem Given.store (given : Given m blocks a size m' blocks') {ram : Nat → UInt8}
    (same : ∀ x, ¬ (a ≤ x ∧ x < a + size) → ram x = m'.ram x) : WellFormed { m' with ram } blocks' := by
  refine ⟨given.heap.list.frame rfl ⟨rfl, rfl⟩ fun c member x low high => same x ?_, given.heap.grained⟩
  cases given.clear c member with
  | inl before => omega
  | inr behind => omega

/-- Behind the header of a block that stays free nothing is written. -/
theorem Given.kept (given : Given m blocks a size m' blocks') {c : Block} (member : c ∈ blocks') {x : Nat}
    (low : c.addr + 8 ≤ x) (high : x < c.limit) : m'.ram x = m.ram x := by
  apply given.edits.ram
  rw [covers_cons, covers_headers]
  intro edited
  cases edited with
  | inl own =>
    have free := ((given.covers x).mp ⟨c, member, by omega, high⟩).2
    have room := given.room
    simp only [Block.Covers, Block.limit] at own
    omega
  | inr other =>
    obtain ⟨d, among, first, last⟩ := other
    obtain ⟨front, back, rfl⟩ := List.append_of_mem member
    obtain ⟨-, laid, across⟩ := given.heap.list.laid.append
    obtain ⟨-, apart, -⟩ := List.pairwise_append.mp given.heap.list.canonical.apart
    cases List.mem_append.mp among with
    | inl before =>
      have header := across d before c List.mem_cons_self
      omega
    | inr behind =>
      cases List.mem_cons.mp behind with
      | inl same =>
        rw [same] at last
        omega
      | inr behind =>
        have limit := (List.pairwise_cons.mp apart).1 d behind
        omega

/-- Nor is anything written behind the header of the block. -/
theorem Given.fresh (given : Given m blocks a size m' blocks') {x : Nat} (low : a + 8 ≤ x) (high : x < a + size) :
    m'.ram x = m.ram x := by
  apply given.edits.ram
  rw [covers_cons, covers_headers]
  intro edited
  cases edited with
  | inl own =>
    simp only [Block.Covers, Block.limit] at own
    omega
  | inr other =>
    obtain ⟨c, member, first, last⟩ := other
    have clear := given.clear c member
    omega

/-! ## `free` -/

theorem editsOnly_joinPrev {top block next : Nat} {prev : Option Nat}
    (last : ∀ c, prev = some c → ∃ b ∈ blocks, b.addr ≤ c ∧ c + 8 ≤ b.limit)
    (here : ∃ b ∈ blocks, b.addr ≤ block ∧ block + 8 ≤ b.limit) :
    EditsOnly blocks m (m.joinPrev top prev block next n).2 ∧
      ∃ b ∈ blocks, b.addr ≤ (m.joinPrev top prev block next n).1 ∧
        (m.joinPrev top prev block next n).1 + 8 ≤ b.limit := by
  have alone : EditsOnly blocks m (((m.setNext (some block) next).setLength (some block) n).setNext prev block) := by
    have first : EditsOnly blocks m (m.setNext (some block) next) :=
      editsOnly_setNext next fun c same => Option.some.inj same ▸ here
    exact (first.trans (editsOnly_setLength n here)).trans (editsOnly_setNext block last)
  cases prev with
  | none => exact ⟨alone, here⟩
  | some c =>
    rw [joinPrev]
    split
    · exact ⟨editsOnly_setLength _ (last c rfl), last c rfl⟩
    · exact ⟨alone, here⟩

/-- A release writes the header of the block and of the one before it. -/
theorem editsOnly_release_headers :
    EditsOnly (⟨a, 8⟩ :: headers (front ++ back)) m (m.release (lastNode front) a (firstNode back) n) := by
  have here : ∃ c ∈ ⟨a, 8⟩ :: headers (front ++ back), c.addr ≤ a ∧ a + 8 ≤ c.limit :=
    ⟨⟨a, 8⟩, List.mem_cons_self, Nat.le_refl _, Nat.le_refl _⟩
  have last (c : Nat) (node : lastNode front = some c) :
      ∃ d ∈ ⟨a, 8⟩ :: headers (front ++ back), d.addr ≤ c ∧ c + 8 ≤ d.limit := by
    obtain ⟨f, member, rfl⟩ := lastNode_block node
    obtain ⟨d, among, inside⟩ := header_mem (List.mem_append_left back member)
    exact ⟨d, List.mem_cons_of_mem _ among, inside⟩
  have count : EditsOnly (⟨a, 8⟩ :: headers (front ++ back)) m { m with mlength := add32 m.mlength n } :=
    ⟨rfl, rfl, fun _ _ => rfl⟩
  have joined := @editsOnly_joinPrev { m with mlength := add32 m.mlength n } _ n (m.topOf (lastNode front)) a
    (firstNode back) (lastNode front) last here
  rw [release]
  exact count.trans (joined.1.trans (editsOnly_joinNext _ joined.2))

/-- `free` writes the header of its block and headers of the list. -/
theorem FreeList.free_edits (list : m.FreeList blocks) (small : a + 8 < 2 ^ 32) :
    EditsOnly (⟨a, 8⟩ :: headers blocks) m (m.free (a + 8)) := by
  have unchanged : EditsOnly (⟨a, 8⟩ :: headers blocks) m m := ⟨rfl, rfl, fun _ _ => rfl⟩
  have block : sub32 (a + 8) 8 = a := by
    rw [sub32_of_le (by omega) small, Nat.add_sub_cancel]
  rw [Mem.free, block]
  split
  · exact unchanged
  · generalize m.length (some a) = n
    by_cases guard : n = 0 ∨ a < m.minheap ∨ a > m.maxheap
    · rw [freemem, if_pos guard]
      exact unchanged
    · obtain ⟨front, back, rfl, -, -, accepts, refuses⟩ :=
        list.freemem_spec (n := n) (a := a) (by omega) ⟨by omega, by omega⟩
      by_cases fits : (∀ f ∈ front, f.limit ≤ a) ∧ ∀ c ∈ back, add32 a (roundmb n) ≤ c.addr
      · rw [accepts fits]
        exact editsOnly_release_headers
      · rw [refuses fits]
        exact unchanged

/-- So a block that was given out keeps its bytes when another one is freed. -/
theorem Given.free_kept (given : Given m blocks a size m' blocks') {h : Nat} (small : h + 8 < 2 ^ 32)
    (apart : h + 8 ≤ a ∨ a + size ≤ h) {ram : Nat → UInt8}
    (same : ∀ x, ¬ (a ≤ x ∧ x < a + size) → ram x = m'.ram x) {x : Nat} (low : a ≤ x) (high : x < a + size) :
    (Mem.free (h + 8) { m' with ram }).ram x = ram x := by
  apply ((given.store same).list.free_edits small).ram
  rw [covers_cons, covers_headers]
  intro edited
  cases edited with
  | inl own =>
    simp only [Block.Covers, Block.limit] at own
    omega
  | inr other =>
    obtain ⟨c, member, first, last⟩ := other
    have clear := given.clear c member
    omega

end Mem

end XinuStm32
