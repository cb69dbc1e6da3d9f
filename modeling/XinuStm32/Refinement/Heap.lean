import XinuStm32.Refinement.FreeList

/-!
# What the allocator does to the free list

`getmem` takes the low end of the first block that fits, `getstk` the high end of the last one, and
`freemem` gives a block back and joins it with the blocks it touches.
-/

namespace XinuStm32

open FreeBlocks

namespace Mem

variable {m m' : Mem} {b : Block} {front back blocks blocks' : List Block}

theorem FreeList.withLength (list : m.FreeList blocks) (value : Nat) :
    ({ m with mlength := value } : Mem).FreeList blocks :=
  ⟨list.links.congr rfl, list.canonical, list.laid, list.low, list.high⟩

theorem EditsOnly.withLength (edits : EditsOnly blocks m m') (value : Nat) :
    EditsOnly blocks m { m' with mlength := value } :=
  ⟨edits.minheap, edits.maxheap, edits.ram⟩

/-! ## The initial list -/

/-- `meminit` makes the heap one free block. -/
theorem meminit_freeList {endAddr : Nat} (positive : 0 < endAddr) (below : endAddr < MAXADDR - HANDLERSTACK)
    (ram : Nat → UInt8) :
    (meminit endAddr ram).FreeList [⟨endAddr, MAXADDR - HANDLERSTACK - endAddr⟩] := by
  have size : sub32 (MAXADDR - HANDLERSTACK) endAddr = MAXADDR - HANDLERSTACK - endAddr :=
    sub32_of_le (Nat.le_of_lt below) (by decide)
  have fits : MAXADDR - HANDLERSTACK - endAddr < 2 ^ 32 :=
    Nat.lt_of_le_of_lt (Nat.sub_le _ _) (by decide)
  refine ⟨⟨rfl, ?_, ?_⟩, ⟨by simp, ?_⟩, List.pairwise_singleton _ _, positive,
    show MAXADDR - HANDLERSTACK + 8 < 2 ^ 32 by decide⟩
  · simp only [meminit, size]
    exact length_setLength fits
  · simp only [meminit, next_setLength]
    exact next_setNext (by decide)
  · intro b member
    rw [List.mem_singleton.mp member]
    change endAddr ≤ endAddr ∧ 0 < MAXADDR - HANDLERSTACK - endAddr ∧
      endAddr + (MAXADDR - HANDLERSTACK - endAddr) ≤ MAXADDR - HANDLERSTACK
    omega

/-! ## Taking a whole block -/

theorem Links.unlink (links : m.Links m.mnext (front ++ b :: back) 0) (laid : Laid (front ++ b :: back)) :
    (m.setNext (lastNode front) (m.next (some b.addr))).Links
      (m.setNext (lastNode front) (m.next (some b.addr))).mnext (front ++ back) 0 := by
  obtain ⟨r, before, rfl, -, behind⟩ := links_append.mp links
  have clear : Clear (lastNode front) back := fun a last c member =>
    laid.clear_last a last c (List.mem_cons_of_mem _ member)
  exact links_append.mpr
    ⟨_, before.redirect laid.append.1 (Words.load_lt m.ram b.addr), behind.setNext clear _⟩

theorem Laid.unlink (laid : Laid (front ++ b :: back)) : Laid (front ++ back) := by
  obtain ⟨laidFront, laidBack, across⟩ := laid.append
  exact List.pairwise_append.mpr ⟨laidFront, (List.pairwise_cons.mp laidBack).2,
    fun f inFront c inBack => across f inFront c (List.mem_cons_of_mem _ inBack)⟩

theorem FreeList.unlink (list : m.FreeList (front ++ b :: back)) :
    (m.setNext (lastNode front) (m.next (some b.addr))).FreeList (front ++ back) := by
  have canonical : Canonical m.minheap m.maxheap (front ++ [] ++ back) := list.canonical.middle (Or.inl rfl)
  rw [List.append_nil] at canonical
  exact ⟨list.links.unlink list.laid, by simpa using canonical, list.laid.unlink, by simpa using list.low,
    by simpa using list.high⟩

/-! ## Shortening and enlarging a block -/

/-- Storing another length changes one block. -/
theorem Links.resize (links : m.Links m.mnext (front ++ b :: back) 0) (laid : Laid (front ++ b :: back))
    {size : Nat} (fits : size < 2 ^ 32) :
    (m.setLength (some b.addr) size).Links (m.setLength (some b.addr) size).mnext
      (front ++ ⟨b.addr, size⟩ :: back) 0 := by
  obtain ⟨-, laidBack, across⟩ := laid.append
  obtain ⟨r, before, rfl, -, behind⟩ := links_append.mp links
  have clearFront : Clear (some b.addr) front := fun a same c member => by
    rw [← Option.some.inj same]
    exact Or.inr (across c member b List.mem_cons_self)
  have clearBack : Clear (some b.addr) back := fun a same c member => by
    rw [← Option.some.inj same]
    exact Or.inl ((List.pairwise_cons.mp laidBack).1 c member)
  refine links_append.mpr ⟨_, before.setLength clearFront size, rfl, length_setLength fits, ?_⟩
  rw [next_setLength]
  exact behind.setLength clearBack size

theorem Laid.resize (laid : Laid (front ++ b :: back)) (size : Nat) :
    Laid (front ++ ⟨b.addr, size⟩ :: back) := by
  obtain ⟨laidFront, laidBack, across⟩ := laid.append
  refine List.pairwise_append.mpr
    ⟨laidFront, List.pairwise_cons.mpr (List.pairwise_cons.mp laidBack), fun f inFront c inBack => ?_⟩
  obtain rfl | inBack := List.mem_cons.mp inBack
  · exact across f inFront b List.mem_cons_self
  · exact across f inFront c (List.mem_cons_of_mem _ inBack)

theorem FreeList.resize (list : m.FreeList (front ++ b :: back)) {size : Nat} (fits : size < 2 ^ 32)
    (canonical : Canonical m.minheap m.maxheap (front ++ ⟨b.addr, size⟩ :: back)) :
    (m.setLength (some b.addr) size).FreeList (front ++ ⟨b.addr, size⟩ :: back) :=
  ⟨list.links.resize list.laid fits, canonical, list.laid.resize size, list.low, list.high⟩

/-! ## A new block -/

/-- Write the header of a block and lead the link behind the first blocks to it. -/
def link (prev : Option Nat) (b : Block) (next : Nat) (m : Mem) : Mem :=
  ((m.setNext (some b.addr) next).setLength (some b.addr) b.size).setNext prev b.addr

/-- Linking in a block whose header is clear of the others. -/
theorem Links.link {q next : Nat} (links : m.Links m.mnext front q) (behind : m.Links next back 0)
    (laid : Laid (front ++ b :: back)) (pointer : b.addr < 2 ^ 32) (fits : b.size < 2 ^ 32)
    (nextFits : next < 2 ^ 32) :
    (m.link (lastNode front) b next).Links (m.link (lastNode front) b next).mnext (front ++ b :: back) 0 := by
  obtain ⟨laidFront, laidBack, across⟩ := laid.append
  have first := (List.pairwise_cons.mp laidBack).1
  have clear : Clear (lastNode front) (b :: back) := laid.clear_last
  have clearFront : Clear (some b.addr) front := fun a same c member => by
    rw [← Option.some.inj same]
    exact Or.inr (across c member b List.mem_cons_self)
  have clearBack : Clear (some b.addr) back := fun a same c member => by
    rw [← Option.some.inj same]
    exact Or.inl (first c member)
  have clearHeader : Clear (lastNode front) [⟨b.addr, 8⟩] := fun a last c member => by
    rw [List.mem_singleton.mp member]
    exact clear a last b List.mem_cons_self
  refine links_append.mpr ⟨_, ((links.setNext clearFront _).setLength clearFront _).redirect laidFront pointer,
    rfl, ?_, ?_⟩
  · rw [Mem.link, (setNext_other clearHeader).2, length_setLength fits]
  · rw [Mem.link, (setNext_other clearHeader).1, next_setLength, next_setNext nextFits]
    exact ((behind.setNext clearBack _).setLength clearBack _).setNext
      (fun a last c member => clear a last c (List.mem_cons_of_mem _ member)) _

/-- The link and the header can be written in either order. -/
theorem link_comm {prev : Option Nat} {next : Nat} (clear : Clear prev [b]) :
    m.link prev b next =
      ((m.setNext prev b.addr).setNext (some b.addr) next).setLength (some b.addr) b.size := by
  cases prev with
  | none => rfl
  | some a =>
    have apart := clear a rfl b (List.mem_singleton.mpr rfl)
    simp only [link, setNext, setLength, poke]
    rw [Words.store_comm (a := a) (by omega), Words.store_comm (a := a) (by omega)]

/-- Linking in a block edits the block and the last one before it. -/
theorem Roomy.editsOnly_link (roomy : Roomy front) (sub : front ⊆ blocks) (next : Nat)
    (node : ∃ c ∈ blocks, c.addr ≤ b.addr ∧ b.addr + 8 ≤ c.limit) :
    EditsOnly blocks m (m.link (lastNode front) b next) := by
  have header : EditsOnly blocks m (m.setNext (some b.addr) next) :=
    editsOnly_setNext _ fun a same => Option.some.inj same ▸ node
  exact header.trans ((editsOnly_setLength _ node).trans (roomy.editsOnly_last sub _))

/-! ## Taking the low end of a block -/

/-- What `takeLow` stores: the rest of the block is linked in for the block. -/
theorem FreeList.takeLow_eq (list : m.FreeList (front ++ b :: back)) {n : Nat} (large : n = 0 ∨ 8 ≤ n)
    (less : n < b.size) :
    m.takeLow n (lastNode front) b.addr =
      { m.link (lastNode front) ⟨b.addr + n, b.size - n⟩ (m.next (some b.addr)) with
        mlength := sub32 m.mlength n } := by
  obtain ⟨r, -, -, size, -⟩ := links_append.mp list.links
  obtain ⟨pointer, -, inSpace⟩ := list.inside (b := b) (by simp)
  simp only [Block.limit] at inSpace
  have sum : add32 b.addr n = b.addr + n := add32_of_lt (by omega)
  have difference : sub32 b.size n = b.size - n := sub32_of_le (by omega) (by omega)
  have clear : Clear (lastNode front) (b :: back) := list.laid.clear_last
  have header : Clear (lastNode front) [⟨b.addr, 8⟩] := fun a last c member => by
    rw [List.mem_singleton.mp member]
    exact clear a last b List.mem_cons_self
  have left : Clear (lastNode front) [⟨b.addr + n, b.size - n⟩] := fun a last c member => by
    obtain ⟨f, inFront, rfl⟩ := lastNode_block last
    have apart := list.laid.append.2.2 f inFront b List.mem_cons_self
    rw [List.mem_singleton.mp member]
    exact Or.inl (by simp only; omega)
  have length : ∀ value, ((m.setNext (lastNode front) (b.addr + n)).setNext (some (b.addr + n)) value).length
      (some b.addr) = b.size := fun value => by
    obtain rfl | large := large
    · rw [Nat.add_zero, length_setNext, (setNext_other header).2, size]
    · rw [(setNext_other fun a same c member => ?_).2, (setNext_other header).2, size]
      rw [List.mem_singleton.mp member, ← Option.some.inj same]
      exact Or.inr (by simp only; omega)
  rw [link_comm left]
  simp only [takeLow, sum, (setNext_other header).1, length, difference, mlength_setLength, mlength_setNext]

theorem FreeList.takeLow (list : m.FreeList (front ++ b :: back)) {n : Nat} (large : n = 0 ∨ 8 ≤ n)
    (less : n < b.size) (clear : ∀ c ∈ back, b.addr + n + 8 ≤ c.addr) :
    (m.takeLow n (lastNode front) b.addr).FreeList (front ++ ⟨b.addr + n, b.size - n⟩ :: back) := by
  rw [list.takeLow_eq large less]
  obtain ⟨laidFront, laidBack, across⟩ := list.laid.append
  obtain ⟨r, before, rfl, -, behind⟩ := links_append.mp list.links
  obtain ⟨pointer, -, inSpace⟩ := list.inside (b := b) (by simp)
  simp only [Block.limit] at inSpace
  have laid : Laid (front ++ ⟨b.addr + n, b.size - n⟩ :: back) :=
    List.pairwise_append.mpr ⟨laidFront,
      List.pairwise_cons.mpr ⟨clear, (List.pairwise_cons.mp laidBack).2⟩, fun f inFront c inBack => by
        obtain rfl | inBack := List.mem_cons.mp inBack
        · exact Nat.le_trans (across f inFront b List.mem_cons_self) (Nat.le_add_right _ _)
        · exact across f inFront c (List.mem_cons_of_mem _ inBack)⟩
  have canonical : Canonical m.minheap m.maxheap (front ++ [⟨b.addr + n, b.size - n⟩] ++ back) := by
    refine list.canonical.middle (Or.inr ⟨_, rfl, ?_⟩)
    simp only [Block.limit]
    omega
  rw [List.append_assoc, List.singleton_append] at canonical
  have links := before.link (b := ⟨b.addr + n, b.size - n⟩) behind laid (by simp only; omega)
    (by simp only; omega) (Words.load_lt m.ram b.addr)
  have linked : (m.link (lastNode front) ⟨b.addr + n, b.size - n⟩ (m.next (some b.addr))).FreeList
      (front ++ ⟨b.addr + n, b.size - n⟩ :: back) :=
    ⟨links, by simpa [Mem.link] using canonical, laid, by simpa [Mem.link] using list.low,
      by simpa [Mem.link] using list.high⟩
  exact linked.withLength _

/-! ## Taking the high end of a block -/

/-- What `takeHigh` returns and stores. -/
theorem FreeList.takeHigh_eq (list : m.FreeList (front ++ b :: back)) {n : Nat} (fits : n ≤ b.size) :
    m.takeHigh n b.addr = (b.limit - n, m.setLength (some b.addr) (b.size - n)) := by
  obtain ⟨r, -, -, size, -⟩ := links_append.mp list.links
  obtain ⟨pointer, -, inSpace⟩ := list.inside (b := b) (by simp)
  simp only [Block.limit] at inSpace ⊢
  have difference : sub32 b.size n = b.size - n := sub32_of_le fits (by omega)
  have left : (m.setLength (some b.addr) (b.size - n)).length (some b.addr) = b.size - n :=
    length_setLength (by omega)
  have sum : add32 b.addr (b.size - n) = b.addr + b.size - n := by
    rw [add32_of_lt (by omega)]
    omega
  simp only [takeHigh, size, difference, left, sum]

/-! ## Allocation -/

/-- An allocation of `n` bytes at address `a`: the bytes were free, and exactly they leave the free
list. -/
structure Taken (m : Mem) (blocks : List Block) (a n : Nat) (m' : Mem) (blocks' : List Block) : Prop where
  list : m'.FreeList blocks'
  bounds : m'.minheap = m.minheap ∧ m'.maxheap = m.maxheap
  mlength : m'.mlength = sub32 m.mlength n
  free : ∃ b ∈ blocks, b.addr ≤ a ∧ a + n ≤ b.limit
  covers : ∀ x, Covers blocks' x ↔ Covers blocks x ∧ ¬ (a ≤ x ∧ x < a + n)
  total : total blocks' + n = total blocks
  grained : ∀ g, g ∣ n → Grained g blocks → g ∣ a ∧ Grained g blocks'
  edits : Roomy blocks → Roomy blocks' → EditsOnly blocks m m'

theorem roundmb_dvd (n : Nat) : 8 ∣ roundmb n := Nat.dvd_mul_left 8 _

theorem roundmb_cases (n : Nat) : roundmb n = 0 ∨ 8 ≤ roundmb n := by
  obtain ⟨k, whole⟩ := roundmb_dvd n
  omega

/-- The low end of a block, as `getmem` takes it. -/
theorem FreeList.taken_low (list : m.FreeList (front ++ b :: back)) {n : Nat} (large : n = 0 ∨ 8 ≤ n)
    (fits : n ≤ b.size) (clear : n < b.size → ∀ c ∈ back, b.addr + n + 8 ≤ c.addr) :
    Taken m (front ++ b :: back) b.addr n
      (if b.size = n then m.takeExact n (lastNode front) b.addr else m.takeLow n (lastNode front) b.addr)
      (front ++ remainder b n ++ back) := by
  have free : ∃ c ∈ front ++ b :: back, c.addr ≤ b.addr ∧ b.addr + n ≤ c.limit :=
    ⟨b, by simp, Nat.le_refl _, Nat.add_le_add_left fits _⟩
  have grained : ∀ g, g ∣ n → Grained g (front ++ b :: back) →
      g ∣ b.addr ∧ Grained g (front ++ remainder b n ++ back) :=
    fun g whole grained => ⟨(grained b (by simp)).1, grained.remainder whole⟩
  by_cases whole : b.size = n
  · rw [if_pos whole]
    refine ⟨?_, by simp [takeExact], by simp [takeExact], free, list.canonical.covers_low fits,
      total_remainder fits, grained, fun roomy _ => ?_⟩
    · rw [remainder, if_pos whole, List.append_nil]
      exact list.unlink.withLength _
    · have roomyFront : Roomy front := fun c member => roomy c (List.mem_append_left _ member)
      exact (roomyFront.editsOnly_last (List.subset_append_left _ _) _).withLength _
  · have less : n < b.size := by omega
    rw [if_neg whole]
    refine ⟨?_, ?_, ?_, free, list.canonical.covers_low fits, total_remainder fits, grained,
      fun roomy roomy' => ?_⟩
    · rw [remainder, if_neg whole, List.append_assoc, List.singleton_append]
      exact list.takeLow large less (clear less)
    · rw [list.takeLow_eq large less]
      simp [link]
    · rw [list.takeLow_eq large less]
    · rw [list.takeLow_eq large less]
      have roomyFront : Roomy front := fun c member => roomy c (List.mem_append_left _ member)
      have left : 8 ≤ b.size - n := by
        apply roomy' ⟨b.addr + n, b.size - n⟩
        rw [remainder, if_neg whole]
        simp
      refine (roomyFront.editsOnly_link (List.subset_append_left _ _) _ ⟨b, by simp, ?_⟩).withLength _
      simp only [Block.limit]
      omega

/-- No header of the blocks that are left reaches into what `getmem` took. -/
theorem FreeList.low_clear (list : m.FreeList (front ++ b :: back)) {n : Nat} (fits : n ≤ b.size) :
    ∀ c ∈ front ++ remainder b n ++ back, c.addr + 8 ≤ b.addr ∨ b.addr + n ≤ c.addr := by
  intro c member
  rw [List.mem_append, List.mem_append] at member
  obtain (member | member) | member := member
  · exact Or.inl (list.laid.append.2.2 c member b List.mem_cons_self)
  · rw [remainder] at member
    split at member
    · cases member
    · rw [List.mem_singleton.mp member]
      exact Or.inr (Nat.le_refl _)
  · have apart := (List.pairwise_cons.mp (List.pairwise_append.mp list.canonical.apart).2.1).1 c member
    simp only [Block.limit] at apart
    omega

/-- `getmem` returns `SYSERR` when no block is large enough, and else takes the low end of one. -/
theorem FreeList.getmem_spec (list : m.FreeList blocks) (grained : Grained 4 blocks) {n : Nat}
    (nonzero : n ≠ 0) :
    (∀ b ∈ blocks, b.size < roundmb n) ∧ m.getmem n = none ∨
      ∃ a m' blocks', m.getmem n = some (a, m') ∧ Taken m blocks a (roundmb n) m' blocks' ∧
        ∀ c ∈ blocks', c.addr + 8 ≤ a ∨ a + roundmb n ≤ c.addr := by
  have scan := @getmemScan_spec m [] blocks (roundmb n) walkFuel m.mnext list.enough_fuel list.links list.pointers
  rw [getmem, if_neg nonzero]
  obtain none | ⟨front, b, back, rfl, -, fits, found⟩ := scan
  · exact Or.inl none
  · refine Or.inr ⟨_, _, _, found, list.taken_low (roundmb_cases n) fits fun less c member => ?_,
      list.low_clear fits⟩
    have apart := (List.pairwise_cons.mp (List.pairwise_append.mp list.canonical.apart).2.1).1 c member
    have grains := grained b (by simp)
    have grains' := grained c (by simp [member])
    have rounded := roundmb_dvd n
    simp only [Block.limit] at apart
    omega

/-- The high end of a block, as `getstk` takes it. -/
theorem FreeList.taken_high (list : m.FreeList (front ++ b :: back)) {n : Nat} (fits : n ≤ b.size) :
    ∃ m', Taken m (front ++ b :: back) (b.limit - n) n { m' with mlength := sub32 m'.mlength n }
        (front ++ shortened b n ++ back) ∧
      (if n = m.length (some b.addr) then (b.addr, m.setNext (lastNode front) (m.next (some b.addr)))
        else m.takeHigh n b.addr) = (b.limit - n, m') := by
  obtain ⟨r, -, -, size, -⟩ := links_append.mp list.links
  have free : ∃ c ∈ front ++ b :: back, c.addr ≤ b.limit - n ∧ b.limit - n + n ≤ c.limit := by
    refine ⟨b, by simp, ?_⟩
    simp only [Block.limit]
    omega
  have grained : ∀ g, g ∣ n → Grained g (front ++ b :: back) →
      g ∣ b.limit - n ∧ Grained g (front ++ shortened b n ++ back) := fun g whole grained =>
    have here := grained b (by simp)
    ⟨Nat.dvd_sub (Nat.dvd_add here.1 here.2) whole, grained.shortened whole⟩
  rw [size]
  by_cases whole : b.size = n
  · rw [if_pos whole.symm]
    refine ⟨m.setNext (lastNode front) (m.next (some b.addr)), ⟨?_, by simp, by simp, free,
      list.canonical.covers_high fits, total_shortened fits, grained, fun roomy _ => ?_⟩, ?_⟩
    · rw [shortened, if_pos whole, List.append_nil]
      exact list.unlink.withLength _
    · have roomyFront : Roomy front := fun c member => roomy c (List.mem_append_left _ member)
      exact (roomyFront.editsOnly_last (List.subset_append_left _ _) _).withLength _
    · rw [Block.limit, whole, Nat.add_sub_cancel]
  · rw [if_neg (Ne.symm whole), list.takeHigh_eq fits]
    refine ⟨_, ⟨?_, by simp, by simp, free, list.canonical.covers_high fits, total_shortened fits, grained,
      fun roomy _ => ?_⟩, rfl⟩
    · have canonical := list.canonical.shortened fits
      obtain ⟨-, -, inSpace⟩ := list.inside (b := b) (by simp)
      simp only [Block.limit] at inSpace
      rw [shortened, if_neg whole, List.append_assoc, List.singleton_append] at canonical ⊢
      exact (list.resize (by omega) canonical).withLength _
    · have room := roomy b (by simp)
      exact (editsOnly_setLength _ ⟨b, by simp, Nat.le_refl _, Nat.add_le_add_left room _⟩).withLength _

/-- `getstk` returns `SYSERR` when no block is large enough, and else takes the high end of one; it
returns the address of the last word taken. -/
theorem FreeList.getstk_spec (list : m.FreeList blocks) {n : Nat} (nonzero : n ≠ 0) :
    (∀ b ∈ blocks, b.size < roundmb n) ∧ m.getstk n = none ∨
      ∃ a m' blocks', m.getstk n = some (sub32 (add32 a (roundmb n)) 4, m') ∧
        Taken m blocks a (roundmb n) m' blocks' := by
  have scan := @getstkScan_spec m [] blocks (roundmb n) walkFuel m.mnext none list.enough_fuel list.links
    list.pointers
  simp only [getstk, if_neg nonzero]
  obtain ⟨small, none⟩ | ⟨front, b, back, rfl, -, fits, found⟩ := scan
  · refine Or.inl ⟨small, ?_⟩
    rw [lastNode_nil] at none
    rw [none]
  · obtain ⟨m', taken, same⟩ := list.taken_high fits
    rw [lastNode_nil, List.nil_append] at found
    refine Or.inr ⟨_, _, _, ?_, taken⟩
    simp only [found, same]

/-! ## Giving a block back -/

/-- The second step of `freemem`: the block takes in the one behind it if they touch. -/
theorem Links.joinNext (links : m.Links m.mnext (front ++ b :: back) 0) (laid : Laid (front ++ b :: back))
    (pointer : 0 < b.addr) (inSpace : ∀ c ∈ b :: back, c.limit < 2 ^ 32) :
    (m.joinNext b.addr (firstNode back)).Links (m.joinNext b.addr (firstNode back)).mnext
      (front ++ joinRight b back) 0 := by
  obtain ⟨r, -, -, size, behind⟩ := links_append.mp links
  have here := inSpace b List.mem_cons_self
  simp only [Block.limit] at here
  have stop : add32 b.addr (m.length (some b.addr)) = b.limit := by
    rw [size]
    exact add32_of_lt here
  rw [Mem.joinNext, stop]
  cases back with
  | nil =>
    rw [if_neg (by simp only [firstNode_nil, Block.limit]; omega)]
    exact links
  | cons c back =>
    rw [firstNode_cons, FreeBlocks.joinRight]
    split
    · next touch =>
      have there := inSpace c (by simp)
      simp only [Block.limit] at touch there
      have sizes : add32 (m.length (some b.addr)) (m.length (some c.addr)) = b.size + c.size := by
        obtain ⟨-, sizeNext, -⟩ := behind
        rw [size, sizeNext]
        exact add32_of_lt (by omega)
      rw [sizes]
      have resized : (m.setLength (some b.addr) (b.size + c.size)).Links
          (m.setLength (some b.addr) (b.size + c.size)).mnext (front ++ ⟨b.addr, b.size + c.size⟩ :: c :: back) 0 :=
        links.resize laid (by omega)
      rw [List.append_cons] at resized
      have laid' : Laid ((front ++ [⟨b.addr, b.size + c.size⟩]) ++ c :: back) := by
        rw [← List.append_cons]
        exact laid.resize _
      have unlinked := resized.unlink laid'
      rw [lastNode_concat, List.append_assoc, List.singleton_append] at unlinked
      exact unlinked
    · exact links

theorem release_some (a next : Nat) :
    m.release (some a) b.addr next b.size =
      let m₁ : Mem := { m with mlength := add32 m.mlength b.size }
      if m.topOf (some a) = b.addr then
        (m₁.setLength (some a) (add32 (m₁.length (some a)) b.size)).joinNext a next
      else (m₁.link (some a) b next).joinNext b.addr next := by
  simp only [release, joinPrev]
  split <;> rfl

/-- No header of these blocks reaches over the address, unless its block ends there. -/
def ClearOf (a : Nat) (front : List Block) : Prop := ∀ f ∈ front, f.limit = a ∨ f.addr + 8 ≤ a

theorem Roomy.clearOf {a : Nat} (roomy : Roomy front) (before : ∀ f ∈ front, f.limit ≤ a) : ClearOf a front := by
  intro f member
  have room := roomy f member
  have stop := before f member
  simp only [Block.limit] at stop
  exact Or.inr (by omega)

/-- Only the last block can end at the address. -/
theorem ClearOf.laid {init : List Block} {a : Block} {addr : Nat} (clear : ClearOf addr (init ++ [a]))
    (laid : Laid (init ++ [a])) (alone : a.limit ≠ addr) :
    ∀ f ∈ init ++ [a], f.addr + 8 ≤ addr := by
  have last : a.addr + 8 ≤ addr := (clear a (by simp)).resolve_left alone
  intro f member
  cases List.mem_append.mp member with
  | inl member =>
    have order := laid.append.2.2 f member a (List.mem_singleton.mpr rfl)
    omega
  | inr member =>
    rw [List.mem_singleton.mp member]
    exact last

theorem Laid.insert (laid : Laid (front ++ back)) (before : ∀ f ∈ front, f.addr + 8 ≤ b.addr)
    (behind : ∀ c ∈ back, b.addr + 8 ≤ c.addr) : Laid (front ++ b :: back) := by
  obtain ⟨laidFront, laidBack, across⟩ := laid.append
  refine List.pairwise_append.mpr
    ⟨laidFront, List.pairwise_cons.mpr ⟨behind, laidBack⟩, fun f inFront c inBack => ?_⟩
  cases List.mem_cons.mp inBack with
  | inl same =>
    rw [same]
    exact before f inFront
  | inr inBack => exact across f inFront c inBack

theorem Laid.joinRight (laid : Laid (front ++ b :: back)) : Laid (front ++ joinRight b back) := by
  cases back with
  | nil => exact laid
  | cons c back =>
    rw [FreeBlocks.joinRight]
    split
    · have shorter : (front ++ b :: back).Sublist (front ++ b :: c :: back) :=
        ((List.sublist_cons_self c back).cons_cons b).append_left front
      exact Laid.resize (List.Pairwise.sublist shorter laid) _
    · exact laid

/-- The headers lie apart after a release. -/
theorem Laid.release (laid : Laid (front ++ back)) (clear : ClearOf b.addr front)
    (behind : ∀ c ∈ back, b.addr + 8 ≤ c.addr) :
    Laid (FreeBlocks.release front b back) := by
  obtain rfl | ⟨init, a, rfl⟩ := List.eq_nil_or_concat' front
  · have alone : Laid ([] ++ b :: back) := laid.insert (by simp) behind
    exact alone.joinRight
  · rw [release_concat]
    split
    · rw [List.append_assoc, List.singleton_append] at laid
      exact (laid.resize _).joinRight
    · next alone =>
      exact (laid.insert (clear.laid laid.append.1 alone) behind).joinRight

/-- The released block is a node of its own, which takes in the block behind it if they touch. -/
theorem FreeList.insert_links (list : m.FreeList (front ++ back)) (laid : Laid (front ++ b :: back))
    (inSpace : b.limit < 2 ^ 32) (pointer : 0 < b.addr) :
    let m₁ : Mem := { m with mlength := add32 m.mlength b.size }
    let m₂ := (m₁.link (lastNode front) b (firstNode back)).joinNext b.addr (firstNode back)
    m₂.Links m₂.mnext (front ++ FreeBlocks.joinRight b back) 0 := by
  intro m₁ m₂
  have links₁ : m₁.Links m₁.mnext (front ++ back) 0 := list.links.congr rfl
  have spaceBack : ∀ c ∈ back, c.limit < 2 ^ 32 := fun c member => (list.inside (by simp [member])).2.2
  have alone : (m₁.link (lastNode front) b (firstNode back)).Links
      (m₁.link (lastNode front) b (firstNode back)).mnext (front ++ b :: back) 0 := by
    obtain ⟨q, linksFront, linksBack⟩ := links_append.mp links₁
    have next : firstNode back < 2 ^ 32 := by
      cases back with
      | nil => simp
      | cons c back =>
        have there := spaceBack c List.mem_cons_self
        simp only [firstNode_cons, Block.limit] at there ⊢
        omega
    simp only [Block.limit] at inSpace
    exact linksFront.link (linksBack.first ▸ linksBack) laid (by omega) (by omega) next
  apply alone.joinNext laid pointer
  intro c member
  cases List.mem_cons.mp member with
  | inl same => exact same ▸ inSpace
  | inr member => exact spaceBack c member

/-- `freemem` gives the block back to the list. -/
theorem FreeList.release_links (list : m.FreeList (front ++ back)) (clear : ClearOf b.addr front)
    (room : 8 ≤ b.size) (inSpace : b.limit < 2 ^ 32) (before : ∀ f ∈ front, f.limit ≤ b.addr)
    (behind : ∀ c ∈ back, b.limit ≤ c.addr) (pointer : 0 < b.addr) :
    (m.release (lastNode front) b.addr (firstNode back) b.size).Links
      (m.release (lastNode front) b.addr (firstNode back) b.size).mnext (FreeBlocks.release front b back) 0 := by
  have after : ∀ c ∈ back, b.addr + 8 ≤ c.addr := fun c member => by
    have start := behind c member
    simp only [Block.limit] at start
    omega
  obtain rfl | ⟨init, a, rfl⟩ := List.eq_nil_or_concat' front
  · exact list.insert_links (list.laid.insert (by simp) after) inSpace pointer
  · obtain ⟨low, -, stop⟩ := list.inside (b := a) (by simp)
    have top : m.topOf (some a.addr) = a.limit := by
      obtain ⟨r, linksFront, -⟩ := links_append.mp list.links
      obtain ⟨-, -, -, size, -⟩ := links_append.mp linksFront
      rw [topOf, size]
      exact add32_of_lt stop
    rw [lastNode_concat, release_some, top, release_concat]
    by_cases touch : a.limit = b.addr
    · -- the block before it grows, and no header is written at the released block
      let m₁ : Mem := { m with mlength := add32 m.mlength b.size }
      have links₁ : m₁.Links m₁.mnext (init ++ a :: back) 0 := by
        have links : m₁.Links m₁.mnext (init ++ [a] ++ back) 0 := list.links.congr rfl
        rwa [List.append_assoc, List.singleton_append] at links
      have laid₁ : Laid (init ++ a :: back) := by
        have laid := list.laid
        rwa [List.append_assoc, List.singleton_append] at laid
      rw [if_pos touch, if_pos touch]
      simp only [Block.limit] at inSpace touch
      have sizes : add32 (m₁.length (some a.addr)) b.size = a.size + b.size := by
        obtain ⟨-, -, -, size, -⟩ := links_append.mp links₁
        rw [size]
        exact add32_of_lt (by omega)
      have resized : (m₁.setLength (some a.addr) (a.size + b.size)).Links
          (m₁.setLength (some a.addr) (a.size + b.size)).mnext (init ++ ⟨a.addr, a.size + b.size⟩ :: back) 0 :=
        links₁.resize laid₁ (by omega)
      rw [sizes]
      apply resized.joinNext (laid₁.resize _) low
      intro c member
      cases List.mem_cons.mp member with
      | inl same =>
        rw [same]
        simp only [Block.limit]
        omega
      | inr member => exact (list.inside (by simp [member])).2.2
    · rw [if_neg touch, if_neg touch, ← lastNode_concat init a]
      have laid := list.laid.insert (clear.laid list.laid.append.1 touch) after
      exact list.insert_links laid inSpace pointer

/-- A release of `n` bytes at address `a`: exactly they join the free list. -/
structure Returned (m : Mem) (blocks : List Block) (a n : Nat) (m' : Mem) (blocks' : List Block) : Prop where
  list : m'.FreeList blocks'
  bounds : m'.minheap = m.minheap ∧ m'.maxheap = m.maxheap
  mlength : m'.mlength = add32 m.mlength n
  covers : ∀ x, Covers blocks' x ↔ Covers blocks x ∨ (a ≤ x ∧ x < a + n)
  total : total blocks' = total blocks + n
  roomy : Roomy blocks'
  grained : ∀ g, g ∣ a → g ∣ n → Grained g blocks → Grained g blocks'
  edits : EditsOnly (⟨a, n⟩ :: blocks) m m'

@[simp] theorem mlength_joinNext (block next : Nat) : (m.joinNext block next).mlength = m.mlength := by
  simp only [joinNext]
  split <;> simp

theorem bounds_joinNext (block next : Nat) :
    (m.joinNext block next).minheap = m.minheap ∧ (m.joinNext block next).maxheap = m.maxheap := by
  simp only [joinNext]
  split <;> simp

theorem bounds_release (prev : Option Nat) (block next n : Nat) :
    (m.release prev block next n).minheap = m.minheap ∧ (m.release prev block next n).maxheap = m.maxheap := by
  cases prev with
  | none => simp [release, joinPrev, bounds_joinNext]
  | some a =>
    simp only [release, joinPrev]
    split <;> simp [bounds_joinNext]

theorem editsOnly_joinNext {block : Nat} (next : Nat) (node : ∃ c ∈ blocks, c.addr ≤ block ∧ block + 8 ≤ c.limit) :
    EditsOnly blocks m (m.joinNext block next) := by
  simp only [joinNext]
  split
  · exact (editsOnly_setLength _ node).trans (editsOnly_setNext _ fun a same => Option.some.inj same ▸ node)
  · exact ⟨rfl, rfl, fun _ _ => rfl⟩

theorem mlength_release (prev : Option Nat) (block next n : Nat) :
    (m.release prev block next n).mlength = add32 m.mlength n := by
  cases prev with
  | none => simp [release, joinPrev]
  | some a =>
    simp only [release, joinPrev]
    split <;> simp

/-- A release edits the released block, the last one before it and the first one behind it. -/
theorem editsOnly_release (roomy : Roomy (front ++ back)) (room : 8 ≤ b.size) :
    EditsOnly (b :: (front ++ back)) m (m.release (lastNode front) b.addr (firstNode back) b.size) := by
  have here : ∃ c ∈ b :: (front ++ back), c.addr ≤ b.addr ∧ b.addr + 8 ≤ c.limit :=
    ⟨b, by simp, Nat.le_refl _, Nat.add_le_add_left room _⟩
  have roomyFront : Roomy front := fun c member => roomy c (List.mem_append_left _ member)
  let m₁ : Mem := { m with mlength := add32 m.mlength b.size }
  have first : EditsOnly (b :: (front ++ back)) m m₁ := ⟨rfl, rfl, fun _ _ => rfl⟩
  have sub : front ⊆ b :: (front ++ back) := fun c member => by simp [member]
  have alone := first.trans ((roomyFront.editsOnly_link sub (firstNode back) here).trans
    (editsOnly_joinNext (firstNode back) here))
  obtain rfl | ⟨init, a, rfl⟩ := List.eq_nil_or_concat' front
  · exact alone
  · rw [lastNode_concat] at alone ⊢
    rw [release_some]
    by_cases touch : m.topOf (some a.addr) = b.addr
    · rw [if_pos touch]
      have last : ∃ c ∈ b :: (init ++ [a] ++ back), c.addr ≤ a.addr ∧ a.addr + 8 ≤ c.limit :=
        ⟨a, by simp, Nat.le_refl _, Nat.add_le_add_left (roomy a (by simp)) _⟩
      exact first.trans ((editsOnly_setLength _ last).trans (editsOnly_joinNext _ last))
    · rw [if_neg touch]
      exact alone

/-- The list stands after a release whose header lies clear of the blocks before it. -/
theorem FreeList.release_list (list : m.FreeList (front ++ back)) (clear : ClearOf b.addr front)
    (room : 8 ≤ b.size) (within : m.minheap ≤ b.addr ∧ b.limit ≤ m.maxheap)
    (before : ∀ f ∈ front, f.limit ≤ b.addr) (behind : ∀ c ∈ back, b.limit ≤ c.addr) :
    (m.release (lastNode front) b.addr (firstNode back) b.size).FreeList (FreeBlocks.release front b back) := by
  have pointer : 0 < b.addr := Nat.lt_of_lt_of_le list.low within.1
  have inSpace : b.limit < 2 ^ 32 := Nat.lt_of_le_of_lt within.2 list.maxheap_lt
  have after : ∀ c ∈ back, b.addr + 8 ≤ c.addr := fun c member => by
    have start := behind c member
    simp only [Block.limit] at start
    omega
  obtain ⟨minheap, maxheap⟩ :=
    bounds_release (m := m) (lastNode front) b.addr (firstNode back) b.size
  refine ⟨list.release_links clear room inSpace before behind pointer, ?_,
    list.laid.release clear after, ?_, ?_⟩
  · rw [minheap, maxheap]
    exact list.canonical.release ⟨within.1, by omega, within.2⟩ before behind
  · exact minheap ▸ list.low
  · exact maxheap ▸ list.high

theorem FreeList.release (list : m.FreeList (front ++ back)) (roomy : Roomy (front ++ back))
    (room : 8 ≤ b.size) (within : m.minheap ≤ b.addr ∧ b.limit ≤ m.maxheap)
    (before : ∀ f ∈ front, f.limit ≤ b.addr) (behind : ∀ c ∈ back, b.limit ≤ c.addr) :
    Returned m (front ++ back) b.addr b.size (m.release (lastNode front) b.addr (firstNode back) b.size)
      (FreeBlocks.release front b back) := by
  have clear : ClearOf b.addr front := Roomy.clearOf (fun c member => roomy c (List.mem_append_left _ member)) before
  refine ⟨list.release_list clear room within before behind, bounds_release _ _ _ _, mlength_release _ _ _ _,
    fun x => ?_, ?_, le_size_release room roomy, fun g addr size grained => grained.release ⟨addr, size⟩,
    editsOnly_release roomy room⟩
  · rw [covers_release, or_comm]
    rfl
  · rw [total_release, Nat.add_comm]

/-- `freemem` finds the place of the block, and refuses it if it overlaps a neighbour there. -/
theorem FreeList.freemem_spec (list : m.FreeList blocks) {a n : Nat} (nonzero : n ≠ 0)
    (within : m.minheap ≤ a ∧ a ≤ m.maxheap) :
    ∃ front back, blocks = front ++ back ∧ (∀ f ∈ front, f.addr < a) ∧ (∀ c ∈ back, a ≤ c.addr) ∧
      (((∀ f ∈ front, f.limit ≤ a) ∧ ∀ c ∈ back, add32 a (roundmb n) ≤ c.addr) →
        m.freemem a n = (OK, m.release (lastNode front) a (firstNode back) (roundmb n))) ∧
      (¬((∀ f ∈ front, f.limit ≤ a) ∧ ∀ c ∈ back, add32 a (roundmb n) ≤ c.addr) →
        m.freemem a n = (SYSERR, m)) := by
  obtain ⟨front, back, rfl, before, first, found⟩ :=
    @freememScan_spec m [] blocks a walkFuel m.mnext list.enough_fuel list.links list.pointers
  rw [lastNode_nil, List.nil_append] at found
  have guard : ¬(n = 0 ∨ a < m.minheap ∨ a > m.maxheap) := by omega
  obtain ⟨apartFront, apartBack, across⟩ := List.pairwise_append.mp list.canonical.apart
  have behind : ∀ c ∈ back, a ≤ c.addr := by
    cases back with
    | nil => simp
    | cons c back =>
      have here := first c rfl
      refine List.forall_mem_cons.mpr ⟨here, fun d member => ?_⟩
      have apart := (List.pairwise_cons.mp apartBack).1 d member
      simp only [Block.limit] at apart
      omega
  -- the test on the block before is about all of them, and so is the one on the block behind
  have overlapsFront : (lastNode front ≠ none ∧ a < m.topOf (lastNode front)) ↔ ¬∀ f ∈ front, f.limit ≤ a := by
    rcases List.eq_nil_or_concat' front with rfl | ⟨init, f, rfl⟩
    · simp
    · obtain ⟨-, -, stop⟩ := list.inside (b := f) (by simp)
      obtain ⟨r, linksFront, -⟩ := links_append.mp list.links
      obtain ⟨-, -, -, size, -⟩ := links_append.mp linksFront
      have top : m.topOf (some f.addr) = f.limit := by
        rw [topOf, size]
        exact add32_of_lt stop
      rw [lastNode_concat, top]
      constructor
      · rintro ⟨-, overlaps⟩ all
        exact Nat.not_le.mpr overlaps (all f (by simp))
      · intro overlaps
        refine ⟨by simp, ?_⟩
        by_contra fits
        refine overlaps fun c member => ?_
        rcases List.mem_append.mp member with member | member
        · have apart := (List.pairwise_append.mp apartFront).2.2 c member f (by simp)
          simp only [Block.limit] at apart fits ⊢
          omega
        · rw [List.mem_singleton.mp member]
          omega
  have overlapsBack : (firstNode back ≠ 0 ∧ add32 a (roundmb n) > firstNode back) ↔
      ¬∀ c ∈ back, add32 a (roundmb n) ≤ c.addr := by
    cases back with
    | nil => simp
    | cons c back =>
      have pointer := list.pointers c (by simp)
      rw [firstNode_cons, List.forall_mem_cons]
      constructor
      · rintro ⟨-, overlaps⟩ ⟨fits, -⟩
        omega
      · intro overlaps
        refine ⟨by omega, ?_⟩
        by_contra fits
        refine overlaps ⟨by omega, fun d member => ?_⟩
        have apart := (List.pairwise_cons.mp apartBack).1 d member
        simp only [Block.limit] at apart
        omega
  refine ⟨front, back, rfl, before, behind, fun fits => ?_, fun overlaps => ?_⟩
  · simp only [freemem, if_neg guard, found, overlapsFront, overlapsBack]
    rw [if_neg (by tauto)]
  · simp only [freemem, if_neg guard, found, overlapsFront, overlapsBack]
    rw [if_pos (by tauto)]

end Mem

end XinuStm32
