import XinuStm32.Properties.Heap
import XinuStm32.Lib.Transition
import XinuStm32.Kernel.System

/-!
# Freeing twice

Along every run of heap calls that respect what they were given, the header of a live `malloc` block is intact, and the
block shares no byte with a free one or with another. After one `free` its first byte is free: either the block is a
node of the list, whose link no longer leads to itself, or `freemem` sees that it lies inside a free block.
-/

namespace XinuStm32

open FreeBlocks

/-! ## `free` on the memory -/

/-- What `free` does to the memory. -/
def Mem.free (pmem : Nat) (m : Mem) : Mem :=
  let block := sub32 pmem 8
  if m.next (some block) ≠ block then m else (m.freemem block (m.length (some block))).2

/-- A refused `freemem` leaves the memory. -/
theorem Mem.freemem_refused {m : Mem} {a n : Nat} (refused : (m.freemem a n).1 ≠ OK) : (m.freemem a n).2 = m := by
  rw [Mem.freemem] at refused ⊢
  split
  · rfl
  · next guard =>
    rw [if_neg guard] at refused
    simp only at refused ⊢
    split
    · rfl
    · next accepted =>
      rw [if_neg accepted] at refused
      exact absurd rfl refused

theorem freemem_mem (blkaddr nbytes : Nat) (s : Kernel) :
    (freemem blkaddr nbytes s).2.mem = (s.mem.freemem blkaddr nbytes).2 := by
  have refused := @Mem.freemem_refused s.mem blkaddr nbytes
  change (restore _ (if (s.mem.freemem blkaddr nbytes).1 = OK then _ else _)).mem = _
  by_cases accepted : (s.mem.freemem blkaddr nbytes).1 = OK
  · rw [if_pos accepted]
    rfl
  · rw [if_neg accepted, refused accepted]
    rfl

theorem free_mem (pmem : Nat) (s : Kernel) : (free pmem s).mem = s.mem.free pmem := by
  rw [free, Mem.free]
  split
  · rfl
  · exact freemem_mem _ _ s

/-! ## Runs of heap calls -/

/-- The memory and the blocks that `malloc` has given out, each with the size in its header. -/
structure MallocState where
  mem : Mem
  live : List Block

/-- The bytes that belong to a block with a header. -/
def span (b : Block) : Block := ⟨b.addr, Mem.rounded b.size⟩

/-- The calls of a run, and the stores of the owners of allocated memory. -/
inductive MallocCall where
  | malloc (nbytes : Nat)
  | free (block : Block)
  | getmem (nbytes : Nat)
  | getstk (nbytes : Nat)
  | freemem (blkaddr nbytes : Nat)
  | store

namespace MallocState

/-- The range may be given to `freemem`: it is allocated, and not by `malloc`. `getmem` counts from the start of the
heap, `getstk` from its end, which is a multiple of eight. -/
structure Allocated (s : MallocState) (a n : Nat) : Prop where
  nonzero : n ≠ 0
  aligned : 8 ∣ a ∨ a % 8 = s.mem.minheap % 8
  inHeap : s.mem.minheap ≤ a ∧ a + Mem.rounded n ≤ s.mem.maxheap
  held : ∀ x, a ≤ x → x < a + Mem.rounded n → ¬Covers s.mem.freeList x ∧ ¬Covers (s.live.map span) x

/-- Free memory and the headers are not stored to. -/
structure Stores (s : MallocState) (m : Mem) : Prop where
  memlist : m.mnext = s.mem.mnext ∧ m.mlength = s.mem.mlength
  bounds : m.minheap = s.mem.minheap ∧ m.maxheap = s.mem.maxheap
  free : ∀ x, Covers s.mem.freeList x → m.ram x = s.mem.ram x
  headers : ∀ b ∈ s.live, ∀ x, b.addr ≤ x → x < b.addr + 8 → m.ram x = s.mem.ram x

/-- Valid calls: sizes do not wrap around, and what is freed was allocated. -/
inductive Step : MallocCall → MallocState → MallocState → Prop where
  | malloc {s : MallocState} {n : Nat} (fits : n ≤ 2 ^ 32 - 16) :
      Step (.malloc n) s ⟨(s.mem.malloc n).2,
        if (s.mem.malloc n).1 = 0 then s.live else ⟨(s.mem.malloc n).1 - 8, n + 8⟩ :: s.live⟩
  | free {m : Mem} {front back : List Block} {b : Block} :
      Step (.free b) ⟨m, front ++ b :: back⟩ ⟨m.free (b.addr + 8), front ++ back⟩
  | getmem {s : MallocState} {n : Nat} (fits : n ≤ 2 ^ 32 - 8) :
      Step (.getmem n) s ⟨(s.mem.getmem n).elim s.mem Prod.snd, s.live⟩
  | getstk {s : MallocState} {n : Nat} (fits : n ≤ 2 ^ 32 - 8) :
      Step (.getstk n) s ⟨(s.mem.getstk n).elim s.mem Prod.snd, s.live⟩
  | freemem {s : MallocState} {a n : Nat} (allocated : s.Allocated a n) :
      Step (.freemem a n) s ⟨(s.mem.freemem a n).2, s.live⟩
  | store {s : MallocState} {m : Mem} (stores : s.Stores m) : Step .store s ⟨m, s.live⟩

/-- The heap after `meminit`. -/
def start (endAddr : Nat) (ram : Nat → UInt8) : MallocState := ⟨Mem.meminit endAddr ram, []⟩

/-! ## The invariant -/

/-- A live block: in the heap, and its header as `malloc` stored it. -/
structure Held (g : Nat) (m : Mem) (b : Block) : Prop where
  aligned : g ∣ b.addr
  nonempty : 0 < b.size
  inHeap : m.minheap ≤ b.addr ∧ b.addr + Mem.rounded b.size ≤ m.maxheap
  self : m.next (some b.addr) = b.addr
  size : m.length (some b.addr) = b.size

/-- What holds in every state of a run, with the grain of the heap's start. -/
structure Sound (g : Nat) (s : MallocState) (blocks : List Block) : Prop where
  grain : 4 ∣ g ∧ g ∣ 8
  start : g ∣ s.mem.minheap
  list : s.mem.FreeList blocks
  grained : Grained g blocks
  roomy : Mem.Roomy blocks
  held : ∀ b ∈ s.live, Held g s.mem b
  taken : ∀ x, Covers (s.live.map span) x → ¬Covers blocks x
  apart : s.live.Pairwise fun b c => Apart (span b) (span c)

/-- No free block is smaller than its header. -/
def Spacious (g : Nat) (m : Mem) : Prop := ∀ blocks, m.FreeList blocks → Grained g blocks → Mem.Roomy blocks

variable {s : MallocState} {m m' : Mem} {blocks blocks' live front back : List Block} {b : Block} {a n g : Nat}

theorem spacious_eight (m : Mem) : Spacious 8 m := fun _ list grained => grained.le_size list.canonical

theorem Spacious.of_roomy (roomy : Mem.Roomy m.freeList) : Spacious g m := by
  intro blocks list _
  rwa [list.eq_freeList] at roomy

theorem le_rounded_of_pos (nonempty : 0 < n) : 8 ≤ Mem.rounded n := by
  simp only [Mem.rounded]
  omega

/-- The header is in the block. -/
theorem Held.header (held : Held g m b) {x : Nat} (low : b.addr ≤ x) (high : x < b.addr + 8) : (span b).Covers x := by
  have room := le_rounded_of_pos held.nonempty
  simp only [Block.Covers, Block.limit, span]
  omega

theorem Held.frame (held : Held g m b) (bounds : m'.minheap = m.minheap ∧ m'.maxheap = m.maxheap)
    (same : ∀ x, b.addr ≤ x → x < b.addr + 8 → m'.ram x = m.ram x) : Held g m' b := by
  constructor
  · exact held.aligned
  · exact held.nonempty
  · rw [bounds.1, bounds.2]
    exact held.inHeap
  · rw [Mem.next_congr same]
    exact held.self
  · rw [Mem.length_congr same]
    exact held.size

theorem covers_span (member : b ∈ live) {x : Nat} (covers : (span b).Covers x) : Covers (live.map span) x :=
  ⟨span b, List.mem_map_of_mem member, covers⟩

theorem Sound.wellFormed (sound : Sound g s blocks) : Mem.WellFormed s.mem blocks := by
  refine ⟨sound.list, ?_⟩
  intro b member
  obtain ⟨addr, size⟩ := sound.grained b member
  exact ⟨Nat.dvd_trans sound.grain.1 addr, Nat.dvd_trans sound.grain.1 size⟩

/-- Fewer live blocks. -/
theorem Sound.sublist (sound : Sound g ⟨m, live⟩ blocks) {live' : List Block} (fewer : live'.Sublist live) :
    Sound g ⟨m, live'⟩ blocks := by
  constructor
  · exact sound.grain
  · exact sound.start
  · exact sound.list
  · exact sound.grained
  · exact sound.roomy
  · exact fun b member => sound.held b (fewer.subset member)
  · rintro x ⟨c, member, covers⟩
    obtain ⟨b, among, rfl⟩ := List.mem_map.mp member
    exact sound.taken x (covers_span (fewer.subset among) covers)
  · exact sound.apart.sublist fewer

/-- Blocks without a common byte lie apart. -/
theorem apart_of_disjoint {b c : Block} (positive : 0 < b.size) (positive' : 0 < c.size)
    (disjoint : ∀ x, b.Covers x → ¬c.Covers x) : Apart b c := by
  by_contra overlap
  simp only [Apart, not_or, Block.limit] at overlap
  have first := disjoint (max b.addr c.addr)
  simp only [Block.Covers, Block.limit] at first
  omega

/-! ## One lemma for each kind of change -/

/-- Bytes leave the free list. -/
theorem Sound.taken_step (sound : Sound g ⟨m, live⟩ blocks) (whole : 8 ∣ n)
    (taken : Mem.Taken m blocks a n m' blocks') (room : Mem.Roomy blocks') : Sound g ⟨m', live⟩ blocks' := by
  have edits := taken.edits sound.roomy room
  constructor
  · exact sound.grain
  · exact taken.bounds.1 ▸ sound.start
  · exact taken.list
  · exact (taken.grained g (Nat.dvd_trans sound.grain.2 whole) sound.grained).2
  · exact room
  · intro b member
    apply (sound.held b member).frame taken.bounds
    intro x low high
    exact edits.ram x (sound.taken x (covers_span member ((sound.held b member).header low high)))
  · intro x covers free
    exact sound.taken x covers ((taken.covers x).mp free).1
  · exact sound.apart

/-- Bytes that no live block has come back to the free list. -/
theorem Sound.returned_step (sound : Sound g ⟨m, live⟩ blocks) (aligned : g ∣ a) (whole : 8 ∣ n)
    (unheld : ∀ x, a ≤ x → x < a + n → ¬Covers (live.map span) x) (returned : Mem.Returned m blocks a n m' blocks') :
    Sound g ⟨m', live⟩ blocks' := by
  constructor
  · exact sound.grain
  · exact returned.bounds.1 ▸ sound.start
  · exact returned.list
  · exact returned.grained g aligned (Nat.dvd_trans sound.grain.2 whole) sound.grained
  · exact returned.roomy
  · intro b member
    apply (sound.held b member).frame returned.bounds
    intro x low high
    have mine := covers_span member ((sound.held b member).header low high)
    apply returned.edits.ram x
    rw [covers_cons]
    intro edited
    cases edited with
    | inl given => exact unheld x given.1 given.2 mine
    | inr free => exact sound.taken x mine free
  · intro x covers free
    cases (returned.covers x).mp free with
    | inl before => exact sound.taken x covers before
    | inr given => exact unheld x given.1 given.2 covers
  · exact sound.apart

/-- `malloc` writes the header of a block that was taken. -/
theorem Sound.header_step (sound : Sound g ⟨m, live⟩ blocks) {size : Nat} (positive : 0 < size) (fits : size < 2 ^ 32)
    (aligned : g ∣ a) (inHeap : m.minheap ≤ a ∧ a + Mem.rounded size ≤ m.maxheap)
    (clear : ∀ x, (span ⟨a, size⟩).Covers x → ¬Covers blocks x ∧ ¬Covers (live.map span) x)
    (list : ((m.setNext (some a) a).setLength (some a) size).FreeList blocks) :
    Sound g ⟨(m.setNext (some a) a).setLength (some a) size, ⟨a, size⟩ :: live⟩ blocks := by
  have room := le_rounded_of_pos positive
  have pointer : a < 2 ^ 32 := by
    have bound := sound.list.maxheap_lt
    change m.maxheap < 2 ^ 32 at bound
    omega
  constructor
  · exact sound.grain
  · exact sound.start
  · exact list
  · exact sound.grained
  · exact sound.roomy
  · intro b member
    cases List.mem_cons.mp member with
    | inl new =>
      rw [new]
      refine ⟨aligned, positive, inHeap, ?_, Mem.length_setLength fits⟩
      exact (Mem.next_setLength a size).trans (Mem.next_setNext pointer)
    | inr old =>
      refine Held.frame (sound.held b old) ⟨rfl, rfl⟩ ?_
      intro x low high
      have mine := covers_span old ((sound.held b old).header low high)
      apply Mem.malloc_header room x
      intro inside
      exact (clear x inside).2 mine
  · intro x covers
    rw [List.map_cons, covers_cons] at covers
    cases covers with
    | inl new => exact (clear x new).1
    | inr old => exact sound.taken x old
  · refine List.pairwise_cons.mpr ⟨?_, sound.apart⟩
    intro c member
    have other := le_rounded_of_pos (sound.held c member).nonempty
    apply apart_of_disjoint (by change 0 < Mem.rounded size; omega) (by change 0 < Mem.rounded c.size; omega)
    intro x new old
    exact (clear x new).2 (covers_span member old)

/-! ## Steps and runs -/

/-- A block that `malloc` gives out, with the bytes that leave the free list for it. -/
theorem Sound.malloc_block (sound : Sound g s blocks) (small : n < 2 ^ 32) (granted : ¬ Mem.Refused blocks n)
    (unwrapped : roundmb (add32 n 8) ≠ 0) (room : Spacious g (s.mem.malloc n).2) :
    ∃ a blocks', (s.mem.malloc n).1 = a + 8 ∧ Sound g ⟨(s.mem.malloc n).2, ⟨a, add32 n 8⟩ :: s.live⟩ blocks' ∧
      ((s.mem.malloc n).2.minheap = s.mem.minheap ∧ (s.mem.malloc n).2.maxheap = s.mem.maxheap) ∧
      ∀ x, Covers blocks x ↔ Covers blocks' x ∨ (span ⟨a, add32 n 8⟩).Covers x := by
  obtain ⟨m, live⟩ := s
  have heap : Mem.WellFormed m blocks := sound.wellFormed
  obtain ⟨a, m', blocks', taken, clear, returns⟩ := heap.malloc_block small granted
  have wide : add32 n 8 < 2 ^ 32 := Nat.mod_lt _ (by decide)
  have size : roundmb (add32 n 8) = Mem.rounded (add32 n 8) := by
    apply Mem.roundmb_of_lt
    by_contra wraps
    exact unwrapped (Mem.roundmb_zero wide (not_lt.mp wraps))
  have positive : 0 < add32 n 8 := by
    by_contra zero
    rw [Nat.eq_zero_of_not_pos zero] at unwrapped
    exact unwrapped rfl
  have inHeap := taken.in_heap heap.list
  have whole := Mem.roundmb_dvd (add32 n 8)
  have free := taken.were_free
  have list : ((m'.setNext (some a) a).setLength (some a) (add32 n 8)).FreeList blocks' :=
    taken.list_frame clear rfl ⟨rfl, rfl⟩ (Mem.malloc_header (size ▸ le_rounded_of_pos positive))
  have grained := taken.grained g (Nat.dvd_trans sound.grain.2 whole) sound.grained
  simp only [returns] at room
  have next := sound.taken_step whole taken (room blocks' list grained.2)
  rw [returns]
  rw [size] at inHeap free taken
  refine ⟨a, blocks', rfl, ?_, taken.bounds, fun x => ?_⟩
  · refine next.header_step positive wide grained.1 ?_ ?_ list
    · rw [taken.bounds.1, taken.bounds.2]
      exact inHeap
    · intro x inside
      refine ⟨fun covers => ((taken.covers x).mp covers).2 inside, fun covers => ?_⟩
      exact sound.taken x covers (free x inside.1 inside.2)
  · rw [taken.covers]
    constructor
    · intro covers
      by_cases inside : a ≤ x ∧ x < a + Mem.rounded (add32 n 8)
      · exact .inr inside
      · exact .inl ⟨covers, inside⟩
    · intro covers
      cases covers with
      | inl rest => exact rest.1
      | inr inside => exact free x inside.1 inside.2

theorem Sound.malloc_step (sound : Sound g s blocks) (fits : n ≤ 2 ^ 32 - 16)
    (room : Spacious g (s.mem.malloc n).2) :
    ∃ blocks', Sound g ⟨(s.mem.malloc n).2,
      if (s.mem.malloc n).1 = 0 then s.live else ⟨(s.mem.malloc n).1 - 8, n + 8⟩ :: s.live⟩ blocks' := by
  by_cases refused : Mem.Refused blocks n
  · rw [sound.wellFormed.malloc_null refused, if_pos rfl]
    exact ⟨blocks, sound⟩
  · have request : add32 n 8 = n + 8 := add32_of_lt (by omega)
    have unwrapped : roundmb (add32 n 8) ≠ 0 := by
      rw [request, Mem.roundmb_of_lt ((Mem.rounded_lt_iff (by omega)).mpr (by omega))]
      exact Nat.ne_of_gt (Nat.lt_of_lt_of_le (by decide) (le_rounded_of_pos (by omega)))
    obtain ⟨a, blocks', pointer, next, -⟩ := sound.malloc_block (by omega) refused unwrapped room
    rw [pointer, if_neg (by simp), Nat.add_sub_cancel, ← request]
    exact ⟨blocks', next⟩

/-- A rounded request leaves the free list. -/
theorem Sound.taken_roundmb (sound : Sound g ⟨m, live⟩ blocks) (taken : Mem.Taken m blocks a (roundmb n) m' blocks')
    (room : Spacious g m') : Sound g ⟨m', live⟩ blocks' := by
  have whole := Mem.roundmb_dvd n
  have grained := (taken.grained g (Nat.dvd_trans sound.grain.2 whole) sound.grained).2
  exact sound.taken_step whole taken (room blocks' taken.list grained)

theorem Sound.getmem_step (sound : Sound g s blocks) (room : Spacious g ((s.mem.getmem n).elim s.mem Prod.snd)) :
    ∃ blocks', Sound g ⟨(s.mem.getmem n).elim s.mem Prod.snd, s.live⟩ blocks' := by
  by_cases zero : n = 0
  · rw [zero]
    exact ⟨blocks, sound⟩
  · obtain ⟨-, none⟩ | ⟨a, m', blocks', found, taken, -⟩ := sound.list.getmem_spec sound.wellFormed.grained zero
    · rw [none]
      exact ⟨blocks, sound⟩
    · rw [found] at room ⊢
      exact ⟨blocks', sound.taken_roundmb taken room⟩

theorem Sound.getstk_step (sound : Sound g s blocks) (room : Spacious g ((s.mem.getstk n).elim s.mem Prod.snd)) :
    ∃ blocks', Sound g ⟨(s.mem.getstk n).elim s.mem Prod.snd, s.live⟩ blocks' := by
  by_cases zero : n = 0
  · rw [zero]
    exact ⟨blocks, sound⟩
  · obtain ⟨-, none⟩ | ⟨a, m', blocks', found, taken⟩ := sound.list.getstk_spec zero
    · rw [none]
      exact ⟨blocks, sound⟩
    · rw [found] at room ⊢
      exact ⟨blocks', sound.taken_roundmb taken room⟩

/-- The block of a live header can be freed. -/
theorem Sound.freeable (sound : Sound g s blocks) (member : b ∈ s.live) :
    Mem.Freeable s.mem blocks b.addr b.size := by
  have held := sound.held b member
  refine ⟨Nat.ne_of_gt held.nonempty, held.inHeap.1, held.inHeap.2, ?_⟩
  intro x low high
  exact sound.taken x (covers_span member ⟨low, high⟩)

theorem free_eq (held : Held g m b) (small : b.addr + 8 < 2 ^ 32) :
    m.free (b.addr + 8) = (m.freemem b.addr b.size).2 := by
  have block : sub32 (b.addr + 8) 8 = b.addr := by
    rw [sub32_of_le (by omega) small, Nat.add_sub_cancel]
  rw [Mem.free, block, held.size]
  exact if_neg fun other => other held.self

theorem Sound.addr_lt (sound : Sound g s blocks) (member : b ∈ s.live) : b.addr + 8 < 2 ^ 32 := by
  have inHeap := (sound.held b member).inHeap
  have room := le_rounded_of_pos (sound.held b member).nonempty
  have high := sound.list.high
  omega

/-- A `free` gives the block back. -/
theorem Sound.free_returns (sound : Sound g s blocks) (member : b ∈ s.live) :
    ∃ blocks', Mem.Returned s.mem blocks b.addr (Mem.rounded b.size) (s.mem.free (b.addr + 8)) blocks' := by
  rw [free_eq (sound.held b member) (sound.addr_lt member)]
  exact (sound.list.frees sound.roomy (sound.freeable member)).2

theorem rounded_dvd (n : Nat) : 8 ∣ Mem.rounded n := Nat.dvd_mul_left 8 _

theorem Sound.free_step (sound : Sound g ⟨m, front ++ b :: back⟩ blocks) :
    ∃ blocks', Sound g ⟨m.free (b.addr + 8), front ++ back⟩ blocks' := by
  have member : b ∈ front ++ b :: back := by simp
  obtain ⟨blocks', returned⟩ := sound.free_returns member
  have rest : Sound g ⟨m, front ++ back⟩ blocks :=
    sound.sublist (List.Sublist.append_left (List.sublist_cons_self b back) front)
  refine ⟨blocks', rest.returned_step (sound.held b member).aligned (rounded_dvd b.size) ?_ returned⟩
  rintro x low high ⟨c, among, covers⟩
  obtain ⟨c, others, rfl⟩ := List.mem_map.mp among
  -- The block is apart from those before it and from those behind it.
  obtain ⟨_, behind, across⟩ := List.pairwise_append.mp sound.apart
  have apart : Apart (span b) (span c) := by
    cases List.mem_append.mp others with
    | inl before => exact (across c before b List.mem_cons_self).symm
    | inr after => exact (List.pairwise_cons.mp behind).1 c after
  simp only [Apart, Block.Covers, Block.limit, span] at apart covers
  omega

/-- What `freemem` is given is a multiple of the grain. -/
theorem Sound.allocated_aligned (sound : Sound g s blocks) (allocated : s.Allocated a n) : g ∣ a := by
  cases allocated.aligned with
  | inl whole => exact Nat.dvd_trans sound.grain.2 whole
  | inr same =>
    rw [← Nat.dvd_mod_iff sound.grain.2, same, Nat.dvd_mod_iff sound.grain.2]
    exact sound.start

theorem Sound.freemem_step (sound : Sound g s blocks) (allocated : s.Allocated a n) :
    ∃ blocks', Sound g ⟨(s.mem.freemem a n).2, s.live⟩ blocks' := by
  have free : s.mem.freeList = blocks := sound.list.eq_freeList
  have freeable : Mem.Freeable s.mem blocks a n := by
    refine ⟨allocated.nonzero, allocated.inHeap.1, allocated.inHeap.2, ?_⟩
    intro x low high
    rw [← free]
    exact (allocated.held x low high).1
  obtain ⟨_, blocks', returned⟩ := sound.list.frees sound.roomy freeable
  exact ⟨blocks', Sound.returned_step sound (sound.allocated_aligned allocated) (rounded_dvd n)
    (fun x low high => (allocated.held x low high).2) returned⟩

theorem Sound.store_step (sound : Sound g s blocks) (stores : s.Stores m) : Sound g ⟨m, s.live⟩ blocks := by
  have free : s.mem.freeList = blocks := sound.list.eq_freeList
  have room := sound.roomy
  constructor
  · exact sound.grain
  · exact stores.bounds.1 ▸ sound.start
  · apply sound.list.frame stores.memlist.1 stores.bounds
    intro c member x low high
    apply stores.free
    rw [free]
    refine ⟨c, member, low, ?_⟩
    have size := room c member
    simp only [Block.limit]
    omega
  · exact sound.grained
  · exact room
  · exact fun b member => (sound.held b member).frame stores.bounds (stores.headers b member)
  · exact sound.taken
  · exact sound.apart

theorem Sound.step {call : MallocCall} {s s' : MallocState} (step : Step call s s') (sound : ∃ blocks, Sound g s blocks)
    (room : Spacious g s'.mem) : ∃ blocks, Sound g s' blocks := by
  obtain ⟨blocks, sound⟩ := sound
  cases step with
  | malloc fits => exact sound.malloc_step fits room
  | free => exact sound.free_step
  | getmem => exact sound.getmem_step room
  | getstk => exact sound.getstk_step room
  | freemem allocated => exact sound.freemem_step allocated
  | store stores => exact ⟨blocks, sound.store_step stores⟩

theorem start_sound {endAddr : Nat} (positive : 0 < endAddr) (below : endAddr < MAXADDR - HANDLERSTACK)
    (grain : 4 ∣ g ∧ g ∣ 8) (aligned : g ∣ endAddr) {ram : Nat → UInt8} (room : Spacious g (start endAddr ram).mem) :
    ∃ blocks, Sound g (start endAddr ram) blocks := by
  have list := Mem.meminit_freeList positive below ram
  have whole : g ∣ MAXADDR - HANDLERSTACK := Nat.dvd_trans grain.2 (by decide)
  have grained : Grained g [⟨endAddr, MAXADDR - HANDLERSTACK - endAddr⟩] :=
    List.forall_mem_singleton.mpr ⟨aligned, Nat.dvd_sub whole aligned⟩
  exact ⟨_, grain, aligned, list, grained, room _ list grained, by simp [start], by simp [start], by simp [start]⟩

theorem start_aligned (image : Image) (aligned : 8 ∣ image.endAddr) (ram : Nat → UInt8) :
    ∃ blocks, Sound 8 (start image.endAddr ram) blocks :=
  start_sound (Nat.lt_of_lt_of_le (by decide) image.inRam) image.belowStack (by decide) aligned (spacious_eight _)

/-! ## The second `free` -/

/-- The link of a node does not lead to itself. -/
theorem node_next_ne (list : m.FreeList blocks) (member : b ∈ blocks) : m.next (some b.addr) ≠ b.addr := by
  obtain ⟨front, back, rfl⟩ := List.append_of_mem member
  obtain ⟨_, _, _, _, rest⟩ := Mem.links_append.mp list.links
  have positive := list.pointers b member
  cases back with
  | nil =>
    have last : m.next (some b.addr) = 0 := rest
    omega
  | cons c back =>
    have following : m.next (some b.addr) = c.addr := rest.1
    have apart := (List.pairwise_cons.mp (List.pairwise_append.mp list.canonical.apart).2.1).1 c List.mem_cons_self
    simp only [Block.limit] at apart
    omega

/-- A `freemem` of a free byte with a link to itself is refused. -/
theorem refused_of_self (list : m.FreeList blocks) (free : Covers blocks a) (self : m.next (some a) = a) (n : Nat) :
    (m.freemem a n).2 = m := by
  obtain ⟨c, member, low, high⟩ := free
  have inside : c.addr < a := by
    apply Nat.lt_of_le_of_ne low
    rintro rfl
    exact node_next_ne list member self
  have unfit : ¬Mem.Freeable m blocks a n := by
    rintro ⟨nonzero, _, _, unfree⟩
    have room := le_rounded_of_pos (Nat.pos_of_ne_zero nonzero)
    exact unfree a (Nat.le_refl a) (by omega) ⟨c, member, low, high⟩
  have seen : ¬Mem.Overreaches m blocks a n := by
    rintro ⟨_, _, _, outside, _⟩
    exact outside c member ⟨inside, high⟩
  rw [list.refuses unfit seen]

theorem Sound.free_free (sound : Sound g s blocks) (member : b ∈ s.live) :
    (s.mem.free (b.addr + 8)).free (b.addr + 8) = s.mem.free (b.addr + 8) := by
  obtain ⟨blocks', returned⟩ := sound.free_returns member
  have room := le_rounded_of_pos (sound.held b member).nonempty
  have free : Covers blocks' b.addr := (returned.covers b.addr).mpr (Or.inr (by omega))
  have small := sound.addr_lt member
  have block : sub32 (b.addr + 8) 8 = b.addr := by
    rw [sub32_of_le (by omega) small, Nat.add_sub_cancel]
  generalize s.mem.free (b.addr + 8) = m at returned
  rw [Mem.free, block]
  by_cases self : m.next (some b.addr) = b.addr
  · exact (if_neg fun other => other self).trans (refused_of_self returned.list free self _)
  · exact if_pos self

/-- A second `free` of the same pointer changes nothing. -/
theorem double_free {image : Image} (aligned : 8 ∣ image.endAddr) {ram : Nat → UInt8} {calls : List MallocCall}
    {s : MallocState} (run : Transition.Run Step calls (start image.endAddr ram) s) {p : Nat}
      (live : ∃ b ∈ s.live, p = b.addr + 8)
    {k : Kernel} (heap : k.mem = s.mem) :
    (free p (free p k)).mem = (free p k).mem ∧ (free p (free p k)).mem.freeList = (free p k).mem.freeList ∧
      (free p (free p k)).mem.mlength = (free p k).mem.mlength := by
  obtain ⟨b, member, rfl⟩ := live
  obtain ⟨blocks, sound⟩ := run.invariant (fun s => ∃ blocks, Sound 8 s blocks)
    (fun _ _ _ step sound => Sound.step step sound (spacious_eight _))
    (start_aligned image aligned ram)
  have same : (free (b.addr + 8) (free (b.addr + 8) k)).mem = (free (b.addr + 8) k).mem := by
    rw [free_mem, free_mem, heap]
    exact sound.free_free member
  rw [same]
  exact ⟨rfl, rfl, rfl⟩

/-- An image whose heap starts at a multiple of eight. -/
def heapImage : Image := ⟨0x20006000, 0, by decide, by decide, by decide⟩

/-- A kernel whose heap has one block of ten bytes behind a header. -/
def tenBytes : Kernel :=
  (zeroed heapImage int32 fun _ => 0).setMem ((Mem.meminit heapImage.endAddr fun _ => 0).malloc 10).2

theorem ten_bytes_freed_twice :
    (free 0x20006008 (free 0x20006008 tenBytes)).mem = (free 0x20006008 tenBytes).mem ∧
      (free 0x20006008 (free 0x20006008 tenBytes)).mem.freeList = (free 0x20006008 tenBytes).mem.freeList ∧
      (free 0x20006008 (free 0x20006008 tenBytes)).mem.mlength = (free 0x20006008 tenBytes).mem.mlength := by
  have pointer : ((Mem.meminit heapImage.endAddr fun _ => 0).malloc 10).1 = 0x20006008 := by decide +kernel
  have run := Transition.Run.single (Step.malloc (s := start heapImage.endAddr fun _ => 0) (n := 10) (by decide))
  have member : (⟨0x20006000, 18⟩ : Block) ∈ if ((Mem.meminit heapImage.endAddr fun _ => 0).malloc 10).1 = 0 then []
      else [⟨((Mem.meminit heapImage.endAddr fun _ => 0).malloc 10).1 - 8, 10 + 8⟩] := by
    rw [pointer, if_neg (by decide)]
    exact List.mem_singleton.mpr rfl
  exact double_free (by decide) run ⟨⟨0x20006000, 18⟩, member, rfl⟩ rfl

end MallocState

end XinuStm32
