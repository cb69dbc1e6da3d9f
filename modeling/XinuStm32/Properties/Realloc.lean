import XinuStm32.Kernel.Realloc
import XinuStm32.Lib.Patch
import XinuStm32.Properties.DoubleFree

/-!
# Moving a block

`realloc` copies as many bytes as the new size has, whatever the size of the old block. It moves a block as it should
exactly when there is no room for the new one, or the new one is not larger than the old.
-/

namespace XinuStm32

open FreeBlocks Patch

/-! ## The copy -/

/-- What is copied to another place is there afterwards. -/
theorem memcpyLoop_ram {count dst src : Nat} {ram : Nat → UInt8} (high : dst + count ≤ 2 ^ 32)
    (high' : src + count ≤ 2 ^ 32) (apart : src + count ≤ dst ∨ dst + count ≤ src) :
    (memcpyLoop count dst src ram).1 = patch dst count (fun i => ram (src + i)) ram := by
  induction count generalizing dst src ram with
  | zero => rw [patch_zero, memcpyLoop]
  | succ count inductionHypothesis =>
    rw [memcpyLoop]
    cases Nat.eq_zero_or_pos count with
    | inl last =>
      subst last
      rw [patch_one]
      rfl
    | inr more =>
      have next : add32 dst 1 = dst + 1 := add32_of_lt (by omega)
      have next' : add32 src 1 = src + 1 := add32_of_lt (by omega)
      rw [next, next', inductionHypothesis (by omega) (by omega) (by omega), ← patch_cons]
      funext place
      by_cases inside : dst + 1 ≤ place ∧ place < dst + 1 + count
      · -- no byte that is still to be read was overwritten
        rw [patch_inside inside.1 inside.2, patch_inside inside.1 inside.2, Function.update_of_ne (by omega)]
        congr 1
        omega
      · rw [patch_outside (by omega), patch_outside (by omega)]
        rfl

theorem memcpyLoop_read {count dst src : Nat} {ram : Nat → UInt8} (high : src + count ≤ 2 ^ 32) (x : Nat) :
    x ∈ (memcpyLoop count dst src ram).2 ↔ src ≤ x ∧ x < src + count := by
  induction count generalizing dst src ram with
  | zero => simp [memcpyLoop]
  | succ count inductionHypothesis =>
    rw [memcpyLoop, List.mem_cons]
    cases Nat.eq_zero_or_pos count with
    | inl last =>
      subst last
      simp [memcpyLoop]
      omega
    | inr more =>
      have next : add32 src 1 = src + 1 := add32_of_lt (by omega)
      rw [next, inductionHypothesis (by omega)]
      omega

/-! ## The heap behind a call -/

theorem Mem.maxheap_joinPrev (top : Nat) (prev : Option Nat) (block next nbytes : Nat) (m : Mem) :
    (m.joinPrev top prev block next nbytes).2.maxheap = m.maxheap := by
  cases prev with
  | none => simp [joinPrev]
  | some a =>
    rw [joinPrev]
    split <;> simp

theorem Mem.maxheap_joinNext (block next : Nat) (m : Mem) : (m.joinNext block next).maxheap = m.maxheap := by
  rw [joinNext]
  split <;> simp

theorem Mem.maxheap_freemem (blkaddr nbytes : Nat) (m : Mem) : (m.freemem blkaddr nbytes).2.maxheap = m.maxheap := by
  rw [Mem.freemem]
  split
  · rfl
  simp only
  split
  · rfl
  · rw [Mem.release, maxheap_joinNext, maxheap_joinPrev]

theorem Mem.maxheap_free (pmem : Nat) (m : Mem) : (m.free pmem).maxheap = m.maxheap := by
  rw [Mem.free]
  split
  · rfl
  · exact maxheap_freemem _ _ m

theorem realloc_null (ptr : Nat) {size : Nat} {s : Kernel} (null : s.mem.malloc size = (0, s.mem)) :
    (realloc ptr size s).1 = 0 ∧ (realloc ptr size s).2.2.mem = s.mem := by
  rw [realloc]
  split
  · exact ⟨rfl, rfl⟩
  · rw [null, moveBlock, if_pos (Or.inr rfl)]
    exact ⟨rfl, rfl⟩

theorem moveBlock_block {ptr new : Nat} {n : Int} {m : Mem} {s : Kernel} (some : ¬(ptr = 0 ∨ new = 0)) :
    (moveBlock ptr new n (s.setMem m)).1 = new ∧
      (moveBlock ptr new n (s.setMem m)).2.1 = (memcpy new ptr n m.ram).2 ∧
      (moveBlock ptr new n (s.setMem m)).2.2.mem = { m with ram := (memcpy new ptr n m.ram).1 }.free ptr := by
  rw [moveBlock, if_neg some]
  exact ⟨rfl, rfl, free_mem _ _⟩

/-- What `realloc` does with a new block. -/
theorem realloc_block (ptr : Nat) {size a : Nat} {m : Mem} {s : Kernel} (block : s.mem.malloc size = (a + 8, m))
    (some : ptr ≠ 0)
    (positive : size ≠ 0) :
    (realloc ptr size s).1 = a + 8 ∧ (realloc ptr size s).2.1 = (memcpy (a + 8) ptr (int32 size) m.ram).2 ∧
      (realloc ptr size s).2.2.mem = { m with ram := (memcpy (a + 8) ptr (int32 size) m.ram).1 }.free ptr := by
  have called : realloc ptr size s = moveBlock ptr (a + 8) (int32 size) (s.setMem m) := by
    rw [realloc, if_neg positive, block]
  rw [called]
  exact moveBlock_block (by omega)

namespace MallocState

variable {s : MallocState} {m m' : Mem} {blocks blocks' live front back : List Block} {b : Block} {a n room g : Nat}

/-- The old block has moved to `q`: what fits of it is there, it was read within its first `room` bytes, it is free, and
the bytes at `q` are nobody else's. -/
structure Moved (s : MallocState) (rest : List Block) (b : Block) (n room q : Nat) (read : List Nat)
    (m : Mem) : Prop where
  contents : ∀ i < min (b.size - 8) n, m.ram (q + i) = s.mem.ram (b.addr + 8 + i)
  inside : ∀ x ∈ read, b.addr + 8 ≤ x ∧ x < b.addr + 8 + room
  released : ∀ x, (span b).Covers x → Covers m.freeList x
  owned : Mem.Usable (rest.map span) q n m

/-- What `realloc` promises. -/
def Reallocates (s : MallocState) (rest : List Block) (b : Block) (n room : Nat) (k : Kernel) : Prop :=
  (realloc (b.addr + 8) n k).1 = 0 ∧ (realloc (b.addr + 8) n k).2.2.mem = s.mem ∨
    (realloc (b.addr + 8) n k).1 ≠ 0 ∧ Moved s rest b n room (realloc (b.addr + 8) n k).1
      (realloc (b.addr + 8) n k).2.1 (realloc (b.addr + 8) n k).2.2.mem

/-- `malloc` leaves the live blocks as they are. -/
theorem Sound.malloc_ram (sound : Sound g s blocks) (taken : Mem.Taken s.mem blocks a n m blocks')
    (roomy : Mem.Roomy blocks') (room : 8 ≤ n) (size : Nat) {x : Nat} (mine : Covers (s.live.map span) x) :
    ((m.setNext (some a) a).setLength (some a) size).ram x = s.mem.ram x := by
  have unfree := sound.taken x mine
  have edits := taken.edits sound.roomy roomy
  rw [Mem.malloc_header room, edits.ram x unfree]
  exact fun inside => unfree (taken.were_free x inside.1 inside.2)

theorem memcpy_small {s ct size : Nat} {ram : Nat → UInt8} (small : size < 2 ^ 31) :
    memcpy s ct (int32 size) ram = memcpyLoop size s ct ram := by
  rw [memcpy, int32_of_range (by omega) (by omega), Int.toNat_natCast]

/-- The owner of the newest block fills it. -/
theorem Sound.fill_step (sound : Sound g ⟨m, ⟨a, n + 8⟩ :: live⟩ blocks) (data : Nat → UInt8) :
    Sound g ⟨{ m with ram := patch (a + 8) n data m.ram }, ⟨a, n + 8⟩ :: live⟩ blocks := by
  have large := Mem.le_rounded (n + 8)
  apply sound.store_step
  refine ⟨⟨rfl, rfl⟩, ⟨rfl, rfl⟩, ?_, ?_⟩
  · intro x free
    apply patch_outside
    by_contra inside
    have mine : (span ⟨a, n + 8⟩).Covers x := by
      simp only [Block.Covers, Block.limit, span]
      omega
    have list : m.freeList = blocks := sound.list.eq_freeList
    rw [show (⟨m, ⟨a, n + 8⟩ :: live⟩ : MallocState).mem.freeList = blocks from list] at free
    exact sound.taken x (covers_span List.mem_cons_self mine) free
  · intro c member x low high
    apply patch_outside
    cases List.mem_cons.mp member with
    | inl new =>
      subst new
      exact Or.inl high
    | inr old =>
      have apart := (List.pairwise_cons.mp sound.apart).1 c old
      have header := le_rounded_of_pos (sound.held c member).nonempty
      simp only [Apart, Block.limit, span] at apart
      omega

/-- A block that is not larger than the old one is moved as it should. -/
theorem Sound.moved (sound : Sound g s blocks) (headers : Spacious g (s.mem.malloc n).2)
    (split : s.live = front ++ b :: back) (positive : 0 < n)
    (high : s.mem.maxheap < 2 ^ 31) (granted : ¬Mem.Refused blocks n) {k : Kernel} (heap : k.mem = s.mem)
    (fits : n ≤ room) (most : room ≤ Mem.rounded b.size - 8) : Reallocates s (front ++ back) b n room k := by
  have member : b ∈ s.live := by rw [split]; simp
  have old := sound.held b member
  have oldSize := Mem.le_rounded b.size
  have inHeap := old.inHeap
  obtain ⟨a, m', blocks', taken, clear, returns⟩ := sound.wellFormed.malloc_block (by omega) granted
  have size : roundmb (add32 n 8) = Mem.rounded (n + 8) := by
    rw [add32_of_lt (by omega), Mem.roundmb_of_lt ((Mem.rounded_lt_iff (by omega)).mpr (by omega))]
  have request : add32 n 8 = n + 8 := add32_of_lt (by omega)
  obtain ⟨blocks₁, sound₁⟩ := sound.malloc_step (n := n) (by omega) headers
  have nonempty : 8 ≤ roundmb (add32 n 8) := by
    rw [size]
    exact le_rounded_of_pos (by omega)
  rw [returns] at headers
  have list : ((m'.setNext (some a) a).setLength (some a) (add32 n 8)).FreeList blocks' :=
    taken.list_frame clear rfl ⟨rfl, rfl⟩ (Mem.malloc_header nonempty)
  have grained := (taken.grained g (Nat.dvd_trans sound.grain.2 (Mem.roundmb_dvd _)) sound.grained).2
  have kept {x : Nat} (mine : Covers (s.live.map span) x) :=
    sound.malloc_ram taken (headers blocks' list grained) nonempty (add32 n 8) mine
  rw [returns, if_neg (by simp), Nat.add_sub_cancel] at sound₁
  have block : k.mem.malloc n = (a + 8, (m'.setNext (some a) a).setLength (some a) (add32 n 8)) := by rw [heap, returns]
  generalize (m'.setNext (some a) a).setLength (some a) (add32 n 8) = m₁ at sound₁ kept block
  change Sound g ⟨m₁, ⟨a, n + 8⟩ :: s.live⟩ blocks₁ at sound₁
  obtain ⟨pointer, reads, memory⟩ := realloc_block (b.addr + 8) block (by omega) (by omega)
  have room₁ : m₁.minheap ≤ a ∧ a + Mem.rounded (n + 8) ≤ m₁.maxheap :=
    (sound₁.held ⟨a, n + 8⟩ List.mem_cons_self).inHeap
  have apart := (List.pairwise_cons.mp sound₁.apart).1 b member
  have newSize := Mem.le_rounded (n + 8)
  have high₁ : m₁.maxheap < 2 ^ 32 := sound₁.list.maxheap_lt
  simp only [Apart, Block.limit, span] at apart
  -- The copy stays within the two blocks, which have no byte in common.
  rw [memcpy_small (by omega), memcpyLoop_ram (by omega) (by omega) (by omega)] at memory
  rw [memcpy_small (by omega)] at reads
  have sound₂ := sound₁.fill_step fun i => m₁.ram (b.addr + 8 + i)
  rw [split, ← List.cons_append] at sound₂
  obtain ⟨blocks₂, returned⟩ := sound₂.free_returns (b := b) (by simp)
  obtain ⟨blocks₃, sound₃⟩ := sound₂.free_step
  simp only at returned
  rw [← memory] at returned sound₃
  have same : blocks₃ = blocks₂ := by rw [← returned.list.eq_freeList, ← sound₃.list.eq_freeList]
  subst same
  refine Or.inr ⟨by omega, ?_, ?_, ?_, ?_⟩
  · intro i less
    have outside : ¬Covers (⟨b.addr, Mem.rounded b.size⟩ :: blocks₁) (a + 8 + i) := by
      rw [covers_cons]
      rintro (⟨low, high⟩ | free)
      · simp only [Block.limit] at low high
        omega
      · refine sound₁.taken _ (covers_span List.mem_cons_self ?_) free
        simp only [Block.Covers, Block.limit, span]
        omega
    have mine : (span b).Covers (b.addr + 8 + i) := by
      simp only [Block.Covers, Block.limit, span]
      omega
    rw [pointer, returned.edits.ram _ outside, ← kept (covers_span member mine)]
    have stored := @patch_inside _ (a + 8) n (fun i => m₁.ram (b.addr + 8 + i)) m₁.ram (a + 8 + i) (by omega) (by omega)
    rw [Nat.add_sub_cancel_left] at stored
    exact stored
  · intro x read
    rw [reads, memcpyLoop_read (by omega)] at read
    omega
  · intro x mine
    rw [returned.list.eq_freeList]
    exact (returned.covers x).mpr (Or.inr mine)
  · refine ⟨blocks₃, returned.list, ?_⟩
    intro x low high
    rw [pointer] at low high
    have mine : (span ⟨a, n + 8⟩).Covers x := by
      simp only [Block.Covers, Block.limit, span]
      omega
    refine ⟨?_, ?_, sound₃.taken x (covers_span (by simp) mine), ?_⟩
    · rw [returned.bounds.1]
      change m₁.minheap ≤ x
      omega
    · rw [returned.bounds.2]
      change x < m₁.maxheap
      omega
    · rintro ⟨c, among, covers⟩
      obtain ⟨c, others, rfl⟩ := List.mem_map.mp among
      have disjoint := (List.pairwise_cons.mp sound₃.apart).1 c others
      simp only [Apart, Block.Covers, Block.limit, span] at disjoint covers
      omega

/-- A larger block is read past the end of the old one, or its size wraps around and it is no block of that size. -/
theorem Sound.not_moved (sound : Sound g s blocks) (member : b ∈ s.live) (small : n < 2 ^ 32) (positive : 0 < n)
    (high : s.mem.maxheap < 2 ^ 31) (granted : ¬Mem.Refused blocks n) {k : Kernel} (heap : k.mem = s.mem)
    (larger : room < n) : ¬Reallocates s live b n room k := by
  obtain ⟨a, m', blocks', taken, -, returns⟩ := sound.wellFormed.malloc_block small granted
  have block : k.mem.malloc n = (a + 8, (m'.setNext (some a) a).setLength (some a) (add32 n 8)) := by rw [heap, returns]
  obtain ⟨pointer, reads, memory⟩ := realloc_block (b.addr + 8) block (by omega) (by omega)
  have inHeap := taken.in_heap sound.list
  have low := sound.list.low
  rintro (⟨null, -⟩ | ⟨-, moved⟩)
  · omega
  have fits : n ≤ 2 ^ 32 - 16 := by
    by_contra wraps
    refine Mem.not_usable (by omega) (by omega) ?_ moved.owned
    rw [memory, Mem.maxheap_free]
    change m'.maxheap + 8 < 2 ^ 32
    rw [taken.bounds.2]
    omega
  have size : roundmb (add32 n 8) = Mem.rounded (n + 8) := by
    rw [add32_of_lt (by omega), Mem.roundmb_of_lt ((Mem.rounded_lt_iff (by omega)).mpr (by omega))]
  have large := Mem.le_rounded (n + 8)
  have old := (sound.held b member).inHeap
  have oldSize := le_rounded_of_pos (sound.held b member).nonempty
  have read := moved.inside (b.addr + 8 + room)
  rw [reads, memcpy_small (by omega), memcpyLoop_read (by omega)] at read
  have bad := read ⟨by omega, by omega⟩
  omega

/-- Whatever counts as the old block, from what was requested to what was taken for it: `realloc` keeps its promise
exactly when there is no room, or the new size is within the old block. -/
theorem Sound.reallocates_iff (sound : Sound g s blocks) (headers : Spacious g (s.mem.malloc n).2)
    (split : s.live = front ++ b :: back) (small : n < 2 ^ 32)
    (positive : 0 < n) (high : s.mem.maxheap < 2 ^ 31) {k : Kernel} (heap : k.mem = s.mem)
    (most : room ≤ Mem.rounded b.size - 8) :
    Reallocates s (front ++ back) b n room k ↔ Mem.Refused blocks n ∨ n ≤ room := by
  by_cases refused : Mem.Refused blocks n
  · apply iff_of_true _ (Or.inl refused)
    have null := realloc_null (b.addr + 8) (heap ▸ sound.wellFormed.malloc_null refused : k.mem.malloc n = (0, k.mem))
    rw [heap] at null
    exact Or.inl null
  constructor
  · intro moves
    by_contra fails
    rw [not_or, Nat.not_le] at fails
    exact sound.not_moved (by rw [split]; simp) small positive high refused heap fails.2 moves
  · exact fun fits => sound.moved headers split positive high refused heap (fits.resolve_left refused) most

/-! ## Runs -/

/-- No call moves the end of the heap. -/
theorem Sound.step_maxheap {call : MallocCall} {s s' : MallocState} (step : Step call s s') (sound : Sound g s blocks) :
    s'.mem.maxheap = s.mem.maxheap := by
  cases step with
  | @malloc s n fits =>
    by_cases refused : Mem.Refused blocks n
    · simp only [sound.wellFormed.malloc_null refused]
    · obtain ⟨a, m', blocks', taken, -, returns⟩ := sound.wellFormed.malloc_block (by omega) refused
      simp only [returns]
      exact taken.bounds.2
  | free => exact Mem.maxheap_free _ _
  | @getmem s n fits =>
    by_cases zero : n = 0
    · rw [zero]
      rfl
    · obtain ⟨-, none⟩ | ⟨a, m', blocks', found, taken, -⟩ := sound.list.getmem_spec sound.wellFormed.grained zero
      · simp only [none, Option.elim]
      · simp only [found, Option.elim]
        exact taken.bounds.2
  | @getstk s n fits =>
    by_cases zero : n = 0
    · rw [zero]
      rfl
    · obtain ⟨-, none⟩ | ⟨a, m', blocks', found, taken⟩ := sound.list.getstk_spec zero
      · simp only [none, Option.elim]
      · simp only [found, Option.elim]
        exact taken.bounds.2
  | freemem allocated => exact Mem.maxheap_freemem _ _ _
  | store stores => exact stores.bounds.2

/-- The heap starts at a multiple of eight, or no free block is smaller than its header. -/
def Headed (image : Image) (m : Mem) : Prop := 8 ∣ image.endAddr ∨ Mem.Roomy m.freeList

def grainOf (image : Image) : Nat := if 8 ∣ image.endAddr then 8 else 4

theorem grainOf_start (image : Image) : (4 ∣ grainOf image ∧ grainOf image ∣ 8) ∧ grainOf image ∣ image.endAddr := by
  rw [grainOf]
  split
  · next aligned => exact ⟨by decide, aligned⟩
  · exact ⟨by decide, Nat.dvd_of_mod_eq_zero image.aligned⟩

theorem Headed.spacious {image : Image} (headed : Headed image m) : Spacious (grainOf image) m := by
  cases headed with
  | inl aligned =>
    rw [grainOf, if_pos aligned]
    exact spacious_eight m
  | inr roomy => exact .of_roomy roomy

/-- A call in a heap whose free blocks keep their headers. -/
def HeadedStep (image : Image) (call : MallocCall) (s s' : MallocState) : Prop := Step call s s' ∧ Headed image s'.mem

theorem run_sound {image : Image} {ram : Nat → UInt8} (first : Headed image (start image.endAddr ram).mem)
    {calls : List MallocCall} (run : Transition.Run (HeadedStep image) calls (start image.endAddr ram) s) :
    (∃ blocks, Sound (grainOf image) s blocks) ∧ s.mem.maxheap = MAXADDR - HANDLERSTACK := by
  apply run.invariant (fun s => (∃ blocks, Sound (grainOf image) s blocks) ∧ s.mem.maxheap = MAXADDR - HANDLERSTACK)
  · rintro call s s' ⟨step, headed⟩ ⟨⟨blocks, sound⟩, high⟩
    exact ⟨Sound.step step ⟨blocks, sound⟩ headed.spacious, (Sound.step_maxheap step sound).trans high⟩
  · obtain ⟨grain, aligned⟩ := grainOf_start image
    refine ⟨start_sound (Nat.lt_of_lt_of_le (by decide) image.inRam) image.belowStack grain aligned first.spacious, ?_⟩
    simp [start, Mem.meminit]

/-- For every live block and every size: `realloc` keeps its promise exactly when the heap has no room for the new
block, or the new size is within the old one; what was requested counts as the old block, or what was taken for it. -/
theorem realloc_moves_iff {image : Image} {ram : Nat → UInt8} (first : Headed image (start image.endAddr ram).mem)
    {calls : List MallocCall} {s : MallocState}
    (run : Transition.Run (HeadedStep image) calls (start image.endAddr ram) s) {front back : List Block} {b : Block}
    (live : s.live = front ++ b :: back) {n : Nat} (positive : 0 < n) (small : n < 2 ^ 32)
    (last : Headed image (s.mem.malloc n).2) {k : Kernel} (heap : k.mem = s.mem) :
    (Reallocates s (front ++ back) b n (b.size - 8) k ↔ Mem.Refused s.mem.freeList n ∨ n ≤ b.size - 8) ∧
      (Reallocates s (front ++ back) b n (Mem.rounded b.size - 8) k ↔
        Mem.Refused s.mem.freeList n ∨ n ≤ Mem.rounded b.size - 8) := by
  obtain ⟨⟨blocks, sound⟩, end_eq⟩ := run_sound first run
  have high : s.mem.maxheap < 2 ^ 31 := by
    rw [end_eq]
    decide
  have most := Mem.le_rounded b.size
  rw [sound.list.eq_freeList]
  exact ⟨sound.reallocates_iff last.spacious live small positive high heap (by omega),
    sound.reallocates_iff last.spacious live small positive high heap (Nat.le_refl _)⟩

/-- The heap of `tenBytes` with its block. -/
def tenState : MallocState := ⟨tenBytes.mem, [⟨0x20006000, 18⟩]⟩

theorem ten_step : Step (.malloc 10) (start heapImage.endAddr fun _ => 0) tenState := by
  have pointer : ((Mem.meminit heapImage.endAddr fun _ => 0).malloc 10).1 = 0x20006008 := by decide +kernel
  have step := Step.malloc (s := start heapImage.endAddr fun _ => 0) (n := 10) (by decide)
  have live : (if ((start heapImage.endAddr fun _ => 0).mem.malloc 10).1 = 0 then
    (start heapImage.endAddr fun _ => 0).live
      else ⟨((start heapImage.endAddr fun _ => 0).mem.malloc 10).1 - 8, 10 + 8⟩ ::
        (start heapImage.endAddr fun _ => 0).live) = [⟨0x20006000, 18⟩] := by
    change (if ((Mem.meminit heapImage.endAddr fun _ => 0).malloc 10).1 = 0 then ([] : List Block) else
      [⟨((Mem.meminit heapImage.endAddr fun _ => 0).malloc 10).1 - 8, 10 + 8⟩]) = _
    rw [pointer]
    rfl
  rw [live] at step
  exact step

/-- The heap starts at a multiple of eight. -/
theorem ten_headed (m : Mem) : Headed heapImage m := Or.inl (by decide)

theorem ten_run : Transition.Run (HeadedStep heapImage) [.malloc 10] (start heapImage.endAddr fun _ => 0) tenState :=
  .single ⟨ten_step, ten_headed _⟩

/-- Ten bytes become five. -/
theorem realloc_moves_five : Reallocates tenState [] ⟨0x20006000, 18⟩ 5 10 tenBytes :=
  (realloc_moves_iff (ten_headed _) ten_run (show tenState.live = [] ++ ⟨0x20006000, 18⟩ :: [] from rfl) (n := 5)
    (by decide) (by decide) (ten_headed _) (k := tenBytes) rfl).1.mpr (Or.inr (by decide))

/-- From ten bytes to a hundred, `realloc` reads ninety bytes behind the old block. -/
theorem realloc_reads_past : ¬∀ (image : Image) (ram : Nat → UInt8) (calls : List MallocCall) (s : MallocState)
    (front back : List Block) (b : Block) (n : Nat) (k : Kernel), 8 ∣ image.endAddr →
      Transition.Run Step calls (start image.endAddr ram) s → s.live = front ++ b :: back → 0 < n → n < 2 ^ 32 →
        k.mem = s.mem → Reallocates s (front ++ back) b n (Mem.rounded b.size - 8) k := by
  intro all
  have moves := all heapImage _ _ _ [] [] _ 100 tenBytes (by decide) (.single ten_step) rfl (by decide) (by decide) rfl
  obtain ⟨⟨blocks, sound⟩, end_eq⟩ := run_sound (ten_headed _) ten_run
  have granted : ¬Mem.Refused blocks 100 := by
    intro refused
    have null := congrArg Prod.fst (sound.wellFormed.malloc_null refused)
    have pointer : (tenState.mem.malloc 100).1 ≠ 0 := by decide +kernel
    exact pointer null
  apply sound.not_moved (List.mem_singleton.mpr rfl) (by decide) (by decide) _ granted rfl (by decide) moves
  rw [end_eq]
  decide

end MallocState

end XinuStm32
