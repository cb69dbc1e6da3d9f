import Mathlib
import XinuStm32.Lib.Transition
import XinuStm32.Properties.Heap

/-!
# Runs of the allocator

A run allocates blocks, gives back blocks that are held, and lets the owners store into the blocks
they hold. When the heap starts at a multiple of eight, the free blocks and the held ones divide the
heap between them all along the run, and so the held bytes determine the free list.
-/

namespace XinuStm32

open FreeBlocks Transition

/-- The memory and the blocks that are held, with their rounded sizes. -/
structure HeapState where
  mem : Mem
  held : List Block

inductive HeapCall where
  | getmem (nbytes : Nat)
  | getstk (nbytes : Nat)
  | freemem (blkaddr nbytes : Nat)
  | freestk (p len : Nat)
  /-- An owner stores into the blocks that are held. -/
  | store (ram : Nat → UInt8)

namespace HeapState

def start (endAddr : Nat) (ram : Nat → UInt8) : HeapState := ⟨Mem.meminit endAddr ram, []⟩

/-- A block leaves the held ones and goes to `freemem`. -/
def giveBack (s : HeapState) (blkaddr nbytes : Nat) : HeapState :=
  ⟨(s.mem.freemem blkaddr nbytes).2, s.held.erase ⟨blkaddr, roundmb nbytes⟩⟩

def exec (s : HeapState) : HeapCall → HeapState
  | .getmem nbytes =>
    match s.mem.getmem nbytes with
    | none => s
    | some (address, m) => ⟨m, ⟨address, roundmb nbytes⟩ :: s.held⟩
  | .getstk nbytes =>
    match s.mem.getstk nbytes with
    | none => s
    | some (p, m) => ⟨m, ⟨Mem.stackBase p nbytes, roundmb nbytes⟩ :: s.held⟩
  | .freemem blkaddr nbytes => s.giveBack blkaddr nbytes
  | .freestk p len => s.giveBack (Mem.stackBase p len) (roundmb len)
  | .store ram => { s with mem := { s.mem with ram } }

/-- Sizes that rounding up does not wrap. -/
def Sized (nbytes : Nat) : Prop := 1 ≤ nbytes ∧ nbytes ≤ 2 ^ 32 - 8

/-- Sizes do not wrap, what is given back is held, and owners store into held blocks only. -/
def Valid (s : HeapState) : HeapCall → Prop
  | .getmem nbytes => Sized nbytes
  | .getstk nbytes => Sized nbytes
  | .freemem blkaddr nbytes => Sized nbytes ∧ ⟨blkaddr, roundmb nbytes⟩ ∈ s.held
  | .freestk p len => Sized len ∧ ⟨Mem.stackBase p len, roundmb len⟩ ∈ s.held
  | .store ram => ∀ x, ¬ Covers s.held x → ram x = s.mem.ram x

def Step (call : HeapCall) (s s' : HeapState) : Prop := s.Valid call ∧ s' = s.exec call

/-- The free blocks and the held ones divide the heap. -/
structure Divided (s : HeapState) (blocks : List Block) : Prop where
  list : s.mem.FreeList blocks
  grained : Grained 8 blocks
  heldGrained : Grained 8 s.held
  positive : ∀ h ∈ s.held, 0 < h.size
  heldApart : s.held.Pairwise Apart
  within : ∀ x, Covers blocks x ∨ Covers s.held x ↔ s.mem.minheap ≤ x ∧ x < s.mem.maxheap
  separate : ∀ x, Covers blocks x → ¬ Covers s.held x
  mlength : s.mem.mlength = total blocks
  sizes : total blocks + total s.held = s.mem.maxheap - s.mem.minheap

variable {s s' : HeapState} {blocks blocks' : List Block} {a n : Nat} {m' : Mem} {b : Block}

theorem Sized.rounded (sized : Sized n) : roundmb n = Mem.rounded n ∧ 0 < Mem.rounded n ∧ Mem.rounded n < 2 ^ 32 := by
  obtain ⟨low, high⟩ := sized
  have fits := (Mem.rounded_lt_iff (n := n) (by omega)).mpr high
  exact ⟨Mem.roundmb_of_lt fits, Nat.lt_of_lt_of_le low (Mem.le_rounded n), fits⟩

theorem divided_start {endAddr : Nat} (positive : 0 < endAddr) (below : endAddr < MAXADDR - HANDLERSTACK)
    (aligned : 8 ∣ endAddr) (ram : Nat → UInt8) :
    (start endAddr ram).Divided [⟨endAddr, MAXADDR - HANDLERSTACK - endAddr⟩] := by
  have whole : 8 ∣ MAXADDR - HANDLERSTACK - endAddr := Nat.dvd_sub (by decide) aligned
  refine ⟨Mem.meminit_freeList positive below ram, List.forall_mem_singleton.mpr ⟨aligned, whole⟩,
    by simp [start, Grained], by simp [start], List.Pairwise.nil, fun x => ?_, by simp [start], ?_, rfl⟩
  · simp only [covers_cons, covers_nil, or_false, Block.Covers, Block.limit, start]
    change endAddr ≤ x ∧ x < endAddr + (MAXADDR - HANDLERSTACK - endAddr) ↔
      endAddr ≤ x ∧ x < MAXADDR - HANDLERSTACK
    rw [Nat.add_sub_cancel' (Nat.le_of_lt below)]
  · exact sub32_of_le (Nat.le_of_lt below) (by decide)

/-! ## The steps -/

/-- The order of the held blocks does not matter. -/
theorem Divided.perm (divided : s.Divided blocks) {held : List Block} (same : s.held.Perm held) :
    (⟨s.mem, held⟩ : HeapState).Divided blocks where
  list := divided.list
  grained := divided.grained
  heldGrained h member := divided.heldGrained h (same.mem_iff.mpr member)
  positive h member := divided.positive h (same.mem_iff.mpr member)
  heldApart := (same.pairwise_iff Apart.symm).mp divided.heldApart
  within x := by
    rw [← Covers.perm same]
    exact divided.within x
  separate x covers covers' := divided.separate x covers ((Covers.perm same x).mpr covers')
  mlength := divided.mlength
  sizes := by
    rw [← total_perm same]
    exact divided.sizes

/-- An allocation moves its bytes from the free to the held ones. -/
theorem Divided.take (divided : s.Divided blocks) (taken : Mem.Taken s.mem blocks a n m' blocks')
    (whole : 8 ∣ n) (positive : 0 < n) : (⟨m', ⟨a, n⟩ :: s.held⟩ : HeapState).Divided blocks' := by
  obtain ⟨aligned, grained⟩ := taken.grained 8 whole divided.grained
  have total := taken.total
  have small := divided.list.total_lt
  constructor
  · exact taken.list
  · exact grained
  · exact List.forall_mem_cons.mpr ⟨⟨aligned, whole⟩, divided.heldGrained⟩
  · exact List.forall_mem_cons.mpr ⟨positive, divided.positive⟩
  · refine List.pairwise_cons.mpr ⟨fun h member => ?_, divided.heldApart⟩
    -- a byte in common would be free and held
    by_contra overlaps
    simp only [Apart, Block.limit, not_or, Nat.not_le] at overlaps
    have size := divided.positive h member
    refine divided.separate (max a h.addr) (taken.were_free _ (by omega) (by omega)) ⟨h, member, by omega, ?_⟩
    simp only [Block.limit]
    omega
  · intro x
    change _ ↔ m'.minheap ≤ x ∧ x < m'.maxheap
    rw [taken.bounds.1, taken.bounds.2, ← divided.within x, taken.covers, covers_cons]
    have free := taken.were_free x
    simp only [Block.Covers, Block.limit]
    tauto
  · intro x covers held
    cases (covers_cons _ _ _).mp held with
    | inl here => exact ((taken.covers x).mp covers).2 here
    | inr held => exact divided.separate x ((taken.covers x).mp covers).1 held
  · change m'.mlength = _
    rw [taken.mlength, divided.mlength, sub32_of_le (by omega) small]
    omega
  · change _ = m'.maxheap - m'.minheap
    rw [taken.bounds.1, taken.bounds.2, ← divided.sizes, total_cons]
    simp only
    omega

theorem Divided.held_in_heap (divided : s.Divided blocks) (member : b ∈ s.held) :
    s.mem.minheap ≤ b.addr ∧ b.limit ≤ s.mem.maxheap := by
  have positive := divided.positive b member
  have first := (divided.within b.addr).mp (Or.inr ⟨b, member, Nat.le_refl _, Nat.lt_add_of_pos_right positive⟩)
  have last := (divided.within (b.limit - 1)).mp (Or.inr ⟨b, member, by simp only [Block.limit]; omega, by
    simp only [Block.limit]
    omega⟩)
  simp only [Block.limit] at last ⊢
  omega

theorem Divided.roomy (divided : s.Divided blocks) : Mem.Roomy blocks :=
  divided.grained.le_size divided.list.canonical

theorem Divided.grained_four (divided : s.Divided blocks) : Grained 4 blocks := fun b member =>
  ⟨Nat.dvd_trans (by decide) (divided.grained b member).1, Nat.dvd_trans (by decide) (divided.grained b member).2⟩

/-- What is held may be freed. -/
theorem Divided.freeable (divided : s.Divided blocks) (sized : Sized n) (member : ⟨a, roundmb n⟩ ∈ s.held) :
    Mem.Freeable s.mem blocks a n := by
  have inHeap := divided.held_in_heap member
  have low := sized.1
  rw [Block.limit, sized.rounded.1] at inHeap
  refine ⟨by omega, inHeap.1, inHeap.2, fun x start stop covers => ?_⟩
  refine divided.separate x covers ⟨_, member, start, ?_⟩
  rw [Block.limit, sized.rounded.1]
  exact stop

/-- A release moves the bytes of the block from the held to the free ones. -/
theorem Divided.give {m : Mem} {held : List Block} (divided : (⟨m, b :: held⟩ : HeapState).Divided blocks)
    (returned : Mem.Returned m blocks b.addr b.size m' blocks') : (⟨m', held⟩ : HeapState).Divided blocks' := by
  obtain ⟨whole, heldGrained⟩ := List.forall_mem_cons.mp divided.heldGrained
  obtain ⟨positive, heldPositive⟩ := List.forall_mem_cons.mp divided.positive
  obtain ⟨apart, heldApart⟩ := List.pairwise_cons.mp divided.heldApart
  have sizes := divided.sizes
  have total := returned.total
  constructor
  · exact returned.list
  · exact returned.grained 8 whole.1 whole.2 divided.grained
  · exact heldGrained
  · exact heldPositive
  · exact heldApart
  · intro x
    change _ ↔ m'.minheap ≤ x ∧ x < m'.maxheap
    have inHeap := divided.within x
    rw [covers_cons] at inHeap
    rw [returned.bounds.1, returned.bounds.2, ← inHeap, returned.covers]
    simp only [Block.Covers, Block.limit]
    tauto
  · rintro x covers ⟨h, member, low, high⟩
    obtain covers | ⟨start, stop⟩ := (returned.covers x).mp covers
    · exact divided.separate x covers ⟨h, List.mem_cons_of_mem _ member, low, high⟩
    · cases apart h member with
      | inl before =>
        simp only [Block.limit] at before
        omega
      | inr behind => omega
  · have small := returned.list.total_lt
    have before : m.mlength = FreeBlocks.total blocks := divided.mlength
    change m'.mlength = _
    rw [returned.mlength, before, add32_of_lt (by omega), total]
  · change FreeBlocks.total blocks' + FreeBlocks.total held = m'.maxheap - m'.minheap
    change FreeBlocks.total blocks + FreeBlocks.total (b :: held) = m.maxheap - m.minheap at sizes
    rw [total_cons] at sizes
    rw [returned.bounds.1, returned.bounds.2, total]
    omega

theorem Divided.giveBack (divided : s.Divided blocks) (sized : Sized n) (member : ⟨a, roundmb n⟩ ∈ s.held) :
    ∃ blocks', (s.giveBack a n).Divided blocks' ∧
      (s.giveBack a n).mem.minheap = s.mem.minheap ∧ (s.giveBack a n).mem.maxheap = s.mem.maxheap := by
  obtain ⟨-, blocks', returned⟩ := divided.list.frees divided.roomy (divided.freeable sized member)
  rw [← sized.rounded.1] at returned
  exact ⟨blocks', (divided.perm (List.perm_cons_erase member)).give returned, returned.bounds⟩

/-- Stores into held blocks do not reach the headers of free ones. -/
theorem Divided.store (divided : s.Divided blocks) {ram : Nat → UInt8}
    (inside : ∀ x, ¬ Covers s.held x → ram x = s.mem.ram x) :
    (⟨{ s.mem with ram }, s.held⟩ : HeapState).Divided blocks where
  list := by
    refine divided.list.frame rfl ⟨rfl, rfl⟩ fun b member x low high => inside x ?_
    have room := divided.roomy b member
    apply divided.separate x
    refine ⟨b, member, low, ?_⟩
    simp only [Block.limit]
    omega
  grained := divided.grained
  heldGrained := divided.heldGrained
  positive := divided.positive
  heldApart := divided.heldApart
  within := divided.within
  separate := divided.separate
  mlength := divided.mlength
  sizes := divided.sizes

/-- `freestk` finds the block again from the address of its last word. -/
theorem stackBase_top (inSpace : a + roundmb n < 2 ^ 32) (low : 4 ≤ a) :
    Mem.stackBase (sub32 (add32 a (roundmb n)) 4) n = a := by
  rw [Mem.stackBase, add32_of_lt inSpace]
  generalize roundmb n = size at inSpace
  rw [sub32_of_le (by omega) inSpace, sub32_of_le (by omega) (by omega), add32_of_lt (by omega)]
  omega

theorem Divided.stackBase_taken (divided : s.Divided blocks)
    (taken : Mem.Taken s.mem blocks a (roundmb n) m' blocks') :
    Mem.stackBase (sub32 (add32 a (roundmb n)) 4) n = a := by
  have aligned := (taken.grained 8 (Mem.roundmb_dvd n) divided.grained).1
  have inHeap := taken.in_heap divided.list
  have pointer := divided.list.low
  have bound := divided.list.maxheap_lt
  exact stackBase_top (by omega) (by omega)

/-- A size that is rounded up is not rounded up again. -/
theorem roundmb_roundmb (sized : Sized n) : Sized (roundmb n) ∧ roundmb (roundmb n) = roundmb n := by
  obtain ⟨same, positive, fits⟩ := sized.rounded
  obtain ⟨count, whole⟩ := Mem.roundmb_dvd n
  rw [← same] at positive fits
  have again : Mem.rounded (roundmb n) = roundmb n := by
    simp only [Mem.rounded]
    omega
  refine ⟨⟨positive, by omega⟩, ?_⟩
  rw [Mem.roundmb_of_lt (by rw [again]; exact fits), again]

/-- The heap stays divided, call by call. -/
theorem Divided.step {call : HeapCall} (divided : s.Divided blocks) (step : Step call s s') :
    ∃ blocks', s'.Divided blocks' ∧ s'.mem.minheap = s.mem.minheap ∧ s'.mem.maxheap = s.mem.maxheap := by
  obtain ⟨valid, rfl⟩ := step
  cases call with
  | getmem nbytes =>
    have positive : 0 < roundmb nbytes := valid.rounded.1 ▸ valid.rounded.2.1
    obtain ⟨-, none⟩ | found := divided.list.getmem_spec divided.grained_four (Nat.ne_of_gt valid.1)
    · have same : s.exec (.getmem nbytes) = s := by simp only [exec, none]
      rw [same]
      exact ⟨blocks, divided, rfl, rfl⟩
    · obtain ⟨address, m, blocks', found, taken, -⟩ := found
      simp only [exec, found]
      exact ⟨blocks', divided.take taken (Mem.roundmb_dvd _) positive, taken.bounds⟩
  | getstk nbytes =>
    have positive : 0 < roundmb nbytes := valid.rounded.1 ▸ valid.rounded.2.1
    obtain ⟨-, none⟩ | found := divided.list.getstk_spec (Nat.ne_of_gt valid.1)
    · have same : s.exec (.getstk nbytes) = s := by simp only [exec, none]
      rw [same]
      exact ⟨blocks, divided, rfl, rfl⟩
    · obtain ⟨address, m, blocks', found, taken⟩ := found
      simp only [exec, found, divided.stackBase_taken taken]
      exact ⟨blocks', divided.take taken (Mem.roundmb_dvd _) positive, taken.bounds⟩
  | freemem blkaddr nbytes => exact divided.giveBack valid.1 valid.2
  | freestk p len =>
    obtain ⟨sized, again⟩ := roundmb_roundmb valid.1
    exact divided.giveBack sized (again.symm ▸ valid.2)
  | store ram => exact ⟨blocks, divided.store valid, rfl, rfl⟩

theorem Divided.run {calls : List HeapCall} (divided : s.Divided blocks) (run : Run Step calls s s') :
    ∃ blocks', s'.Divided blocks' ∧ s'.mem.minheap = s.mem.minheap ∧ s'.mem.maxheap = s.mem.maxheap := by
  refine run.invariant (fun t => ∃ blocks', t.Divided blocks' ∧ t.mem.minheap = s.mem.minheap ∧
    t.mem.maxheap = s.mem.maxheap) ?_ ⟨blocks, divided, rfl, rfl⟩
  rintro call t t' step ⟨blocks', divided, low, high⟩
  obtain ⟨blocks'', divided, low', high'⟩ := divided.step step
  exact ⟨blocks'', divided, low'.trans low, high'.trans high⟩

/-! ## Every reachable heap is consistent -/

structure Consistent (s : HeapState) : Prop where
  ends : s.mem.Links s.mem.mnext s.mem.freeList 0
  ascending : s.mem.freeList.Pairwise fun b c => b.addr < c.addr
  within : ∀ b ∈ s.mem.freeList, s.mem.minheap ≤ b.addr ∧ b.limit ≤ s.mem.maxheap
  multiple : ∀ b ∈ s.mem.freeList, 0 < b.size ∧ 8 ∣ b.size
  coalesced : s.mem.freeList.Pairwise fun b c => b.limit < c.addr
  separate : ∀ b ∈ s.mem.freeList, ∀ h ∈ s.held, Apart b h
  heldApart : s.held.Pairwise Apart
  heldAligned : ∀ h ∈ s.held, 8 ∣ h.addr
  mlength : s.mem.mlength = s.mem.heapFree
  heapFree : s.mem.heapFree + total s.held = s.mem.maxheap - s.mem.minheap

theorem Divided.consistent (divided : s.Divided blocks) : s.Consistent := by
  have same := divided.list.eq_freeList
  have canonical := divided.list.canonical
  constructor
  · rw [same]
    exact divided.list.links
  · rw [same]
    refine canonical.apart.imp_of_mem fun {b c} member _ apart => ?_
    have positive := (canonical.within b member).2.1
    simp only [Block.limit] at apart
    omega
  · rw [same]
    exact fun b member => ⟨(canonical.within b member).1, (canonical.within b member).2.2⟩
  · rw [same]
    exact fun b member => ⟨(canonical.within b member).2.1, (divided.grained b member).2⟩
  · rw [same]
    exact canonical.apart
  · rw [same]
    intro b member h held
    -- a byte in common would be free and held
    by_contra overlaps
    simp only [Apart, Block.limit, not_or, Nat.not_le] at overlaps
    have size := (canonical.within b member).2.1
    have size' := divided.positive h held
    refine divided.separate (max b.addr h.addr) ⟨b, member, ?_⟩ ⟨h, held, ?_⟩ <;>
      simp only [Block.Covers, Block.limit] <;> omega
  · exact divided.heldApart
  · exact fun h member => (divided.heldGrained h member).1
  · rw [divided.list.heapFree]
    exact divided.mlength
  · rw [divided.list.heapFree]
    exact divided.sizes

section Runs

variable {endAddr : Nat} {ram : Nat → UInt8} {calls : List HeapCall}

theorem reachable_divided (positive : 0 < endAddr) (below : endAddr < MAXADDR - HANDLERSTACK)
    (aligned : 8 ∣ endAddr) (run : Run Step calls (start endAddr ram) s) :
    ∃ blocks, s.Divided blocks ∧ s.mem.minheap = endAddr ∧ s.mem.maxheap = MAXADDR - HANDLERSTACK :=
  (divided_start positive below aligned ram).run run

theorem reachable_heap_consistent (positive : 0 < endAddr) (below : endAddr < MAXADDR - HANDLERSTACK)
    (aligned : 8 ∣ endAddr) (run : Run Step calls (start endAddr ram) s) :
    s.Consistent ∧ s.mem.minheap = endAddr ∧ s.mem.maxheap = MAXADDR - HANDLERSTACK := by
  obtain ⟨blocks, divided, bounds⟩ := reachable_divided positive below aligned run
  exact ⟨divided.consistent, bounds⟩

end Runs

/-- A heap that starts at `0x20002000` after two calls. -/
def afterTwo (first second : HeapCall) : HeapState := ((start 0x20002000 fun _ => 0).exec first).exec second

theorem run_getmem_getstk :
    Run Step [.getmem 24, .getstk 100] (start 0x20002000 fun _ => 0) (afterTwo (.getmem 24) (.getstk 100)) :=
  .cons ⟨⟨by decide, by decide⟩, rfl⟩ (.single ⟨⟨by decide, by decide⟩, rfl⟩)

theorem run_getstk_getmem :
    Run Step [.getstk 100, .getmem 24] (start 0x20002000 fun _ => 0) (afterTwo (.getstk 100) (.getmem 24)) :=
  .cons ⟨⟨by decide, by decide⟩, rfl⟩ (.single ⟨⟨by decide, by decide⟩, rfl⟩)

/-- A block from each end. -/
theorem twoBlocks_consistent : (afterTwo (.getmem 24) (.getstk 100)).Consistent :=
  (reachable_heap_consistent (by decide) (by decide) (by decide) run_getmem_getstk).1

/-! ## The held bytes determine the free list -/

theorem Divided.unique {s₁ s₂ : HeapState} {blocks₁ blocks₂ : List Block} (first : s₁.Divided blocks₁)
    (second : s₂.Divided blocks₂)
    (bounds : s₁.mem.minheap = s₂.mem.minheap ∧ s₁.mem.maxheap = s₂.mem.maxheap)
    (same : ∀ x, Covers s₁.held x ↔ Covers s₂.held x) : s₁.mem.freeList = s₂.mem.freeList := by
  rw [first.list.eq_freeList, second.list.eq_freeList]
  have canonical := first.list.canonical
  rw [bounds.1, bounds.2] at canonical
  refine canonical.unique second.list.canonical fun x => ?_
  -- a byte is free if it is in the heap and not held
  have inHeap := first.within x
  rw [bounds.1, bounds.2, ← second.within x, same] at inHeap
  have apart := first.separate x
  have apart' := second.separate x
  rw [same] at apart
  tauto

/-- Give the blocks back one after the other. -/
def freeAll (order : List Block) (m : Mem) : Mem := order.foldl (fun m b => (m.freemem b.addr b.size).2) m

theorem Divided.sized (divided : s.Divided blocks) (member : b ∈ s.held) : Sized b.size ∧ roundmb b.size = b.size := by
  have inHeap := divided.held_in_heap member
  have positive := divided.positive b member
  have high := divided.list.high
  obtain ⟨count, whole⟩ := (divided.heldGrained b member).2
  simp only [Block.limit] at inHeap
  have same : Mem.rounded b.size = b.size := by
    simp only [Mem.rounded]
    omega
  refine ⟨⟨positive, by omega⟩, ?_⟩
  rw [Mem.roundmb_of_lt (by omega), same]

theorem Divided.freeAll {m : Mem} {held order : List Block} (divided : (⟨m, held⟩ : HeapState).Divided blocks)
    (sub : order.Subperm held) :
    ∃ blocks', (⟨freeAll order m, held.diff order⟩ : HeapState).Divided blocks' ∧
      (HeapState.freeAll order m).minheap = m.minheap ∧ (HeapState.freeAll order m).maxheap = m.maxheap := by
  induction order generalizing m held blocks with
  | nil => exact ⟨blocks, by rwa [List.diff_nil], rfl, rfl⟩
  | cons b order inductionHypothesis =>
    have member : b ∈ held := sub.subset List.mem_cons_self
    obtain ⟨sized, same⟩ := divided.sized member
    have here : (⟨b.addr, roundmb b.size⟩ : Block) = b := by rw [same]
    obtain ⟨blocks', given, low, high⟩ := divided.giveBack sized (here.symm ▸ member)
    simp only [HeapState.giveBack, here] at given low high
    have rest : order.Subperm (held.erase b) := by
      have erased := sub.erase b
      rwa [List.erase_cons_head] at erased
    obtain ⟨blocks'', all, low', high'⟩ := inductionHypothesis given rest
    rw [List.diff_cons]
    exact ⟨blocks'', all, low'.trans low, high'.trans high⟩

/-- Taking a block and giving it back leaves the list as it was. -/
theorem Divided.restored (divided : s.Divided blocks) (sized : Sized n)
    (taken : Mem.Taken s.mem blocks a (roundmb n) m' blocks') :
    (m'.freemem a n).1 = OK ∧ (m'.freemem a n).2.freeList = s.mem.freeList := by
  have positive : 0 < roundmb n := sized.rounded.1 ▸ sized.rounded.2.1
  have holding := divided.take taken (Mem.roundmb_dvd n) positive
  obtain ⟨accepted, -⟩ := holding.list.frees holding.roomy (holding.freeable sized List.mem_cons_self)
  obtain ⟨blocks'', given, low, high⟩ := holding.giveBack sized List.mem_cons_self
  refine ⟨accepted, given.unique divided ⟨low.trans taken.bounds.1, high.trans taken.bounds.2⟩ fun x => ?_⟩
  simp only [HeapState.giveBack, List.erase_cons_head]

/-- The free list is a function of the held bytes: whatever the two runs were, and so a block that is
taken and given back at once, blocks given back in another order and a heap of which nothing is held
all leave the same list, node by node. -/
theorem freeList_canonical {endAddr : Nat} (positive : 0 < endAddr) (below : endAddr < MAXADDR - HANDLERSTACK)
    (aligned : 8 ∣ endAddr) {ram ram' : Nat → UInt8} {calls calls' : List HeapCall}
    (run : Run Step calls (start endAddr ram) s) (run' : Run Step calls' (start endAddr ram') s') :
    ((∀ x, Covers s.held x ↔ Covers s'.held x) → s.mem.freeList = s'.mem.freeList) ∧
    (∀ n a m', Sized n → s.mem.getmem n = some (a, m') →
      (m'.freemem a n).1 = OK ∧ (m'.freemem a n).2.freeList = s.mem.freeList) ∧
    (∀ n p m', Sized n → s.mem.getstk n = some (p, m') →
      (m'.freemem (Mem.stackBase p n) (roundmb n)).1 = OK ∧
        (m'.freemem (Mem.stackBase p n) (roundmb n)).2.freeList = s.mem.freeList) ∧
    (∀ order order' : List Block, order.Subperm s.held → order.Perm order' →
      (freeAll order s.mem).freeList = (freeAll order' s.mem).freeList) ∧
    (s.held = [] → s.mem.freeList = [⟨endAddr, MAXADDR - HANDLERSTACK - endAddr⟩]) := by
  obtain ⟨blocks, divided, low, high⟩ := reachable_divided positive below aligned run
  obtain ⟨blocks', divided', low', high'⟩ := reachable_divided positive below aligned run'
  refine ⟨fun same => divided.unique divided' ⟨low.trans low'.symm, high.trans high'.symm⟩ same, ?_, ?_, ?_, ?_⟩
  · intro n a m' sized returns
    rcases divided.list.getmem_spec divided.grained_four (Nat.ne_of_gt sized.1) with ⟨-, none⟩ | found
    · rw [none] at returns
      cases returns
    · obtain ⟨address, m, blocks'', found, taken, -⟩ := found
      rw [found, Option.some.injEq, Prod.mk.injEq] at returns
      obtain ⟨rfl, rfl⟩ := returns
      exact divided.restored sized taken
  · intro n p m' sized returns
    rcases divided.list.getstk_spec (Nat.ne_of_gt sized.1) with ⟨-, none⟩ | found
    · rw [none] at returns
      cases returns
    · obtain ⟨address, m, blocks'', found, taken⟩ := found
      rw [found, Option.some.injEq, Prod.mk.injEq] at returns
      obtain ⟨rfl, rfl⟩ := returns
      obtain ⟨again, same⟩ := roundmb_roundmb sized
      rw [divided.stackBase_taken taken]
      rw [← same] at taken
      exact divided.restored again taken
  · intro order order' sub same
    obtain ⟨_, first, low₁, high₁⟩ := divided.freeAll sub
    obtain ⟨_, second, low₂, high₂⟩ := divided.freeAll (same.symm.subperm.trans sub)
    refine first.unique second ⟨low₁.trans low₂.symm, high₁.trans high₂.symm⟩ fun x => ?_
    simp only [same.diff_left]
  · intro nothing
    have fresh := divided_start positive below aligned ram
    rw [← fresh.list.eq_freeList]
    refine divided.unique fresh ⟨low, high⟩ fun x => ?_
    rw [nothing]
    rfl

/-- The same two blocks, taken in either order. -/
theorem twoBlocks_canonical :
    (afterTwo (.getmem 24) (.getstk 100)).mem.freeList = (afterTwo (.getstk 100) (.getmem 24)).mem.freeList := by
  apply (freeList_canonical (by decide) (by decide) (by decide) run_getmem_getstk run_getstk_getmem).1
  intro x
  have first : (afterTwo (.getmem 24) (.getstk 100)).held = [⟨0x2001ef98, 104⟩, ⟨0x20002000, 24⟩] := by
    decide +kernel
  have second : (afterTwo (.getstk 100) (.getmem 24)).held = [⟨0x20002000, 24⟩, ⟨0x2001ef98, 104⟩] := by
    decide +kernel
  rw [first, second]
  exact Covers.perm (List.Perm.swap _ _ _) x

/-! ## Images that are not aligned -/

/-- Every free block has room for its header, in the heap and outside every held block. -/
def HeadersFit (s : HeapState) : Prop :=
  ∀ b ∈ s.mem.freeList, 8 ≤ b.size ∧ s.mem.minheap ≤ b.addr ∧ b.addr + 8 ≤ s.mem.maxheap ∧
    ∀ x, b.addr ≤ x → x < b.addr + 8 → ¬ Covers s.held x

/-- What `ld.script` makes of the symbol `end`: a multiple of four in the RAM. -/
structure Linked (endAddr : Nat) : Prop where
  low : 0x20000000 ≤ endAddr
  high : endAddr ≤ 0x20020000
  aligned : 4 ∣ endAddr

theorem Divided.headersFit (divided : s.Divided blocks) : s.HeadersFit := by
  intro b member
  rw [divided.list.eq_freeList] at member
  have room := divided.roomy b member
  have within := divided.list.canonical.within b member
  simp only [Block.limit] at within
  refine ⟨room, within.1, by omega, fun x low high => divided.separate x ⟨b, member, low, ?_⟩⟩
  simp only [Block.limit]
  omega

/-- The first node starts at `end`, also when no heap is left. -/
theorem freeList_start {endAddr : Nat} (linked : Linked endAddr) (ram : Nat → UInt8) :
    (start endAddr ram).mem.freeList = [⟨endAddr, sub32 (MAXADDR - HANDLERSTACK) endAddr⟩] := by
  have low := linked.low
  have size : sub32 (MAXADDR - HANDLERSTACK) endAddr < 2 ^ 32 := Nat.mod_lt _ (by decide)
  refine Mem.freeListScan_spec (show 1 < 2 ^ 32 by decide) ⟨rfl, ?_, ?_⟩
    (List.forall_mem_singleton.mpr (by simp only; omega))
  · exact Mem.length_setLength size
  · change Mem.next _ _ = 0
    simp only [start, Mem.meminit, Mem.next_setLength]
    exact Mem.next_setNext (by decide)

/-- With `end` four past a multiple of eight, all but four bytes of the heap can be taken. -/
theorem headers_lost {endAddr : Nat} (linked : Linked endAddr) (below : endAddr < MAXADDR - HANDLERSTACK)
    (odd : ¬ 8 ∣ endAddr) (ram : Nat → UInt8) :
    ∃ calls s, Run Step calls (start endAddr ram) s ∧ ¬ s.HeadersFit := by
  have low := linked.low
  have four := linked.aligned
  have list : (start endAddr ram).mem.FreeList _ := Mem.meminit_freeList (by omega) below ram
  simp only [MAXADDR, HANDLERSTACK, Nat.reduceSub] at below list
  by_cases least : 536997888 - endAddr = 4
  · refine ⟨[], _, .nil _, fun fit => ?_⟩
    have room := (fit ⟨endAddr, 536997888 - endAddr⟩ (by rw [list.eq_freeList]; exact List.mem_cons_self)).1
    simp only at room
    omega
  · -- the size is a multiple of eight, and rounding up leaves it
    have sized : Sized (536997888 - endAddr - 4) := ⟨by omega, by omega⟩
    have same : roundmb (536997888 - endAddr - 4) = 536997888 - endAddr - 4 := by
      rw [sized.rounded.1, Mem.rounded]
      omega
    have grained : Grained 4 [(⟨endAddr, 536997888 - endAddr⟩ : Block)] :=
      List.forall_mem_singleton.mpr ⟨four, Nat.dvd_sub (by decide) four⟩
    obtain ⟨none, -⟩ | found := list.getmem_spec grained (Nat.ne_of_gt sized.1)
    · have small := none _ List.mem_cons_self
      rw [same] at small
      simp only at small
      omega
    · obtain ⟨a, m, blocks, found, taken, -⟩ := found
      refine ⟨[.getmem _], _, .single ⟨sized, rfl⟩, fun fit => ?_⟩
      -- four bytes are left, and the node that holds them is smaller than its header
      have left := taken.total
      have large := le_total fun b member => (fit b (by
        simp only [exec, found]
        rwa [taken.list.eq_freeList])).1
      rw [same, total_cons, total_nil] at left
      simp only at left
      cases blocks with
      | nil =>
        rw [total_nil] at left
        omega
      | cons b blocks =>
        rw [List.length_cons] at large
        omega

/-- Headers fit all along every run exactly for the images whose heap starts at a multiple of eight and
is not empty. -/
theorem headers_fit_iff {endAddr : Nat} (linked : Linked endAddr) :
    (∀ ram calls s, Run Step calls (start endAddr ram) s → s.HeadersFit) ↔
      8 ∣ endAddr ∧ endAddr < MAXADDR - HANDLERSTACK := by
  have low := linked.low
  constructor
  · intro always
    have below : endAddr < MAXADDR - HANDLERSTACK := by
      by_contra past
      have fit := always (fun _ => 0) [] _ (.nil _)
      have first := fit ⟨endAddr, sub32 (MAXADDR - HANDLERSTACK) endAddr⟩ (by
        rw [freeList_start linked]
        exact List.mem_cons_self)
      have inHeap : endAddr + 8 ≤ MAXADDR - HANDLERSTACK := first.2.2.1
      omega
    refine ⟨?_, below⟩
    by_contra odd
    obtain ⟨calls, s, run, lost⟩ := headers_lost linked below odd fun _ => 0
    exact lost (always _ calls s run)
  · rintro ⟨aligned, below⟩ ram calls s run
    obtain ⟨blocks, divided, -⟩ := reachable_divided (by omega) below aligned run
    exact divided.headersFit

/-- With `end` at `0x20002000` they fit in every run. -/
theorem aligned_headers_fit :
    Linked 0x20002000 ∧ ∀ ram calls s, Run Step calls (start 0x20002000 ram) s → s.HeadersFit := by
  have linked : Linked 0x20002000 := ⟨by decide, by decide, by decide⟩
  exact ⟨linked, (headers_fit_iff linked).mpr ⟨by decide, by decide⟩⟩

/-- With `end` at `0x20002004` a run leaves a node of four bytes. -/
theorem unaligned_headers_lost :
    Linked 0x20002004 ∧ ¬ ∀ ram calls s, Run Step calls (start 0x20002004 ram) s → s.HeadersFit := by
  have linked : Linked 0x20002004 := ⟨by decide, by decide, by decide⟩
  refine ⟨linked, fun always => ?_⟩
  obtain ⟨calls, s, run, lost⟩ := headers_lost linked (by decide) (by decide) fun _ => 0
  exact lost (always _ calls s run)

end HeapState

end XinuStm32
