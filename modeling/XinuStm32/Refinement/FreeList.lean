import XinuStm32.Kernel.Memory
import XinuStm32.Lib.FreeBlocks

/-!
# The free list in memory

`FreeList m blocks` says that the memory holds this list of blocks, linked through their headers from
`memlist` to `NULL`, in canonical form. The scans of the allocator walk along the list, and its
stores edit the list as the operations of `FreeBlocks` do.
-/

namespace XinuStm32

open FreeBlocks

namespace Mem

/-! ## Links -/

/-- From pointer `p` the links lead over these blocks to pointer `q`. -/
def Links (m : Mem) : Nat → List Block → Nat → Prop
  | p, [], q => p = q
  | p, b :: blocks, q =>
    p = b.addr ∧ m.length (some b.addr) = b.size ∧ m.Links (m.next (some b.addr)) blocks q

/-- The headers of the blocks, eight bytes each, are in ascending order and do not overlap. -/
def Laid (blocks : List Block) : Prop := blocks.Pairwise fun b c => b.addr + 8 ≤ c.addr

/-- The node whose link leads behind these blocks. -/
def lastNode (front : List Block) : Option Nat := front.getLast?.map Block.addr

/-- The pointer to the first of these blocks. -/
def firstNode (back : List Block) : Nat := (back.head?.map Block.addr).getD 0

/-- The header at this node overlaps no header of the blocks. -/
def Clear (prev : Option Nat) (blocks : List Block) : Prop :=
  ∀ a, prev = some a → ∀ b ∈ blocks, a + 8 ≤ b.addr ∨ b.addr + 8 ≤ a

variable {m m' : Mem} {p q : Nat} {b : Block} {front back blocks : List Block}

@[simp] theorem lastNode_nil : lastNode [] = none := rfl

@[simp] theorem lastNode_concat (init : List Block) (a : Block) : lastNode (init ++ [a]) = some a.addr := by
  simp [lastNode]

@[simp] theorem firstNode_nil : firstNode [] = 0 := rfl

@[simp] theorem firstNode_cons (b : Block) (back : List Block) : firstNode (b :: back) = b.addr := rfl

theorem links_append {r : Nat} :
    m.Links p (front ++ back) r ↔ ∃ q, m.Links p front q ∧ m.Links q back r := by
  induction front generalizing p with
  | nil => simp [Links]
  | cons b front inductionHypothesis =>
    simp only [List.cons_append, Links, inductionHypothesis]
    grind

theorem Links.first (links : m.Links p blocks 0) : p = firstNode blocks := by
  cases blocks with
  | nil => exact links
  | cons b blocks => exact links.1

theorem Laid.append (laid : Laid (front ++ back)) :
    Laid front ∧ Laid back ∧ ∀ f ∈ front, ∀ c ∈ back, f.addr + 8 ≤ c.addr :=
  List.pairwise_append.mp laid

/-! ## Stores -/

theorem next_congr {a : Nat} (same : ∀ x, a ≤ x → x < a + 8 → m'.ram x = m.ram x) :
    m'.next (some a) = m.next (some a) :=
  Words.load_congr fun x low high => same x low (by omega)

theorem length_congr {a : Nat} (same : ∀ x, a ≤ x → x < a + 8 → m'.ram x = m.ram x) :
    m'.length (some a) = m.length (some a) :=
  Words.load_congr fun x low high => same x (by omega) (by omega)

/-- Links depend on the headers only. -/
theorem Links.frame (links : m.Links p blocks q)
    (same : ∀ b ∈ blocks, ∀ x, b.addr ≤ x → x < b.addr + 8 → m'.ram x = m.ram x) :
    m'.Links p blocks q := by
  induction blocks generalizing p with
  | nil => exact links
  | cons b blocks inductionHypothesis =>
    obtain ⟨here, size, rest⟩ := links
    have header := same b List.mem_cons_self
    refine ⟨here, (length_congr header).trans size, ?_⟩
    rw [next_congr header]
    exact inductionHypothesis rest fun c member => same c (List.mem_cons_of_mem _ member)

@[simp] theorem mlength_setNext (prev : Option Nat) (value : Nat) :
    (m.setNext prev value).mlength = m.mlength := by
  cases prev <;> rfl

theorem ram_setNext {a x value : Nat} (outside : x < a ∨ a + 8 ≤ x) :
    (m.setNext (some a) value).ram x = m.ram x :=
  Words.store_outside (by omega)

theorem ram_setLength {a x value : Nat} (outside : x < a ∨ a + 8 ≤ x) :
    (m.setLength (some a) value).ram x = m.ram x :=
  Words.store_outside (by omega)

theorem Links.setNext (links : m.Links p blocks q) {prev : Option Nat} (clear : Clear prev blocks)
    (value : Nat) : (m.setNext prev value).Links p blocks q := by
  refine links.frame fun b member x low high => ?_
  cases prev with
  | none => rfl
  | some a =>
    have apart := clear a rfl b member
    exact ram_setNext (by omega)

theorem Links.setLength (links : m.Links p blocks q) {a : Nat} (clear : Clear (some a) blocks)
    (value : Nat) : (m.setLength (some a) value).Links p blocks q := by
  refine links.frame fun b member x low high => ?_
  have apart := clear a rfl b member
  exact ram_setLength (by omega)

@[simp] theorem next_setNext {a value : Nat} (fits : value < 2 ^ 32) :
    (m.setNext (some a) value).next (some a) = value :=
  Words.load_store fits

@[simp] theorem length_setLength {a value : Nat} (fits : value < 2 ^ 32) :
    (m.setLength (some a) value).length (some a) = value :=
  Words.load_store fits

@[simp] theorem length_setNext (a value : Nat) :
    (m.setNext (some a) value).length (some a) = m.length (some a) :=
  Words.load_store_apart (Or.inl (by omega))

@[simp] theorem next_setLength (a value : Nat) :
    (m.setLength (some a) value).next (some a) = m.next (some a) :=
  Words.load_store_apart (Or.inr (by omega))

theorem setNext_other {prev : Option Nat} {a value : Nat} (clear : Clear prev [⟨a, 8⟩]) :
    (m.setNext prev value).next (some a) = m.next (some a) ∧
      (m.setNext prev value).length (some a) = m.length (some a) := by
  cases prev with
  | none => exact ⟨rfl, rfl⟩
  | some c =>
    have apart := clear c rfl ⟨a, 8⟩ (List.mem_singleton.mpr rfl)
    have same : ∀ x, a ≤ x → x < a + 8 → (m.setNext (some c) value).ram x = m.ram x :=
      fun x low high => ram_setNext (by simp only at apart; omega)
    exact ⟨next_congr same, length_congr same⟩

theorem Laid.clear_last (laid : Laid (front ++ back)) : Clear (lastNode front) back := by
  rintro a last c member
  obtain ⟨laidFront, -, across⟩ := laid.append
  obtain rfl | ⟨init, b, rfl⟩ := List.eq_nil_or_concat' front
  · cases last
  · rw [lastNode_concat, Option.some.injEq] at last
    rw [← last]
    exact Or.inl (across b (by simp) c member)

/-- The link behind the first blocks can be set to lead anywhere. -/
theorem Links.redirect (links : m.Links m.mnext front q) (laid : Laid front) {value : Nat}
    (fits : value < 2 ^ 32) :
    (m.setNext (lastNode front) value).Links (m.setNext (lastNode front) value).mnext front value := by
  obtain rfl | ⟨init, a, rfl⟩ := List.eq_nil_or_concat' front
  · rfl
  · rw [lastNode_concat]
    obtain ⟨r, before, here, size, -⟩ := links_append.mp links
    have clear : Clear (some a.addr) init := by
      intro a' same b member
      rw [← Option.some.inj same]
      exact Or.inr (laid.append.2.2 b member a (List.mem_singleton.mpr rfl))
    refine links_append.mpr ⟨r, before.setNext clear value, here, ?_, ?_⟩
    · rw [length_setNext]
      exact size
    · exact next_setNext fits

/-! ## Scans -/

/-- The search of `getmem` stops at the first block that is large enough. -/
theorem getmemScan_spec {n fuel curr : Nat} (enough : back.length < fuel)
    (links : m.Links curr back 0) (pointers : ∀ b ∈ back, 0 < b.addr) :
    (∀ b ∈ back, b.size < n) ∧ m.getmemScan n fuel (lastNode front) curr = none ∨
      ∃ skip b rest, back = skip ++ b :: rest ∧ (∀ c ∈ skip, c.size < n) ∧ n ≤ b.size ∧
        m.getmemScan n fuel (lastNode front) curr = some (b.addr,
          if b.size = n then m.takeExact n (lastNode (front ++ skip)) b.addr
          else m.takeLow n (lastNode (front ++ skip)) b.addr) := by
  induction back generalizing front curr fuel with
  | nil =>
    obtain ⟨fuel, rfl⟩ := Nat.exists_eq_succ_of_ne_zero (Nat.ne_of_gt enough)
    have here : curr = 0 := links
    exact Or.inl ⟨by simp, by simp [getmemScan, here]⟩
  | cons b back inductionHypothesis =>
    obtain ⟨fuel, rfl⟩ := Nat.exists_eq_succ_of_ne_zero (Nat.ne_of_gt (Nat.zero_lt_of_lt enough))
    obtain ⟨rfl, size, rest⟩ := links
    have pointer := pointers b List.mem_cons_self
    rw [getmemScan, if_neg (Nat.ne_of_gt pointer), size]
    by_cases fits : n ≤ b.size
    · right
      refine ⟨[], b, back, rfl, by simp, fits, ?_⟩
      rw [List.append_nil]
      split
      · rfl
      · rw [if_pos (by omega)]
    · rw [if_neg (by omega), if_neg (by omega)]
      have small : b.size < n := Nat.not_le.mp fits
      have next := @inductionHypothesis (front ++ [b]) fuel (m.next (some b.addr)) (by simpa using enough)
        rest (fun c member => pointers c (List.mem_cons_of_mem _ member))
      rw [lastNode_concat] at next
      obtain ⟨all, none⟩ | ⟨skip, c, rest, split, before, fits, found⟩ := next
      · exact Or.inl ⟨by simpa using ⟨small, all⟩, none⟩
      · refine Or.inr ⟨b :: skip, c, rest, by rw [split]; rfl, by simpa using ⟨small, before⟩, fits, ?_⟩
        rw [found, List.append_assoc, List.singleton_append]

/-- The search of `getstk` finds the last block that is large enough. -/
theorem getstkScan_spec {n fuel curr : Nat} {fits : Option (Option Nat × Nat)} (enough : back.length < fuel)
    (links : m.Links curr back 0) (pointers : ∀ b ∈ back, 0 < b.addr) :
    (∀ b ∈ back, b.size < n) ∧ m.getstkScan n fuel (lastNode front) curr fits = fits ∨
      ∃ skip b rest, back = skip ++ b :: rest ∧ (∀ c ∈ rest, c.size < n) ∧ n ≤ b.size ∧
        m.getstkScan n fuel (lastNode front) curr fits = some (lastNode (front ++ skip), b.addr) := by
  induction back generalizing front curr fuel fits with
  | nil =>
    obtain ⟨fuel, rfl⟩ := Nat.exists_eq_succ_of_ne_zero (Nat.ne_of_gt enough)
    have here : curr = 0 := links
    exact Or.inl ⟨by simp, by simp [getstkScan, here]⟩
  | cons b back inductionHypothesis =>
    obtain ⟨fuel, rfl⟩ := Nat.exists_eq_succ_of_ne_zero (Nat.ne_of_gt (Nat.zero_lt_of_lt enough))
    obtain ⟨rfl, size, rest⟩ := links
    have pointer := pointers b List.mem_cons_self
    have next := @inductionHypothesis (front ++ [b]) fuel (m.next (some b.addr))
      (if b.size ≥ n then some (lastNode front, b.addr) else fits) (by simpa using enough) rest
      (fun c member => pointers c (List.mem_cons_of_mem _ member))
    rw [lastNode_concat] at next
    simp only [getstkScan, if_neg (Nat.ne_of_gt pointer), size]
    obtain ⟨all, kept⟩ | ⟨skip, c, rest, split, behind, large, found⟩ := next
    · rw [kept]
      by_cases large : n ≤ b.size
      · exact Or.inr ⟨[], b, back, rfl, all, large, by rw [if_pos large, List.append_nil]⟩
      · exact Or.inl ⟨by simpa using ⟨Nat.not_le.mp large, all⟩, if_neg large⟩
    · refine Or.inr ⟨b :: skip, c, rest, by rw [split]; rfl, behind, large, ?_⟩
      rw [found, List.append_assoc, List.singleton_append]

/-- The walk of `freemem` stops at the first block that does not lie before the given one. -/
theorem freememScan_spec {block fuel next : Nat} (enough : back.length < fuel)
    (links : m.Links next back 0) (pointers : ∀ b ∈ back, 0 < b.addr) :
    ∃ skip rest, back = skip ++ rest ∧ (∀ c ∈ skip, c.addr < block) ∧
      (∀ c, rest.head? = some c → block ≤ c.addr) ∧
      m.freememScan block fuel (lastNode front) next = (lastNode (front ++ skip), firstNode rest) := by
  induction back generalizing front next fuel with
  | nil =>
    obtain ⟨fuel, rfl⟩ := Nat.exists_eq_succ_of_ne_zero (Nat.ne_of_gt enough)
    have here : next = 0 := links
    exact ⟨[], [], rfl, by simp, by simp, by simp [freememScan, here]⟩
  | cons b back inductionHypothesis =>
    obtain ⟨fuel, rfl⟩ := Nat.exists_eq_succ_of_ne_zero (Nat.ne_of_gt (Nat.zero_lt_of_lt enough))
    obtain ⟨rfl, size, rest⟩ := links
    have pointer := pointers b List.mem_cons_self
    rw [freememScan]
    by_cases before : b.addr < block
    · have next := @inductionHypothesis (front ++ [b]) fuel (m.next (some b.addr)) (by simpa using enough)
        rest (fun c member => pointers c (List.mem_cons_of_mem _ member))
      rw [lastNode_concat] at next
      obtain ⟨skip, rest, split, all, first, found⟩ := next
      rw [if_pos ⟨Nat.ne_of_gt pointer, before⟩]
      refine ⟨b :: skip, rest, by rw [split]; rfl, by simpa using ⟨before, all⟩, first, ?_⟩
      rw [found, List.append_assoc, List.singleton_append]
    · rw [if_neg (fun both => before both.2)]
      refine ⟨[], b :: back, rfl, by simp, fun c head => ?_, by simp⟩
      rw [← Option.some.inj head]
      exact Nat.not_lt.mp before

/-- `heap_free` adds up the sizes, modulo the word size. -/
theorem heapFreeScan_spec {fuel memptr free : Nat} (enough : blocks.length < fuel)
    (links : m.Links memptr blocks 0) (pointers : ∀ b ∈ blocks, 0 < b.addr)
    (small : free + total blocks < 2 ^ 32) : m.heapFreeScan fuel memptr free = free + total blocks := by
  induction blocks generalizing memptr fuel free with
  | nil =>
    obtain ⟨fuel, rfl⟩ := Nat.exists_eq_succ_of_ne_zero (Nat.ne_of_gt enough)
    have here : memptr = 0 := links
    simp [heapFreeScan, here]
  | cons b blocks inductionHypothesis =>
    obtain ⟨fuel, rfl⟩ := Nat.exists_eq_succ_of_ne_zero (Nat.ne_of_gt (Nat.zero_lt_of_lt enough))
    obtain ⟨rfl, size, rest⟩ := links
    have pointer := pointers b List.mem_cons_self
    rw [total_cons] at small ⊢
    rw [heapFreeScan, if_neg (Nat.ne_of_gt pointer), size, add32_of_lt (by omega),
      inductionHypothesis (by simpa using enough) rest
        (fun c member => pointers c (List.mem_cons_of_mem _ member)) (by omega)]
    omega

/-! ## The free list -/

/-- The memory holds these free blocks, in canonical form. -/
structure FreeList (m : Mem) (blocks : List Block) : Prop where
  links : m.Links m.mnext blocks 0
  canonical : Canonical m.minheap m.maxheap blocks
  laid : Laid blocks
  low : 0 < m.minheap
  high : m.maxheap + 8 < 2 ^ 32

theorem FreeList.maxheap_lt (list : m.FreeList blocks) : m.maxheap < 2 ^ 32 := by
  have high := list.high
  omega

/-- Every block has room for its header. -/
def Roomy (blocks : List Block) : Prop := ∀ b ∈ blocks, 8 ≤ b.size

theorem FreeList.inside (list : m.FreeList blocks) (member : b ∈ blocks) :
    0 < b.addr ∧ 0 < b.size ∧ b.limit < 2 ^ 32 := by
  obtain ⟨low, positive, high⟩ := list.canonical.within b member
  exact ⟨Nat.lt_of_lt_of_le list.low low, positive, Nat.lt_of_le_of_lt high list.maxheap_lt⟩

theorem FreeList.pointers (list : m.FreeList blocks) : ∀ b ∈ blocks, 0 < b.addr :=
  fun _ member => (list.inside member).1

theorem FreeList.total_lt (list : m.FreeList blocks) : total blocks < 2 ^ 32 := by
  have bound := list.canonical.total_le
  have high := list.high
  omega

theorem FreeList.enough_fuel (list : m.FreeList blocks) : blocks.length < walkFuel := by
  have positive := le_total fun b member => (list.inside member).2.1
  have bound := list.total_lt
  simp only [walkFuel]
  omega

/-- Blocks with room for their headers that do not overlap have headers that do not overlap. -/
theorem Roomy.laid {lo hi : Nat} (roomy : Roomy blocks) (canonical : Canonical lo hi blocks) : Laid blocks := by
  refine canonical.apart.imp_of_mem fun {b c} member _ apart => ?_
  have room := roomy b member
  simp only [Block.limit] at apart
  omega

theorem Links.congr (links : m.Links p blocks q) (ram : m'.ram = m.ram) : m'.Links p blocks q :=
  links.frame fun _ _ x _ _ => by rw [ram]

/-- The blocks that the links from `memlist` lead over. -/
def freeListScan (m : Mem) : Nat → Nat → List Block
  | 0, _ => []
  | fuel + 1, p => if p = 0 then [] else ⟨p, m.length (some p)⟩ :: freeListScan m fuel (m.next (some p))

/-- The free list as it can be read from the memory. -/
def freeList (m : Mem) : List Block := freeListScan m walkFuel m.mnext

theorem freeListScan_spec {fuel : Nat} (enough : blocks.length < fuel) (links : m.Links p blocks 0)
    (pointers : ∀ b ∈ blocks, 0 < b.addr) : m.freeListScan fuel p = blocks := by
  induction blocks generalizing p fuel with
  | nil =>
    obtain ⟨fuel, rfl⟩ := Nat.exists_eq_succ_of_ne_zero (Nat.ne_of_gt enough)
    exact if_pos links
  | cons b blocks inductionHypothesis =>
    obtain ⟨fuel, rfl⟩ := Nat.exists_eq_succ_of_ne_zero (Nat.ne_of_gt (Nat.zero_lt_of_lt enough))
    obtain ⟨rfl, size, rest⟩ := links
    obtain ⟨pointer, pointers⟩ := List.forall_mem_cons.mp pointers
    rw [freeListScan, if_neg (Nat.ne_of_gt pointer), size,
      inductionHypothesis (by simpa using enough) rest pointers]

/-- In the list as it is read, the link of a block leads to the next one. -/
theorem freeListScan_next {fuel : Nat} {c : Block} (here : m.freeListScan fuel p = front ++ b :: c :: back) :
    m.next (some b.addr) = c.addr ∧ c.addr ≠ 0 := by
  induction front generalizing p fuel with
  | nil =>
    cases fuel with
    | zero => cases here
    | succ fuel =>
      rw [freeListScan] at here
      split at here
      · cases here
      · simp only [List.nil_append, List.cons.injEq] at here
        obtain ⟨rfl, here⟩ := here
        cases fuel with
        | zero => cases here
        | succ fuel =>
          rw [freeListScan] at here
          split at here
          · cases here
          · next pointer =>
            simp only [List.cons.injEq] at here
            obtain ⟨rfl, -⟩ := here
            exact ⟨rfl, pointer⟩
  | cons f front inductionHypothesis =>
    cases fuel with
    | zero => cases here
    | succ fuel =>
      rw [freeListScan] at here
      split at here
      · cases here
      · simp only [List.cons_append, List.cons.injEq] at here
        exact inductionHypothesis here.2

/-- The memory determines its free list. -/
theorem FreeList.eq_freeList (list : m.FreeList blocks) : m.freeList = blocks :=
  freeListScan_spec list.enough_fuel list.links list.pointers

/-- `heap_free` is the number of free bytes. -/
theorem FreeList.heapFree (list : m.FreeList blocks) : m.heapFree = total blocks := by
  have small := list.total_lt
  rw [Mem.heapFree, heapFreeScan_spec list.enough_fuel list.links list.pointers (by omega), Nat.zero_add]

/-- The list stands as long as `memlist` and the headers do. -/
theorem FreeList.frame (list : m.FreeList blocks) (mnext : m'.mnext = m.mnext)
    (bounds : m'.minheap = m.minheap ∧ m'.maxheap = m.maxheap)
    (same : ∀ b ∈ blocks, ∀ x, b.addr ≤ x → x < b.addr + 8 → m'.ram x = m.ram x) : m'.FreeList blocks := by
  refine ⟨mnext ▸ list.links.frame same, ?_, list.laid, ?_, ?_⟩
  · rw [bounds.1, bounds.2]
    exact list.canonical
  · rw [bounds.1]
    exact list.low
  · rw [bounds.2]
    exact list.high

/-! ## Edits -/

/-- Outside these blocks, and outside `memlist`, the memory is the same. -/
structure EditsOnly (blocks : List Block) (m m' : Mem) : Prop where
  minheap : m'.minheap = m.minheap
  maxheap : m'.maxheap = m.maxheap
  ram : ∀ x, ¬ Covers blocks x → m'.ram x = m.ram x

theorem EditsOnly.trans {m'' : Mem} (first : EditsOnly blocks m m') (second : EditsOnly blocks m' m'') :
    EditsOnly blocks m m'' :=
  ⟨second.minheap.trans first.minheap, second.maxheap.trans first.maxheap,
    fun x outside => (second.ram x outside).trans (first.ram x outside)⟩

/-- A store to a header inside a block edits the block. -/
theorem editsOnly_setNext {prev : Option Nat} (value : Nat)
    (node : ∀ a, prev = some a → ∃ b ∈ blocks, b.addr ≤ a ∧ a + 8 ≤ b.limit) :
    EditsOnly blocks m (m.setNext prev value) := by
  cases prev with
  | none => exact ⟨rfl, rfl, fun _ _ => rfl⟩
  | some a =>
    refine ⟨rfl, rfl, fun x outside => ram_setNext ?_⟩
    obtain ⟨b, member, low, high⟩ := node a rfl
    by_contra inside
    refine outside ⟨b, member, ?_⟩
    simp only [Block.Covers]
    omega

theorem editsOnly_setLength {a : Nat} (value : Nat) (node : ∃ b ∈ blocks, b.addr ≤ a ∧ a + 8 ≤ b.limit) :
    EditsOnly blocks m (m.setLength (some a) value) := by
  refine ⟨rfl, rfl, fun x outside => ram_setLength ?_⟩
  obtain ⟨b, member, low, high⟩ := node
  by_contra inside
  refine outside ⟨b, member, ?_⟩
  simp only [Block.Covers]
  omega

theorem lastNode_block {a : Nat} (last : lastNode front = some a) : ∃ b ∈ front, b.addr = a := by
  obtain rfl | ⟨init, c, rfl⟩ := List.eq_nil_or_concat' front
  · cases last
  · rw [lastNode_concat, Option.some.injEq] at last
    exact ⟨c, by simp, last⟩

/-- The link behind the first blocks is in one of them, or in `memlist`. -/
theorem Roomy.editsOnly_last (roomy : Roomy front) (sub : front ⊆ blocks) (value : Nat) :
    EditsOnly blocks m (m.setNext (lastNode front) value) := by
  refine editsOnly_setNext value fun a last => ?_
  obtain ⟨b, member, rfl⟩ := lastNode_block last
  exact ⟨b, sub member, Nat.le_refl _, Nat.add_le_add_left (roomy b member) _⟩

@[simp] theorem minheap_setNext (prev : Option Nat) (value : Nat) :
    (m.setNext prev value).minheap = m.minheap := by
  cases prev <;> rfl

@[simp] theorem maxheap_setNext (prev : Option Nat) (value : Nat) :
    (m.setNext prev value).maxheap = m.maxheap := by
  cases prev <;> rfl

@[simp] theorem mlength_setLength {a : Nat} (value : Nat) :
    (m.setLength (some a) value).mlength = m.mlength := rfl

@[simp] theorem minheap_setLength {a : Nat} (value : Nat) :
    (m.setLength (some a) value).minheap = m.minheap := rfl

@[simp] theorem maxheap_setLength {a : Nat} (value : Nat) :
    (m.setLength (some a) value).maxheap = m.maxheap := rfl

end Mem

end XinuStm32
