import Mathlib

/-!
# Lists of free blocks

A free list in canonical form holds the free bytes of a range as blocks in ascending order that do
not touch. The form is unique: the free bytes determine the blocks. Taking one end of a block and
giving back a block, joined with the blocks it touches, keep the form.
-/

namespace FreeBlocks

structure Block where
  addr : Nat
  size : Nat
  deriving DecidableEq, Repr

namespace Block

def limit (b : Block) : Nat := b.addr + b.size

/-- The byte belongs to the block. -/
def Covers (b : Block) (x : Nat) : Prop := b.addr ≤ x ∧ x < b.limit

instance (b : Block) (x : Nat) : Decidable (b.Covers x) := inferInstanceAs (Decidable (_ ∧ _))

end Block

/-- The byte belongs to one of the blocks. -/
def Covers (blocks : List Block) (x : Nat) : Prop := ∃ b ∈ blocks, b.Covers x

def total (blocks : List Block) : Nat := (blocks.map Block.size).sum

structure Canonical (lo hi : Nat) (blocks : List Block) : Prop where
  apart : blocks.Pairwise fun b c => b.limit < c.addr
  within : ∀ b ∈ blocks, lo ≤ b.addr ∧ 0 < b.size ∧ b.limit ≤ hi

variable {lo hi : Nat} {b c : Block} {front back blocks : List Block}

/-! ## Bytes and sizes -/

@[simp] theorem covers_nil (x : Nat) : Covers [] x ↔ False := by simp [Covers]

@[simp] theorem covers_cons (b : Block) (blocks : List Block) (x : Nat) :
    Covers (b :: blocks) x ↔ b.Covers x ∨ Covers blocks x := by simp [Covers]

@[simp] theorem covers_append (front back : List Block) (x : Nat) :
    Covers (front ++ back) x ↔ Covers front x ∨ Covers back x := by
  simp [Covers, or_and_right, exists_or]

@[simp] theorem total_nil : total [] = 0 := rfl

@[simp] theorem total_cons (b : Block) (blocks : List Block) :
    total (b :: blocks) = b.size + total blocks := by simp [total]

@[simp] theorem total_append (front back : List Block) :
    total (front ++ back) = total front + total back := by simp [total]

theorem Covers.perm {blocks' : List Block} (same : blocks.Perm blocks') (x : Nat) :
    Covers blocks x ↔ Covers blocks' x := by
  simp only [Covers, same.mem_iff]

theorem total_perm {blocks' : List Block} (same : blocks.Perm blocks') : total blocks = total blocks' :=
  (same.map Block.size).sum_nat

/-- The blocks have no byte in common. -/
def Apart (b c : Block) : Prop := b.limit ≤ c.addr ∨ c.limit ≤ b.addr

theorem Apart.symm (apart : Apart b c) : Apart c b := Or.symm apart

/-! ## The form is unique -/

theorem Canonical.tail (canonical : Canonical lo hi (b :: blocks)) : Canonical lo hi blocks :=
  ⟨(List.pairwise_cons.mp canonical.apart).2, fun c member => canonical.within c (List.mem_cons_of_mem _ member)⟩

/-- No byte before the first block is free. -/
theorem Canonical.head_le (canonical : Canonical lo hi (b :: blocks)) {x : Nat}
    (covers : Covers (b :: blocks) x) : b.addr ≤ x := by
  obtain ⟨c, member, low, -⟩ := covers
  obtain rfl | member := List.mem_cons.mp member
  · exact low
  · have after := (List.pairwise_cons.mp canonical.apart).1 c member
    simp only [Block.limit] at after
    omega

theorem Canonical.head_covers (canonical : Canonical lo hi (b :: blocks)) :
    Covers (b :: blocks) b.addr := by
  have positive := (canonical.within b List.mem_cons_self).2.1
  refine ⟨b, List.mem_cons_self, Nat.le_refl _, ?_⟩
  simp only [Block.limit]
  omega

/-- The byte behind the first block is not free. -/
theorem Canonical.limit_not_covers (canonical : Canonical lo hi (b :: blocks)) :
    ¬ Covers (b :: blocks) b.limit := by
  rintro ⟨c, member, low, high⟩
  obtain rfl | member := List.mem_cons.mp member
  · exact Nat.lt_irrefl _ high
  · exact Nat.not_lt.mpr low ((List.pairwise_cons.mp canonical.apart).1 c member)

/-- The first block reaches as far as every block that starts where it does. -/
theorem Canonical.limit_le {blocks' : List Block} (canonical : Canonical lo hi (b :: blocks))
    (start : b.addr = c.addr) (same : ∀ x, Covers (b :: blocks) x ↔ Covers (c :: blocks') x) : c.limit ≤ b.limit := by
  by_contra longer
  refine canonical.limit_not_covers ((same _).mpr ⟨c, List.mem_cons_self, ?_, by omega⟩)
  simp only [← start, Block.limit]
  omega

theorem Canonical.covers_tail (canonical : Canonical lo hi (b :: blocks)) (x : Nat) :
    Covers blocks x ↔ Covers (b :: blocks) x ∧ b.limit ≤ x := by
  constructor
  · rintro ⟨c, member, low, high⟩
    have after := (List.pairwise_cons.mp canonical.apart).1 c member
    exact ⟨⟨c, List.mem_cons_of_mem _ member, low, high⟩, by omega⟩
  · rintro ⟨covers, after⟩
    obtain ⟨-, before⟩ | covers := (covers_cons b blocks x).mp covers
    · exact absurd after (Nat.not_le.mpr before)
    · exact covers

/-- The free bytes determine the blocks. -/
theorem Canonical.unique {blocks blocks' : List Block} (canonical : Canonical lo hi blocks)
    (canonical' : Canonical lo hi blocks') (same : ∀ x, Covers blocks x ↔ Covers blocks' x) :
    blocks = blocks' := by
  induction blocks generalizing blocks' with
  | nil =>
    cases blocks' with
    | nil => rfl
    | cons c rest => exact absurd ((same _).mpr canonical'.head_covers) (by simp)
  | cons b blocks inductionHypothesis =>
    cases blocks' with
    | nil => exact absurd ((same _).mp canonical.head_covers) (by simp)
    | cons c rest =>
      have start : b.addr = c.addr :=
        Nat.le_antisymm (canonical.head_le ((same _).mpr canonical'.head_covers))
          (canonical'.head_le ((same _).mp canonical.head_covers))
      have stop : b.limit = c.limit :=
        Nat.le_antisymm (canonical'.limit_le start.symm fun x => (same x).symm)
          (canonical.limit_le start same)
      have first : b = c := by
        cases b
        cases c
        simp only [Block.limit, Block.mk.injEq] at *
        omega
      subst first
      have rest : blocks = rest := by
        refine inductionHypothesis canonical.tail canonical'.tail fun x => ?_
        rw [canonical.covers_tail, canonical'.covers_tail, same]
      rw [rest]

/-- The free bytes fit into the range. -/
theorem Canonical.total_le (canonical : Canonical lo hi blocks) : total blocks ≤ hi - lo := by
  induction blocks generalizing lo with
  | nil => exact Nat.zero_le _
  | cons b blocks inductionHypothesis =>
    have first := canonical.within b List.mem_cons_self
    have rest : Canonical b.limit hi blocks :=
      ⟨(List.pairwise_cons.mp canonical.apart).2, fun c member =>
        ⟨Nat.le_of_lt ((List.pairwise_cons.mp canonical.apart).1 c member),
          (canonical.within c (List.mem_cons_of_mem _ member)).2⟩⟩
    have bound := inductionHypothesis rest
    simp only [total_cons, Block.limit] at *
    omega

theorem le_total {least : Nat} (large : ∀ b ∈ blocks, least ≤ b.size) :
    least * blocks.length ≤ total blocks := by
  induction blocks with
  | nil => simp
  | cons b blocks inductionHypothesis =>
    have first := large b List.mem_cons_self
    have rest := inductionHypothesis fun c member => large c (List.mem_cons_of_mem _ member)
    rw [total_cons, List.length_cons, Nat.mul_add, Nat.mul_one]
    omega

/-! ## Taking an end of a block -/

/-- What is left of a block after `n` bytes are taken from its low end. -/
def remainder (b : Block) (n : Nat) : List Block :=
  if b.size = n then [] else [⟨b.addr + n, b.size - n⟩]

/-- What is left of a block after `n` bytes are taken from its high end. -/
def shortened (b : Block) (n : Nat) : List Block :=
  if b.size = n then [] else [⟨b.addr, b.size - n⟩]

theorem Canonical.middle (canonical : Canonical lo hi (front ++ b :: back)) {part : List Block}
    (inside : part = [] ∨ ∃ c, part = [c] ∧ b.addr ≤ c.addr ∧ 0 < c.size ∧ c.limit ≤ b.limit) :
    Canonical lo hi (front ++ part ++ back) := by
  obtain ⟨apartFront, apartBack, apart⟩ := List.pairwise_append.mp canonical.apart
  obtain ⟨first, apartBack⟩ := List.pairwise_cons.mp apartBack
  have here := canonical.within b (by simp)
  have across : ∀ f ∈ front, ∀ c ∈ back, f.limit < c.addr := fun f inFront c inBack =>
    apart f inFront c (List.mem_cons_of_mem _ inBack)
  have within : ∀ f, f ∈ front ∨ f ∈ back → lo ≤ f.addr ∧ 0 < f.size ∧ f.limit ≤ hi := by
    rintro f (member | member) <;> exact canonical.within f (by simp [member])
  obtain rfl | ⟨c, rfl, low, positive, high⟩ := inside
  · refine ⟨?_, fun f member => within f (by simpa using member)⟩
    rw [List.append_nil]
    exact List.pairwise_append.mpr ⟨apartFront, apartBack, across⟩
  · constructor
    · rw [List.append_assoc, List.singleton_append, List.pairwise_append]
      refine ⟨apartFront, List.pairwise_cons.mpr ⟨fun d member => ?_, apartBack⟩, fun f inFront d member => ?_⟩
      · exact Nat.lt_of_le_of_lt high (first d member)
      · obtain rfl | member := List.mem_cons.mp member
        · exact Nat.lt_of_lt_of_le (apart f inFront b List.mem_cons_self) low
        · exact across f inFront d member
    · intro f member
      simp only [List.append_assoc, List.mem_append, List.mem_singleton] at member
      obtain member | rfl | member := member
      · exact within f (Or.inl member)
      · exact ⟨Nat.le_trans here.1 low, positive, Nat.le_trans high here.2.2⟩
      · exact within f (Or.inr member)

theorem Canonical.before (canonical : Canonical lo hi (front ++ b :: back)) {x : Nat}
    (covers : Covers front x) : x < b.addr := by
  obtain ⟨f, member, -, high⟩ := covers
  have apart := (List.pairwise_append.mp canonical.apart).2.2 f member b List.mem_cons_self
  omega

theorem Canonical.behind (canonical : Canonical lo hi (front ++ b :: back)) {x : Nat}
    (covers : Covers back x) : b.limit < x := by
  obtain ⟨c, member, low, -⟩ := covers
  have apart := (List.pairwise_cons.mp (List.pairwise_append.mp canonical.apart).2.1).1 c member
  omega

/-- What is free after a block is replaced by a part of it. -/
theorem Canonical.covers_middle (canonical : Canonical lo hi (front ++ b :: back)) {part : List Block}
    (inside : ∀ x, Covers part x → b.Covers x) (x : Nat) :
    Covers (front ++ part ++ back) x ↔ Covers (front ++ b :: back) x ∧ (b.Covers x → Covers part x) := by
  simp only [covers_append, covers_cons]
  have outside (covers : Covers front x ∨ Covers back x) : ¬ b.Covers x := by
    rintro ⟨low, high⟩
    cases covers with
    | inl covers => exact Nat.not_lt.mpr low (canonical.before covers)
    | inr covers => exact Nat.lt_asymm high (canonical.behind covers)
  constructor
  · rintro ((covers | covers) | covers)
    · exact ⟨Or.inl covers, fun here => absurd here (outside (Or.inl covers))⟩
    · exact ⟨Or.inr (Or.inl (inside x covers)), fun _ => covers⟩
    · exact ⟨Or.inr (Or.inr covers), fun here => absurd here (outside (Or.inr covers))⟩
  · rintro ⟨covers | covers | covers, left⟩
    · exact Or.inl (Or.inl covers)
    · exact Or.inl (Or.inr (left covers))
    · exact Or.inr covers

theorem covers_remainder {n : Nat} (x : Nat) :
    Covers (remainder b n) x ↔ b.Covers x ∧ b.addr + n ≤ x := by
  simp only [remainder]
  split <;> simp only [covers_nil, covers_cons, Block.Covers, Block.limit, or_false, false_iff] <;> omega

theorem covers_shortened {n : Nat} (x : Nat) :
    Covers (shortened b n) x ↔ b.Covers x ∧ x < b.limit - n := by
  simp only [shortened]
  split <;> simp only [covers_nil, covers_cons, Block.Covers, Block.limit, or_false, false_iff] <;> omega

theorem Canonical.shortened (canonical : Canonical lo hi (front ++ b :: back)) {n : Nat}
    (fits : n ≤ b.size) : Canonical lo hi (front ++ shortened b n ++ back) := by
  apply canonical.middle
  simp only [FreeBlocks.shortened]
  split
  · exact Or.inl rfl
  · refine Or.inr ⟨_, rfl, ?_⟩
    simp only [Block.limit]
    omega

/-- Exactly the bytes at the low end are taken. -/
theorem Canonical.covers_low (canonical : Canonical lo hi (front ++ b :: back)) {n : Nat} (fits : n ≤ b.size)
    (x : Nat) : Covers (front ++ FreeBlocks.remainder b n ++ back) x ↔
      Covers (front ++ b :: back) x ∧ ¬ (b.addr ≤ x ∧ x < b.addr + n) := by
  rw [canonical.covers_middle (fun x covers => ((covers_remainder x).mp covers).1), covers_remainder]
  simp only [Block.Covers, Block.limit]
  refine and_congr_right fun _ => ?_
  omega

/-- Exactly the bytes at the high end are taken. -/
theorem Canonical.covers_high (canonical : Canonical lo hi (front ++ b :: back)) {n : Nat} (fits : n ≤ b.size)
    (x : Nat) : Covers (front ++ FreeBlocks.shortened b n ++ back) x ↔
      Covers (front ++ b :: back) x ∧ ¬ (b.limit - n ≤ x ∧ x < b.limit - n + n) := by
  rw [canonical.covers_middle (fun x covers => ((covers_shortened x).mp covers).1), covers_shortened]
  simp only [Block.Covers, Block.limit]
  refine and_congr_right fun _ => ?_
  omega

theorem total_remainder {n : Nat} (fits : n ≤ b.size) :
    total (front ++ remainder b n ++ back) + n = total (front ++ b :: back) := by
  simp only [remainder]
  split <;> simp only [total_append, total_cons, total_nil] <;> omega

theorem total_shortened {n : Nat} (fits : n ≤ b.size) :
    total (front ++ shortened b n ++ back) + n = total (front ++ b :: back) := by
  simp only [shortened]
  split <;> simp only [total_append, total_cons, total_nil] <;> omega

/-! ## Giving back a block -/

/-- Put a block before others, joined with the first of them if the two touch. -/
def joinRight (b : Block) : List Block → List Block
  | [] => [b]
  | c :: back => if b.limit = c.addr then ⟨b.addr, b.size + c.size⟩ :: back else b :: c :: back

/-- Put a block between others, joined with its neighbours where they touch. -/
def release (front : List Block) (b : Block) (back : List Block) : List Block :=
  match front.getLast? with
  | none => joinRight b back
  | some a =>
    if a.limit = b.addr then front.dropLast ++ joinRight ⟨a.addr, a.size + b.size⟩ back
    else front ++ joinRight b back

@[simp] theorem release_nil (b : Block) (back : List Block) : release [] b back = joinRight b back := rfl

@[simp] theorem release_concat (init : List Block) (a b : Block) (back : List Block) :
    release (init ++ [a]) b back =
      if a.limit = b.addr then init ++ joinRight ⟨a.addr, a.size + b.size⟩ back
      else init ++ [a] ++ joinRight b back := by
  simp [release]

theorem covers_joinRight (b : Block) (back : List Block) (x : Nat) :
    Covers (joinRight b back) x ↔ b.Covers x ∨ Covers back x := by
  cases back with
  | nil => simp [joinRight]
  | cons c back =>
    simp only [joinRight]
    split
    · next touch =>
      simp only [covers_cons, Block.Covers, Block.limit] at touch ⊢
      rw [← or_assoc]
      apply or_congr_left
      omega
    · simp only [covers_cons]

/-- The bytes of the block become free. -/
theorem covers_release (front : List Block) (b : Block) (back : List Block) (x : Nat) :
    Covers (release front b back) x ↔ b.Covers x ∨ Covers (front ++ back) x := by
  obtain rfl | ⟨init, a, rfl⟩ := List.eq_nil_or_concat' front
  · exact covers_joinRight b back x
  · rw [release_concat]
    split
    · next touch =>
      have joined : (⟨a.addr, a.size + b.size⟩ : Block).Covers x ↔ a.Covers x ∨ b.Covers x := by
        simp only [Block.Covers, Block.limit] at touch ⊢
        omega
      simp only [covers_append, covers_joinRight, joined, covers_cons, covers_nil, or_false]
      tauto
    · simp only [covers_append, covers_joinRight, covers_cons, covers_nil, or_false]
      tauto

theorem total_joinRight (b : Block) (back : List Block) :
    total (joinRight b back) = b.size + total back := by
  cases back with
  | nil => simp [joinRight]
  | cons c back =>
    simp only [joinRight]
    split
    · simp only [total_cons]
      omega
    · rfl

theorem total_release (front : List Block) (b : Block) (back : List Block) :
    total (release front b back) = b.size + total (front ++ back) := by
  obtain rfl | ⟨init, a, rfl⟩ := List.eq_nil_or_concat' front
  · exact total_joinRight b back
  · rw [release_concat]
    split <;> simp only [total_append, total_joinRight, total_cons, total_nil] <;> omega

theorem Canonical.joinRight (within : lo ≤ b.addr ∧ 0 < b.size ∧ b.limit ≤ hi)
    (canonical : Canonical lo hi back) (behind : ∀ c ∈ back, b.limit ≤ c.addr) :
    Canonical lo hi (joinRight b back) := by
  cases back with
  | nil => exact ⟨by simp [FreeBlocks.joinRight], by simpa [FreeBlocks.joinRight] using within⟩
  | cons c back =>
    have first := canonical.within c List.mem_cons_self
    obtain ⟨apart, rest⟩ := List.pairwise_cons.mp canonical.apart
    have next := behind c List.mem_cons_self
    simp only [FreeBlocks.joinRight]
    split
    · next touch =>
      constructor
      · refine List.pairwise_cons.mpr ⟨fun d member => ?_, rest⟩
        have after := apart d member
        simp only [Block.limit] at touch after ⊢
        omega
      · intro d member
        obtain rfl | member := List.mem_cons.mp member
        · simp only [Block.limit] at *
          omega
        · exact canonical.within d (List.mem_cons_of_mem _ member)
    · next gap =>
      constructor
      · refine List.pairwise_cons.mpr ⟨fun d member => ?_, canonical.apart⟩
        obtain rfl | member := List.mem_cons.mp member
        · omega
        · have after := apart d member
          simp only [Block.limit] at next gap after ⊢
          omega
      · intro d member
        obtain rfl | member := List.mem_cons.mp member
        · exact within
        · exact canonical.within d member

/-- Blocks before `b` and joined blocks from `b` on stay apart. -/
theorem Canonical.append_joinRight (canonicalFront : Canonical lo hi front)
    (canonical : Canonical lo hi (FreeBlocks.joinRight b back)) (before : ∀ f ∈ front, f.limit < b.addr)
    (behind : ∀ c ∈ back, b.limit ≤ c.addr) : Canonical lo hi (front ++ FreeBlocks.joinRight b back) := by
  refine ⟨List.pairwise_append.mpr ⟨canonicalFront.apart, canonical.apart, fun f inFront d member => ?_⟩,
    fun d member => ?_⟩
  · have low : b.addr ≤ d.addr := by
      cases back with
      | nil => exact Nat.le_of_eq (congrArg Block.addr (List.mem_singleton.mp member).symm)
      | cons c back =>
        simp only [FreeBlocks.joinRight] at member
        split at member
        · obtain rfl | member := List.mem_cons.mp member
          · exact Nat.le_refl _
          · have after := behind d (List.mem_cons_of_mem _ member)
            simp only [Block.limit] at after
            omega
        · obtain rfl | member := List.mem_cons.mp member
          · exact Nat.le_refl _
          · have after := behind d member
            simp only [Block.limit] at after
            omega
    exact Nat.lt_of_lt_of_le (before f inFront) low
  · cases List.mem_append.mp member with
    | inl member => exact canonicalFront.within d member
    | inr member => exact canonical.within d member

/-- Giving back a block that overlaps no free one keeps the form. -/
theorem Canonical.release (canonical : Canonical lo hi (front ++ back))
    (within : lo ≤ b.addr ∧ 0 < b.size ∧ b.limit ≤ hi) (before : ∀ f ∈ front, f.limit ≤ b.addr)
    (behind : ∀ c ∈ back, b.limit ≤ c.addr) : Canonical lo hi (release front b back) := by
  obtain ⟨apartFront, apartBack, across⟩ := List.pairwise_append.mp canonical.apart
  have canonicalBack : Canonical lo hi back :=
    ⟨apartBack, fun c member => canonical.within c (List.mem_append_right _ member)⟩
  obtain rfl | ⟨init, a, rfl⟩ := List.eq_nil_or_concat' front
  · exact canonicalBack.joinRight within behind
  · obtain ⟨apartInit, -, beforeLast⟩ := List.pairwise_append.mp apartFront
    have last := canonical.within a (by simp)
    have canonicalInit : Canonical lo hi init :=
      ⟨apartInit, fun c member => canonical.within c (by simp [member])⟩
    have below : ∀ f ∈ init, f.limit < a.addr := fun f member => beforeLast f member a (by simp)
    have touches := before a (by simp)
    rw [release_concat]
    split
    · next touch =>
      have behind' : ∀ c ∈ back, (⟨a.addr, a.size + b.size⟩ : Block).limit ≤ c.addr := by
        intro c member
        have after := behind c member
        simp only [Block.limit] at touch after ⊢
        omega
      refine canonicalInit.append_joinRight (canonicalBack.joinRight ?_ behind') below behind'
      simp only [Block.limit] at *
      omega
    · next gap =>
      have canonicalFront : Canonical lo hi (init ++ [a]) :=
        ⟨apartFront, fun c member => canonical.within c (List.mem_append_left _ member)⟩
      refine canonicalFront.append_joinRight (canonicalBack.joinRight within behind) (fun f member => ?_) behind
      cases List.mem_append.mp member with
      | inl member =>
        have low := below f member
        simp only [Block.limit] at *
        omega
      | inr member =>
        rw [List.mem_singleton.mp member]
        omega

theorem le_size_joinRight {least : Nat} (given : least ≤ b.size) (large : ∀ c ∈ back, least ≤ c.size) :
    ∀ c ∈ joinRight b back, least ≤ c.size := by
  cases back with
  | nil => exact List.forall_mem_singleton.mpr given
  | cons c back =>
    simp only [joinRight]
    split
    · exact List.forall_mem_cons.mpr
        ⟨Nat.le_trans given (Nat.le_add_right _ _), (List.forall_mem_cons.mp large).2⟩
    · exact List.forall_mem_cons.mpr ⟨given, large⟩

/-- No block gets smaller. -/
theorem le_size_release {least : Nat} (given : least ≤ b.size) (large : ∀ c ∈ front ++ back, least ≤ c.size) :
    ∀ c ∈ release front b back, least ≤ c.size := by
  obtain ⟨largeFront, largeBack⟩ := List.forall_mem_append.mp large
  obtain rfl | ⟨init, a, rfl⟩ := List.eq_nil_or_concat' front
  · exact le_size_joinRight given largeBack
  · obtain ⟨largeInit, largeLast⟩ := List.forall_mem_append.mp largeFront
    rw [release_concat]
    split
    · exact List.forall_mem_append.mpr
        ⟨largeInit, le_size_joinRight (Nat.le_trans given (Nat.le_add_left _ _)) largeBack⟩
    · exact List.forall_mem_append.mpr ⟨largeFront, le_size_joinRight given largeBack⟩

/-! ## Multiples of a grain -/

/-- Addresses and sizes are multiples of `g`. -/
def Grained (g : Nat) (blocks : List Block) : Prop := ∀ b ∈ blocks, g ∣ b.addr ∧ g ∣ b.size

variable {g n : Nat}

theorem Grained.append (grained : Grained g (front ++ back)) : Grained g front ∧ Grained g back :=
  List.forall_mem_append.mp grained

theorem Grained.middle (grained : Grained g (front ++ b :: back)) {part : List Block}
    (inside : Grained g part) : Grained g (front ++ part ++ back) := by
  obtain ⟨first, last⟩ := grained.append
  exact List.forall_mem_append.mpr
    ⟨List.forall_mem_append.mpr ⟨first, inside⟩, fun c member => last c (List.mem_cons_of_mem _ member)⟩

theorem Grained.remainder (grained : Grained g (front ++ b :: back)) (whole : g ∣ n) :
    Grained g (front ++ remainder b n ++ back) := by
  refine grained.middle fun c member => ?_
  obtain ⟨addr, size⟩ := grained b (by simp)
  simp only [FreeBlocks.remainder] at member
  split at member
  · cases member
  · rw [List.mem_singleton.mp member]
    exact ⟨Nat.dvd_add addr whole, Nat.dvd_sub size whole⟩

theorem Grained.shortened (grained : Grained g (front ++ b :: back)) (whole : g ∣ n) :
    Grained g (front ++ shortened b n ++ back) := by
  refine grained.middle fun c member => ?_
  obtain ⟨addr, size⟩ := grained b (by simp)
  simp only [FreeBlocks.shortened] at member
  split at member
  · cases member
  · rw [List.mem_singleton.mp member]
    exact ⟨addr, Nat.dvd_sub size whole⟩

theorem Grained.joinRight (first : g ∣ b.addr ∧ g ∣ b.size) (grained : Grained g back) :
    Grained g (joinRight b back) := by
  cases back with
  | nil => exact List.forall_mem_singleton.mpr first
  | cons c back =>
    obtain ⟨second, rest⟩ := List.forall_mem_cons.mp grained
    simp only [FreeBlocks.joinRight]
    split
    · exact List.forall_mem_cons.mpr ⟨⟨first.1, Nat.dvd_add first.2 second.2⟩, rest⟩
    · exact List.forall_mem_cons.mpr ⟨first, grained⟩

theorem Grained.release (grained : Grained g (front ++ back)) (given : g ∣ b.addr ∧ g ∣ b.size) :
    Grained g (release front b back) := by
  obtain ⟨first, last⟩ := grained.append
  obtain rfl | ⟨init, a, rfl⟩ := List.eq_nil_or_concat' front
  · exact Grained.joinRight given last
  · obtain ⟨inits, single⟩ := first.append
    have here := single a List.mem_cons_self
    rw [release_concat]
    split
    · exact List.forall_mem_append.mpr ⟨inits, Grained.joinRight ⟨here.1, Nat.dvd_add here.2 given.2⟩ last⟩
    · exact List.forall_mem_append.mpr ⟨first, Grained.joinRight given last⟩

/-- Positive multiples of the grain are at least the grain. -/
theorem Grained.le_size (grained : Grained g blocks) (canonical : Canonical lo hi blocks) :
    ∀ b ∈ blocks, g ≤ b.size :=
  fun b member => Nat.le_of_dvd (canonical.within b member).2.1 (grained b member).2

end FreeBlocks
