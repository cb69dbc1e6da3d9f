import Mathlib

/-!
# Write-back buffers over a store

Buffers stand between a reader and a store of blocks. Each holds the block of an address, changed or not; a buffer
may also hold an address that nobody asks for, which is then not valid. What the reader sees is the buffered block
where there is one, and the stored block elsewhere. Loading another block, which writes a changed one back first, and
writing all of them back leave what the reader sees.
-/

namespace WriteBack

structure Buffer (κ β : Type*) where
  address : κ
  block : β
  dirty : Bool

variable {κ β : Type*}

/-- No valid address is in two buffers, and a buffer that has not changed holds what the store does. -/
structure Coherent (valid : κ → Prop) (buffers : List (Buffer κ β)) (store : κ → β) : Prop where
  apart : buffers.Pairwise fun b c => valid b.address → b.address ≠ c.address
  clean : ∀ b ∈ buffers, valid b.address → b.dirty = false → b.block = store b.address
  dirty : ∀ b ∈ buffers, b.dirty = true → valid b.address

variable {valid : κ → Prop} {buffers front back : List (Buffer κ β)} {store store' : κ → β} {a x : κ}
  {b : Buffer κ β}

theorem Coherent.change (coherent : Coherent valid (front ++ b :: back) store) (isValid : valid b.address)
    (block : β) : Coherent valid (front ++ ⟨b.address, block, true⟩ :: back) store := by
  have apart := coherent.apart
  constructor
  · rw [List.pairwise_append, List.pairwise_cons] at apart ⊢
    simpa using apart
  · intro c inside isValid clean
    rw [List.mem_append, List.mem_cons] at inside
    obtain front | rfl | back := inside
    · exact coherent.clean c (by simp [front]) isValid clean
    · exact absurd clean (by simp)
    · exact coherent.clean c (by simp [back]) isValid clean
  · intro c inside changed
    rw [List.mem_append, List.mem_cons] at inside
    obtain front | rfl | back := inside
    · exact coherent.dirty c (by simp [front]) changed
    · exact isValid
    · exact coherent.dirty c (by simp [back]) changed

variable [DecidableEq κ]

/-- What is seen at an address through the buffers. -/
def view (buffers : List (Buffer κ β)) (store : κ → β) (a : κ) : β :=
  ((buffers.find? fun b => b.address = a).map Buffer.block).getD (store a)

/-- The store after a buffer is written back if it has changed. -/
def settle (store : κ → β) (b : Buffer κ β) : κ → β :=
  if b.dirty then Function.update store b.address b.block else store

/-! ## Seeing through the buffers -/

@[simp]
theorem view_nil : view [] store x = store x := rfl

theorem view_cons (b : Buffer κ β) (buffers : List (Buffer κ β)) (store : κ → β) (x : κ) :
    view (b :: buffers) store x = if b.address = x then b.block else view buffers store x := by
  by_cases here : b.address = x
  · simp [view, here]
  · simp [view, here]

theorem view_absent (absent : ∀ b ∈ buffers, b.address ≠ x) : view buffers store x = store x := by
  rw [view, List.find?_eq_none.mpr (fun b inside => by simpa using absent b inside)]
  rfl

theorem view_congr (same : store' x = store x) : view buffers store' x = view buffers store x := by
  rw [view, view, same]

/-- The buffer of a valid address shows, wherever it stands among the others. -/
theorem view_middle (apart : (front ++ b :: back).Pairwise fun b c => valid b.address → b.address ≠ c.address)
    (isValid : valid x) :
    view (front ++ b :: back) store x = if b.address = x then b.block else view (front ++ back) store x := by
  induction front with
  | nil => exact view_cons b back store x
  | cons c front inductionHypothesis =>
    obtain ⟨first, rest⟩ := List.pairwise_cons.mp apart
    rw [List.cons_append, List.cons_append, view_cons, view_cons, inductionHypothesis rest]
    by_cases here : c.address = x
    · have other : c.address ≠ b.address := first b (by simp) (here ▸ isValid)
      rw [if_pos here, if_neg fun same => other (here.trans same.symm), if_pos here]
    · rw [if_neg here, if_neg here]

theorem Coherent.view_mem (coherent : Coherent valid buffers store) (inside : b ∈ buffers)
    (isValid : valid b.address) : view buffers store b.address = b.block := by
  obtain ⟨front, back, rfl⟩ := List.append_of_mem inside
  rw [view_middle coherent.apart isValid, if_pos rfl]

/-- Where nothing has changed the store is what is seen. -/
theorem Coherent.view_clean (coherent : Coherent valid buffers store) (clean : ∀ b ∈ buffers, b.dirty = false)
    (isValid : valid x) : view buffers store x = store x := by
  by_cases buffered : ∃ b ∈ buffers, b.address = x
  · obtain ⟨b, inside, rfl⟩ := buffered
    rw [coherent.view_mem inside isValid, coherent.clean b inside isValid (clean b inside)]
  · exact view_absent fun b inside here => buffered ⟨b, inside, here⟩

/-! ## Writing back -/

theorem settle_same (coherent : Coherent valid buffers store) (inside : b ∈ buffers)
    (isValid : valid b.address) : settle store b b.address = b.block := by
  rw [settle]
  split
  · exact Function.update_self _ _ _
  next clean => exact (coherent.clean b inside isValid (by simpa using clean)).symm

theorem settle_other (other : b.address ≠ x) : settle store b x = store x := by
  rw [settle]
  split
  · exact Function.update_of_ne other.symm _ _
  · rfl

/-- A buffer written back shows what it did before. -/
theorem Coherent.view_settle (coherent : Coherent valid buffers store) (inside : b ∈ buffers) (isValid : valid x) :
    view buffers (settle store b) x = view buffers store x := by
  by_cases here : b.address = x
  · subst here
    obtain ⟨front, back, rfl⟩ := List.append_of_mem inside
    rw [view_middle coherent.apart isValid, view_middle coherent.apart isValid, if_pos rfl, if_pos rfl]
  · exact view_congr (settle_other here)

theorem Coherent.settled (coherent : Coherent valid (front ++ b :: back) store) :
    Coherent valid (front ++ { b with dirty := false } :: back) (settle store b) := by
  have apart := coherent.apart
  have member : b ∈ front ++ b :: back := by simp
  constructor
  · rw [List.pairwise_append, List.pairwise_cons] at apart ⊢
    simpa using apart
  · intro c inside isValid clean
    rw [List.mem_append, List.mem_cons] at inside
    by_cases here : b.address = c.address
    · -- no other buffer has this address
      have isValid' : valid b.address := here ▸ isValid
      rw [List.pairwise_append, List.pairwise_cons] at apart
      obtain front | rfl | back := inside
      · exact absurd here.symm (apart.2.2 c front b (by simp) isValid)
      · exact (settle_same coherent member isValid).symm
      · exact absurd here (apart.2.1.1 c back isValid')
    · rw [settle_other here]
      refine coherent.clean c ?_ isValid clean
      obtain front | rfl | back := inside
      · simp [front]
      · exact absurd rfl here
      · simp [back]
  · intro c inside changed
    rw [List.mem_append, List.mem_cons] at inside
    obtain front | rfl | back := inside
    · exact coherent.dirty c (by simp [front]) changed
    · exact absurd changed (by simp)
    · exact coherent.dirty c (by simp [back]) changed

theorem view_undirtied (front back : List (Buffer κ β)) (b : Buffer κ β) (flag : Bool) :
    view (front ++ { b with dirty := flag } :: back) store x = view (front ++ b :: back) store x := by
  induction front with
  | nil => rw [List.nil_append, List.nil_append, view_cons, view_cons]
  | cons c front inductionHypothesis =>
    rw [List.cons_append, List.cons_append, view_cons, view_cons, inductionHypothesis]

/-! ## Loading another block -/

/-- The last buffer is written back and the block of another address takes its place, in front of the others. -/
theorem Coherent.load (coherent : Coherent valid (front ++ [b]) store)
    (absent : ∀ c ∈ front ++ [b], c.address ≠ a) :
    Coherent valid (⟨a, settle store b a, false⟩ :: front) (settle store b) := by
  have apart := coherent.apart
  rw [List.pairwise_append] at apart
  constructor
  · apply List.pairwise_cons.mpr
    exact ⟨fun c inside _ same => absent c (by simp [inside]) same.symm, apart.1⟩
  · intro c inside isValid clean
    cases List.mem_cons.mp inside with
    | inl loaded => rw [loaded]
    | inr front =>
      have other : b.address ≠ c.address :=
        fun same => apart.2.2 c front b (by simp) isValid same.symm
      rw [settle_other other]
      exact coherent.clean c (by simp [front]) isValid clean
  · intro c inside changed
    cases List.mem_cons.mp inside with
    | inl loaded => simp [loaded] at changed
    | inr front => exact coherent.dirty c (by simp [front]) changed

theorem Coherent.view_load (coherent : Coherent valid (front ++ [b]) store)
    (absent : ∀ c ∈ front ++ [b], c.address ≠ a) (isValid : valid x) :
    view (⟨a, settle store b a, false⟩ :: front) (settle store b) x = view (front ++ [b]) store x := by
  rw [← coherent.view_settle (b := b) (by simp) isValid, view_cons, view_middle coherent.apart isValid,
    List.append_nil]
  by_cases loaded : a = x
  · subst loaded
    rw [if_pos rfl, if_neg (absent b (by simp)), view_absent fun c inside => absent c (by simp [inside])]
  · rw [if_neg loaded]
    by_cases here : b.address = x
    · -- the block that went back to the store is in no other buffer
      subst here
      have apart := (List.pairwise_append.mp coherent.apart).2.2
      rw [if_pos rfl, view_absent fun c inside same => apart c inside b (by simp) (same ▸ isValid) same]
      exact settle_same coherent (by simp) isValid
    · rw [if_neg here]

/-! ## Changing a block -/

theorem Coherent.view_change (coherent : Coherent valid (front ++ b :: back) store) (isValid : valid b.address)
    (block : β) (validAt : valid x) :
    view (front ++ ⟨b.address, block, true⟩ :: back) store x =
      Function.update (view (front ++ b :: back) store) b.address block x := by
  rw [view_middle (coherent.change isValid block).apart validAt]
  by_cases here : b.address = x
  · subst here
    rw [if_pos rfl, Function.update_self]
  · rw [if_neg here, Function.update_of_ne (Ne.symm here), view_middle coherent.apart validAt, if_neg here]

/-! ## Giving a buffer up -/

/-- A block that is put into the store directly, and whose buffer then holds no valid address. -/
theorem Coherent.forget (coherent : Coherent valid (front ++ b :: back) store) (isValid : valid b.address)
    (invalid : ¬ valid a) (block : β) :
    Coherent valid (front ++ ⟨a, block, false⟩ :: back) (Function.update store b.address block) := by
  have apart := coherent.apart
  rw [List.pairwise_append, List.pairwise_cons] at apart
  constructor
  · rw [List.pairwise_append, List.pairwise_cons]
    constructor
    · exact apart.1
    constructor
    · exact ⟨fun c _ isValid => absurd isValid invalid, apart.2.1.2⟩
    · intro c inside d among isValid
      cases List.mem_cons.mp among with
      | inl forgotten =>
        intro same
        have same : c.address = a := by rw [same, forgotten]
        exact invalid (same ▸ isValid)
      | inr back => exact apart.2.2 c inside d (by simp [back]) isValid
  · intro c inside validAt clean
    have old : c ∈ front ++ b :: back ∧ b.address ≠ c.address := by
      rw [List.mem_append, List.mem_cons] at inside
      obtain front | rfl | back := inside
      · exact ⟨by simp [front], fun same => apart.2.2 c front b (by simp) validAt same.symm⟩
      · exact absurd validAt invalid
      · exact ⟨by simp [back], apart.2.1.1 c back isValid⟩
    rw [Function.update_of_ne old.2.symm]
    exact coherent.clean c old.1 validAt clean
  · intro c inside changed
    rw [List.mem_append, List.mem_cons] at inside
    obtain front | rfl | back := inside
    · exact coherent.dirty c (by simp [front]) changed
    · exact absurd changed (by simp)
    · exact coherent.dirty c (by simp [back]) changed

theorem Coherent.view_forget (coherent : Coherent valid (front ++ b :: back) store) (isValid : valid b.address)
    (invalid : ¬ valid a) (block : β) (validAt : valid x) :
    view (front ++ ⟨a, block, false⟩ :: back) (Function.update store b.address block) x =
      Function.update (view (front ++ b :: back) store) b.address block x := by
  have other : a ≠ x := fun same => invalid (same ▸ validAt)
  rw [view_middle (coherent.forget isValid invalid block).apart validAt, if_neg other]
  by_cases here : b.address = x
  · subst here
    have apart := coherent.apart
    rw [List.pairwise_append, List.pairwise_cons] at apart
    have absent : ∀ c ∈ front ++ back, c.address ≠ b.address := by
      intro c inside same
      cases List.mem_append.mp inside with
      | inl front => exact apart.2.2 c front b (by simp) (same ▸ isValid) same
      | inr back => exact apart.2.1.1 c back isValid same.symm
    rw [Function.update_self, view_absent absent, Function.update_self]
  · rw [Function.update_of_ne (Ne.symm here), view_middle coherent.apart validAt, if_neg here]
    exact view_congr (Function.update_of_ne (Ne.symm here) _ _)

end WriteBack
