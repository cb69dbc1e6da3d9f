import XinuStm32.Lib.Words

/-!
# Words updated in place

A function applied to the words at a list of addresses, one after another. Where the words lie apart each of them is
changed once; a byte in none of them is as before. Zeroing may hit a byte more than once.
-/

namespace Words

variable {ram ram' : Nat → UInt8} {a x : Nat} {f : Nat → Nat} {addresses : List Nat}

/-- The byte at `x` is one of the word at `a`. -/
def Under (a x : Nat) : Prop := a ≤ x ∧ x < a + 4

instance (a x : Nat) : Decidable (Under a x) := inferInstanceAs (Decidable (_ ∧ _))

/-- Two words have no byte in common. -/
def Apart (a b : Nat) : Prop := a + 4 ≤ b ∨ b + 4 ≤ a

instance (a b : Nat) : Decidable (Apart a b) := inferInstanceAs (Decidable (_ ∨ _))

/-- The word at each of the addresses, replaced by its value under `f`. -/
def update (f : Nat → Nat) (addresses : List Nat) (ram : Nat → UInt8) : Nat → UInt8 :=
  addresses.foldl (fun ram a => store a (f (load ram a)) ram) ram

@[simp]
theorem update_nil : update f [] ram = ram := rfl

@[simp]
theorem update_cons : update f (a :: addresses) ram = update f addresses (store a (f (load ram a)) ram) := rfl

theorem update_append {others : List Nat} :
    update f (addresses ++ others) ram = update f others (update f addresses ram) := List.foldl_append

theorem update_outside (outside : ∀ b ∈ addresses, ¬ Under b x) : update f addresses ram x = ram x := by
  induction addresses generalizing ram with
  | nil => rfl
  | cons b addresses inductionHypothesis =>
    have first := outside b List.mem_cons_self
    rw [update_cons, inductionHypothesis fun c member => outside c (List.mem_cons_of_mem b member)]
    apply store_outside
    simp only [Under] at first
    omega

theorem store_congr {value : Nat} (same : ram' x = ram x) : store a value ram' x = store a value ram x := by
  simp only [store, same]

/-- Memories that agree on some bytes still do when words of these are updated. -/
theorem update_congr {agreed : Nat → Prop} (inside : ∀ b ∈ addresses, ∀ x, Under b x → agreed x)
    (same : ∀ x, agreed x → ram' x = ram x) (here : agreed x) : update f addresses ram' x =
      update f addresses ram x := by
  induction addresses generalizing ram ram' with
  | nil => exact same x here
  | cons b addresses inductionHypothesis =>
    have first : load ram' b = load ram b := by
      apply load_congr
      intro y low high
      exact same y (inside b List.mem_cons_self y ⟨low, high⟩)
    rw [update_cons, update_cons, first]
    apply inductionHypothesis fun c member => inside c (List.mem_cons_of_mem b member)
    intro y agrees
    exact store_congr (same y agrees)

theorem load_update_apart (apart : ∀ b ∈ addresses, Apart a b) : load (update f addresses ram) a = load ram a := by
  apply load_congr
  intro x low high
  apply update_outside
  intro b member
  have between := apart b member
  simp only [Apart, Under] at between ⊢
  omega

/-- Words that lie apart are updated once. -/
theorem load_update (fits : ∀ value, f value < 2 ^ 32) (apart : addresses.Pairwise Apart) (member : a ∈ addresses) :
    load (update f addresses ram) a = f (load ram a) := by
  induction addresses generalizing ram with
  | nil => cases member
  | cons b addresses inductionHypothesis =>
    obtain ⟨first, rest⟩ := List.pairwise_cons.mp apart
    rw [update_cons]
    cases List.mem_cons.mp member with
    | inl here =>
      rw [here, load_update_apart first, load_store (fits _)]
    | inr behind =>
      rw [inductionHypothesis rest behind, load_store_apart (first a behind)]

/-- A word determines its bytes. -/
theorem bytes_of_load {b : Nat} (same : load ram a = load ram' b) {i : Nat} (below : i < 4) :
    ram (a + i) = ram' (b + i) := by
  have r0 := (ram a).toNat_lt
  have r1 := (ram (a + 1)).toNat_lt
  have r2 := (ram (a + 2)).toNat_lt
  have r3 := (ram (a + 3)).toNat_lt
  have s0 := (ram' b).toNat_lt
  have s1 := (ram' (b + 1)).toNat_lt
  have s2 := (ram' (b + 2)).toNat_lt
  have s3 := (ram' (b + 3)).toNat_lt
  simp only [load] at same
  apply UInt8.toNat_inj.mp
  obtain rfl | rfl | rfl | rfl : i = 0 ∨ i = 1 ∨ i = 2 ∨ i = 3 := by omega
  · simp only [Nat.add_zero]
    omega
  · omega
  · omega
  · omega

/-- The same bytes at two places are the same word. -/
theorem load_of_bytes {b : Nat} (same : ∀ i < 4, ram (a + i) = ram' (b + i)) : load ram a = load ram' b := by
  have first := same 0 (by decide)
  rw [Nat.add_zero, Nat.add_zero] at first
  rw [load, load, first, same 1 (by decide), same 2 (by decide), same 3 (by decide)]

theorem store_zero (inside : Under a x) : store a 0 ram x = 0 := by
  simp only [Under] at inside
  simp only [store]
  repeat' split
  all_goals first | rfl | omega

/-- Words that are made zero. -/
theorem update_zero (ram : Nat → UInt8) (addresses : List Nat) (x : Nat) :
    update (fun _ => 0) addresses ram x = if ∃ a ∈ addresses, Under a x then 0 else ram x := by
  induction addresses generalizing ram with
  | nil => simp
  | cons a addresses inductionHypothesis =>
    rw [update_cons, inductionHypothesis]
    by_cases here : Under a x
    · rw [store_zero here, ite_self, if_pos ⟨a, List.mem_cons_self, here⟩]
    · have beside : store a 0 ram x = ram x := by
        apply store_outside
        simp only [Under] at here
        omega
      simp only [beside, List.mem_cons, exists_eq_or_imp, here, false_or]

end Words
