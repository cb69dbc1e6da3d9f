import XinuStm32.Refinement.Qsort

/-!
# qsort sorts

Read element by element, the array is permuted into the order of the comparison function. Nothing else is written, and
nothing else is read: where only the array is mapped, the call goes the same way.
-/

namespace XinuStm32.Qsort

open ThreeWay

/-- The comparison function orders the contents of elements, totally and up to ties. -/
structure TotalPreorder (es : Nat) (fc : List UInt8 → List UInt8 → Int) : Prop where
  swap : ∀ x y : List UInt8, x.length = es → y.length = es → (fc x y < 0 ↔ 0 < fc y x)
  trans : ∀ x y z : List UInt8, x.length = es → y.length = es → z.length = es →
    fc x y ≤ 0 → fc y z ≤ 0 → fc x z ≤ 0

/-- The `n` elements from `a` on. -/
def Bytes.elements (m : Bytes) (a es : Nat) : Nat → Option (List (List UInt8))
  | 0 => some []
  | n + 1 => do return (← m.read a es) :: (← m.elements (a + es) es n)

/-- Memory without what is outside of `len` bytes. -/
def Bytes.only (m : Bytes) (a len : Nat) : Bytes := fun p => if a ≤ p ∧ p < a + len then m p else none

variable {fc : List UInt8 → List UInt8 → Int} {a n es : Nat} {m : Bytes}

theorem verdict_isLE {x y : Element es} : (verdict fc x y).isLE ↔ fc x.1 y.1 ≤ 0 := by
  rw [verdict, Ordering.isLE_iff_ne_gt]
  exact compare_gt_iff_gt.not.trans not_lt

theorem TotalPreorder.transCmp (order : TotalPreorder es fc) :
    Std.TransCmp (verdict fc : Element es → Element es → Ordering) where
  eq_swap {x y} := by
    have swap := order.swap x.1 y.1 x.2 y.2
    have swap' := order.swap y.1 x.1 y.2 x.2
    rw [verdict, verdict]
    rcases lt_trichotomy (fc x.1 y.1) 0 with less | level | more
    · rw [compare_lt_iff_lt.mpr less, compare_gt_iff_gt.mpr (swap.mp less)]
      rfl
    · rw [compare_eq_iff_eq.mpr level, compare_eq_iff_eq.mpr (by omega : fc y.1 x.1 = 0)]
      rfl
    · rw [compare_gt_iff_gt.mpr more, compare_lt_iff_lt.mpr (swap'.mpr more)]
      rfl
  isLE_trans {x y z} early late := by
    rw [verdict_isLE] at early late ⊢
    exact order.trans x.1 y.1 z.1 x.2 y.2 z.2 early late

/-! ## Arrays in memory -/

theorem read_length {p : Nat} {bytes : List UInt8} (read : m.read p n = some bytes) : bytes.length = n := by
  induction n generalizing p bytes with
  | zero =>
    cases read
    rfl
  | succ n inductionHypothesis =>
    simp only [Bytes.read, Option.bind_eq_bind, Option.bind_eq_some_iff, Option.pure_def, Option.some.injEq] at read
    obtain ⟨byte, -, rest, later, rfl⟩ := read
    rw [List.length_cons, inductionHypothesis later]

theorem read_getElem {p b : Nat} {bytes : List UInt8} (read : m.read p n = some bytes) (below : b < n) :
    m (p + b) = bytes[b]? := by
  induction n generalizing p b bytes with
  | zero => omega
  | succ n inductionHypothesis =>
    simp only [Bytes.read, Option.bind_eq_bind, Option.bind_eq_some_iff, Option.pure_def, Option.some.injEq] at read
    obtain ⟨byte, first, rest, later, rfl⟩ := read
    cases b with
    | zero => exact first
    | succ b =>
      rw [List.getElem?_cons_succ, ← inductionHypothesis later (by omega), Nat.add_assoc, Nat.add_comm 1 b]

theorem elements_read {elements : List (List UInt8)} (held : m.elements a es n = some elements) {k : ℕ}
    (inside : k < n) : ∃ bytes, m.read (slot a es k) es = some bytes := by
  induction n generalizing a k elements with
  | zero => omega
  | succ n inductionHypothesis =>
    simp only [Bytes.elements, Option.bind_eq_bind, Option.bind_eq_some_iff, Option.pure_def,
      Option.some.injEq] at held
    obtain ⟨element, first, rest, later, rfl⟩ := held
    cases k with
    | zero => exact ⟨element, (slot_zero a es).symm ▸ first⟩
    | succ k =>
      have moved : slot a es (k + 1) = slot (a + es) es k := by rw [slot_succ, slot, slot]; omega
      rw [moved]
      exact inductionHypothesis later (by omega)

theorem elements_inMemory (around : Bytes) (values : ℕ → Element es) {base count first : ℕ}
    (fits : first + n ≤ count) :
    (inMemory around base count values).elements (slot base es first) es n =
      some ((List.range' first n).map fun k => (values k).1) := by
  induction n generalizing first with
  | zero => rfl
  | succ n inductionHypothesis =>
    rw [Bytes.elements, read_inMemory (by omega), ← slot_succ, inductionHypothesis (by omega)]
    rfl

theorem elements_whole (around : Bytes) (a n : Nat) (values : ℕ → Element es) :
    (inMemory around a n values).elements a es n = some ((List.range n).map fun k => (values k).1) := by
  have read : (inMemory around a n values).elements (slot a es 0) es n = some _ :=
    elements_inMemory around values (by omega : 0 + n ≤ n)
  rwa [slot_zero, ← List.range_eq_range'] at read

/-- Memory from which `n` elements can be read holds an array of them. -/
theorem exists_inMemory {elements : List (List UInt8)} (held : m.elements a es n = some elements) :
    ∃ values : ℕ → Element es, m = inMemory m a n values ∧ elements = (List.range n).map fun k => (values k).1 := by
  have each (k : ℕ) : ∃ value : Element es, k < n → m.read (slot a es k) es = some value.1 := by
    by_cases inside : k < n
    · obtain ⟨bytes, read⟩ := elements_read held inside
      exact ⟨⟨bytes, read_length read⟩, fun _ => read⟩
    · exact ⟨⟨List.replicate es 0, List.length_replicate⟩, fun inside' => absurd inside' inside⟩
  choose values read using each
  have same : m = inMemory m a n values :=
    eq_inMemory (fun k inside b below => read_getElem (read k inside) below) fun _ _ => rfl
  have held' := elements_whole m a n values
  rw [← same, held, Option.some.injEq] at held'
  exact ⟨values, same, held'⟩

theorem only_inMemory (around : Bytes) (a n : Nat) (values : ℕ → Element es) :
    (inMemory around a n values).only a (n * es) = inMemory (fun _ => none) a n values := by
  funext p
  rw [Bytes.only]
  split
  case isTrue within => rw [inMemory, inMemory, slot, if_pos within, if_pos within]
  case isFalse outside => rw [inMemory_around (by rwa [slot])]

/-! ## The sort -/

/-- `qsort` returns, with the elements permuted into non-decreasing order, and neither reads nor writes a byte outside
the array. -/
theorem qsort_sorts {elements : List (List UInt8)} (positive : 0 < es) (small : n * es < 2 ^ 31)
    (order : TotalPreorder es fc) (held : m.elements a es n = some elements) :
    ∃ m' sorted,
      (∀ fuel, 2 * n < fuel → qsort fuel m a n es fc = some m' ∧
        qsort fuel (m.only a (n * es)) a n es fc = some (m'.only a (n * es))) ∧
      m'.elements a es n = some sorted ∧ sorted.Perm elements ∧ sorted.Pairwise (fc · · ≤ 0) ∧
      ∀ p, ¬ (a ≤ p ∧ p < a + n * es) → m' p = m p := by
  have := order.transCmp
  obtain ⟨start, same, listed⟩ := exists_inMemory held
  obtain ⟨values, rearranged, sorted, run⟩ :=
    qs1_sorts fc a positive (small.trans (by decide)) (Nat.zero_le n) le_rfl start
  have run' (around : Bytes) (fuel : ℕ) (enough : 2 * n < fuel) :
      qsort fuel (inMemory around a n start) a n es fc = some (inMemory around a n values) := by
    have call := run around fuel enough
    rwa [slot_zero, slot, ← Nat.mod_eq_of_lt (small.trans (by decide : 2 ^ 31 < 2 ^ 32))] at call
  refine ⟨inMemory m a n values, (List.range n).map fun k => (values k).1, fun fuel enough => ⟨?_, ?_⟩,
    elements_whole m a n values, ?_, ?_, ?_⟩
  · have call := run' m fuel enough
    rwa [← same] at call
  · -- where nothing but the array is mapped
    have call := run' (fun _ => none) fuel enough
    rwa [← only_inMemory m a n start, ← same, ← only_inMemory m a n values] at call
  · rw [listed]
    have perm := rearranged.perm_map_range.map Subtype.val
    rwa [List.map_map, List.map_map] at perm
  · rw [List.pairwise_map]
    apply List.Pairwise.imp_of_mem _ List.pairwise_lt_range
    intro p q _ member before
    exact verdict_isLE.mp (sorted p q (Nat.zero_le p) before.le (List.mem_range.mp member))
  · intro p outside
    exact inMemory_around (by rwa [slot])

/-- Elements compared by their first bytes, as a `char` difference. -/
def firstByte (x y : List UInt8) : Int := (x.headD 0).toNat - (y.headD 0).toNat

theorem firstByte_preorder (es : Nat) : TotalPreorder es firstByte where
  swap x y _ _ := by
    simp only [firstByte]
    omega
  trans x y z _ _ _ early late := by
    simp only [firstByte] at early late ⊢
    omega

/-- Three elements of two bytes from 4 on, two of them level, with one more byte mapped on each side. -/
def threeElements : Bytes := fun p => if 3 ≤ p then ([9, 5, 0, 2, 1, 5, 2, 9] : List UInt8)[p - 3]? else none

theorem qsort_sorts_three : ∃ m' sorted,
    (∀ fuel, 6 < fuel → qsort fuel threeElements 4 3 2 firstByte = some m' ∧
      qsort fuel (threeElements.only 4 6) 4 3 2 firstByte = some (m'.only 4 6)) ∧
    m'.elements 4 2 3 = some sorted ∧ sorted.Perm [[5, 0], [2, 1], [5, 2]] ∧ sorted.Pairwise (firstByte · · ≤ 0) ∧
    ∀ p, ¬ (4 ≤ p ∧ p < 10) → m' p = threeElements p :=
  qsort_sorts (n := 3) (by decide) (by decide) (firstByte_preorder 2) rfl

end XinuStm32.Qsort
