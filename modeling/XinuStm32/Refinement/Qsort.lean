import XinuStm32.Kernel.Qsort
import XinuStm32.Lib.ThreeWay

/-!
# The sort over elements

An array of `count` elements of `es` bytes in memory is a function from positions to elements. Over such an array the
exchanges of `qsort.c` exchange elements, and the jumps of its partition are moves of the three-way partition.
-/

namespace XinuStm32.Qsort

open ThreeWay

/-! ## Bytes -/

variable {m : Bytes} {i j k es n p : Nat}

theorem Bytes.set_apply (m : Bytes) (p : Nat) (byte : UInt8) (k : Nat) :
    m.set p byte k = if k = p then some byte else m k := Function.update_apply m p (some byte) k

theorem Bytes.isSome_set {byte : UInt8} (mapped : (m k).isSome) : (m.set p byte k).isSome := by
  rw [Bytes.set_apply]
  split
  · rfl
  · exact mapped

theorem Bytes.store_eq {byte : UInt8} (mapped : (m p).isSome) : m.store p byte = some (m.set p byte) := by
  obtain ⟨old, held⟩ := Option.isSome_iff_exists.mp mapped
  rw [Bytes.store, held]
  rfl

/-- `n` bytes from `p` on are mapped. -/
def Bytes.Mapped (m : Bytes) (p n : Nat) : Prop := ∀ b < n, (m (p + b)).isSome

namespace Bytes.Mapped

theorem head (mapped : m.Mapped p (n + 1)) : ∃ byte, m p = some byte :=
  Option.isSome_iff_exists.mp (mapped 0 (by omega))

theorem tail (mapped : m.Mapped p (n + 1)) : m.Mapped (p + 1) n := by
  intro b below
  rw [Nat.add_assoc]
  exact mapped (1 + b) (by omega)

theorem set {byte : UInt8} (mapped : m.Mapped p n) : (m.set k byte).Mapped p n :=
  fun b below => isSome_set (mapped b below)

end Bytes.Mapped

/-- Two runs of bytes that are one or apart are exchanged. -/
theorem qsexc_eq (mapped : m.Mapped i n) (mapped' : m.Mapped j n) (apart : i = j ∨ i + n ≤ j ∨ j + n ≤ i) :
    qsexc i j n m = some fun p =>
      if i ≤ p ∧ p < i + n then m (j + (p - i)) else if j ≤ p ∧ p < j + n then m (i + (p - j)) else m p := by
  induction n generalizing i j m with
  | zero =>
    simp only [qsexc]
    congr 1
    funext p
    rw [if_neg (by omega), if_neg (by omega)]
  | succ n inductionHypothesis =>
    obtain ⟨c, held⟩ := mapped.head
    obtain ⟨d, held'⟩ := mapped'.head
    have stored : m.store i d = some (m.set i d) := Bytes.store_eq (mapped 0 (by omega))
    have stored' : (m.set i d).store j c = some ((m.set i d).set j c) := Bytes.store_eq (mapped'.set 0 (by omega))
    rw [qsexc]
    simp only [held, held', stored, stored', Option.bind_eq_bind, Option.bind_some]
    rw [inductionHypothesis mapped.set.set.tail mapped'.set.set.tail (by omega)]
    congr 1
    funext p
    simp only [Bytes.set_apply]
    grind

/-- Three runs of bytes are rotated: the first takes the third's bytes, the third the second's. The last two may be
one. -/
theorem qstexc_eq (mapped : m.Mapped i n) (mapped' : m.Mapped j n) (mapped'' : m.Mapped k n)
    (apart : i + n ≤ j ∨ j + n ≤ i) (apart' : i + n ≤ k ∨ k + n ≤ i) (apart'' : j = k ∨ j + n ≤ k ∨ k + n ≤ j) :
    qstexc i j k n m = some fun p =>
      if i ≤ p ∧ p < i + n then m (k + (p - i)) else if j ≤ p ∧ p < j + n then m (i + (p - j))
      else if k ≤ p ∧ p < k + n then m (j + (p - k)) else m p := by
  induction n generalizing i j k m with
  | zero =>
    simp only [qstexc]
    congr 1
    funext p
    rw [if_neg (by omega), if_neg (by omega), if_neg (by omega)]
  | succ n inductionHypothesis =>
    obtain ⟨c, held⟩ := mapped.head
    obtain ⟨d, held'⟩ := mapped'.head
    obtain ⟨e, held''⟩ := mapped''.head
    have stored : m.store i e = some (m.set i e) := Bytes.store_eq (mapped 0 (by omega))
    have kept : m.set i e j = some d := by rw [Bytes.set_apply, if_neg (by omega), held']
    have stored' : (m.set i e).store k d = some ((m.set i e).set k d) := Bytes.store_eq (mapped''.set 0 (by omega))
    have stored'' : ((m.set i e).set k d).store j c = some (((m.set i e).set k d).set j c) :=
      Bytes.store_eq (mapped'.set.set 0 (by omega))
    rw [qstexc]
    simp only [held, held'', stored, kept, stored', stored'', Option.bind_eq_bind, Option.bind_some]
    rw [inductionHypothesis mapped.set.set.set.tail mapped'.set.set.set.tail mapped''.set.set.set.tail
      (by omega) (by omega) (by omega)]
    congr 1
    funext p
    simp only [Bytes.set_apply]
    grind

/-! ## Elements -/

/-- The contents of an element. -/
abbrev Element (es : Nat) := { bytes : List UInt8 // bytes.length = es }

/-- The address of element `k` of an array at `base`. -/
def slot (base es k : Nat) : Nat := base + k * es

/-- Memory with an array of `count` elements at `base`, and `around` everywhere else. -/
def inMemory (around : Bytes) (base count : Nat) (values : ℕ → Element es) : Bytes := fun p =>
  if base ≤ p ∧ p < slot base es count then (values ((p - base) / es)).1[(p - base) % es]? else around p

variable {base count q r b : Nat} {around : Bytes} {values : ℕ → Element es}

@[simp] theorem slot_zero (base es : Nat) : slot base es 0 = base := by
  rw [slot, Nat.zero_mul, Nat.add_zero]

theorem slot_succ (base es k : Nat) : slot base es (k + 1) = slot base es k + es := by
  rw [slot, slot, Nat.succ_mul, Nat.add_assoc]

theorem slot_pred (positive : 0 < k) : slot base es (k - 1) = slot base es k - es := by
  obtain ⟨before, rfl⟩ := Nat.exists_eq_succ_of_ne_zero positive.ne'
  rw [Nat.succ_eq_add_one, slot_succ, Nat.add_sub_cancel, Nat.add_sub_cancel]

theorem slot_add_le (base es : Nat) {p q : ℕ} (before : p < q) : slot base es p + es ≤ slot base es q := by
  rw [← slot_succ]
  exact Nat.add_le_add_left (Nat.mul_le_mul_right es before) base

theorem slot_lt_slot (positive : 0 < es) : slot base es p < slot base es q ↔ p < q := by
  rw [slot, slot, Nat.add_lt_add_iff_left, Nat.mul_lt_mul_right positive]

theorem slot_inj (positive : 0 < es) : slot base es p = slot base es q ↔ p = q := by
  rw [slot, slot, Nat.add_left_cancel_iff, Nat.mul_left_inj positive.ne']

theorem slot_apart (base es p q : Nat) : slot base es p = slot base es q ∨ slot base es p + es ≤ slot base es q ∨
    slot base es q + es ≤ slot base es p := by
  rcases lt_trichotomy p q with before | same | behind
  · exact .inr (.inl (slot_add_le base es before))
  · exact .inl (by rw [same])
  · exact .inr (.inr (slot_add_le base es behind))

/-- A byte lies in one element only. -/
theorem mem_slot_iff (below : b < es) :
    (slot base es q ≤ slot base es k + b ∧ slot base es k + b < slot base es q + es) ↔ k = q := by
  constructor
  · intro within
    rcases lt_trichotomy k q with before | same | behind
    · have := slot_add_le base es before
      omega
    · exact same
    · have := slot_add_le base es behind
      omega
  · rintro rfl
    omega

theorem inMemory_slot (inside : k < count) (below : b < es) :
    inMemory around base count values (slot base es k + b) = (values k).1[b]? := by
  have room := slot_add_le base es inside
  have offset : slot base es k + b - base = b + k * es := by rw [slot]; omega
  rw [inMemory, if_pos ⟨by rw [slot]; omega, by omega⟩, offset, Nat.add_mul_div_right _ _ (by omega),
    Nat.div_eq_of_lt below, Nat.zero_add, Nat.add_mul_mod_self_right, Nat.mod_eq_of_lt below]

theorem inMemory_around (outside : ¬ (base ≤ p ∧ p < slot base es count)) :
    inMemory around base count values p = around p := if_neg outside

theorem inMemory_mapped (inside : k < count) : (inMemory around base count values).Mapped (slot base es k) es := by
  intro b below
  rw [inMemory_slot inside below, List.getElem?_eq_getElem ((values k).2.symm ▸ below)]
  rfl

/-- Memory holds an array when each element does, byte by byte. -/
theorem eq_inMemory (elements : ∀ k < count, ∀ b < es, m (slot base es k + b) = (values k).1[b]?)
    (rest : ∀ p, ¬ (base ≤ p ∧ p < slot base es count) → m p = around p) :
    m = inMemory around base count values := by
  funext p
  by_cases within : base ≤ p ∧ p < slot base es count
  · obtain ⟨low, high⟩ := within
    have positive : 0 < es := by
      by_contra zero
      rw [slot, Nat.eq_zero_of_not_pos zero, Nat.mul_zero] at high
      omega
    have inside : (p - base) / es < count := by
      rw [Nat.div_lt_iff_lt_mul positive]
      rw [slot] at high
      omega
    have place : p = slot base es ((p - base) / es) + (p - base) % es := by
      have divided := Nat.div_add_mod' (p - base) es
      rw [slot]
      omega
    have below := Nat.mod_lt (p - base) positive
    rw [place, elements _ inside _ below, inMemory_slot inside below]
  · rw [rest p within, inMemory_around within]

/-- `qsexc` on two elements. -/
theorem qsexc_inMemory (inside : p < count) (inside' : q < count) :
    qsexc (slot base es p) (slot base es q) es (inMemory around base count values) =
      some (inMemory around base count (values ∘ Equiv.swap p q)) := by
  rw [qsexc_eq (inMemory_mapped inside) (inMemory_mapped inside') (slot_apart base es p q)]
  congr 1
  apply eq_inMemory
  · intro k within b below
    simp only [mem_slot_iff below, Function.comp_apply, Equiv.swap_apply_def]
    split_ifs with first second
    · rw [first, Nat.add_sub_cancel_left, inMemory_slot inside' below]
    · rw [second, Nat.add_sub_cancel_left, inMemory_slot inside below]
    · exact inMemory_slot within below
  · intro k outside
    have room := slot_add_le base es inside
    have room' := slot_add_le base es inside'
    have low : base ≤ slot base es p := by rw [slot]; omega
    have low' : base ≤ slot base es q := by rw [slot]; omega
    rw [if_neg (by omega), if_neg (by omega), inMemory_around outside]

/-- `qstexc` on three elements, of which the last two may be one. -/
theorem qstexc_inMemory (inside : p < count) (inside' : q < count) (inside'' : r < count) (other : p ≠ q)
    (other' : p ≠ r) :
    qstexc (slot base es p) (slot base es q) (slot base es r) es (inMemory around base count values) =
      some (inMemory around base count
        (values ∘ (Equiv.swap q r * Equiv.swap p q : Equiv.Perm ℕ))) := by
  have apart {p q : ℕ} (other : p ≠ q) :
      slot base es p + es ≤ slot base es q ∨ slot base es q + es ≤ slot base es p :=
    (lt_or_gt_of_ne other).imp (slot_add_le base es) (slot_add_le base es)
  rw [qstexc_eq (inMemory_mapped inside) (inMemory_mapped inside') (inMemory_mapped inside'') (apart other)
    (apart other') (slot_apart base es q r)]
  congr 1
  apply eq_inMemory
  · intro k within b below
    simp only [mem_slot_iff below, Function.comp_apply, Equiv.Perm.mul_apply]
    split_ifs with first second third
    · rw [first, Nat.add_sub_cancel_left, inMemory_slot inside'' below, Equiv.swap_apply_left, Equiv.swap_apply_left]
    · rw [second, Nat.add_sub_cancel_left, inMemory_slot inside below, Equiv.swap_apply_right,
        Equiv.swap_apply_of_ne_of_ne other other']
    · rw [third, Nat.add_sub_cancel_left, inMemory_slot inside' below,
        Equiv.swap_apply_of_ne_of_ne other'.symm (third ▸ second), Equiv.swap_apply_right]
    · rw [inMemory_slot within below, Equiv.swap_apply_of_ne_of_ne first second,
        Equiv.swap_apply_of_ne_of_ne second third]
  · intro k outside
    have room := slot_add_le base es inside
    have room' := slot_add_le base es inside'
    have room'' := slot_add_le base es inside''
    have low : base ≤ slot base es p := by rw [slot]; omega
    have low' : base ≤ slot base es q := by rw [slot]; omega
    have low'' : base ≤ slot base es r := by rw [slot]; omega
    rw [if_neg (by omega), if_neg (by omega), if_neg (by omega), inMemory_around outside]

theorem read_eq {bytes : List UInt8} (held : ∀ b < bytes.length, m (p + b) = bytes[b]?) :
    m.read p bytes.length = some bytes := by
  induction bytes generalizing p with
  | nil => rfl
  | cons byte rest inductionHypothesis =>
    have first : m p = some byte := held 0 (Nat.succ_pos _)
    have later : m.read (p + 1) rest.length = some rest := by
      apply inductionHypothesis
      intro b below
      have next := held (b + 1) (Nat.succ_lt_succ below)
      rwa [Nat.add_comm b 1, ← Nat.add_assoc, Nat.add_comm 1 b, List.getElem?_cons_succ] at next
    rw [List.length_cons, Bytes.read, first, later]
    rfl

theorem read_inMemory (inside : k < count) :
    (inMemory around base count values).read (slot base es k) es = some (values k).1 := by
  have read : (inMemory around base count values).read (slot base es k) (values k).1.length = some (values k).1 :=
    read_eq fun b below => inMemory_slot inside ((values k).2 ▸ below)
  rwa [(values k).2] at read

theorem qscmp_inMemory (fc : List UInt8 → List UInt8 → Int) (inside : p < count) (inside' : q < count) :
    qscmp fc es (inMemory around base count values) (slot base es p) (slot base es q) =
      some (fc (values p).1 (values q).1) := by
  rw [qscmp, read_inMemory inside, read_inMemory inside']
  rfl

/-! ## Jumps -/

/-- The sign of a comparison. -/
def verdict (fc : List UInt8 → List UInt8 → Int) (x y : Element es) : Ordering := compare (fc x.1 y.1) 0

/-- The pointers of a partition over elements. -/
def pointers (base : Nat) (s : ThreeWay.State (Element es)) : Pointers where
  i := slot base es s.left
  lp := slot base es s.low
  hp := slot base es s.high
  j := slot base es s.right

def place (around : Bytes) (base count : Nat) : ThreeWay.Stage (Element es) → Place
  | .fromLeft s => .forever (inMemory around base count s.values) (pointers base s)
  | .fromRight s => .loop (inMemory around base count s.values) (pointers base s)
  | .apart s => .apart (inMemory around base count s.values) (pointers base s)

variable {fc : List UInt8 → List UInt8 → Int} {start : ℕ → Element es} {pivot : Element es} {first last : ℕ}
  {s : ThreeWay.State (Element es)} {x : ThreeWay.Stage (Element es)}

/-- The pass from `for (;;)`. -/
theorem step_forever (positive : 0 < es) (fits : last ≤ count) (parted : Parted (verdict fc) start pivot first last s) :
    ∃ y, ThreeWay.Moves (verdict fc) (.fromLeft s) y ∧
      ∀ around, step fc es (place around base count (.fromLeft s)) = some (place around base count y) := by
  have left_le := parted.left_le
  have low_lt : s.low < count := by have := parted.low_le; have := parted.high_le; have := parted.right_lt; omega
  by_cases open' : s.left < s.low
  · have guard : slot base es s.left < slot base es s.low := (slot_lt_slot positive).mpr open'
    have compared (around : Bytes) :
        qscmp fc es (inMemory around base count s.values) (slot base es s.left) (slot base es s.low) = some _ :=
      qscmp_inMemory fc (open'.trans low_lt) low_lt
    rcases lt_trichotomy (fc (s.values s.left).1 (s.values s.low).1) 0 with below | level | above
    · refine ⟨_, .passLeft open' (compare_lt_iff_lt.mpr below), fun around => ?_⟩
      simp only [place, step, pointers, guard, if_true, compared, Option.bind_eq_bind, Option.bind_some, below.ne,
        below, if_false, slot_succ]
      rfl
    · refine ⟨_, .levelLeft open' (compare_eq_iff_eq.mpr level), fun around => ?_⟩
      simp only [place, step, pointers, guard, if_true, compared, Option.bind_eq_bind, Option.bind_some, level]
      rw [← slot_pred (by omega), qsexc_inMemory (by omega) (by omega)]
      rfl
    · refine ⟨_, .stopLeft (.inr (compare_gt_iff_gt.mpr above)), fun around => ?_⟩
      simp only [place, step, pointers, guard, if_true, compared, Option.bind_eq_bind, Option.bind_some, above.ne',
        above.not_gt, if_false]
      rfl
  · have guard : ¬ slot base es s.left < slot base es s.low := (slot_lt_slot positive).not.mpr open'
    refine ⟨_, .stopLeft (.inl (not_lt.mp open')), fun around => ?_⟩
    simp only [place, step, pointers, guard, if_false]

/-- The pass from `loop:`. -/
theorem step_loop (positive : 0 < es) (fits : last ≤ count) (parted : Parted (verdict fc) start pivot first last s) :
    ∃ y, ThreeWay.Moves (verdict fc) (.fromRight s) y ∧
      ∀ around, step fc es (place around base count (.fromRight s)) = some (place around base count y) := by
  have left_le := parted.left_le
  have low_le := parted.low_le
  have high_le := parted.high_le
  have right_lt := parted.right_lt
  by_cases open' : s.high < s.right
  · have guard : slot base es s.right > slot base es s.high := (slot_lt_slot positive).mpr open'
    have compared (around : Bytes) :
        qscmp fc es (inMemory around base count s.values) (slot base es s.high) (slot base es s.right) = some _ :=
      qscmp_inMemory fc (by omega) (by omega)
    rcases lt_trichotomy (fc (s.values s.high).1 (s.values s.right).1) 0 with above | level | below
    · refine ⟨_, .passRight open' (compare_lt_iff_lt.mpr above), fun around => ?_⟩
      simp only [place, step, pointers, guard, if_true, compared, Option.bind_eq_bind, Option.bind_some, above.ne,
        above.not_gt, if_false, gt_iff_lt]
      rw [slot_pred (by omega)]
      rfl
    · refine ⟨_, .levelRight open' (compare_eq_iff_eq.mpr level), fun around => ?_⟩
      simp only [place, step, pointers, guard, if_true, compared, Option.bind_eq_bind, Option.bind_some, level]
      rw [← slot_succ, qsexc_inMemory (by omega) (by omega)]
      rfl
    · by_cases met : s.left = s.low
      · refine ⟨_, .shiftUp open' (compare_gt_iff_gt.mpr below) met, fun around => ?_⟩
        simp only [place, step, pointers, guard, if_true, compared, Option.bind_eq_bind, Option.bind_some, below.ne',
          below, if_false, gt_iff_lt, met]
        rw [← slot_succ, ← slot_succ, qstexc_inMemory (by omega) (by omega) (by omega) (by omega) (by omega)]
        rfl
      · have waiting : ¬ slot base es s.left = slot base es s.low := (slot_inj positive).not.mpr met
        refine ⟨_, .exchange open' (compare_gt_iff_gt.mpr below) met, fun around => ?_⟩
        simp only [place, step, pointers, guard, if_true, compared, Option.bind_eq_bind, Option.bind_some, below.ne',
          below, if_false, gt_iff_lt, waiting]
        rw [← slot_succ, qsexc_inMemory (by omega) (by omega), ← slot_pred (by omega)]
        rfl
  · have guard : ¬ slot base es s.right > slot base es s.high := (slot_lt_slot positive).not.mpr open'
    by_cases met : s.left = s.low
    · refine ⟨_, .finish (not_lt.mp open') met, fun around => ?_⟩
      simp only [place, step, pointers, guard, if_false, met, if_true]
    · have waiting : ¬ slot base es s.left = slot base es s.low := (slot_inj positive).not.mpr met
      refine ⟨_, .shiftDown (not_lt.mp open') met, fun around => ?_⟩
      simp only [place, step, pointers, guard, if_false, waiting]
      rw [← slot_pred (by omega), ← slot_pred (by omega),
        qstexc_inMemory (by omega) (by omega) (by omega) (by omega) (by omega)]
      rfl

/-! ## Runs -/

/-- The loop ends with the range parted, after no more passes than moves are left. -/
theorem partition_apart (base : Nat) [Std.TransCmp (verdict fc : Element es → Element es → Ordering)]
    (positive : 0 < es) (fits : last ≤ count)
    (invariant : ThreeWay.Invariant (verdict fc) start pivot first last x) :
    ∃ s, ThreeWay.Invariant (verdict fc) start pivot first last (.apart s) ∧ ∀ around fuel, x.left ≤ fuel →
      partition fc es fuel (place around base count x) =
        some (inMemory around base count s.values, pointers base s) := by
  induction moves : x.left using Nat.strong_induction_on generalizing x with
  | _ left inductionHypothesis =>
    have jump (next : ∃ y, ThreeWay.Moves (verdict fc) x y ∧
        ∀ around, step fc es (place around base count x) = some (place around base count y))
        (unfold : ∀ around fuel, partition fc es (fuel + 1) (place around base count x) =
          (step fc es (place around base count x)).bind (partition fc es fuel)) :
        ∃ s, ThreeWay.Invariant (verdict fc) start pivot first last (.apart s) ∧ ∀ around fuel, left ≤ fuel →
          partition fc es fuel (place around base count x) =
            some (inMemory around base count s.values, pointers base s) := by
      obtain ⟨y, move, stepped⟩ := next
      have fewer := move.left_lt invariant
      obtain ⟨s, apart, run⟩ := inductionHypothesis y.left (moves ▸ fewer) (move.invariant invariant) rfl
      refine ⟨s, apart, fun around fuel enough => ?_⟩
      cases fuel with
      | zero => omega
      | succ fuel => rw [unfold, stepped, Option.bind_some, run around fuel (by omega)]
    cases x with
    | fromLeft s => exact jump (step_forever positive fits invariant) fun _ _ => rfl
    | fromRight s => exact jump (step_loop positive fits invariant.1) fun _ _ => rfl
    | apart s => exact ⟨s, invariant, fun around fuel _ => by rw [place, partition]⟩

theorem slot_sub (ordered : first ≤ last) : slot base es last = slot base es first + (last - first) * es := by
  rw [slot, slot, Nat.add_assoc, ← Nat.add_mul, Nat.add_sub_cancel' ordered]

theorem sub32_slot (ordered : first ≤ last) (small : (last - first) * es < 2 ^ 32) :
    sub32 (slot base es last) (slot base es first) = (last - first) * es := by
  rw [slot_sub ordered, sub32]
  omega

/-- The partition that `qs1` starts with, around the middle element. -/
def middleOut (start : ℕ → Element es) (first last : ℕ) : ThreeWay.Stage (Element es) :=
  .fromLeft
    { values := start, left := first, low := first + (last - first) / 2, high := first + (last - first) / 2,
      right := last - 1 }

theorem middleOut_invariant (fc : List UInt8 → List UInt8 → Int)
    [Std.TransCmp (verdict fc : Element es → Element es → Ordering)] (start : ℕ → Element es) (long : first < last) :
    ThreeWay.Invariant (verdict fc) start (start (first + (last - first) / 2)) first last
      (middleOut start first last) := by
  constructor
  · exact .refl start first last
  case level =>
    intro k least most
    rw [le_antisymm most least]
    exact Std.ReflCmp.compare_self
  all_goals
    dsimp only
    omega

/-- `qs1` on more than one element. -/
theorem qs1_parted {fuel : ℕ} (positive : 0 < es) (ordered : first ≤ last) (small : (last - first) * es < 2 ^ 32)
    (long : 1 < last - first) {start : ℕ → Element es}
    (parts : partition fc es fuel (place around base count (middleOut start first last)) =
      some (inMemory around base count s.values, pointers base s)) :
    qs1 fc es (fuel + 1) (inMemory around base count start) (slot base es first) (slot base es last) =
      if slot base es s.low - slot base es first ≥ slot base es last - slot base es s.high then
        (qs1 fc es fuel (inMemory around base count s.values) (slot base es (s.high + 1)) (slot base es last)).bind
          fun m => qs1 fc es fuel m (slot base es first) (slot base es s.low)
      else
        (qs1 fc es fuel (inMemory around base count s.values) (slot base es first) (slot base es s.low)).bind
          fun m => qs1 fc es fuel m (slot base es (s.high + 1)) (slot base es last) := by
  have goes : ¬ (last - first) * es ≤ es := by
    have := Nat.mul_lt_mul_of_pos_right long positive
    omega
  have half : es * ((last - first) * es / (2 * es)) = (last - first) / 2 * es := by
    rw [Nat.mul_div_mul_right _ _ positive, Nat.mul_comm]
  have middle : slot base es first + (last - first) / 2 * es = slot base es (first + (last - first) / 2) := by
    rw [slot, slot, Nat.add_mul, Nat.add_assoc]
  simp only [middleOut, place, pointers] at parts
  rw [qs1, sub32_slot ordered small, if_neg goes]
  simp only [half, middle, ← slot_pred (show 0 < last by omega), parts, ← slot_succ, Option.bind_eq_bind,
    Option.bind_some]

/-- `qs1` sorts the range of an array that it is called for, whatever is around the array. -/
theorem qs1_sorts (fc : List UInt8 → List UInt8 → Int) (base : Nat)
    [Std.TransCmp (verdict fc : Element es → Element es → Ordering)] (positive : 0 < es) (small : count * es < 2 ^ 32)
    (ordered : first ≤ last) (fits : last ≤ count) (start : ℕ → Element es) :
    ∃ values, RearrangedOn start values first last ∧ SortedOn (verdict fc) values first last ∧
      ∀ around fuel, 2 * (last - first) < fuel →
        qs1 fc es fuel (inMemory around base count start) (slot base es first) (slot base es last) =
          some (inMemory around base count values) := by
  induction width : last - first using Nat.strong_induction_on generalizing first last start with
  | _ width' inductionHypothesis =>
    subst width
    have bytes : (last - first) * es < 2 ^ 32 := lt_of_le_of_lt (Nat.mul_le_mul_right es (by omega)) small
    by_cases short : last - first ≤ 1
    · -- at most one element: `(n = l - a) <= es`
      have stop : (last - first) * es ≤ es := by simpa using Nat.mul_le_mul_right es short
      refine ⟨start, .refl start first last, sortedOn_of_short (by omega), fun around fuel enough => ?_⟩
      cases fuel with
      | zero => omega
      | succ fuel => rw [qs1, sub32_slot ordered bytes, if_pos stop]
    · have long : 1 < last - first := not_le.mp short
      obtain ⟨s, ⟨parted, met, met'⟩, parts⟩ := partition_apart base positive fits
        (middleOut_invariant fc start (Nat.lt_of_sub_pos (Nat.zero_lt_of_lt long)))
      have ends : first ≤ s.low ∧ s.low ≤ s.high ∧ s.high < last :=
        ⟨parted.first_le.trans parted.left_le, parted.low_le, met' ▸ parted.right_lt⟩
      have moves : (middleOut start first last).left ≤ 2 * (last - first) := by
        simp only [middleOut, ThreeWay.Stage.left]
        omega
      -- the range behind the block, the one before it, and which of the two the recursive call takes
      by_cases longer : slot base es s.low - slot base es first ≥ slot base es last - slot base es s.high
      · obtain ⟨between, early, early', run⟩ :=
          inductionHypothesis (last - (s.high + 1)) (by omega) (by omega) fits s.values rfl
        obtain ⟨values, late, late', run'⟩ :=
          inductionHypothesis (s.low - first) (by omega) (by omega) (by omega) between rfl
        obtain ⟨rearranged, sorted⟩ := parted.sorted met met' (.inr ⟨rfl, rfl, rfl, rfl⟩) early early' late late'
        refine ⟨values, rearranged, sorted, fun around fuel most => ?_⟩
        cases fuel with
        | zero => omega
        | succ fuel =>
          rw [qs1_parted positive ordered bytes long (parts around fuel (by omega)), if_pos longer,
            run around fuel (by omega), Option.bind_some, run' around fuel (by omega)]
      · obtain ⟨between, early, early', run⟩ :=
          inductionHypothesis (s.low - first) (by omega) (by omega) (by omega) s.values rfl
        obtain ⟨values, late, late', run'⟩ :=
          inductionHypothesis (last - (s.high + 1)) (by omega) (by omega) fits between rfl
        obtain ⟨rearranged, sorted⟩ := parted.sorted met met' (.inl ⟨rfl, rfl, rfl, rfl⟩) early early' late late'
        refine ⟨values, rearranged, sorted, fun around fuel most => ?_⟩
        cases fuel with
        | zero => omega
        | succ fuel =>
          rw [qs1_parted positive ordered bytes long (parts around fuel (by omega)), if_neg longer,
            run around fuel (by omega), Option.bind_some, run' around fuel (by omega)]

end XinuStm32.Qsort
