import Mathlib

/-!
# Three-way partition in place

A range of values is parted around a pivot by exchanges: values below it to the left, values above it to the right, and
a block of values level with it that starts in the middle and grows or shifts as the two scans meet it. What the moves
keep is stated of the values as a function of their position, in place and up to a rearrangement of the range.
-/

/-! ## Rearrangements of a range -/

section Rearrangement

variable {α : Type*} {before between after : ℕ → α} {first last inner outer : ℕ}

/-- The values of `after` are those of `before`, rearranged among the positions from `first` up to `last`. -/
def RearrangedOn (before after : ℕ → α) (first last : ℕ) : Prop :=
  ∃ places : Equiv.Perm ℕ, (∀ k, ¬ (first ≤ k ∧ k < last) → places k = k) ∧ after = before ∘ places

namespace RearrangedOn

theorem refl (values : ℕ → α) (first last : ℕ) : RearrangedOn values values first last :=
  ⟨1, fun _ _ => rfl, rfl⟩

theorem trans (early : RearrangedOn before between first last) (late : RearrangedOn between after first last) :
    RearrangedOn before after first last := by
  obtain ⟨places, fixed, rfl⟩ := early
  obtain ⟨others, fixed', rfl⟩ := late
  refine ⟨places * others, fun k outside => ?_, rfl⟩
  rw [Equiv.Perm.mul_apply, fixed' k outside, fixed k outside]

theorem mono (rearranged : RearrangedOn before after inner outer) (lower : first ≤ inner) (upper : outer ≤ last) :
    RearrangedOn before after first last := by
  obtain ⟨places, fixed, rfl⟩ := rearranged
  exact ⟨places, fun k outside => fixed k (by omega), rfl⟩

theorem swap (values : ℕ → α) {p q : ℕ} (left : first ≤ p ∧ p < last) (right : first ≤ q ∧ q < last) :
    RearrangedOn values (values ∘ Equiv.swap p q) first last := by
  refine ⟨Equiv.swap p q, fun k outside => ?_, rfl⟩
  apply Equiv.swap_apply_of_ne_of_ne
  · exact fun same => outside (same ▸ left)
  · exact fun same => outside (same ▸ right)

/-- Positions outside the range keep their values. -/
theorem outside (rearranged : RearrangedOn before after first last) {k : ℕ} (away : ¬ (first ≤ k ∧ k < last)) :
    after k = before k := by
  obtain ⟨places, fixed, rfl⟩ := rearranged
  rw [Function.comp_apply, fixed k away]

/-- A value inside the range comes from inside the range. -/
theorem inside (rearranged : RearrangedOn before after first last) {k : ℕ} (within : first ≤ k ∧ k < last) :
    ∃ p, (first ≤ p ∧ p < last) ∧ after k = before p := by
  obtain ⟨places, fixed, rfl⟩ := rearranged
  refine ⟨places k, ?_, rfl⟩
  -- a position outside the range is the image of itself, and of nothing else
  by_contra away
  have same : places k = k := places.injective (fixed (places k) away)
  exact away (same.symm ▸ within)

/-- What holds of every value of a range holds after a rearrangement inside it, or away from it. -/
theorem all (rearranged : RearrangedOn before after inner outer) (holds : α → Prop)
    (covers : (first ≤ inner ∧ outer ≤ last) ∨ last ≤ inner ∨ outer ≤ first)
    (every : ∀ k, first ≤ k → k < last → holds (before k)) : ∀ k, first ≤ k → k < last → holds (after k) := by
  intro k least most
  by_cases within : inner ≤ k ∧ k < outer
  · obtain ⟨p, source, same⟩ := rearranged.inside within
    rw [same]
    exact every p (by omega) (by omega)
  · rw [rearranged.outside within]
    exact every k least most

/-- The values of a whole range, read off as a list, are permuted. -/
theorem perm_map_range (rearranged : RearrangedOn before after 0 last) :
    ((List.range last).map after).Perm ((List.range last).map before) := by
  obtain ⟨places, fixed, rfl⟩ := rearranged
  rw [← List.map_map]
  apply List.Perm.map
  apply (List.perm_ext_iff_of_nodup (List.nodup_range.map places.injective) List.nodup_range).mpr
  intro k
  rw [List.mem_map, List.mem_range]
  constructor
  · rintro ⟨p, member, rfl⟩
    by_contra away
    have same : places p = p := places.injective (fixed (places p) (by omega))
    exact away (same.symm ▸ List.mem_range.mp member)
  · intro within
    refine ⟨places.symm k, ?_, places.apply_symm_apply k⟩
    by_contra away
    have same := fixed (places.symm k) (by rw [List.mem_range] at away; omega)
    rw [places.apply_symm_apply] at same
    exact away (List.mem_range.mpr (same ▸ within))

end RearrangedOn

end Rearrangement

/-! ## The moves -/

namespace ThreeWay

open Std (OrientedCmp TransCmp)

/-- The values, the two scans, and the ends of the block of values level with the pivot. -/
structure State (α : Type*) where
  values : ℕ → α
  left : ℕ
  low : ℕ
  high : ℕ
  right : ℕ

/-- Which scan goes on; `apart` when both have met the block. -/
inductive Stage (α : Type*)
  | fromLeft (s : State α)
  | fromRight (s : State α)
  | apart (s : State α)

variable {α : Type*}

/-- One comparison and what follows it. -/
inductive Moves (cmp : α → α → Ordering) : Stage α → Stage α → Prop
  | levelLeft {s : State α} (open' : s.left < s.low) (level : cmp (s.values s.left) (s.values s.low) = .eq) :
      Moves cmp (.fromLeft s)
        (.fromLeft { s with values := s.values ∘ Equiv.swap s.left (s.low - 1), low := s.low - 1 })
  | passLeft {s : State α} (open' : s.left < s.low) (below : cmp (s.values s.left) (s.values s.low) = .lt) :
      Moves cmp (.fromLeft s) (.fromLeft { s with left := s.left + 1 })
  | stopLeft {s : State α}
      (stopped : s.low ≤ s.left ∨ cmp (s.values s.left) (s.values s.low) = .gt) :
      Moves cmp (.fromLeft s) (.fromRight s)
  | levelRight {s : State α} (open' : s.high < s.right) (level : cmp (s.values s.high) (s.values s.right) = .eq) :
      Moves cmp (.fromRight s)
        (.fromRight { s with values := s.values ∘ Equiv.swap (s.high + 1) s.right, high := s.high + 1 })
  | shiftUp {s : State α} (open' : s.high < s.right) (below : cmp (s.values s.high) (s.values s.right) = .gt)
      (met : s.left = s.low) :
      Moves cmp (.fromRight s)
        (.fromRight
          { s with
            values := s.values ∘ (Equiv.swap (s.high + 1) s.right * Equiv.swap s.left (s.high + 1) : Equiv.Perm ℕ)
            left := s.low + 1, low := s.low + 1, high := s.high + 1 })
  | exchange {s : State α} (open' : s.high < s.right) (below : cmp (s.values s.high) (s.values s.right) = .gt)
      (waiting : s.left ≠ s.low) :
      Moves cmp (.fromRight s)
        (.fromLeft
          { s with values := s.values ∘ Equiv.swap s.left s.right, left := s.left + 1, right := s.right - 1 })
  | passRight {s : State α} (open' : s.high < s.right) (above : cmp (s.values s.high) (s.values s.right) = .lt) :
      Moves cmp (.fromRight s) (.fromRight { s with right := s.right - 1 })
  | shiftDown {s : State α} (met : s.right ≤ s.high) (waiting : s.left ≠ s.low) :
      Moves cmp (.fromRight s)
        (.fromLeft
          { s with
            values := s.values ∘ (Equiv.swap (s.low - 1) s.left * Equiv.swap s.right (s.low - 1) : Equiv.Perm ℕ)
            low := s.low - 1, high := s.high - 1, right := s.high - 1 })
  | finish {s : State α} (met : s.right ≤ s.high) (met' : s.left = s.low) : Moves cmp (.fromRight s) (.apart s)

/-- How many values are not compared yet, and how many moves that leaves. -/
def Stage.left : Stage α → ℕ
  | .fromLeft s => 2 * ((s.low - s.left) + (s.right - s.high)) + 2
  | .fromRight s => 2 * ((s.low - s.left) + (s.right - s.high)) + 1
  | .apart _ => 0

/-! ## What the moves keep -/

variable {cmp : α → α → Ordering} {start : ℕ → α} {pivot : α} {first last : ℕ} {s : State α} {x y : Stage α}

/-- The range as far as it is parted: the values behind each scan, and the block. -/
structure Parted (cmp : α → α → Ordering) (start : ℕ → α) (pivot : α) (first last : ℕ) (s : State α) : Prop where
  rearranged : RearrangedOn start s.values first last
  first_le : first ≤ s.left
  left_le : s.left ≤ s.low
  low_le : s.low ≤ s.high
  high_le : s.high ≤ s.right
  right_lt : s.right < last
  below : ∀ k, first ≤ k → k < s.left → cmp (s.values k) pivot = .lt
  level : ∀ k, s.low ≤ k → k ≤ s.high → cmp (s.values k) pivot = .eq
  above : ∀ k, s.right < k → k < last → cmp (s.values k) pivot = .gt

/-- The right scan runs while the left one has met the block, or waits at a value above the pivot. -/
def Invariant (cmp : α → α → Ordering) (start : ℕ → α) (pivot : α) (first last : ℕ) : Stage α → Prop
  | .fromLeft s => Parted cmp start pivot first last s
  | .fromRight s =>
      Parted cmp start pivot first last s ∧ (s.left = s.low ∨ cmp (s.values s.left) pivot = .gt)
  | .apart s => Parted cmp start pivot first last s ∧ s.left = s.low ∧ s.right = s.high

namespace Parted

variable [TransCmp cmp]

/-- A value level with the lower end of the block joins the block at its lower end. -/
theorem levelLeft (parted : Parted cmp start pivot first last s) (open' : s.left < s.low)
    (level : cmp (s.values s.left) (s.values s.low) = .eq) :
    Parted cmp start pivot first last
      { s with values := s.values ∘ Equiv.swap s.left (s.low - 1), low := s.low - 1 } := by
  obtain ⟨rearranged, first_le, left_le, low_le, high_le, right_lt, below, levels, above⟩ := parted
  have joins : cmp (s.values s.left) pivot = .eq := TransCmp.eq_trans level (levels s.low le_rfl low_le)
  constructor
  · exact rearranged.trans (.swap _ (by omega) (by omega))
  all_goals dsimp only
  any_goals omega
  all_goals
    intro k
    grind

theorem passLeft (parted : Parted cmp start pivot first last s) (open' : s.left < s.low)
    (below : cmp (s.values s.left) (s.values s.low) = .lt) :
    Parted cmp start pivot first last { s with left := s.left + 1 } := by
  obtain ⟨rearranged, first_le, left_le, low_le, high_le, right_lt, belows, levels, above⟩ := parted
  have joins : cmp (s.values s.left) pivot = .lt :=
    TransCmp.lt_of_lt_of_eq below (levels s.low le_rfl low_le)
  constructor
  · exact rearranged
  all_goals dsimp only
  any_goals omega
  all_goals
    intro k
    grind

theorem levelRight (parted : Parted cmp start pivot first last s) (open' : s.high < s.right)
    (level : cmp (s.values s.high) (s.values s.right) = .eq) :
    Parted cmp start pivot first last
      { s with values := s.values ∘ Equiv.swap (s.high + 1) s.right, high := s.high + 1 } := by
  obtain ⟨rearranged, first_le, left_le, low_le, high_le, right_lt, below, levels, above⟩ := parted
  have joins : cmp (s.values s.right) pivot = .eq :=
    TransCmp.eq_trans (OrientedCmp.eq_symm level) (levels s.high low_le le_rfl)
  constructor
  · exact rearranged.trans (.swap _ (by omega) (by omega))
  all_goals dsimp only
  any_goals omega
  all_goals
    intro k
    grind

/-- With nothing waiting on the left, the block moves up by one and the value takes its first place. -/
theorem shiftUp (parted : Parted cmp start pivot first last s) (open' : s.high < s.right)
    (below : cmp (s.values s.high) (s.values s.right) = .gt) (met : s.left = s.low) :
    Parted cmp start pivot first last
      { s with
        values := s.values ∘ (Equiv.swap (s.high + 1) s.right * Equiv.swap s.left (s.high + 1) : Equiv.Perm ℕ)
        left := s.low + 1, low := s.low + 1, high := s.high + 1 } := by
  obtain ⟨rearranged, first_le, left_le, low_le, high_le, right_lt, belows, levels, above⟩ := parted
  have passes : cmp (s.values s.right) pivot = .lt :=
    TransCmp.lt_of_lt_of_eq (OrientedCmp.lt_of_gt below) (levels s.high low_le le_rfl)
  constructor
  · rw [Equiv.Perm.coe_mul, ← Function.comp_assoc]
    exact (rearranged.trans (.swap _ (by omega) (by omega))).trans (.swap _ (by omega) (by omega))
  all_goals dsimp only [Equiv.Perm.coe_mul]
  any_goals omega
  all_goals
    intro k
    grind

theorem exchange (parted : Parted cmp start pivot first last s) (open' : s.high < s.right)
    (below : cmp (s.values s.high) (s.values s.right) = .gt) (waiting : s.left < s.low)
    (waits : cmp (s.values s.left) pivot = .gt) :
    Parted cmp start pivot first last
      { s with values := s.values ∘ Equiv.swap s.left s.right, left := s.left + 1, right := s.right - 1 } := by
  obtain ⟨rearranged, first_le, left_le, low_le, high_le, right_lt, belows, levels, above⟩ := parted
  have passes : cmp (s.values s.right) pivot = .lt :=
    TransCmp.lt_of_lt_of_eq (OrientedCmp.lt_of_gt below) (levels s.high low_le le_rfl)
  constructor
  · exact rearranged.trans (.swap _ (by omega) (by omega))
  all_goals dsimp only
  any_goals omega
  all_goals
    intro k
    grind

theorem passRight (parted : Parted cmp start pivot first last s) (open' : s.high < s.right)
    (above : cmp (s.values s.high) (s.values s.right) = .lt) :
    Parted cmp start pivot first last { s with right := s.right - 1 } := by
  obtain ⟨rearranged, first_le, left_le, low_le, high_le, right_lt, belows, levels, aboves⟩ := parted
  have passes : cmp (s.values s.right) pivot = .gt :=
    TransCmp.gt_of_gt_of_eq (OrientedCmp.gt_of_lt above) (levels s.high low_le le_rfl)
  constructor
  · exact rearranged
  all_goals dsimp only
  any_goals omega
  all_goals
    intro k
    grind

omit [TransCmp cmp] in
/-- With nothing left on the right, the block moves down by one and the value that waited takes its last place. -/
theorem shiftDown (parted : Parted cmp start pivot first last s) (met : s.right ≤ s.high) (waiting : s.left < s.low)
    (waits : cmp (s.values s.left) pivot = .gt) :
    Parted cmp start pivot first last
      { s with
        values := s.values ∘ (Equiv.swap (s.low - 1) s.left * Equiv.swap s.right (s.low - 1) : Equiv.Perm ℕ)
        low := s.low - 1, high := s.high - 1, right := s.high - 1 } := by
  obtain ⟨rearranged, first_le, left_le, low_le, high_le, right_lt, belows, levels, above⟩ := parted
  constructor
  · rw [Equiv.Perm.coe_mul, ← Function.comp_assoc]
    exact (rearranged.trans (.swap _ (by omega) (by omega))).trans (.swap _ (by omega) (by omega))
  all_goals dsimp only [Equiv.Perm.coe_mul]
  any_goals omega
  all_goals
    intro k
    grind

end Parted

/-- The case split of a stopped left scan, as the right one finds it. -/
theorem Parted.waits [TransCmp cmp] (parted : Parted cmp start pivot first last s)
    (stopped : s.low ≤ s.left ∨ cmp (s.values s.left) (s.values s.low) = .gt) :
    s.left = s.low ∨ cmp (s.values s.left) pivot = .gt := by
  cases stopped with
  | inl met => exact .inl (le_antisymm parted.left_le met)
  | inr above => exact .inr (TransCmp.gt_of_gt_of_eq above (parted.level s.low le_rfl parted.low_le))

/-- Every move keeps the invariant. -/
theorem Moves.invariant [TransCmp cmp] (moves : Moves cmp x y) (good : Invariant cmp start pivot first last x) :
    Invariant cmp start pivot first last y := by
  cases moves with
  | levelLeft open' level => exact Parted.levelLeft good open' level
  | passLeft open' below => exact Parted.passLeft good open' below
  | stopLeft stopped => exact ⟨good, good.waits stopped⟩
  | @levelRight s open' level =>
    obtain ⟨parted, waits⟩ := good
    refine ⟨parted.levelRight open' level, waits.imp_right fun above => ?_⟩
    -- the value that waits is not one of the two exchanged
    have left_le := parted.left_le
    have low_le := parted.low_le
    have stays : Equiv.swap (s.high + 1) s.right s.left = s.left :=
      Equiv.swap_apply_of_ne_of_ne (by omega) (by omega)
    show cmp (s.values (Equiv.swap (s.high + 1) s.right s.left)) pivot = .gt
    rw [stays, above]
  | shiftUp open' below met => exact ⟨good.1.shiftUp open' below met, .inl rfl⟩
  | exchange open' below waiting =>
    obtain ⟨parted, waits⟩ := good
    exact parted.exchange open' below (lt_of_le_of_ne parted.left_le waiting) (waits.resolve_left waiting)
  | passRight open' above => exact ⟨good.1.passRight open' above, good.2⟩
  | shiftDown met waiting =>
    obtain ⟨parted, waits⟩ := good
    exact parted.shiftDown met (lt_of_le_of_ne parted.left_le waiting) (waits.resolve_left waiting)
  | finish met met' => exact ⟨good.1, met', le_antisymm met good.1.high_le⟩

/-- Every move leaves fewer. -/
theorem Moves.left_lt (moves : Moves cmp x y) (good : Invariant cmp start pivot first last x) : y.left < x.left := by
  cases moves with
  | levelLeft open' level | passLeft open' below | stopLeft stopped | levelRight open' level
  | passRight open' above | finish met met' =>
    simp only [Stage.left]
    omega
  | shiftUp open' below met | exchange open' below waiting =>
    have left_le := good.1.left_le
    simp only [Stage.left]
    omega
  | shiftDown met waiting =>
    have left_le := good.1.left_le
    have low_le := good.1.low_le
    simp only [Stage.left]
    omega

/-! ## Sorted ranges -/

/-- The values from `first` up to `last` are in order. -/
def SortedOn (cmp : α → α → Ordering) (values : ℕ → α) (first last : ℕ) : Prop :=
  ∀ p q, first ≤ p → p ≤ q → q < last → (cmp (values p) (values q)).isLE

/-- At most one value is in order. -/
theorem sortedOn_of_short [TransCmp cmp] {values : ℕ → α} (short : last ≤ first + 1) :
    SortedOn cmp values first last := by
  intro p q least le most
  have same : p = q := by omega
  rw [same]
  exact Std.ReflCmp.isLE_rfl

theorem SortedOn.congr {values values' : ℕ → α} (sorted : SortedOn cmp values first last)
    (same : ∀ k, first ≤ k → k < last → values' k = values k) : SortedOn cmp values' first last := by
  intro p q least le most
  rw [same p least (by omega), same q (by omega) most]
  exact sorted p q least le most

/-- Two sorted ranges, the one below a pivot and the other above it, with values level with the pivot in between. -/
theorem SortedOn.join [TransCmp cmp] {values : ℕ → α} {low high : ℕ}
    (lower : SortedOn cmp values first low) (upper : SortedOn cmp values high last)
    (below : ∀ k, first ≤ k → k < low → cmp (values k) pivot = .lt)
    (level : ∀ k, low ≤ k → k < high → cmp (values k) pivot = .eq)
    (above : ∀ k, high ≤ k → k < last → cmp (values k) pivot = .gt) : SortedOn cmp values first last := by
  intro p q least le most
  -- the zone of the left value, and for each the zones the right one can be in
  rcases lt_or_ge q low with inLower | beyond
  · exact lower p q least le inLower
  rcases lt_or_ge p high with before | inUpper
  · have atMost : (cmp (values p) pivot).isLE := by
      rcases lt_or_ge p low with inLower | inBlock
      · rw [below p least inLower]; rfl
      · rw [level p inBlock before]; rfl
    have atLeast : (cmp pivot (values q)).isLE := by
      rcases lt_or_ge q high with inBlock | inUpper
      · rw [OrientedCmp.eq_symm (level q beyond inBlock)]; rfl
      · rw [OrientedCmp.lt_of_gt (above q inUpper most)]; rfl
    exact TransCmp.isLE_trans atMost atLeast
  · exact upper p q inUpper le most

/-- The range is sorted once both parts are, one after the other. -/
theorem Parted.sorted [TransCmp cmp] (parted : Parted cmp start pivot first last s) (met : s.left = s.low)
    (met' : s.right = s.high) {between after : ℕ → α} {low high low' high' : ℕ}
    (halves : (low = first ∧ high = s.low ∧ low' = s.high + 1 ∧ high' = last) ∨
      (low = s.high + 1 ∧ high = last ∧ low' = first ∧ high' = s.low))
    (early : RearrangedOn s.values between low high) (early' : SortedOn cmp between low high)
    (late : RearrangedOn between after low' high') (late' : SortedOn cmp after low' high') :
    RearrangedOn start after first last ∧ SortedOn cmp after first last := by
  obtain ⟨rearranged, first_le, left_le, low_le, high_le, right_lt, below, level, above⟩ := parted
  constructor
  · exact (rearranged.trans (early.mono (by omega) (by omega))).trans (late.mono (by omega) (by omega))
  -- the second sort is away from the first one's range
  have kept : SortedOn cmp after low high :=
    early'.congr fun k least most => late.outside (by omega)
  -- and no value leaves its zone in either
  have zone {verdict : Ordering} {least most : ℕ} (whole : (least = first ∧ most = s.low) ∨
      (least = s.low ∧ most = s.high + 1) ∨ (least = s.high + 1 ∧ most = last))
      (every : ∀ k, least ≤ k → k < most → cmp (s.values k) pivot = verdict) :
      ∀ k, least ≤ k → k < most → cmp (after k) pivot = verdict :=
    late.all (cmp · pivot = verdict) (by omega) (early.all (cmp · pivot = verdict) (by omega) every)
  have below' := zone (.inl ⟨rfl, rfl⟩) (met ▸ below)
  have level' := zone (.inr (.inl ⟨rfl, rfl⟩)) fun k least most => level k least (by omega)
  have above' := zone (.inr (.inr ⟨rfl, rfl⟩)) fun k least most => above k (by omega) most
  cases halves with
  | inl lowerFirst =>
    obtain ⟨rfl, rfl, rfl, rfl⟩ := lowerFirst
    exact kept.join late' below' level' above'
  | inr upperFirst =>
    obtain ⟨rfl, rfl, rfl, rfl⟩ := upperFirst
    exact late'.join kept below' level' above'

end ThreeWay
