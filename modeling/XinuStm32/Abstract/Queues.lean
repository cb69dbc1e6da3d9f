import Mathlib
import XinuStm32.Kernel.Tables

/-!
# Queues as lists

What the queue table stands for: each queue is the list of the processes in it, front first, and
each process has one key. The edits of `queue.c` are the obvious edits of these lists.
-/

namespace XinuStm32

/-- The head entries of the queues that start-up allocates: twelve semaphore queues, the ready list
and the sleep queue. -/
def IsQueue (q : Int) : Prop := NPROC ≤ q ∧ q < NQENT ∧ q % 2 = 0

instance (q : Int) : Decidable (IsQueue q) := inferInstanceAs (Decidable (_ ∧ _ ∧ _))

/-- The indices of the process table. -/
def IsPid (p : Int) : Prop := 0 ≤ p ∧ p < NPROC

instance (p : Int) : Decidable (IsPid p) := inferInstanceAs (Decidable (_ ∧ _))

/-- The queues as lists and the keys of the processes in them. -/
structure Lists where
  elems : Int → List Int
  key : Int → Int

namespace Lists

def setElems (q : Int) (members : List Int) (l : Lists) : Lists :=
  { l with elems := Function.update l.elems q members }

def setKey (p key : Int) (l : Lists) : Lists := { l with key := Function.update l.key p key }

/-- The state of the lists when no process is in a queue. -/
def Fresh (p : Int) (l : Lists) : Prop := ∀ q, p ∉ l.elems q

/-- Only processes are in queues, each in at most one and at most once, and only in queues that
are allocated. -/
structure WellFormed (l : Lists) : Prop where
  pids : ∀ {q p}, p ∈ l.elems q → IsPid p
  nodup : ∀ q, (l.elems q).Nodup
  disjoint : ∀ {q q' p}, p ∈ l.elems q → p ∈ l.elems q' → q = q'
  allocated : ∀ {q p}, p ∈ l.elems q → IsQueue q

/-! ## Edits -/

/-- Put a process at the end of a queue. -/
def append (p q : Int) (l : Lists) : Lists := l.setElems q (l.elems q ++ [p])

/-- Take a process out of a queue. -/
def remove (p q : Int) (l : Lists) : Lists := l.setElems q ((l.elems q).erase p)

/-- The processes a new one with this key goes behind. -/
def ahead (key : Int) (l : Lists) (q : Int) : List Int := (l.elems q).takeWhile (key ≤ l.key ·)

/-- The processes a new one with this key goes before. -/
def behind (key : Int) (l : Lists) (q : Int) : List Int := (l.elems q).dropWhile (key ≤ l.key ·)

/-- Put a process with a key into a queue in descending order, behind its equals. -/
def insertSorted (p q key : Int) (l : Lists) : Lists :=
  (l.setElems q (l.ahead key q ++ p :: l.behind key q)).setKey p key

/-- Split a delta list where a delay belongs: the processes due before it, those due after it,
and what is left of the delay behind the former. -/
def deltaSplit (key : Int → Int) : List Int → Int → List Int × List Int × Int
  | [], delay => ([], [], delay)
  | p :: rest, delay =>
    if key p ≤ delay then
      let (front, back, left) := deltaSplit key rest (int32 (delay - key p))
      (p :: front, back, left)
    else ([], p :: rest, delay)

/-- Put a process into a delta list; the process behind it waits that much less. -/
def insertDelta (p q delay : Int) (l : Lists) : Lists :=
  let (front, back, left) := deltaSplit l.key (l.elems q) delay
  let l' := (l.setElems q (front ++ p :: back)).setKey p left
  match back with
  | [] => l'
  | next :: _ => l'.setKey next (int32 (l.key next - left))

/-! ## What the edits change -/

@[simp] theorem elems_setElems (q : Int) (members : List Int) (l : Lists) (q' : Int) :
    (l.setElems q members).elems q' = if q' = q then members else l.elems q' := by
  simp [setElems, Function.update_apply]

@[simp] theorem key_setElems (q : Int) (members : List Int) (l : Lists) :
    (l.setElems q members).key = l.key := rfl

@[simp] theorem elems_setKey (p key : Int) (l : Lists) : (l.setKey p key).elems = l.elems := rfl

@[simp] theorem key_setKey (p key : Int) (l : Lists) (p' : Int) :
    (l.setKey p key).key p' = if p' = p then key else l.key p' := by
  simp [setKey, Function.update_apply]

theorem setKey_self (p : Int) (l : Lists) : l.setKey p (l.key p) = l := by
  simp [setKey]

theorem ahead_append_behind (key : Int) (l : Lists) (q : Int) :
    l.ahead key q ++ l.behind key q = l.elems q := List.takeWhile_append_dropWhile

theorem deltaSplit_append (key : Int → Int) (members : List Int) (delay : Int) :
    (deltaSplit key members delay).1 ++ (deltaSplit key members delay).2.1 = members := by
  induction members generalizing delay with
  | nil => rfl
  | cons p rest inductionHypothesis =>
    simp only [deltaSplit]
    split
    · exact congrArg (p :: ·) (inductionHypothesis _)
    · rfl

/-- Inserting in a delta list splits the queue in two and puts the process in between. -/
theorem elems_insertDelta (p q delay : Int) (l : Lists) :
    ∃ front back, l.elems q = front ++ back ∧
      (l.insertDelta p q delay).elems = (l.setElems q (front ++ p :: back)).elems := by
  refine ⟨_, _, (deltaSplit_append l.key (l.elems q) delay).symm, ?_⟩
  simp only [insertDelta]
  split <;> rfl

/-! ## Well-formed lists stay well formed -/

theorem WellFormed.remove {l : Lists} (wellFormed : l.WellFormed) (p q : Int) :
    (l.remove p q).WellFormed := by
  have subset : ∀ q' p', p' ∈ (l.remove p q).elems q' → p' ∈ l.elems q' := by
    intro q' p' member
    simp only [Lists.remove, elems_setElems] at member
    split at member
    · next same => exact same ▸ List.mem_of_mem_erase member
    · exact member
  refine ⟨fun member => wellFormed.pids (subset _ _ member), fun q' => ?_,
    fun first second => wellFormed.disjoint (subset _ _ first) (subset _ _ second),
    fun member => wellFormed.allocated (subset _ _ member)⟩
  simp only [Lists.remove, elems_setElems]
  split
  · exact (wellFormed.nodup q).erase p
  · exact wellFormed.nodup q'

theorem WellFormed.fresh_remove {l : Lists} (wellFormed : l.WellFormed) {p q : Int}
    (member : p ∈ l.elems q) : (l.remove p q).Fresh p := by
  intro q'
  simp only [Lists.remove, elems_setElems]
  split
  · exact (wellFormed.nodup q).not_mem_erase
  · next other => exact fun elsewhere => other (wellFormed.disjoint elsewhere member)

/-- A process that is in no queue may be put into any place of one. -/
theorem WellFormed.insertAt {l : Lists} (wellFormed : l.WellFormed) {p q : Int} {front back : List Int}
    (pid : IsPid p) (queue : IsQueue q) (fresh : l.Fresh p) (split : l.elems q = front ++ back) :
    (l.setElems q (front ++ p :: back)).WellFormed := by
  have members : ∀ q' p', p' ∈ (l.setElems q (front ++ p :: back)).elems q' →
      p' = p ∧ q' = q ∨ p' ∈ l.elems q' := by
    intro q' p' member
    simp only [elems_setElems] at member
    split at member
    · next same => subst same; rw [split]; grind
    · exact Or.inr member
  refine ⟨fun {q' p'} member => ?_, fun q' => ?_, fun {q₁ q₂ p'} first second => ?_,
    fun {q' p'} member => ?_⟩
  · obtain ⟨rfl, -⟩ | member := members q' p' member
    · exact pid
    · exact wellFormed.pids member
  · simp only [elems_setElems]
    split
    · have distinct := wellFormed.nodup q
      have absent := fresh q
      rw [split] at distinct absent
      exact List.nodup_middle.mpr (List.nodup_cons.mpr ⟨absent, distinct⟩)
    · exact wellFormed.nodup q'
  · obtain ⟨same, inFirst⟩ | inFirst := members q₁ p' first
    · obtain ⟨-, inSecond⟩ | inSecond := members q₂ p' second
      · rw [inFirst, inSecond]
      · exact absurd (same ▸ inSecond) (fresh q₂)
    · obtain ⟨same, -⟩ | inSecond := members q₂ p' second
      · exact absurd (same ▸ inFirst) (fresh q₁)
      · exact wellFormed.disjoint inFirst inSecond
  · obtain ⟨-, rfl⟩ | member := members q' p' member
    · exact queue
    · exact wellFormed.allocated member

theorem WellFormed.setKey {l : Lists} (wellFormed : l.WellFormed) (p key : Int) :
    (l.setKey p key).WellFormed :=
  ⟨wellFormed.pids, wellFormed.nodup, wellFormed.disjoint, wellFormed.allocated⟩

/-- `l'` has process `p` in the queue `home` gives, if any, and the other processes where `l` has
them. -/
structure Moved (p : Int) (home : Option Int) (l l' : Lists) : Prop where
  wellFormed : l'.WellFormed
  mem_iff : ∀ q p', p' ∈ l'.elems q ↔ p' ≠ p ∧ p' ∈ l.elems q ∨ p' = p ∧ home = some q

theorem Moved.fresh {p : Int} {l l' : Lists} (moved : Moved p none l l') : l'.Fresh p := by
  intro q member
  obtain ⟨other, -⟩ | ⟨-, impossible⟩ := (moved.mem_iff q p).mp member
  · exact other rfl
  · cases impossible

theorem WellFormed.stay {l : Lists} (wellFormed : l.WellFormed) {p : Int} (fresh : l.Fresh p) :
    Moved p none l l := by
  refine ⟨wellFormed, fun q p' => ?_⟩
  have absent := fresh q
  grind

theorem WellFormed.moveOut {l : Lists} (wellFormed : l.WellFormed) {p q : Int}
    (member : p ∈ l.elems q) : Moved p none l (l.remove p q) := by
  refine ⟨wellFormed.remove p q, fun q' p' => ?_⟩
  have absent := wellFormed.fresh_remove member q'
  have distinct := wellFormed.nodup q
  simp only [Lists.remove, elems_setElems] at absent ⊢
  split
  · next same => subst same; rw [distinct.mem_erase_iff]; simp
  · next other => rw [if_neg other] at absent; grind

theorem Moved.insertAt {p q : Int} {l m : Lists} {front back : List Int} (moved : Moved p none l m)
    (pid : IsPid p) (queue : IsQueue q) (split : m.elems q = front ++ back) :
    Moved p (some q) l (m.setElems q (front ++ p :: back)) := by
  refine ⟨moved.wellFormed.insertAt pid queue moved.fresh split, fun q' p' => ?_⟩
  have before := moved.mem_iff q' p'
  simp only [elems_setElems]
  by_cases same : q' = q
  · subst same
    rw [if_pos rfl]
    rw [split] at before
    grind
  · rw [if_neg same]
    grind

theorem Moved.setKey {p : Int} {home : Option Int} {l m : Lists} (moved : Moved p home l m)
    (p' key : Int) : Moved p home l (m.setKey p' key) :=
  ⟨moved.wellFormed.setKey p' key, moved.mem_iff⟩

theorem Moved.append {p q : Int} {l m : Lists} (moved : Moved p none l m) (pid : IsPid p)
    (queue : IsQueue q) : Moved p (some q) l (m.append p q) :=
  moved.insertAt pid queue (List.append_nil _).symm

theorem Moved.insertSorted {p q : Int} {l m : Lists} (moved : Moved p none l m) (pid : IsPid p)
    (queue : IsQueue q) (key : Int) : Moved p (some q) l (m.insertSorted p q key) :=
  (moved.insertAt pid queue (m.ahead_append_behind key q).symm).setKey p key

theorem Moved.insertDelta {p q : Int} {l m : Lists} (moved : Moved p none l m) (pid : IsPid p)
    (queue : IsQueue q) (delay : Int) : Moved p (some q) l (m.insertDelta p q delay) := by
  have inserted := moved.insertAt pid queue (deltaSplit_append m.key (m.elems q) delay).symm
  simp only [Lists.insertDelta]
  split
  · exact inserted.setKey p _
  · exact (inserted.setKey p _).setKey _ _

/-- A queue never has more members than there are processes. -/
theorem WellFormed.length_le {l : Lists} (wellFormed : l.WellFormed) (q : Int) :
    (l.elems q).length ≤ NPROC.toNat := by
  have within : (l.elems q) ⊆ (List.range NPROC.toNat).map Int.ofNat := by
    intro p member
    obtain ⟨low, high⟩ := wellFormed.pids member
    refine List.mem_map.mpr ⟨p.toNat, List.mem_range.mpr ?_, Int.toNat_of_nonneg low⟩
    simp only [NPROC] at high ⊢
    omega
  simpa using (List.subperm_of_subset (wellFormed.nodup q) within).length_le

end Lists

end XinuStm32
