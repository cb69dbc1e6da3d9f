import XinuStm32.Abstract.ReadyList
import XinuStm32.Abstract.States

/-!
# A process above all others

If one process has a higher priority than every other, it goes to the front of the ready list and stays there until it
is taken to run.
-/

namespace XinuStm32

open View

namespace View

/-- The process that leads, if there is one, has priority `top`, and everyone else has a lower one. The keys in the
ready list say the same, whatever the priorities were when they were set. -/
structure Led (top : Int) (leader : Option Int) (a : View) : Prop where
  highest : ∀ {p}, leader = some p → a.prio p = top
  lower : ∀ {p}, IsPid p → a.state p ≠ .free → leader ≠ some p → a.prio p < top
  first : ∀ {p}, leader = some p → p ∈ a.readyList →
    a.queuetab.key p = top ∧ ∃ rest, a.readyList = p :: rest
  behind : ∀ {p}, p ∈ a.readyList → leader ≠ some p → a.queuetab.key p < top

variable {a a' : View} {p q : Int} {rest : List Int}

/-! ## The place of a newcomer -/

theorem mem_readyWith : q ∈ a.readyWith p ↔ q = p ∨ q ∈ a.readyList := by
  have split := a.queuetab.ahead_append_behind (a.prio p) a.readylist
  rw [readyList, members, ← split, readyWith]
  simp only [List.mem_append, List.mem_cons]
  tauto

/-- Whoever is in front and has the higher key stays in front. -/
theorem readyWith_of_le (front : a.readyList = q :: rest) (high : a.prio p ≤ a.queuetab.key q) :
    ∃ rest', a.readyWith p = q :: rest' := by
  have elems : a.queuetab.elems a.readylist = q :: rest := front
  refine ⟨rest.takeWhile (a.prio p ≤ a.queuetab.key ·) ++ p :: rest.dropWhile (a.prio p ≤ a.queuetab.key ·), ?_⟩
  rw [readyWith, Lists.ahead, Lists.behind, elems, List.takeWhile_cons_of_pos (by simpa using high),
    List.dropWhile_cons_of_pos (by simpa using high), List.cons_append]

/-- A newcomer with a higher priority than everyone goes to the front. -/
theorem readyWith_of_lt (low : ∀ q ∈ a.readyList, a.queuetab.key q < a.prio p) :
    a.readyWith p = p :: a.readyList := by
  rw [readyWith, Lists.ahead, Lists.behind, readyList, members]
  rw [readyList, members] at low
  cases elems : a.queuetab.elems a.readylist with
  | nil => rfl
  | cons q rest =>
    have passed : ¬ a.prio p ≤ a.queuetab.key q := Int.not_le.mpr (low q (elems ▸ List.mem_cons_self))
    rw [List.takeWhile_cons_of_neg (by simpa using passed), List.dropWhile_cons_of_neg (by simpa using passed),
      List.nil_append]

end View

/-! ## What a move does to priorities -/

variable {top : Int} {leader : Option Int} {move : Move} {a a' : View} {p q : Int}

/-- A priority changes only through `chprio`, or when a process is created. -/
theorem Move.Step.prio_eq (h : Move.Step move a a') (notChanged : ∀ prio, move ≠ .chprio p prio)
    (notCreated : move ≠ .spawn p) : a'.prio p = a.prio p := by
  cases h with
  | quiet quiet => rw [prio, quiet.prio, prio]
  | @chprio _ q prio =>
    rw [prio_setProc]
    split
    · next same => exact absurd (same ▸ rfl) (notChanged prio)
    · rfl
  | @spawn _ q =>
    have different : p ≠ q := fun same => notCreated (same ▸ rfl)
    simp [different]
  | _ => first | rfl | simp

/-- Only `spawn` makes a process of a free entry. -/
theorem Move.Step.live (h : Move.Step move a a') (inv : a.Inv) (live : a'.state p ≠ .free)
    (notCreated : move ≠ .spawn p) : a.state p ≠ .free := by
  intro free
  cases h.changes inv p with
  | inl same => exact live (same.trans free)
  | inr changes =>
    generalize a.state p = old, a'.state p = new at free changes
    subst free
    cases changes with
    | spawn => exact notCreated rfl
    | ready old | wake old | withdrawFree old | leaveIdle old => simp at old

/-! ## Moves keep the leader in front -/

/-- What a move must respect: it neither creates the leader nor changes its priority, and it gives no one else a
priority that is not lower. -/
structure Move.Below (top : Int) (leader : Option Int) (a' : View) (move : Move) : Prop where
  chprio : ∀ {p prio}, move = .chprio p prio → leader ≠ some p ∧ prio.toInt < top
  spawn : ∀ {p}, move = .spawn p → leader ≠ some p ∧ a'.prio p < top

theorem View.Led.prios (led : Led top leader a) (h : Move.Step move a a') (inv : a.Inv)
    (below : move.Below top leader a') :
    (∀ {p}, leader = some p → a'.prio p = top) ∧
      ∀ {p}, IsPid p → a'.state p ≠ .free → leader ≠ some p → a'.prio p < top := by
  refine ⟨fun {p} leads => ?_, fun {p} pid live other => ?_⟩
  · rw [h.prio_eq (fun prio changes => (below.chprio changes).1 leads) fun created => (below.spawn created).1 leads]
    exact led.highest leads
  · by_cases created : move = .spawn p
    · exact (below.spawn created).2
    by_cases changes : ∃ prio, move = .chprio p prio
    · obtain ⟨prio, rfl⟩ := changes
      have low := (below.chprio rfl).2
      cases h
      rwa [prio_setProc, if_pos rfl]
    · rw [h.prio_eq (fun prio same => changes ⟨prio, same⟩) created]
      exact led.lower pid (h.live inv live created) other

theorem View.Led.step (led : Led top leader a) (h : Move.Step move a a') (inv : a.Inv)
    (below : move.Below top leader a') : Led top leader a' := by
  obtain ⟨highest, lower⟩ := led.prios h inv below
  have keys {x : Int} (member : x ∈ a.readyList) := h.ready_key inv member
  cases h.ready_change inv with
  | same same =>
    refine ⟨highest, lower, fun leads member => ?_, fun member other => ?_⟩
    · rw [same] at member ⊢
      rw [keys member]
      exact led.first leads member
    · rw [same] at member
      rw [keys member]
      exact led.behind member other
  | entered newcomer absent list key prio =>
    have ready : newcomer ∈ a'.readyList := by rw [list]; exact mem_readyWith.mpr (Or.inl rfl)
    refine ⟨highest, lower, fun {p} leads member => ?_, fun {p} member other => ?_⟩
    · -- the leader goes to the front, and no one else passes it
      by_cases here : p = newcomer
      · subst here
        rw [key, ← prio, list]
        refine ⟨highest leads, a.readyList, readyWith_of_lt fun q waits => ?_⟩
        rw [← prio, highest leads]
        exact led.behind waits fun same => absent (Option.some.inj (leads.symm.trans same) ▸ waits)
      · rw [list, mem_readyWith, or_iff_right here] at member
        obtain ⟨high, rest, front⟩ := led.first leads member
        rw [keys member, list]
        refine ⟨high, readyWith_of_le front ?_⟩
        obtain ⟨pid, state⟩ := (inv.step h).mem_readyList.mp ready
        have low := lower pid (by simp [state]) fun same => here (Option.some.inj (leads.symm.trans same))
        rw [← prio, high]
        exact Int.le_of_lt low
    · by_cases here : p = newcomer
      · subst here
        obtain ⟨pid, state⟩ := (inv.step h).mem_readyList.mp ready
        rw [key, ← prio]
        exact lower pid (by simp [state]) other
      · rw [list, mem_readyWith, or_iff_right here] at member
        rw [keys member]
        exact led.behind member other
  | left gone state _ list =>
    refine ⟨highest, lower, fun {p} leads member => ?_, fun {p} member other => ?_⟩
    · rw [list] at member ⊢
      obtain ⟨high, rest, front⟩ := led.first leads (List.mem_of_mem_erase member)
      rw [keys (List.mem_of_mem_erase member)]
      have still : p ≠ gone := by
        rintro rfl
        exact inv.nodup_readyList.not_mem_erase member
      rw [front, List.erase_cons_tail (by simpa using still)]
      exact ⟨high, _, rfl⟩
    · have before := List.mem_of_mem_erase (list ▸ member)
      rw [keys before]
      exact led.behind before other
  | dispatched next _ list =>
    refine ⟨highest, lower, fun {p} leads member => ?_, fun {p} member other => ?_⟩
    · -- the leader was in front, so it is the one that was taken
      have before : p ∈ a.readyList := list ▸ List.mem_cons_of_mem next member
      obtain ⟨-, rest, front⟩ := led.first leads before
      have distinct := inv.nodup_readyList
      rw [list] at front distinct
      obtain ⟨rfl, -⟩ := List.cons.inj front
      exact absurd member (List.nodup_cons.mp distinct).1
    · have before : p ∈ a.readyList := list ▸ List.mem_cons_of_mem next member
      rw [keys before]
      exact led.behind before other

end XinuStm32
