import Mathlib
import XinuStm32.Abstract.Effects
import XinuStm32.Lib.Ranked

/-!
# The ready list

A process enters the ready list behind everyone of at least its priority, and only the first process
is taken from it to run. `ReadyChange` says what a move may do to the list; from it follow the order
by priority and the round-robin order among equals.
-/

namespace XinuStm32

open View Line

namespace View

/-- The ready processes, the next one to run first. -/
def readyList (a : View) : List Int := a.members a.readylist

theorem Inv.mem_readyList {a : View} (inv : a.Inv) {p : Int} :
    p ∈ a.readyList ↔ IsPid p ∧ a.state p = .ready := by
  refine ⟨inv.ready_of_mem, fun ready => inv.placed.mpr ⟨ready.1, home_ready ready.2⟩⟩

theorem Inv.nodup_readyList {a : View} (inv : a.Inv) : a.readyList.Nodup := inv.wellFormed.nodup _

/-- The list is in descending order of keys, and each key is the priority. -/
structure Ordered (a : View) : Prop where
  keys : ∀ {p}, p ∈ a.readyList → a.queuetab.key p = a.prio p
  descending : Descending a.queuetab.key a.readyList

end View

/-! ## What a move does to the list -/

inductive ReadyChange (move : Move) (a a' : View) : Prop where
  | same : a'.readyList = a.readyList → ReadyChange move a a'
  | entered (p : Int) : p ∉ a.readyList → a'.readyList = a.readyWith p →
      a'.queuetab.key p = a.prio p → a'.prio p = a.prio p → ReadyChange move a a'
  | left (p : Int) (state : PrState) : move = .take p state → a'.readyList = a.readyList.erase p →
      ReadyChange move a a'
  | dispatched (p : Int) : move = .dispatch p → a.readyList = p :: a'.readyList → ReadyChange move a a'

/-- Where a process goes depends only on the ready list, its keys and the priority. -/
theorem readyWith_congr {a b : View} {p : Int} (ready : b.readyList = a.readyList)
    (keys : ∀ x ∈ a.readyList, b.queuetab.key x = a.queuetab.key x) (prio : b.prio p = a.prio p) :
    b.readyWith p = a.readyWith p := by
  have place := place_congr (l := a.readyList) (c := a.prio p) keys
  simp only [readyWith, Lists.ahead, Lists.behind, prio]
  simp only [readyList, members] at ready place
  rw [ready, place.1, place.2]

/-- A process that is not ready enters the list. -/
theorem ReadyChange.makeReady {move : Move} {a b : View} {p : Int} (absent : p ∉ a.readyList)
    (ready : b.readyList = a.readyList)
    (keys : ∀ x ∈ a.readyList, b.queuetab.key x = a.queuetab.key x) (prio : b.prio p = a.prio p) :
    ReadyChange move a (b.makeReady p) := by
  refine .entered p absent ?_ ?_ ?_
  · rw [← readyWith_congr ready keys prio, readyList]
    simp
  · simp [prio]
  · simp [prio]

theorem Move.Step.ready_change {move : Move} {a a' : View} (h : Move.Step move a a') (inv : a.Inv) :
    ReadyChange move a a' := by
  have absent {p : Int} (other : a.state p ≠ .ready) : p ∉ a.readyList :=
    fun member => other (inv.ready_of_mem member).2
  cases h with
  | quiet quiet =>
    rw [quiet.rest]
    exact .same rfl
  | accept | chprio | spawn | post | pass | setCount | close | tick => exact .same rfl
  | @ready _ p pid idle =>
    refine .makeReady (absent ?_) rfl (fun _ _ => rfl) rfl
    rcases idle with state | state <;> simp [state]
  | preempt runs =>
    refine .entered a.currpid (absent (by simp [runs])) ?_ ?_ ?_
    · simp [readyList]
    · simp
    · simp
  | @dispatch _ p rest stopped front =>
    refine .dispatched p rfl ?_
    simp [readyList, front]
  | @release _ sem p rest valid _ front =>
    have other := inv.squeue_ne_readylist valid
    have waiting := inv.waiting_of_mem valid (front ▸ List.mem_cons_self)
    refine .makeReady (absent (by simp [waiting])) ?_ (fun _ _ => rfl) rfl
    simp [readyList, other.symm]
  | @drain _ sem p rest valid front =>
    have other := inv.squeue_ne_readylist valid
    have waiting := inv.waiting_of_mem valid (front ▸ List.mem_cons_self)
    refine .makeReady (absent (by simp [waiting])) ?_ (fun _ _ => rfl) rfl
    simp [readyList, other.symm]
  | sleep =>
    refine .same ?_
    simp [readyList, inv.readylist_ne_sleepq]
  | @wake _ p rest front =>
    have asleep := inv.asleep_of_mem (front ▸ List.mem_cons_self)
    refine .makeReady (absent ?_) ?_ (fun _ _ => rfl) rfl
    · rcases asleep.2 with state | state <;> simp [state]
    · simp [readyList, inv.readylist_ne_sleepq]
  | @withdrawReady _ p front behind state split =>
    refine .makeReady (absent (by simp [state])) ?_ (fun x ready => ?_) ?_
    · simp [readyList, inv.readylist_ne_sleepq]
    · refine key_bump p a fun member => ?_
      have asleep : x ∈ a.members a.sleepq := by simp [split, member]
      exact inv.readylist_ne_sleepq (inv.wellFormed.disjoint ready asleep)
    · cases behind <;> rfl
  | withdrawFree =>
    refine .same ?_
    simp [readyList, inv.readylist_ne_sleepq]
  | leaveCurr | leaveIdle =>
    refine .same ?_
    simp [readyList]
  | @take _ p state =>
    refine .left p state rfl ?_
    simp [readyList]
  | block valid =>
    have other := inv.squeue_ne_readylist valid
    refine .same ?_
    simp [readyList, addCount, other.symm]
  | @abandon _ p pid waiting =>
    have other := inv.squeue_ne_readylist (inv.waits pid waiting)
    refine .same ?_
    simp [readyList, addCount, other.symm]

/-- No move changes the key of a ready process. -/
theorem Move.Step.ready_key {move : Move} {a a' : View} (h : Move.Step move a a') (inv : a.Inv) {x : Int}
    (ready : x ∈ a.readyList) : a'.queuetab.key x = a.queuetab.key x := by
  have state := (inv.ready_of_mem ready).2
  have other {p : Int} (different : a.state p ≠ .ready) : x ≠ p := fun same => different (same ▸ state)
  have apart {p : Int} (asleep : p ∈ a.members a.sleepq) : x ≠ p := fun same =>
    inv.readylist_ne_sleepq (inv.wellFormed.disjoint ready (same ▸ asleep))
  cases h with
  | quiet quiet => rw [quiet.rest]
  | @ready _ p pid idle =>
    have different : x ≠ p := other (by rcases idle with state | state <;> simp [state])
    simp [different]
  | preempt runs =>
    have different : x ≠ a.currpid := other (by simp [runs])
    simp [different]
  | @release _ sem p _ valid _ front =>
    have waiting := inv.waiting_of_mem valid (front ▸ List.mem_cons_self)
    have different : x ≠ p := other (by simp [waiting])
    simp [different]
  | @drain _ sem p _ valid front =>
    have waiting := inv.waiting_of_mem valid (front ▸ List.mem_cons_self)
    have different : x ≠ p := other (by simp [waiting])
    simp [different]
  | sleep _ runs =>
    refine key_sleep _ _ a (other (by simp [runs])) fun asleep => apart asleep rfl
  | tick front =>
    have different := apart (front ▸ List.mem_cons_self)
    simp [countDown, different]
  | wake front =>
    have different := apart (front ▸ List.mem_cons_self)
    simp [different]
  | @withdrawReady _ p front behind _ split =>
    have different : x ≠ p := apart (by simp [split])
    have kept := key_bump p a fun member : x ∈ behind => apart (by simp [split, member]) rfl
    simp [different, kept]
  | @withdrawFree _ p front behind split =>
    have kept := key_bump p a fun member : x ∈ behind => apart (by simp [split, member]) rfl
    simp [kept]
  | leaveCurr | leaveIdle => simp
  | abandon | take => simp
  | _ => rfl

/-- The priority of a ready process changes only through `chprio`. -/
theorem Move.Step.ready_prio {move : Move} {a a' : View} (h : Move.Step move a a') {x : Int}
    (ready : a.state x = .ready) (calm : ∀ prio, move = .chprio x prio → a.prio x = prio.toInt) :
    a'.prio x = a.prio x := by
  cases h with
  | quiet quiet => rw [prio, quiet.prio, prio]
  | @chprio _ p prio =>
    rw [prio_setProc]
    split
    · next same =>
      subst same
      exact (calm prio rfl).symm
    · rfl
  | @spawn _ p _ _ free =>
    have different : x ≠ p := fun same => by simp [← same, ready] at free
    simp [different]
  | _ => first | rfl | simp

/-! ## Order by priority -/

/-- The list stays in order as long as no ready process gets another priority. -/
theorem View.Ordered.step {move : Move} {a a' : View} (ordered : a.Ordered) (h : Move.Step move a a')
    (inv : a.Inv)
    (calm : ∀ p prio, move = .chprio p prio → p ∈ a.readyList → a.prio p = prio.toInt) : a'.Ordered := by
  have keys {x : Int} (member : x ∈ a.readyList) : a'.queuetab.key x = a'.prio x := by
    rw [h.ready_key inv member, ordered.keys member,
      h.ready_prio (inv.ready_of_mem member).2 fun prio same => calm x prio same member]
  have descending := ordered.descending.congr fun x member => h.ready_key inv member
  cases h.ready_change inv with
  | same same => exact ⟨fun member => keys (same ▸ member), same ▸ descending⟩
  | entered p absent list key prio =>
    refine ⟨fun {x} member => ?_, ?_⟩
    · by_cases here : x = p
      · rw [here, key, prio]
      · apply keys
        rw [list, readyWith] at member
        have split := a.queuetab.ahead_append_behind (a.prio p) a.readylist
        rw [readyList, members, ← split]
        grind
    · rw [list]
      exact ordered.descending.insert key fun x member => h.ready_key inv member
  | left p state _ list =>
    refine ⟨fun member => keys (List.mem_of_mem_erase (list ▸ member)), ?_⟩
    rw [list]
    exact descending.sublist List.erase_sublist
  | dispatched p _ list =>
    refine ⟨fun member => keys (list ▸ List.mem_cons_of_mem p member), ?_⟩
    rw [list] at descending
    exact descending.sublist (List.sublist_cons_self _ _)

/-- No ready process has a higher priority than the one that is taken to run. -/
theorem View.Ordered.highest {p q : Int} {a a' : View} (ordered : a.Ordered)
    (h : Move.Step (.dispatch p) a a') (inv : a.Inv) (pid : IsPid q) (ready : a'.state q = .ready) :
    a'.currpid = p ∧ a'.prio q ≤ a'.prio p := by
  have inv' := inv.step h
  cases h with
  | @dispatch _ p rest stopped front =>
    have list : a.readyList = p :: rest := front
    have member : q ∈ a.readyList := by
      have after := inv'.mem_readyList.mpr ⟨pid, ready⟩
      simp [readyList, front] at after
      simp [list, after]
    have descending : Descending a.queuetab.key (p :: rest) := list ▸ ordered.descending
    have high := descending.le_head (list ▸ member)
    rw [ordered.keys member, ordered.keys (list ▸ List.mem_cons_self)] at high
    exact ⟨rfl, by simpa using high⟩

/-! ## Order among equals -/

namespace View

/-- If `p` is in the list and has the priority of `q`, it stands behind `q`. -/
def Behind (q p : Int) (a : View) : Prop :=
  p ∈ a.readyList → a.prio p = a.prio q → Before q p a.readyList

end View

/-- The moves that take a process out of the list. -/
def Move.Takes (q : Int) (move : Move) : Prop := (∃ state, move = .take q state) ∨ move = .dispatch q

/-- A ready process stays in the list unless it is the one that is taken out. -/
theorem Move.Step.stays_ready {move : Move} {a a' : View} (h : Move.Step move a a') (inv : a.Inv) {q : Int}
    (ready : q ∈ a.readyList) (kept : ¬ move.Takes q) : q ∈ a'.readyList := by
  cases h.ready_change inv with
  | same same => exact same ▸ ready
  | entered p _ list =>
    have split := a.queuetab.ahead_append_behind (a.prio p) a.readylist
    rw [readyList, members, ← split] at ready
    rw [list, readyWith]
    grind
  | left p state take list =>
    rw [list]
    exact (List.mem_erase_of_ne fun same => kept (Or.inl ⟨state, by rw [take, same]⟩)).mpr ready
  | dispatched p dispatch list =>
    rw [list] at ready
    exact (List.mem_cons.mp ready).resolve_left fun same => kept (Or.inr (same ▸ dispatch))

/-- Newcomers go behind their equals, and no one overtakes. -/
theorem View.Behind.step {move : Move} {a a' : View} {p q : Int} (behind : Behind q p a)
    (h : Move.Step move a a') (inv : a.Inv) (ordered : a.Ordered) (ready : q ∈ a.readyList)
    (stays : q ∈ a'.readyList) (calm : ∀ r prio, move ≠ .chprio r prio) : Behind q p a' := by
  have distinct := inv.nodup_readyList
  have kept {x : Int} (member : x ∈ a.readyList) : a'.prio x = a.prio x :=
    h.ready_prio (inv.ready_of_mem member).2 fun prio same => absurd same (calm x prio)
  intro member equal
  rw [kept ready] at equal
  cases h.ready_change inv with
  | same same =>
    rw [same] at member ⊢
    rw [kept member] at equal
    exact behind member equal
  | entered r absent list _ prio =>
    rw [list]
    by_cases here : r = p
    · subst here
      have high : a.prio r ≤ a.queuetab.key q := by rw [ordered.keys ready, ← equal, prio]
      exact ordered.descending.before_newcomer ready high
    · have split := a.queuetab.ahead_append_behind (a.prio r) a.readylist
      have old : p ∈ a.readyList := by
        rw [list, readyWith] at member
        rw [readyList, members, ← split]
        grind
      rw [kept old] at equal
      have before := behind old equal
      rw [readyList, members, ← split] at before
      exact before.insert
  | left r _ _ list =>
    rw [list] at member stays ⊢
    have old := List.mem_of_mem_erase member
    rw [kept old] at equal
    exact (behind old equal).erase (fun same => distinct.not_mem_erase (same ▸ stays))
      (fun same => distinct.not_mem_erase (same ▸ member))
  | dispatched r _ list =>
    have old : p ∈ a.readyList := list ▸ List.mem_cons_of_mem r member
    rw [kept old] at equal
    have before := behind old equal
    rw [list] at before distinct
    exact before.drop (n := 1) distinct stays

/-- Whoever stands behind an equal is not the next to run. -/
theorem View.Behind.not_next {a a' : View} {p q : Int} (behind : Behind q p a) (inv : a.Inv)
    (equal : a.prio p = a.prio q) : ¬ Move.Step (.dispatch p) a a' := by
  intro h
  cases h with
  | @dispatch _ p rest stopped front =>
    have list : a.readyList = p :: rest := front
    have before := behind (list ▸ List.mem_cons_self) equal
    have distinct := inv.nodup_readyList
    rw [list] at before distinct
    exact before.ne_head distinct rfl

/-- Only `dispatch` makes a process run. -/
theorem Move.Step.runs {move : Move} {a a' : View} (h : Move.Step move a a') {p : Int}
    (stopped : a.state p ≠ .curr) (runs : a'.state p = .curr) : move = .dispatch p := by
  have other {r : Int} {s : PrState} (new : s ≠ .curr)
      (state : (if p = r then s else a.state p) = .curr) : False := by
    split at state
    · exact new state
    · exact stopped state
  cases h with
  | quiet quiet => exact absurd ((quiet.state p).symm.trans runs) stopped
  | @dispatch _ r =>
    rw [state_run] at runs
    split at runs
    · next same => rw [same]
    · exact absurd runs stopped
  | @spawn _ r entry _ _ new =>
    rw [state_enroll, new] at runs
    exact absurd runs (other (by simp))
  | @chprio _ r prio =>
    rw [state_setProc] at runs
    split at runs
    · next same =>
      subst same
      exact absurd runs stopped
    · exact absurd runs stopped
  | sleep new =>
    rw [state_sleep] at runs
    exact absurd runs (other (by rcases new with ⟨new, -⟩ | ⟨new, -⟩ <;> simp [new]))
  | leaveCurr _ _ new =>
    rw [state_pend, state_settle] at runs
    exact absurd runs (other (by rcases new with new | new | new <;> simp [new]))
  | take _ _ new =>
    rw [state_settle] at runs
    exact absurd runs (other (by rcases new with new | new <;> simp [new]))
  | ready | preempt | release | drain | block | abandon | wake | withdrawReady | withdrawFree | leaveIdle =>
    simp at runs
    exact (other (by simp) runs).elim
  | _ => exact absurd runs stopped

end XinuStm32
