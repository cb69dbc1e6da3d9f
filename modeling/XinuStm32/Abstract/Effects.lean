import XinuStm32.Abstract.Invariant

/-!
# What the edits of a view change

The queues, states and counts after each edit that moves are made of.
-/

namespace XinuStm32.View

/-! ## Quiet moves -/

theorem Quiet.refl (a : View) : Quiet a a := ⟨fun _ => rfl, fun _ => rfl, fun _ => rfl, rfl, id⟩

theorem Quiet.trans {a a' a'' : View} (first : Quiet a a') (second : Quiet a' a'') : Quiet a a'' where
  state p := (second.state p).trans (first.state p)
  prio p := (second.prio p).trans (first.prio p)
  prsem p := (second.prsem p).trans (first.prsem p)
  rest := by rw [second.rest, first.rest]
  pendsv pending := second.pendsv (first.pendsv pending)

theorem Quiet.moves {moves : List Move} {a a' : View} (run : Moves moves a a')
    (all : ∀ move ∈ moves, move = .quiet) : Quiet a a' := by
  induction run with
  | nil a => exact .refl a
  | cons h _ inductionHypothesis =>
    have first := all _ List.mem_cons_self
    subst first
    cases h with
    | quiet quiet =>
      exact quiet.trans (inductionHypothesis fun move member => all move (List.mem_cons_of_mem _ member))

/-! ## Queues -/

@[simp] theorem members_setProc (p : Int) (entry : Procent) (a : View) :
    (a.setProc p entry).members = a.members := rfl

@[simp] theorem members_setState (p : Int) (s : PrState) (a : View) :
    (a.setState p s).members = a.members := rfl

@[simp] theorem members_setSem (sem : Int) (entry : Sentry) (a : View) :
    (a.setSem sem entry).members = a.members := rfl

@[simp] theorem members_addCount (sem change : Int) (a : View) :
    (a.addCount sem change).members = a.members := rfl

@[simp] theorem members_pend (a : View) : a.pend.members = a.members := rfl

@[simp] theorem members_enroll (p : Int) (entry : Procent) (a : View) :
    (a.enroll p entry).members = a.members := rfl

@[simp] theorem members_settle (p : Int) (s : PrState) (a : View) :
    (a.settle p s).members = a.members := by
  simp only [settle]
  split <;> rfl

@[simp] theorem members_bump (p : Int) (behind : List Int) (a : View) :
    (a.bump p behind).members = a.members := by
  cases behind <;> rfl

@[simp] theorem members_countDown (p : Int) (a : View) : (a.countDown p).members = a.members := rfl

@[simp] theorem members_out (p q : Int) (a : View) (q' : Int) :
    (a.out p q).members q' = if q' = q then (a.members q).erase p else a.members q' := by
  simp [out, members, Lists.remove]

/-- The ready list with a process in its place by priority. -/
def readyWith (p : Int) (a : View) : List Int :=
  a.queuetab.ahead (a.prio p) a.readylist ++ p :: a.queuetab.behind (a.prio p) a.readylist

@[simp] theorem members_enterReady (p : Int) (a : View) (q : Int) :
    (a.enterReady p).members q = if q = a.readylist then a.readyWith p else a.members q := by
  simp [enterReady, members, Lists.insertSorted, readyWith, setState, prio]

@[simp] theorem members_makeReady (p : Int) (a : View) (q : Int) :
    (a.makeReady p).members q = if q = a.readylist then a.readyWith p else a.members q := by
  simp [makeReady]

@[simp] theorem members_block (sem : Int) (a : View) (q : Int) :
    (a.block sem).members q =
      if q = (a.semtab sem).squeue then a.members q ++ [a.currpid] else a.members q := by
  simp only [block, members_pend]
  change (Lists.append a.currpid (a.semtab sem).squeue a.queuetab).elems q = _
  rw [Lists.append, Lists.elems_setElems]
  split
  · next same => rw [same]; rfl
  · rfl

@[simp] theorem members_run (p : Int) (a : View) (q : Int) :
    (a.run p).members q = if q = a.readylist then (a.members q).erase p else a.members q := by
  simp only [run, members_setState]
  change (a.out p a.readylist).members q = _
  rw [members_out]
  split
  · next same => rw [same]
  · rfl

/-! ## States -/

@[simp] theorem state_setSem (sem : Int) (entry : Sentry) (a : View) (p : Int) :
    (a.setSem sem entry).state p = a.state p := rfl

@[simp] theorem state_addCount (sem change : Int) (a : View) (p : Int) :
    (a.addCount sem change).state p = a.state p := rfl

@[simp] theorem state_out (p q : Int) (a : View) (p' : Int) : (a.out p q).state p' = a.state p' := rfl

@[simp] theorem state_bump (p : Int) (behind : List Int) (a : View) (p' : Int) :
    (a.bump p behind).state p' = a.state p' := by
  cases behind <;> rfl

@[simp] theorem state_countDown (p : Int) (a : View) (p' : Int) :
    (a.countDown p).state p' = a.state p' := rfl

@[simp] theorem state_enroll (p : Int) (entry : Procent) (a : View) (p' : Int) :
    (a.enroll p entry).state p' = if p' = p then entry.prstate else a.state p' :=
  state_setProc p entry a p'

@[simp] theorem state_enterReady (p : Int) (a : View) (p' : Int) :
    (a.enterReady p).state p' = if p' = p then .ready else a.state p' :=
  state_setState p .ready a p'

@[simp] theorem state_makeReady (p : Int) (a : View) (p' : Int) :
    (a.makeReady p).state p' = if p' = p then .ready else a.state p' :=
  state_setState p .ready a p'

@[simp] theorem state_settle (p : Int) (s : PrState) (a : View) (p' : Int) :
    (a.settle p s).state p' = if p' = p then s else a.state p' := by
  have set := state_setState p s a p'
  simp only [settle]
  split
  · exact set
  · exact set

@[simp] theorem state_block (sem : Int) (a : View) (p' : Int) :
    (a.block sem).state p' = if p' = a.currpid then .wait else a.state p' :=
  state_setProc a.currpid _ a p'

@[simp] theorem state_sleep (s : PrState) (delay : Int) (a : View) (p' : Int) :
    (a.sleep s delay).state p' = if p' = a.currpid then s else a.state p' :=
  state_setState a.currpid s _ p'

@[simp] theorem state_run (p : Int) (a : View) (p' : Int) :
    (a.run p).state p' = if p' = p then .curr else a.state p' :=
  state_setState p .curr _ p'

/-! ## The ready list's place -/

@[simp] theorem readylist_out (p q : Int) (a : View) : (a.out p q).readylist = a.readylist := rfl

@[simp] theorem readylist_setState (p : Int) (s : PrState) (a : View) :
    (a.setState p s).readylist = a.readylist := rfl

@[simp] theorem readylist_enterReady (p : Int) (a : View) :
    (a.enterReady p).readylist = a.readylist := rfl

@[simp] theorem readylist_makeReady (p : Int) (a : View) :
    (a.makeReady p).readylist = a.readylist := rfl

@[simp] theorem readylist_settle (p : Int) (s : PrState) (a : View) :
    (a.settle p s).readylist = a.readylist := by
  simp only [settle]
  split <;> rfl

@[simp] theorem readylist_block (sem : Int) (a : View) : (a.block sem).readylist = a.readylist := rfl

@[simp] theorem readylist_sleep (s : PrState) (delay : Int) (a : View) :
    (a.sleep s delay).readylist = a.readylist := rfl

@[simp] theorem readylist_run (p : Int) (a : View) : (a.run p).readylist = a.readylist := rfl

@[simp] theorem readylist_addCount (sem change : Int) (a : View) :
    (a.addCount sem change).readylist = a.readylist := rfl

@[simp] theorem readylist_bump (p : Int) (behind : List Int) (a : View) :
    (a.bump p behind).readylist = a.readylist := by
  cases behind <;> rfl

/-! ## The sleep queue's place -/

@[simp] theorem sleepq_setSem (sem : Int) (entry : Sentry) (a : View) : (a.setSem sem entry).sleepq = a.sleepq := rfl

@[simp] theorem sleepq_out (p q : Int) (a : View) : (a.out p q).sleepq = a.sleepq := rfl

@[simp] theorem sleepq_enterReady (p : Int) (a : View) : (a.enterReady p).sleepq = a.sleepq := rfl

@[simp] theorem sleepq_makeReady (p : Int) (a : View) : (a.makeReady p).sleepq = a.sleepq := rfl

@[simp] theorem sleepq_settle (p : Int) (s : PrState) (a : View) : (a.settle p s).sleepq = a.sleepq := by
  simp only [settle]
  split <;> rfl

@[simp] theorem sleepq_block (sem : Int) (a : View) : (a.block sem).sleepq = a.sleepq := rfl

@[simp] theorem sleepq_sleep (s : PrState) (delay : Int) (a : View) : (a.sleep s delay).sleepq = a.sleepq := rfl

@[simp] theorem sleepq_bump (p : Int) (behind : List Int) (a : View) : (a.bump p behind).sleepq = a.sleepq := by
  cases behind <;> rfl

@[simp] theorem sleepq_run (p : Int) (a : View) : (a.run p).sleepq = a.sleepq := rfl

/-! ## The semaphores -/

@[simp] theorem semtab_setState (p : Int) (s : PrState) (a : View) :
    (a.setState p s).semtab = a.semtab := rfl

@[simp] theorem semtab_out (p q : Int) (a : View) : (a.out p q).semtab = a.semtab := rfl

@[simp] theorem semtab_enterReady (p : Int) (a : View) : (a.enterReady p).semtab = a.semtab := rfl

@[simp] theorem semtab_makeReady (p : Int) (a : View) : (a.makeReady p).semtab = a.semtab := rfl

@[simp] theorem semtab_settle (p : Int) (s : PrState) (a : View) :
    (a.settle p s).semtab = a.semtab := by
  simp only [settle]
  split <;> rfl

@[simp] theorem semtab_bump (p : Int) (behind : List Int) (a : View) :
    (a.bump p behind).semtab = a.semtab := by
  cases behind <;> rfl

@[simp] theorem semtab_block (sem : Int) (a : View) : (a.block sem).semtab = a.semtab := rfl

@[simp] theorem semtab_sleep (s : PrState) (delay : Int) (a : View) :
    (a.sleep s delay).semtab = a.semtab := rfl

@[simp] theorem semtab_run (p : Int) (a : View) : (a.run p).semtab = a.semtab := rfl

@[simp] theorem members_sleep (s : PrState) (delay : Int) (a : View) (q : Int) :
    (a.sleep s delay).members q =
      if q = a.sleepq then (a.queuetab.insertDelta a.currpid a.sleepq delay).elems q
      else a.members q := by
  obtain ⟨front, back, -, elems⟩ := a.queuetab.elems_insertDelta a.currpid a.sleepq delay
  change (a.queuetab.insertDelta a.currpid a.sleepq delay).elems q = _
  split
  · rfl
  · next other => rw [elems, Lists.elems_setElems, if_neg other]; rfl

/-! ## Keys -/

@[simp] theorem key_setState (p : Int) (s : PrState) (a : View) :
    (a.setState p s).queuetab.key = a.queuetab.key := rfl

@[simp] theorem key_addCount (sem change : Int) (a : View) :
    (a.addCount sem change).queuetab.key = a.queuetab.key := rfl

@[simp] theorem key_out (p q : Int) (a : View) : (a.out p q).queuetab.key = a.queuetab.key := rfl

@[simp] theorem key_settle (p : Int) (s : PrState) (a : View) :
    (a.settle p s).queuetab.key = a.queuetab.key := by
  simp only [settle]
  split <;> rfl

@[simp] theorem key_enroll (p : Int) (entry : Procent) (a : View) :
    (a.enroll p entry).queuetab.key = a.queuetab.key := rfl

@[simp] theorem key_block (sem : Int) (a : View) : (a.block sem).queuetab.key = a.queuetab.key := rfl

@[simp] theorem key_run (p : Int) (a : View) : (a.run p).queuetab.key = a.queuetab.key := rfl

@[simp] theorem key_enterReady (p : Int) (a : View) (x : Int) :
    (a.enterReady p).queuetab.key x = if x = p then a.prio p else a.queuetab.key x := by
  simp [enterReady, Lists.insertSorted, setState, prio]

@[simp] theorem key_makeReady (p : Int) (a : View) (x : Int) :
    (a.makeReady p).queuetab.key x = if x = p then a.prio p else a.queuetab.key x :=
  key_enterReady p a x

/-- Taking over a delay changes the key of the next sleeper only. -/
theorem key_bump (p : Int) {behind : List Int} (a : View) {x : Int} (apart : x ∉ behind) :
    (a.bump p behind).queuetab.key x = a.queuetab.key x := by
  cases behind with
  | nil => rfl
  | cons next behind =>
    have other : x ≠ next := fun same => apart (same ▸ List.mem_cons_self)
    simp [bump, other]

/-- Going to sleep changes the keys of the sleepers only. -/
theorem key_sleep (s : PrState) (delay : Int) (a : View) {x : Int} (other : x ≠ a.currpid)
    (apart : x ∉ a.members a.sleepq) :
    (a.sleep s delay).queuetab.key x = a.queuetab.key x := by
  change (a.queuetab.insertDelta a.currpid a.sleepq delay).key x = _
  have behind := Lists.deltaSplit_append a.queuetab.key (a.queuetab.elems a.sleepq) delay
  simp only [Lists.insertDelta]
  split
  · simp [other]
  · next next _ split =>
    have member : next ∈ a.members a.sleepq := by
      rw [members, ← behind, split]
      simp
    have different : x ≠ next := fun same => apart (same ▸ member)
    simp [other, different]

/-! ## Priorities -/

@[simp] theorem prio_setProc (p : Int) (entry : Procent) (a : View) (x : Int) :
    (a.setProc p entry).prio x = if x = p then entry.prprio.toInt else a.prio x := by
  simp only [prio, setProc_proctab, Function.update_apply]
  split <;> rfl

@[simp] theorem prio_setState (p : Int) (s : PrState) (a : View) (x : Int) :
    (a.setState p s).prio x = a.prio x := by
  simp only [setState, prio_setProc]
  split
  · next same => rw [same]; rfl
  · rfl

@[simp] theorem prio_pend (a : View) (x : Int) : a.pend.prio x = a.prio x := rfl

@[simp] theorem prio_out (p q : Int) (a : View) (x : Int) : (a.out p q).prio x = a.prio x := rfl

@[simp] theorem prio_addCount (sem change : Int) (a : View) (x : Int) :
    (a.addCount sem change).prio x = a.prio x := rfl

@[simp] theorem prio_enterReady (p : Int) (a : View) (x : Int) :
    (a.enterReady p).prio x = a.prio x := prio_setState p .ready a x

@[simp] theorem prio_makeReady (p : Int) (a : View) (x : Int) :
    (a.makeReady p).prio x = a.prio x := prio_setState p .ready a x

@[simp] theorem prio_settle (p : Int) (s : PrState) (a : View) (x : Int) :
    (a.settle p s).prio x = a.prio x := by
  have set := prio_setState p s a x
  simp only [settle]
  split
  · exact set
  · exact set

@[simp] theorem prio_enroll (p : Int) (entry : Procent) (a : View) (x : Int) :
    (a.enroll p entry).prio x = if x = p then entry.prprio.toInt else a.prio x :=
  prio_setProc p entry a x

@[simp] theorem prio_block (sem : Int) (a : View) (x : Int) : (a.block sem).prio x = a.prio x := by
  apply (prio_setProc a.currpid _ a x).trans
  split
  · next same => rw [same]; rfl
  · rfl

@[simp] theorem prio_sleep (s : PrState) (delay : Int) (a : View) (x : Int) :
    (a.sleep s delay).prio x = a.prio x := prio_setState a.currpid s _ x

@[simp] theorem prio_bump (p : Int) (behind : List Int) (a : View) (x : Int) :
    (a.bump p behind).prio x = a.prio x := by
  cases behind <;> rfl

@[simp] theorem prio_run (p : Int) (a : View) (x : Int) : (a.run p).prio x = a.prio x :=
  prio_setState p .curr _ x

/-! ## Semaphore queues apart from the others -/

theorem Placement.squeue_ne_readylist {a : View} (placement : Placement a) {sem : Int}
    (valid : ¬ isbadsem sem) : (a.semtab sem).squeue ≠ a.readylist := by
  rw [placement.squeue valid, placement.readylist]
  simp only [isbadsem, NSEM] at valid
  omega

theorem Placement.squeue_ne_sleepq {a : View} (placement : Placement a) {sem : Int}
    (valid : ¬ isbadsem sem) : (a.semtab sem).squeue ≠ a.sleepq := by
  rw [placement.squeue valid, placement.sleepq]
  simp only [isbadsem, NSEM] at valid
  omega

theorem Placement.squeue_inj {a : View} (placement : Placement a) {sem sem' : Int}
    (valid : ¬ isbadsem sem) (valid' : ¬ isbadsem sem') :
    (a.semtab sem).squeue = (a.semtab sem').squeue ↔ sem = sem' := by
  rw [placement.squeue valid, placement.squeue valid']
  omega

theorem Placement.readylist_ne_sleepq {a : View} (placement : Placement a) :
    a.readylist ≠ a.sleepq := by
  rw [placement.readylist, placement.sleepq]
  decide

/-- Releasing the first of a queue leaves the rest. -/
theorem members_release {a b : View} {p q : Int} {rest : List Int} (front : a.members q = p :: rest)
    (elems : b.members = a.members) (other : q ≠ b.readylist) :
    ((b.out p q).makeReady p).members q = rest := by
  rw [members_makeReady, if_neg (show q ≠ (b.out p q).readylist from other), members_out, if_pos rfl,
    elems, front, List.erase_cons_head]

end XinuStm32.View
