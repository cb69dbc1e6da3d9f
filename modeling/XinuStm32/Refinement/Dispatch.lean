import XinuStm32.Refinement.Operations
import XinuStm32.Abstract.Effects

/-!
# Scheduling and sleeping as moves
-/

namespace XinuStm32

open View

variable {owed : Int} {s : Kernel} {a : View}

theorem View.settle_live (p : Int) {state : PrState} (live : state ≠ .free) (a : View) :
    a.settle p state = a.setState p state := by
  simp [View.settle, live]

/-! ## Between running, ready and suspended -/

theorem resume_follows (track : Tracks owed s a) (inv : a.Inv) (p : Int) :
    Follows owed [] (resume p s).2 a ∨ IsPid p ∧ a.state p = .susp ∧
      Follows owed [.ready p] (resume p s).2 a := by
  simp only [resume]
  split
  · exact Or.inl (.nil track)
  · next good =>
    have good := track.live_of_good good
    split
    · exact Or.inl (.nil track)
    · next suspended =>
      rw [track.state] at suspended
      have suspended := Decidable.not_not.mp suspended
      have readied := (track.ready good.1 good.2 inv.isQueue_readylist
        (inv.not_member (home_none (Or.inr (Or.inr (Or.inr suspended)))))).2
      exact Or.inr ⟨good.1, suspended, .single (.ready good.1 (Or.inl suspended)) readied⟩

theorem suspend_follows (track : Tracks owed s a) (inv : a.Inv) (p : Int) :
    Follows owed [] (suspend p s).2 a ∨ Follows owed [.leave p .susp] (suspend p s).2 a ∨
      Follows owed [.take p .susp] (suspend p s).2 a := by
  have track := track.disable
  simp only [suspend]
  generalize (disable s).2 = s, (disable s).1 = mask at track ⊢
  split
  · exact Or.inl (.nil (track.restore mask))
  · next good =>
    rw [not_or] at good
    obtain ⟨pid, live⟩ := track.live_of_good good.1
    rw [track.state]
    split
    · exact Or.inl (.nil (track.restore mask))
    · next movable =>
      right
      split
      · next ready =>
        right
        have member : p ∈ a.members a.readylist := inv.placed.mpr ⟨pid, home_ready ready⟩
        have taken := (track.getitem member).setState p .susp
        rw [← View.settle_live p (by decide)] at taken
        exact .single (.take good.2 member (Or.inl rfl)) (taken.restore mask)
      · next notReady =>
        left
        have runs : a.state p = .curr := by
          by_contra notCurr
          exact movable ⟨notCurr, notReady⟩
        have same := inv.current pid runs
        subst same
        have stopped := (track.setState a.currpid .susp).pendSV
        rw [← View.settle_live a.currpid (by decide)] at stopped
        exact .single (.leaveCurr runs good.2 (Or.inr (Or.inl rfl))) (stopped.restore mask)

theorem chprio_follows (track : Tracks owed s a) (p : Int) (newprio : Int16) :
    Follows owed [] (chprio p newprio s).2 a ∨
      IsPid p ∧ Follows owed [.chprio p newprio] (chprio p newprio s).2 a := by
  have track := track.disable
  simp only [chprio]
  generalize (disable s).2 = s, (disable s).1 = mask at track ⊢
  split
  · exact Or.inl (.nil (track.restore mask))
  · next good =>
    obtain ⟨pid, -⟩ := track.live_of_good good
    rw [track.proctab]
    exact Or.inr ⟨pid, .single (.chprio pid) ((track.setProc p _).restore mask)⟩

/-! ## Sleeping -/

/-- The running process puts itself into the sleep queue. -/
theorem insertd_running (track : Tracks owed s a) (inv : a.Inv) (runs : a.state a.currpid = .curr)
    (delay : Int) :
    (insertd s.currpid s.sleepq delay s).1 = OK ∧ ∀ state,
      Tracks owed (pendSV ((insertd s.currpid s.sleepq delay s).2.setState
        (insertd s.currpid s.sleepq delay s).2.currpid state)) (a.sleep state delay) := by
  obtain ⟨status, linked⟩ := track.insertd (q := a.sleepq) delay inv.currpid
    (by simp [runs]) inv.isQueue_sleepq (inv.not_member (home_none (Or.inr (Or.inl runs))))
  rw [track.currpid, track.sleepq]
  refine ⟨status, fun state => ?_⟩
  rw [linked.currpid]
  exact (linked.setState a.currpid state).pendSV

theorem sleepms_follows (track : Tracks owed s a) (inv : a.Inv) (runs : a.state a.currpid = .curr)
    (notNull : a.currpid ≠ NULLPROC) (delay : Int32) :
    Follows owed [] (sleepms delay s).2 a ∨ Follows owed [.quiet] (sleepms delay s).2 a ∨
      1 ≤ delay.toInt ∧ Follows owed [.sleep .sleep delay.toInt] (sleepms delay s).2 a := by
  simp only [sleepms]
  split
  · exact Or.inl (.nil track)
  · next nonnegative =>
    split
    · exact Or.inr (Or.inl (yield_follows track))
    · next nonzero =>
      right; right
      have track := track.disable
      generalize (disable s).2 = s, (disable s).1 = mask at track ⊢
      obtain ⟨status, asleep⟩ := insertd_running track inv runs delay.toInt
      have later : 1 ≤ delay.toInt := by omega
      rw [status, if_neg (by decide)]
      exact ⟨later, .single (.sleep (Or.inl ⟨rfl, later⟩) runs notNull) ((asleep .sleep).restore mask)⟩

/-- `unsleep` takes a sleeper out of the sleep queue. -/
theorem unsleep_tracks (track : Tracks owed s a) (inv : a.Inv) {p : Int} {front behind : List Int}
    (split : a.members a.sleepq = front ++ p :: behind) :
    Tracks owed (unsleep p s).2 ((a.bump p behind).out p a.sleepq) := by
  have member : p ∈ a.members a.sleepq := by simp [split]
  obtain ⟨pid, asleep⟩ := inv.asleep_of_mem member
  obtain ⟨-, live, -⟩ := inv.sleeper member
  have track := track.disable
  simp only [unsleep]
  generalize (disable s).2 = s, (disable s).1 = mask at track ⊢
  have nextid : s.queuetab.nextOf p = rightOf a.sleepq behind :=
    (track.represents.neighbours split).1
  rw [if_neg (by simp [track.isbadpid_iff, pid, live]), track.state,
    if_neg (by rcases asleep with state | state <;> simp [state])]
  simp only [QTab.entry_qnext, QTab.entry_qkey, nextid]
  cases behind with
  | nil =>
    have tail : ¬ rightOf a.sleepq [] < NPROC := by
      rw [rightOf, List.headD_nil, queuetail, inv.sleepq]
      decide
    rw [if_neg tail]
    exact (track.getitem member).restore mask
  | cons next rest =>
    have pidNext : IsPid next := (inv.asleep_of_mem (p := next) (by simp [split])).1
    have bumped : Tracks owed
        (s.setQueue (s.queuetab.setKey next (int32 (s.queuetab.keyOf next + s.queuetab.keyOf p))))
        (a.bump p (next :: rest)) := by
      rw [track.represents.keys pid, track.represents.keys pidNext]
      exact track.setQueue (track.represents.setKey pidNext _)
    rw [rightOf_cons, if_pos pidNext.2]
    exact (bumped.getitem member).restore mask

/-- `unsleep` refuses a process that does not sleep. -/
theorem unsleep_refuses (track : Tracks owed s a) {p : Int}
    (awake : ¬ (IsPid p ∧ (a.state p = .sleep ∨ a.state p = .rectim))) :
    Tracks owed (unsleep p s).2 a := by
  have track := track.disable
  simp only [unsleep]
  generalize (disable s).2 = s, (disable s).1 = mask at track ⊢
  split
  · exact track.restore mask
  · next good =>
    obtain ⟨pid, -⟩ := track.live_of_good good
    rw [track.state, if_pos]
    · exact track.restore mask
    · simpa [pid] using awake

/-! ## The clock -/

/-- A sleeper is due: it is first in the sleep queue and its delay has run out. -/
def View.Due (a : View) : Prop := ∃ p rest, a.members a.sleepq = p :: rest ∧ a.queuetab.key p ≤ 0

/-- `wakeup` readies sleepers until none is due. -/
theorem wakeupLoop_follows (track : Tracks owed s a) (inv : a.Inv) {fuel : Nat}
    (enough : (a.members a.sleepq).length ≤ fuel) :
    ∃ moves a', (∀ move ∈ moves, move = Move.wake) ∧ Moves moves a a' ∧
      Tracks owed (wakeupLoop fuel s) a' ∧ ¬ a'.Due := by
  have queue := inv.isQueue_sleepq
  induction fuel generalizing s a with
  | zero =>
    have empty := List.length_eq_zero_iff.mp (Nat.le_zero.mp enough)
    refine ⟨[], a, by simp, .nil a, track, ?_⟩
    rintro ⟨p, rest, shape, -⟩
    rw [empty] at shape
    cases shape
  | succ fuel inductionHypothesis =>
    simp only [wakeupLoop, track.sleepq, track.isempty_iff queue]
    cases shape : a.members a.sleepq with
    | nil =>
      rw [if_neg (by simp)]
      refine ⟨[], a, by simp, .nil a, track, ?_⟩
      rintro ⟨p, rest, shape', -⟩
      rw [shape] at shape'
      cases shape'
    | cons p rest =>
      rw [track.firstkey_cons queue shape]
      by_cases due : a.queuetab.key p ≤ 0
      · have member : p ∈ a.members a.sleepq := shape ▸ List.mem_cons_self
        obtain ⟨pid, live, -⟩ := inv.sleeper member
        obtain ⟨first, taken⟩ := track.dequeue_cons queue shape
        rw [if_pos ⟨by simp, due⟩, first]
        have woken := (taken.ready pid live inv.isQueue_readylist
          (inv.wellFormed.fresh_remove member)).2
        have move := Move.Step.wake shape due
        have left := members_release shape rfl inv.readylist_ne_sleepq.symm
        rw [shape] at enough
        obtain ⟨moves, a', kinds, run, track', none⟩ := inductionHypothesis woken (inv.step move)
          (by
            change (View.members _ a.sleepq).length ≤ fuel
            rw [left]
            exact Nat.le_of_succ_le_succ enough)
          queue
        exact ⟨.wake :: moves, a', by simpa using kinds, .cons move run, track', none⟩
      · rw [if_neg fun both => due both.2]
        refine ⟨[], a, by simp, .nil a, track, ?_⟩
        rintro ⟨p', rest', shape', due'⟩
        rw [shape] at shape'
        obtain ⟨rfl, -⟩ := List.cons.inj shape'
        exact due due'

theorem wakeup_follows (track : Tracks owed s a) (inv : a.Inv) :
    ∃ wakes quiet a', (∀ move ∈ wakes, move = Move.wake) ∧ (∀ move ∈ quiet, move = Move.quiet) ∧
      Moves wakes a a' ∧ ¬ a'.Due ∧ Follows owed quiet (wakeup s) a' := by
  obtain ⟨wakes, a', kinds, run, track', none⟩ := wakeupLoop_follows
    (reschedCntl_start_tracks track) inv (inv.wellFormed.length_le _)
  obtain ⟨quiet, quiets, follows⟩ := reschedCntl_stop_performs track'
  exact ⟨wakes, quiet, a', kinds, quiets, run, none, follows⟩

theorem tickSeconds_tracks (track : Tracks owed s a) : Tracks owed (tickSeconds s) a := by
  simp only [tickSeconds]
  split <;> exact track.congr rfl

theorem tickSlice_performs (track : Tracks owed s a) :
    Performs owed (· = .quiet) (tickSlice s) a := by
  simp only [tickSlice]
  split
  · refine ⟨[.quiet], by simp, ?_⟩
    exact pendSV_follows (track.congr rfl)
  · exact .nothing (track.congr rfl)

/-- What one tick does to the sleepers of a view: it counts the first one down, and when that one
has arrived at zero it wakes sleepers until none is due. -/
structure TickMoves (wakes quiet : List Move) (a b : View) : Prop where
  allWake : ∀ move ∈ wakes, move = Move.wake
  allQuiet : ∀ move ∈ quiet, move = Move.quiet
  run : ∃ p rest, a.members a.sleepq = p :: rest ∧ Moves wakes (a.countDown p) b ∧
    (if int32 (a.queuetab.key p - 1) = 0 then ¬ b.Due else wakes = [])

theorem tickSleepers_follows (track : Tracks owed s a) (inv : a.Inv) :
    a.members a.sleepq = [] ∧ Follows owed [] (tickSleepers s) a ∨
      ∃ wakes quiet b, TickMoves wakes quiet a b ∧ Follows owed quiet (tickSleepers s) b := by
  have queue := inv.isQueue_sleepq
  simp only [tickSleepers, track.sleepq, track.isempty_iff queue]
  cases shape : a.members a.sleepq with
  | nil => exact Or.inl ⟨rfl, by simpa using Follows.nil track⟩
  | cons p rest =>
    right
    have pid : IsPid p := (inv.asleep_of_mem (shape ▸ List.mem_cons_self)).1
    have counted : Tracks owed
        (s.setQueue (s.queuetab.setKey p (int32 (s.queuetab.keyOf p - 1)))) (a.countDown p) := by
      rw [track.represents.keys pid]
      exact track.setQueue (track.represents.setKey pid _)
    have move := Move.Step.tick shape
    have key : (a.countDown p).queuetab.key p = int32 (a.queuetab.key p - 1) := by
      simp [View.countDown]
    have sameSleepq : (s.setQueue (s.queuetab.setKey p (int32 (s.queuetab.keyOf p - 1)))).sleepq =
        a.sleepq := counted.sleepq
    rw [if_pos (by simp), track.firstid_cons queue shape]
    simp only [QTab.entry_qkey, sameSleepq]
    rw [counted.firstkey_cons queue (p := p) shape, key]
    by_cases zero : int32 (a.queuetab.key p - 1) = 0
    · rw [if_pos zero]
      obtain ⟨wakes, quiet, b, kinds, quiets, run, none, follows⟩ :=
        wakeup_follows counted (inv.step move)
      exact ⟨wakes, quiet, b, ⟨kinds, quiets, p, rest, shape, run, by rwa [if_pos zero]⟩, follows⟩
    · rw [if_neg zero]
      refine ⟨[], [], a.countDown p, ⟨by simp, by simp, p, rest, shape, .nil _, ?_⟩, .nil counted⟩
      rw [if_neg zero]

theorem clockTick_follows (track : Tracks owed s a) (inv : a.Inv) :
    (s.readyPreemptive = false ∨ a.members a.sleepq = []) ∧
        (∃ quiet, (∀ move ∈ quiet, move = Move.quiet) ∧ Follows owed quiet (clockTick s) a) ∨
      s.readyPreemptive = true ∧
        ∃ wakes quiet b, TickMoves wakes quiet a b ∧ Follows owed quiet (clockTick s) b := by
  have seconds := tickSeconds_tracks track
  have same : (tickSeconds s).readyPreemptive = s.readyPreemptive := by
    simp only [tickSeconds]
    split <;> rfl
  simp only [clockTick, same]
  cases s.readyPreemptive with
  | false => exact Or.inl ⟨Or.inl rfl, [], by simp, .nil seconds⟩
  | true =>
    rw [if_pos rfl]
    obtain ⟨empty, follows⟩ | ⟨wakes, quiet, b, tick, follows⟩ := tickSleepers_follows seconds inv
    · left
      obtain ⟨a', run, track'⟩ := follows
      cases run
      obtain ⟨quiet, quiets, follows⟩ := tickSlice_performs track'
      exact ⟨Or.inr empty, quiet, quiets, follows⟩
    · right
      obtain ⟨a', run, track'⟩ := follows
      obtain ⟨quiet', quiets', a'', run', track''⟩ := tickSlice_performs track'
      refine ⟨rfl, wakes, quiet ++ quiet', b, ⟨tick.allWake, ?_, tick.run⟩, a'', run.append run', track''⟩
      intro move member
      cases List.mem_append.mp member with
      | inl member => exact tick.allQuiet move member
      | inr member => exact quiets' move member

/-! ## The context switch -/

/-- When no process runs, the ready list has a first process: at least the null process is there. -/
theorem View.Inv.readylist_ne_nil {a : View} (inv : a.Inv) (stopped : a.state a.currpid ≠ .curr) :
    ∃ p rest, a.members a.readylist = p :: rest := by
  have ready : a.state NULLPROC = .ready := by
    cases inv.idle with
    | inl running =>
      have same := inv.current (by decide) running
      exact absurd (same ▸ running) stopped
    | inr ready => exact ready
  have member : NULLPROC ∈ a.members a.readylist := inv.placed.mpr ⟨by decide, home_ready ready⟩
  cases shape : a.members a.readylist with
  | nil => simp [shape] at member
  | cons p rest => exact ⟨p, rest, rfl⟩

theorem switchTo_follows (track : Tracks owed s a) (inv : a.Inv) (stopped : a.state a.currpid ≠ .curr)
    (restorestk : Nat) :
    ∃ p rest, a.members a.readylist = p :: rest ∧
      Follows owed [.dispatch p, .quiet] (switchTo restorestk s) a := by
  obtain ⟨p, rest, front⟩ := inv.readylist_ne_nil stopped
  obtain ⟨first, taken⟩ := track.dequeue_cons inv.isQueue_readylist front
  refine ⟨p, rest, front, ?_⟩
  simp only [switchTo, track.readylist, track.currpid, first]
  have running : Tracks owed
      { ({ (dequeue a.readylist s).2 with currpid := p } : Kernel).setState p .curr with
        preempt := QUANTUM } (a.run p) :=
    ((taken.setCurrpid p).setState p .curr).congr rfl
  have saved := running.setProc a.currpid
    { (a.run p).proctab a.currpid with prstkptr := restorestk }
  rw [← running.proctab] at saved
  refine ⟨_, .cons (.dispatch stopped front) (.single (.quiet ?_)), saved⟩
  rw [running.proctab]
  exact (a.run p).quiet_setProc a.currpid rfl rfl rfl

/-- The running process is put back into the ready list. -/
theorem preempt_tracks (track : Tracks owed s a) (inv : a.Inv) (runs : a.state a.currpid = .curr) :
    Tracks owed (insert a.currpid a.readylist (a.prio a.currpid) (s.setState a.currpid .ready)).2
      (a.enterReady a.currpid) := by
  have prio : a.prio a.currpid = ((a.setState a.currpid .ready).proctab a.currpid).prprio.toInt := by
    simp [View.prio, setState]
  rw [prio]
  exact (track.setState a.currpid .ready).insert inv.currpid (by simp) inv.isQueue_readylist
    (inv.not_member (home_none (Or.inr (Or.inl runs)))) (minkey_lt_prio _)

/-- The switch is refused, because the running process has a higher priority than the first ready
one, or it takes the first ready process, after putting the running one among the ready. -/
theorem reschedule_follows (track : Tracks owed s a) (inv : a.Inv) (restorestk : Nat) :
    a.state a.currpid = .curr ∧
        (∀ p rest, a.members a.readylist = p :: rest → a.queuetab.key p < a.prio a.currpid) ∧
        Follows owed [] (reschedule restorestk s) a ∨
      a.state a.currpid = .curr ∧
        (∃ p rest, a.members a.readylist = p :: rest ∧ a.prio a.currpid ≤ a.queuetab.key p) ∧
        (∃ p, Follows owed [.preempt, .dispatch p, .quiet] (reschedule restorestk s) a) ∨
      a.state a.currpid ≠ .curr ∧
        ∃ p, Follows owed [.dispatch p, .quiet] (reschedule restorestk s) a := by
  have queue := inv.isQueue_readylist
  simp only [reschedule, gt_iff_lt, track.state, track.currpid]
  by_cases runs : a.state a.currpid = .curr
  · have prio : (s.proctab a.currpid).prprio.toInt = a.prio a.currpid := by
      rw [track.proctab]
      rfl
    rw [if_pos runs, prio, track.readylist]
    by_cases higher : firstkey a.readylist s.toSched < a.prio a.currpid
    · left
      rw [if_pos higher]
      refine ⟨runs, fun p rest front => ?_, .nil track⟩
      rwa [track.firstkey_cons queue front] at higher
    · right; left
      rw [if_neg higher]
      refine ⟨runs, ?_, ?_⟩
      · cases shape : a.members a.readylist with
        | nil =>
          rw [track.firstkey_nil queue shape] at higher
          exact absurd (minkey_lt_prio _) higher
        | cons p rest =>
          rw [track.firstkey_cons queue shape] at higher
          exact ⟨p, rest, rfl, Int.not_lt.mp higher⟩
      · have move := Move.Step.preempt runs
        have marked := track.setState a.currpid .ready
        have stopped : (a.enterReady a.currpid).state (a.enterReady a.currpid).currpid ≠ .curr := by
          simp [View.enterReady, setState]
        obtain ⟨p, rest, -, b, run, track'⟩ :=
          switchTo_follows (preempt_tracks track inv runs) (inv.step move) stopped restorestk
        refine ⟨p, b, .cons move run, ?_⟩
        have list : (s.setState a.currpid .ready).readylist = a.readylist := marked.readylist
        have prio : ((s.setState a.currpid .ready).proctab a.currpid).prprio.toInt = a.prio a.currpid := by
          simp only [marked.proctab, setState, setProc_proctab, Function.update_self, View.prio]
        rw [list, prio]
        exact track'
  · right; right
    rw [if_neg runs]
    obtain ⟨p, rest, front, follows⟩ := switchTo_follows track inv runs restorestk
    exact ⟨runs, p, follows⟩

end XinuStm32
