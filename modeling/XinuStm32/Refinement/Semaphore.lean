import XinuStm32.Refinement.Operations
import XinuStm32.Abstract.Effects

/-!
# Semaphore operations as moves

`wait` passes or blocks; `signal`, `signaln` and `semdelete` release and count; `semreset` empties
the queue and then sets the count.
-/

namespace XinuStm32

open View

variable {owed : Int} {s : Kernel} {a : View}

/-! ## Waiting and signalling -/

/-- `signalOnce` releases the first waiter, if the count says there is one and there is. -/
theorem signalOnce_follows (track : Tracks owed s a) (inv : a.Inv) {sem : Int}
    (valid : ¬ isbadsem sem) :
    Follows owed [.release sem] (signalOnce sem s) a ∨ Follows owed [.post sem] (signalOnce sem s) a := by
  have counted := track.addCount sem 1
  have queue : IsQueue (a.semtab sem).squeue := inv.isQueue_squeue valid
  have sameQueue : ((s.addCount sem 1).semtab sem).squeue = (a.semtab sem).squeue := by
    rw [counted.semtab, squeue_addCount]
  simp only [signalOnce, sameQueue]
  split
  · next negative =>
    rw [track.semtab] at negative
    cases shape : a.members (a.semtab sem).squeue with
    | nil =>
      right
      rw [counted.dequeue_nil queue shape, ready_bad (Or.inl (by simp))]
      exact .single (.post valid (Or.inr shape)) counted
    | cons p rest =>
      left
      have member : p ∈ a.members (a.semtab sem).squeue := shape ▸ List.mem_cons_self
      obtain ⟨pid, waiting, -⟩ := inv.waiting_of_mem valid member
      obtain ⟨first, taken⟩ := counted.dequeue_cons queue shape
      rw [first]
      refine .single (.release valid negative shape) (taken.ready pid ?_ inv.isQueue_readylist ?_).2
      · exact (inv.waiter waiting).1
      · exact inv.wellFormed.fresh_remove member
  · next nonnegative =>
    rw [track.semtab] at nonnegative
    right
    exact .single (.post valid (Or.inl (Int.not_lt.mp nonnegative))) counted

theorem waitBlock_tracks {b : View} (track : Tracks owed s b) (pid : IsPid b.currpid) (sem : Int)
    (queue : IsQueue (b.semtab sem).squeue) (fresh : b.queuetab.Fresh b.currpid) :
    Tracks owed (waitBlock sem s) (b.block sem) := by
  have marked := track.setProc b.currpid { b.proctab b.currpid with prstate := .wait, prsem := sem }
  have queued := marked.enqueue (q := (b.semtab sem).squeue) pid (by simp) queue fresh
  cases track with
  | mk rep => exact queued.pendSV

/-- `wait` passes or blocks. -/
theorem wait_follows (track : Tracks owed s a) (inv : a.Inv) (runs : a.state a.currpid = .curr)
    (notNull : a.currpid ≠ NULLPROC) (sem : Int) :
    (wait sem s).1 = SYSERR ∧ Follows owed [] (wait sem s).2 a ∨
      (wait sem s).1 = OK ∧ ¬ isbadsem sem ∧ (a.semtab sem).sstate = .used ∧
        (Follows owed [.pass sem] (wait sem s).2 a ∨ Follows owed [.block sem] (wait sem s).2 a) := by
  have track := track.disable
  simp only [wait]
  generalize (disable s).2 = s, (disable s).1 = mask at track ⊢
  split
  · exact Or.inl ⟨rfl, .nil (track.restore mask)⟩
  · next valid =>
    rw [track.semtab]
    cases used : (a.semtab sem).sstate with
    | free => exact Or.inl ⟨rfl, .nil (track.restore mask)⟩
    | used =>
      refine Or.inr ⟨rfl, valid, rfl, ?_⟩
      have counted := track.addCount sem (-1)
      have scount : ((a.addCount sem (-1)).semtab sem).scount =
          a.counting ((a.semtab sem).scount + -1) := by simp [View.addCount]
      rw [counted.semtab, scount]
      by_cases negative : a.counting ((a.semtab sem).scount + -1) < 0
      · right
        have blocked := waitBlock_tracks counted inv.currpid sem
          (squeue_addCount sem (-1) a sem ▸ inv.isQueue_squeue valid)
          (inv.not_member (home_none (Or.inr (Or.inl runs))))
        simp only [reduceCtorEq, if_false, if_pos negative]
        exact .single (.block valid used runs notNull negative) (blocked.restore mask)
      · left
        simp only [reduceCtorEq, if_false, if_neg negative]
        exact .single (.pass valid (Int.not_lt.mp negative)) (counted.restore mask)

theorem sstate_used {a : View} {sem : Int} (used : (a.semtab sem).sstate ≠ .free) :
    (a.semtab sem).sstate = .used := by
  cases shape : (a.semtab sem).sstate with
  | free => exact absurd shape used
  | used => rfl

/-- `signal` releases the first waiter or adds to the count. -/
theorem signal_follows (track : Tracks owed s a) (inv : a.Inv) (sem : Int) :
    (signal sem s).1 = SYSERR ∧ Follows owed [] (signal sem s).2 a ∨
      (signal sem s).1 = OK ∧ ¬ isbadsem sem ∧ (a.semtab sem).sstate = .used ∧
        (Follows owed [.release sem] (signal sem s).2 a ∨ Follows owed [.post sem] (signal sem s).2 a) := by
  have track := track.disable
  simp only [signal]
  generalize (disable s).2 = s, (disable s).1 = mask at track ⊢
  split
  · exact Or.inl ⟨rfl, .nil (track.restore mask)⟩
  · next valid =>
    split
    · exact Or.inl ⟨rfl, .nil (track.restore mask)⟩
    · next used =>
      rw [track.semtab] at used
      refine Or.inr ⟨rfl, valid, sstate_used used, ?_⟩
      cases signalOnce_follows track inv valid with
      | inl follows => exact Or.inl (follows.tracked fun _ track => track.restore mask)
      | inr follows => exact Or.inr (follows.tracked fun _ track => track.restore mask)

/-- Every round of `signaln` is a `signal`. -/
theorem signalnLoop_follows (track : Tracks owed s a) (inv : a.Inv) {sem : Int}
    (valid : ¬ isbadsem sem) (count : Nat) :
    ∃ moves : List Move, moves.length = count ∧
      (∀ move ∈ moves, move = .release sem ∨ move = .post sem) ∧
      Follows owed moves (signalnLoop sem count s) a := by
  induction count generalizing s a with
  | zero => exact ⟨[], rfl, by simp, .nil track⟩
  | succ count inductionHypothesis =>
    have once : ∃ move, (move = .release sem ∨ move = .post sem) ∧
        Follows owed [move] (signalOnce sem s) a := by
      cases signalOnce_follows track inv valid with
      | inl follows => exact ⟨_, Or.inl rfl, follows⟩
      | inr follows => exact ⟨_, Or.inr rfl, follows⟩
    obtain ⟨move, kind, a', run, track'⟩ := once
    obtain ⟨moves, length, kinds, a'', run', track''⟩ := inductionHypothesis track' (inv.moves run)
    refine ⟨move :: moves, by simp [length], ?_, a'', run.append run', track''⟩
    intro other member
    obtain rfl | member := List.mem_cons.mp member
    · exact kind
    · exact kinds other member

theorem signaln_follows (track : Tracks owed s a) (inv : a.Inv) (sem : Int) (count : Int32) :
    (signaln sem count s).1 = SYSERR ∧ Follows owed [] (signaln sem count s).2 a ∨
      (signaln sem count s).1 = OK ∧ ¬ isbadsem sem ∧ (a.semtab sem).sstate = .used ∧
        ∃ moves quiet : List Move, moves.length = count.toInt.toNat ∧
          (∀ move ∈ moves, move = .release sem ∨ move = .post sem) ∧ (∀ move ∈ quiet, move = .quiet) ∧
          Follows owed (moves ++ quiet) (signaln sem count s).2 a := by
  have track := track.disable
  simp only [signaln]
  generalize (disable s).2 = s, (disable s).1 = mask at track ⊢
  split
  · exact Or.inl ⟨rfl, .nil (track.restore mask)⟩
  · next valid =>
    have valid : ¬ isbadsem sem := fun bad => valid (Or.inl bad)
    split
    · exact Or.inl ⟨rfl, .nil (track.restore mask)⟩
    · next used =>
      rw [track.semtab] at used
      refine Or.inr ⟨rfl, valid, sstate_used used, ?_⟩
      obtain ⟨moves, length, kinds, a', run, track'⟩ :=
        signalnLoop_follows (reschedCntl_start_tracks track) inv valid count.toInt.toNat
      obtain ⟨quiet, quiets, a'', run', track''⟩ := reschedCntl_stop_performs track'
      exact ⟨moves, quiet, length, kinds, quiets, a'', run.append run', track''.restore mask⟩

/-- `newsem` finds a free entry or changes nothing the view shows. -/
theorem newsemLoop_tracks (track : Tracks owed s a) (low : 0 ≤ s.nextsem) (high : s.nextsem < NSEM)
    (fuel : Nat) :
    (newsemLoop fuel s).1 = SYSERR ∧ Tracks owed (newsemLoop fuel s).2 a ∨
      ∃ sem, (newsemLoop fuel s).1 = sem ∧ ¬ isbadsem sem ∧ (a.semtab sem).sstate = .free ∧
        Tracks owed (newsemLoop fuel s).2 (a.setSem sem { a.semtab sem with sstate := .used }) := by
  induction fuel generalizing s with
  | zero => exact Or.inl ⟨rfl, track⟩
  | succ fuel inductionHypothesis =>
    simp only [newsemLoop]
    split
    · next free =>
      right
      rw [track.semtab] at free
      refine ⟨s.nextsem, rfl, ?_, free, ?_⟩
      · simp only [isbadsem, NSEM] at *
        omega
      · cases track with
        | mk rep => exact ⟨rep⟩
    · refine inductionHypothesis (track.congr rfl) ?_ ?_
      · simp only
        split <;> omega
      · simp only [NSEM] at *
        split <;> omega

theorem semcreate_follows (track : Tracks owed s a) (low : 0 ≤ s.nextsem) (high : s.nextsem < NSEM)
    (count : Int32) :
    (semcreate count s).1 = SYSERR ∧ Follows owed [] (semcreate count s).2 a ∨
      ∃ sem, (semcreate count s).1 = sem ∧ ¬ isbadsem sem ∧ (a.semtab sem).sstate = .free ∧
        0 ≤ count.toInt ∧ Follows owed [.setCount sem count.toInt] (semcreate count s).2 a := by
  have track := track.disable
  have low : 0 ≤ (disable s).2.nextsem := low
  have high : (disable s).2.nextsem < NSEM := high
  simp only [semcreate]
  generalize (disable s).2 = s, (disable s).1 = mask at track low high ⊢
  split
  · exact Or.inl ⟨rfl, .nil (track.restore mask)⟩
  · next nonnegative =>
    have nonnegative : 0 ≤ count.toInt := Int.not_lt.mp nonnegative
    obtain ⟨failed, track⟩ | found := newsemLoop_tracks track low high NSEM.toNat
    · left
      rw [newsem, if_pos failed]
      exact ⟨rfl, .nil (track.restore mask)⟩
    · right
      obtain ⟨sem, same, valid, free, track⟩ := found
      have notError : sem ≠ SYSERR := by
        simp only [isbadsem] at valid
        simp only [SYSERR]
        omega
      rw [newsem, same, if_neg notError]
      refine ⟨sem, rfl, valid, free, nonnegative, .single (.setCount valid nonnegative (Or.inl free)) ?_⟩
      have counted := track.setSem sem
        { (a.setSem sem { a.semtab sem with sstate := .used }).semtab sem with scount := count.toInt }
      have once : (a.setSem sem { a.semtab sem with sstate := .used }).setSem sem
          { (a.setSem sem { a.semtab sem with sstate := .used }).semtab sem with scount := count.toInt } =
          a.setSem sem { a.semtab sem with sstate := .used, scount := count.toInt } := by
        simp [View.setSem]
      rw [once, ← track.semtab] at counted
      exact counted.restore mask

/-! ## Emptying a semaphore -/

/-- `semreset` releases every waiter without counting. -/
theorem semresetLoop_follows (track : Tracks owed s a) (inv : a.Inv) {sem : Int}
    (valid : ¬ isbadsem sem) {fuel : Nat}
    (enough : (a.members (a.semtab sem).squeue).length ≤ fuel) :
    ∃ moves a', (∀ move ∈ moves, move = Move.drain sem) ∧ Moves moves a a' ∧
      Tracks owed (semresetLoop (a.semtab sem).squeue fuel s) a' ∧ a'.semtab = a.semtab ∧
      a'.members (a.semtab sem).squeue = [] := by
  have queue := inv.isQueue_squeue valid
  induction fuel generalizing s a with
  | zero =>
    have empty := List.length_eq_zero_iff.mp (Nat.le_zero.mp enough)
    exact ⟨[], a, by simp, .nil a, track, rfl, empty⟩
  | succ fuel inductionHypothesis =>
    simp only [semresetLoop]
    cases shape : a.members (a.semtab sem).squeue with
    | nil =>
      rw [track.getfirst_nil queue shape]
      exact ⟨[], a, by simp, .nil a, track, rfl, shape⟩
    | cons p rest =>
      have member : p ∈ a.members (a.semtab sem).squeue := shape ▸ List.mem_cons_self
      obtain ⟨pid, waiting, -⟩ := inv.waiting_of_mem valid member
      obtain ⟨first, taken⟩ := track.getfirst_cons queue shape
      have notEmpty : p ≠ EMPTY := by
        simp only [IsPid, EMPTY] at *
        omega
      rw [first, if_pos notEmpty]
      have released := (taken.ready pid (inv.waiter waiting).1 inv.isQueue_readylist
        (inv.wellFormed.fresh_remove member)).2
      have move : Move.Step (.drain sem) a ((a.out p (a.semtab sem).squeue).makeReady p) :=
        .drain valid shape
      have left := members_release shape rfl (inv.squeue_ne_readylist valid)
      obtain ⟨moves, a', kinds, run, track', same, empty⟩ :=
        inductionHypothesis released (inv.step move)
          (by
            change (View.members _ (a.semtab sem).squeue).length ≤ fuel
            rw [left]
            rw [shape] at enough
            exact Nat.le_of_succ_le_succ enough)
          queue
      exact ⟨.drain sem :: moves, a', by simpa using kinds, .cons move run, track', same, empty⟩

theorem semreset_follows (track : Tracks owed s a) (inv : a.Inv) (sem : Int) (count : Int32) :
    (semreset sem count s).1 = SYSERR ∧ Follows owed [] (semreset sem count s).2 a ∨
      (semreset sem count s).1 = OK ∧ ¬ isbadsem sem ∧ (a.semtab sem).sstate = .used ∧
        ∃ drains quiet : List Move, (∀ move ∈ drains, move = .drain sem) ∧
          (∀ move ∈ quiet, move = .quiet) ∧
          Follows owed (drains ++ .setCount sem count.toInt :: quiet) (semreset sem count s).2 a := by
  have track := track.disable
  simp only [semreset]
  generalize (disable s).2 = s, (disable s).1 = mask at track ⊢
  split
  · exact Or.inl ⟨rfl, .nil (track.restore mask)⟩
  · next good =>
    simp only [not_or] at good
    obtain ⟨nonnegative, valid, used⟩ := good
    rw [track.semtab] at used ⊢
    refine Or.inr ⟨rfl, valid, sstate_used used, ?_⟩
    obtain ⟨drains, a', kinds, run, track', same, empty⟩ :=
      semresetLoop_follows (reschedCntl_start_tracks track) inv valid (inv.wellFormed.length_le _)
    have move : Move.Step (.setCount sem count.toInt) a'
        (a'.setSem sem { a'.semtab sem with sstate := .used, scount := count.toInt }) :=
      .setCount valid (Int.not_lt.mp nonnegative) (Or.inr (by rw [same]; exact empty))
    have entry : ({ a'.semtab sem with sstate := .used, scount := count.toInt } : Sentry) =
        { a'.semtab sem with scount := count.toInt } := by
      rw [← sstate_used used, same]
    have counted := track'.setSem sem { a'.semtab sem with scount := count.toInt }
    rw [← track'.semtab] at counted
    rw [entry, ← track'.semtab] at move
    obtain ⟨quiet, quiets, a'', run', track''⟩ := reschedCntl_stop_performs counted
    exact ⟨drains, quiet, kinds, quiets, a'', run.append (.cons move run'), track''.restore mask⟩

@[simp] theorem View.scount_addCount (sem change : Int) (a : View) :
    ((a.addCount sem change).semtab sem).scount = a.counting ((a.semtab sem).scount + change) := by
  simp [View.addCount]

/-- `semdelete` counts the waiters it releases. `grows` says that counting up from a negative count
does not wrap. -/
theorem semdeleteLoop_follows (track : Tracks owed s a) (inv : a.Inv) {sem : Int}
    (valid : ¬ isbadsem sem) (grows : ∀ x < 0, x + 1 ≤ a.counting (x + 1)) {fuel : Nat}
    (enough : -(a.semtab sem).scount ≤ fuel) :
    ∃ moves, (∀ move ∈ moves, move = .release sem ∨ move = .post sem) ∧
      Follows owed (moves ++ [.post sem]) (semdeleteLoop sem fuel s) a := by
  have queue : IsQueue (a.semtab sem).squeue := inv.isQueue_squeue valid
  have counted := track.addCount sem 1
  induction fuel generalizing s a with
  | zero =>
    have nonnegative : 0 ≤ (a.semtab sem).scount := by omega
    exact ⟨[], by simp, .single (.post valid (Or.inl nonnegative)) counted⟩
  | succ fuel inductionHypothesis =>
    simp only [semdeleteLoop]
    split
    · next negative =>
      rw [track.semtab] at negative
      have sameQueue : ((s.addCount sem 1).semtab sem).squeue = (a.semtab sem).squeue := by
        rw [counted.semtab, squeue_addCount]
      have grown := grows _ negative
      have enough' : -(a.counting ((a.semtab sem).scount + 1)) ≤ fuel := by omega
      rw [sameQueue]
      cases shape : a.members (a.semtab sem).squeue with
      | nil =>
        rw [counted.getfirst_nil queue shape, ready_bad (Or.inl (by simp))]
        have move : Move.Step (.post sem) a (a.addCount sem 1) := .post valid (Or.inr shape)
        obtain ⟨moves, kinds, a', run, track'⟩ := inductionHypothesis counted (inv.step move) grows
          (by rwa [View.scount_addCount]) (by rwa [squeue_addCount]) (counted.addCount sem 1)
        exact ⟨.post sem :: moves, by simpa using kinds, a', .cons move run, track'⟩
      | cons p rest =>
        have member : p ∈ a.members (a.semtab sem).squeue := shape ▸ List.mem_cons_self
        obtain ⟨pid, waiting, -⟩ := inv.waiting_of_mem valid member
        obtain ⟨first, taken⟩ := counted.getfirst_cons queue shape
        rw [first]
        have released := (taken.ready pid (inv.waiter waiting).1 inv.isQueue_readylist
          (inv.wellFormed.fresh_remove member)).2
        have move := Move.Step.release valid negative shape
        obtain ⟨moves, kinds, a', run, track'⟩ := inductionHypothesis released (inv.step move) grows
          ((View.scount_addCount sem 1 a).symm ▸ enough') ((squeue_addCount sem 1 a sem).symm ▸ queue)
          (released.addCount sem 1)
        exact ⟨.release sem :: moves, by simpa using kinds, a', .cons move run, track'⟩
    · next nonnegative =>
      rw [track.semtab] at nonnegative
      exact ⟨[], by simp, .single (.post valid (Or.inl (Int.not_lt.mp nonnegative))) counted⟩

theorem semdelete_follows (track : Tracks owed s a) (inv : a.Inv)
    (grows : ∀ x < 0, x + 1 ≤ a.counting (x + 1)) (sem : Int) :
    (semdelete sem s).1 = SYSERR ∧ Follows owed [] (semdelete sem s).2 a ∨
      (semdelete sem s).1 = OK ∧ ¬ isbadsem sem ∧ (a.semtab sem).sstate = .used ∧
        ∃ moves quiet : List Move, (∀ move ∈ moves, move = .release sem ∨ move = .post sem) ∧
          (∀ move ∈ quiet, move = .quiet) ∧
          Follows owed (.close sem :: (moves ++ [.post sem]) ++ quiet) (semdelete sem s).2 a := by
  have track := track.disable
  simp only [semdelete]
  generalize (disable s).2 = s, (disable s).1 = mask at track ⊢
  split
  · exact Or.inl ⟨rfl, .nil (track.restore mask)⟩
  · next valid =>
    split
    · exact Or.inl ⟨rfl, .nil (track.restore mask)⟩
    · next used =>
      rw [track.semtab] at used ⊢
      have used := sstate_used used
      refine Or.inr ⟨rfl, valid, used, ?_⟩
      have closed := track.setSem sem { a.semtab sem with sstate := .free }
      have move := Move.Step.close valid used
      obtain ⟨moves, kinds, a', run, track'⟩ := semdeleteLoop_follows
        (reschedCntl_start_tracks closed) (inv.step move) valid grows (Int.self_le_toNat _)
      obtain ⟨quiet, quiets, a'', run', track''⟩ := reschedCntl_stop_performs track'
      refine ⟨moves, quiet, kinds, quiets, a'', ?_, ?_⟩
      · exact (Transition.Run.cons move run).append run'
      · have restored := track''.restore mask
        have sameCount : (((reschedCntl .start (s.setSem sem { a.semtab sem with sstate := .free })).2).semtab
            sem).scount = ((a.setSem sem { a.semtab sem with sstate := .free }).semtab sem).scount := by
          rw [(reschedCntl_start_tracks closed).semtab]
        rw [sameCount]
        exact restored

end XinuStm32
