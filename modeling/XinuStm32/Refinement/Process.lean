import XinuStm32.Refinement.Dispatch

/-!
# Messages, creation and termination as moves
-/

namespace XinuStm32

open View

variable {owed : Int} {s : Kernel} {a : View}

/-! ## Messages -/

theorem receiveTake_follows (track : Tracks owed s a) : Follows owed [.quiet] (receiveTake s).2 a := by
  have taken := track.setProc a.currpid { a.proctab a.currpid with prhasmsg := false }
  rw [← track.proctab, ← track.currpid] at taken
  refine .single (.quiet ?_) taken
  rw [track.proctab]
  exact a.quiet_setProc _ rfl rfl rfl

theorem receiveBlock_follows (track : Tracks owed s a) (runs : a.state a.currpid = .curr)
    (notNull : a.currpid ≠ NULLPROC) : Follows owed [.leave a.currpid .recv] (receiveBlock s) a := by
  have blocked := (track.setState a.currpid .recv).pendSV
  rw [← View.settle_live a.currpid (by decide)] at blocked
  rw [receiveBlock, track.currpid]
  exact .single (.leaveCurr runs notNull (Or.inl rfl)) blocked

theorem recvclr_performs (track : Tracks owed s a) : Performs owed (· = .quiet) (recvclr s).2 a := by
  have track := track.disable
  simp only [recvclr]
  generalize (disable s).2 = s, (disable s).1 = mask at track ⊢
  split
  · exact ⟨[.quiet], by simp, (receiveTake_follows track).tracked fun _ track => track.restore mask⟩
  · exact .nothing (track.restore mask)

/-- Without a message `recvtime` goes to sleep. Its test for a message comes before the switch it requests, so
it has its result by then. -/
theorem recvtime_sleeps (track : Tracks owed s a) (inv : a.Inv) (runs : a.state a.currpid = .curr)
    (notNull : a.currpid ≠ NULLPROC) {maxwait : Int32} (nonnegative : 0 ≤ maxwait.toInt)
    (vacant : (a.proctab a.currpid).prhasmsg = false) :
    (recvtime maxwait s).1 = TIMEOUT ∧ Follows owed [.sleep .rectim maxwait.toInt] (recvtime maxwait s).2 a := by
  simp only [recvtime, if_neg (Int.not_lt.mpr nonnegative)]
  have track := track.disable
  generalize (disable s).2 = s, (disable s).1 = mask at track ⊢
  have flag : (s.proctab s.currpid).prhasmsg = false := by
    rw [track.proctab, track.currpid]
    exact vacant
  obtain ⟨status, asleep⟩ := insertd_running track inv runs maxwait.toInt
  have asleep := asleep .rectim
  have still : ¬ ((a.sleep .rectim maxwait.toInt).proctab
      (a.sleep .rectim maxwait.toInt).currpid).prhasmsg = true := by
    simp [View.sleep, setState, vacant]
  simp only [recvtimeBlock, flag, if_true, status, if_neg (show OK ≠ SYSERR by decide), recvtimeCheck, asleep.proctab,
    asleep.currpid]
  rw [if_neg still]
  exact ⟨rfl, .single (.sleep (Or.inr ⟨rfl, nonnegative⟩) runs notNull) (asleep.restore mask)⟩

/-- `recvtime` takes a waiting message or goes to sleep. -/
theorem recvtime_follows (track : Tracks owed s a) (inv : a.Inv) (runs : a.state a.currpid = .curr)
    (notNull : a.currpid ≠ NULLPROC) (maxwait : Int32) :
    Follows owed [] (recvtime maxwait s).2 a ∨ Follows owed [.quiet] (recvtime maxwait s).2 a ∨
      0 ≤ maxwait.toInt ∧ (a.proctab a.currpid).prhasmsg = false ∧
        Follows owed [.sleep .rectim maxwait.toInt] (recvtime maxwait s).2 a := by
  by_cases negative : maxwait.toInt < 0
  · left
    rw [recvtime, if_pos negative]
    exact .nil track
  · right
    have nonnegative := Int.not_lt.mp negative
    cases message : (a.proctab a.currpid).prhasmsg with
    | true =>
      left
      have track := track.disable
      simp only [recvtime, if_neg negative]
      generalize (disable s).2 = s, (disable s).1 = mask at track ⊢
      have flag : (s.proctab s.currpid).prhasmsg = true := by
        rw [track.proctab, track.currpid]
        exact message
      have awake : recvtimeBlock maxwait s = (OK, s) := by
        rw [recvtimeBlock, if_neg (by simp [flag])]
      simp only [awake, if_neg (show OK ≠ SYSERR by decide), recvtimeCheck, flag, if_true]
      exact (receiveTake_follows track).tracked fun _ track => track.restore mask
    | false =>
      right
      exact ⟨nonnegative, rfl, (recvtime_sleeps track inv runs notNull nonnegative message).2⟩

/-- The process can be sent a message. -/
def View.Accepts (p : Int) (a : View) : Prop :=
  IsPid p ∧ a.state p ≠ .free ∧ (a.proctab p).prhasmsg = false

/-- The moves of `send`: none, or the message is stored and the receiver may be made ready. -/
inductive SendMoves (p : Int) (a : View) : List Move → Prop where
  | refused : ¬ a.Accepts p → SendMoves p a []
  | stored : a.Accepts p → a.state p ≠ .recv → a.state p ≠ .rectim → SendMoves p a [.quiet]
  | received : a.Accepts p → a.state p = .recv → SendMoves p a [.quiet, .ready p]
  | timed : a.Accepts p → a.state p = .rectim → SendMoves p a [.quiet, .withdraw p .ready]

theorem send_follows (track : Tracks owed s a) (inv : a.Inv) (p : Int) (msg : UInt32) :
    ∃ moves, SendMoves p a moves ∧ Follows owed moves (send p msg s).2 a := by
  have track := track.disable
  simp only [send]
  generalize (disable s).2 = s, (disable s).1 = mask at track ⊢
  split
  · next bad =>
    rw [track.isbadpid_iff] at bad
    exact ⟨[], .refused fun accepts => bad ⟨accepts.1, accepts.2.1⟩, .nil (track.restore mask)⟩
  · next good =>
    obtain ⟨pid, live⟩ := track.live_of_good good
    split
    · next full =>
      rw [track.proctab] at full
      exact ⟨[], .refused fun accepts => by simp [accepts.2.2] at full, .nil (track.restore mask)⟩
    · next vacant =>
      rw [track.proctab] at vacant
      have accepts : a.Accepts p := ⟨pid, live, Bool.eq_false_iff.mpr vacant⟩
      have stored := track.setProc p { a.proctab p with prmsg := msg, prhasmsg := true }
      have quiet : Quiet a (a.setProc p { a.proctab p with prmsg := msg, prhasmsg := true }) :=
        a.quiet_setProc p rfl rfl rfl
      have invStored := inv.step (.quiet quiet)
      have same := quiet.state p
      rw [track.proctab]
      generalize a.setProc p { a.proctab p with prmsg := msg, prhasmsg := true } = b at *
      have same : b.state p = a.state p := same
      rw [stored.state, same]
      split
      · next receiving =>
        have readied := (stored.ready pid (same ▸ live) invStored.isQueue_readylist
          (invStored.not_member (home_none (by rw [same]; exact Or.inr (Or.inr (Or.inl receiving)))))).2
        refine ⟨_, .received accepts receiving, _, .cons (.quiet quiet) (.single (.ready pid ?_)),
          readied.restore mask⟩
        exact Or.inr (same ▸ receiving)
      · next notReceiving =>
        split
        · next timed =>
          have timed' : b.state p = .rectim := same ▸ timed
          have member : p ∈ b.members b.sleepq := invStored.placed.mpr ⟨pid, home_asleep (Or.inr timed')⟩
          obtain ⟨front, behind, split⟩ := List.append_of_mem member
          have without := Without.bump invStored.toPlacement member behind
          have awake := unsleep_tracks stored invStored split
          have readied := (awake.ready pid (by simp [timed']) (without.readylist ▸ invStored.isQueue_readylist)
            without.lists.fresh).2
          exact ⟨_, .timed accepts timed, _,
            .cons (.quiet quiet) (.single (.withdrawReady timed' split)), readied.restore mask⟩
        · next notTimed =>
          exact ⟨_, .stored accepts notReceiving notTimed, .single (.quiet quiet) (stored.restore mask)⟩

/-- Every other process is as it was, and the receiver of an accepted message does not wait for one. -/
theorem SendMoves.state {p : Int} {moves : List Move} {a' : View} (kind : SendMoves p a moves)
    (run : Moves moves a a') (q : Int) :
    a'.state q = a.state q ∧ (q = p → a.Accepts p → a.state p ≠ .recv ∧ a.state p ≠ .rectim) ∨
      q = p ∧ a.Accepts p ∧ (a.state p = .recv ∨ a.state p = .rectim) ∧ a'.state q = .ready := by
  cases kind with
  | refused refuses =>
    cases run
    exact Or.inl ⟨rfl, fun _ accepts => absurd accepts refuses⟩
  | stored accepts notReceiving notTimed =>
    cases run with
    | cons quiet rest =>
      cases rest
      cases quiet with
      | quiet quiet => exact Or.inl ⟨quiet.state q, fun _ _ => ⟨notReceiving, notTimed⟩⟩
  | received accepts receiving =>
    cases run with
    | cons quiet rest =>
      cases quiet with
      | quiet quiet =>
        cases rest with
        | cons ready rest =>
          cases rest
          cases ready
          rw [state_makeReady]
          split
          · next same => exact Or.inr ⟨same, accepts, Or.inl receiving, rfl⟩
          · next other => exact Or.inl ⟨quiet.state q, fun same => absurd same other⟩
  | timed accepts timed =>
    cases run with
    | cons quiet rest =>
      cases quiet with
      | quiet quiet =>
        cases rest with
        | cons ready rest =>
          cases rest
          cases ready
          rw [state_makeReady]
          split
          · next same => exact Or.inr ⟨same, accepts, Or.inr timed, rfl⟩
          · next other =>
            rw [state_out, state_bump]
            exact Or.inl ⟨quiet.state q, fun same => absurd same other⟩

/-- Sending leaves every process alive. -/
theorem SendMoves.live {parent : Int} {moves : List Move} {a' : View}
    (kind : SendMoves parent a moves) (run : Moves moves a a') {p : Int} (live : a.state p ≠ .free) :
    a'.state p ≠ .free := by
  obtain ⟨same, -⟩ | ⟨-, -, -, ready⟩ := kind.state run p
  · exact same ▸ live
  · simp [ready]

/-! ## Creation -/

/-- `newpid` finds a free entry or fails, and changes nothing the view shows. -/
theorem newpidLoop_tracks (track : Tracks owed s a) (fuel : Nat) :
    Tracks owed (newpidLoop fuel s).2 a ∧
      ((newpidLoop fuel s).1 = SYSERR ∨
        IsPid (newpidLoop fuel s).1 ∧ a.state (newpidLoop fuel s).1 = .free) := by
  induction fuel generalizing s with
  | zero => exact ⟨track, Or.inl rfl⟩
  | succ fuel inductionHypothesis =>
    simp only [newpidLoop]
    split
    · next free =>
      rw [track.state] at free
      refine ⟨track.congr rfl, Or.inr ⟨⟨?_, ?_⟩, free⟩⟩
      · exact Int.emod_nonneg _ (by decide)
      · exact Int.emod_lt_of_pos _ (by decide)
    · exact inductionHypothesis (track.congr rfl)

theorem newpid_tracks (track : Tracks owed s a) :
    Tracks owed (newpid s).2 a ∧
      ((newpid s).1 = SYSERR ∨ IsPid (newpid s).1 ∧ a.state (newpid s).1 = .free) :=
  newpidLoop_tracks track NPROC.toNat

theorem getstk_tracks (track : Tracks owed s a) (nbytes : Nat) : Tracks owed (getstk nbytes s).2 a := by
  simp only [getstk]
  split <;> exact track.congr rfl

theorem fillEntry_tracks (track : Tracks owed s a) (p : Int) (saddr ssize : Nat) (procaddr : UInt32)
    (priority : Int16) (name : List UInt8) (args : List UInt32) :
    ∃ entry : Procent, entry.prstate = .susp ∧ entry.prprio = priority ∧
      Tracks owed (fillEntry p saddr ssize procaddr priority name args s) (a.enroll p entry) := by
  cases track with
  | @mk lists rep =>
    refine ⟨(fillEntry p saddr ssize procaddr priority name args s).proctab p, ?_, ?_, ?_⟩
    · simp [fillEntry, Kernel.setProc]
    · simp [fillEntry, Kernel.setProc]
    · have shape : (viewOf lists owed s.toSched).enroll p
          ((fillEntry p saddr ssize procaddr priority name args s).proctab p) =
          viewOf lists owed (fillEntry p saddr ssize procaddr priority name args s).toSched := by
        simp [viewOf, enroll, View.setProc, fillEntry, Kernel.setProc, Kernel.touch]
        omega
      rw [shape]
      exact ⟨rep⟩

theorem create_follows (track : Tracks owed s a) (procaddr ssize : UInt32) (priority : Int16)
    (name : List UInt8) (args : List UInt32) :
    (create procaddr ssize priority name args s).1 = SYSERR ∧
        Follows owed [] (create procaddr ssize priority name args s).2 a ∨
      ∃ p, (create procaddr ssize priority name args s).1 = p ∧ IsPid p ∧ a.state p = .free ∧
        Follows owed [.spawn p] (create procaddr ssize priority name args s).2 a := by
  have track := getstk_tracks track.disable
    (roundew (if ssize.toNat < MINSTK then MINSTK else ssize.toNat))
  simp only [create]
  generalize roundew (if ssize.toNat < MINSTK then MINSTK else ssize.toNat) = size at track ⊢
  generalize (getstk size (disable s).2).1 = saddr, (getstk size (disable s).2).2 = s,
    (disable s).1 = mask at track ⊢
  split
  · exact Or.inl ⟨rfl, .nil (track.restore mask)⟩
  · obtain ⟨track, found⟩ := newpid_tracks track
    split
    · exact Or.inl ⟨rfl, .nil (track.restore mask)⟩
    · next good =>
      rw [not_or] at good
      obtain ⟨pid, free⟩ := found.resolve_left good.1
      obtain ⟨entry, new, -, filled⟩ := fillEntry_tracks track (newpid s).1 saddr size procaddr priority
        name args
      exact Or.inr ⟨_, rfl, pid, free, .single (.spawn pid free new) (filled.restore mask)⟩

/-! ## Termination -/

theorem freemem_tracks (track : Tracks owed s a) (blkaddr nbytes : Nat) :
    Tracks owed (freemem blkaddr nbytes s).2 a := by
  simp only [freemem]
  split <;> exact track.congr rfl

theorem free_tracks (track : Tracks owed s a) (pmem : Nat) : Tracks owed (free pmem s) a := by
  simp only [free]
  split
  · exact track
  · exact freemem_tracks track _ _

theorem close_tracks (track : Tracks owed s a) (descrp : Int) : Tracks owed (close descrp s).2 a := by
  simp only [close]
  split <;> exact track.congr rfl

/-- Before it clears the entry, `kill` only tells the parent. -/
theorem killRelease_follows (track : Tracks owed s a) (inv : a.Inv) (p : Int) :
    ∃ moves, SendMoves (a.proctab p).prparent a moves ∧ Follows owed moves (killRelease p s) a := by
  obtain ⟨moves, kind, follows⟩ := send_follows track inv (a.proctab p).prparent (UInt32.ofNat p.toNat)
  refine ⟨moves, kind, ?_⟩
  simp only [killRelease, track.proctab]
  refine follows.tracked fun a' track => ?_
  split
  · exact free_tracks (freemem_tracks (close_tracks (close_tracks (close_tracks track _) _) _) _ _) _
  · exact freemem_tracks (close_tracks (close_tracks (close_tracks track _) _) _) _ _

/-- The move that clears an entry, by the state the process is in. -/
inductive KillMove (p : Int) : Move → Prop where
  | leave : KillMove p (.leave p .free)
  | withdraw : KillMove p (.withdraw p .free)
  | abandon : KillMove p (.abandon p)
  | take : KillMove p (.take p .free)

theorem View.settle_pend (a : View) (p : Int) :
    (a.setState p .free).pend.settle p .free = (a.settle p .free).pend := by
  simp [View.settle, View.setState, View.setProc, View.pend]

theorem killState_follows (track : Tracks (owed + 1) s a) (inv : a.Inv) {p : Int} (pid : IsPid p)
    (live : a.state p ≠ .free) (notNull : p ≠ NULLPROC) :
    ∃ move, KillMove p move ∧ Follows owed [move] (killState p s) a := by
  have sleeping (asleep : a.state p = .sleep ∨ a.state p = .rectim) :
      ∃ move, KillMove p move ∧
        Follows owed [move] ((unsleep p s).2.setState p .free) a := by
    have member : p ∈ a.members a.sleepq := inv.placed.mpr ⟨pid, home_asleep asleep⟩
    obtain ⟨front, behind, split⟩ := List.append_of_mem member
    exact ⟨_, .withdraw, .single (.withdrawFree split) ((unsleep_tracks track inv split).settleFree p)⟩
  have idle (still : a.state p = .susp ∨ a.state p = .recv) :
      ∃ move, KillMove p move ∧ Follows owed [move] (s.setState p .free) a :=
    ⟨_, .leave, .single (.leaveIdle pid still) (track.settleFree p)⟩
  simp only [killState, track.state]
  cases state : a.state p with
  | free => exact absurd state live
  | curr =>
    have same := inv.current pid state
    have stopped := (track.setState p .free).pendSV
    have refused := (unsleep_refuses (p := p) stopped (by simp)).settleFree p
    rw [View.settle_pend] at refused
    refine ⟨_, .leave, .single ?_ refused⟩
    subst same
    exact .leaveCurr state notNull (Or.inr (Or.inr rfl))
  | ready =>
    have member : p ∈ a.members a.readylist := inv.placed.mpr ⟨pid, home_ready state⟩
    exact ⟨_, .take, .single (.take notNull member (Or.inr rfl)) ((track.getitem member).settleFree p)⟩
  | recv => exact idle (Or.inr state)
  | sleep => exact sleeping (Or.inl state)
  | susp => exact idle (Or.inl state)
  | wait =>
    have counted := track.addCount (a.proctab p).prsem 1
    have member : p ∈ (a.addCount (a.proctab p).prsem 1).members (a.semtab (a.proctab p).prsem).squeue :=
      inv.waiter_mem pid state
    rw [track.proctab]
    exact ⟨_, .abandon, .single (.abandon pid state) ((counted.getitem member).settleFree p)⟩
  | rectim => exact sleeping (Or.inr state)

/-- `kill` tells the parent and clears the entry; `none` is the halt of the last user process. -/
theorem kill_follows (track : Tracks 0 s a) (inv : a.Inv) (p : Int) {result : Int} {s' : Kernel}
    (returns : kill p s = some (result, s')) :
    result = SYSERR ∧ Follows 0 [] s' a ∨
      result = OK ∧ IsPid p ∧ a.state p ≠ .free ∧ p ≠ NULLPROC ∧
        ∃ moves move, SendMoves (a.proctab p).prparent a moves ∧ KillMove p move ∧
          Follows 0 (moves ++ [move]) s' a := by
  have track := track.disable
  simp only [kill] at returns
  generalize (disable s).2 = s, (disable s).1 = mask at track returns
  split at returns
  · obtain ⟨rfl, rfl⟩ := Prod.mk.inj (Option.some.inj returns)
    exact Or.inl ⟨rfl, .nil (track.restore mask)⟩
  · next good =>
    simp only [not_or] at good
    obtain ⟨pid, live⟩ := track.live_of_good good.1
    split at returns
    · cases returns
    · obtain ⟨rfl, rfl⟩ := Prod.mk.inj (Option.some.inj returns)
      right
      refine ⟨rfl, pid, live, good.2.1, ?_⟩
      obtain ⟨moves, kind, a', run, track'⟩ := killRelease_follows track.owe inv p
      obtain ⟨move, last, a'', run', track''⟩ :=
        killState_follows track' (inv.moves run) pid (kind.live run live) good.2.1
      exact ⟨moves, move, kind, last, a'', run.append run', track''.restore mask⟩

end XinuStm32
