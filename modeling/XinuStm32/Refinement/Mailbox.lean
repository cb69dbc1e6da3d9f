import XinuStm32.Refinement.Turns

/-!
# Mailboxes

The flag and the message word of an entry are a mailbox for one message. A step accepts a message
into one mailbox, takes the message out of one, empties one for a new process, or leaves all of them
as they are. Only an accepted message or `kill` ends the state in which a process waits for one.
-/

namespace XinuStm32

open View

/-- The message that waits for each process. -/
def Kernel.mailbox (s : Kernel) (p : Int) : Option UInt32 :=
  if (s.proctab p).prhasmsg then some (s.proctab p).prmsg else none

/-- What a step does to the mailboxes. -/
inductive Post where
  | accepted (p : Int) (msg : UInt32)
  | returned (p : Int) (msg : UInt32)
  | created (p : Int)
  deriving DecidableEq

/-- The message `kill` sends to the parent. -/
def deathNotice (p : Int) : UInt32 := UInt32.ofNat p.toNat

/-- What a step does to the mailboxes, by what it returns. `recvclr` and `recvtime` return a status in
place of a message if none waits. -/
def System.post (label : Label) (ret : Ret) (s : System) : Option Post :=
  let caller := s.kernel.currpid
  let waits := (s.kernel.proctab caller).prhasmsg
  match label, ret with
  | .call (.send p msg), .value status => if status = OK then some (.accepted p msg) else none
  | .call (.kill p), .value status =>
    let parent := (s.kernel.proctab p).prparent
    if status = OK ∧ (send parent (deathNotice p) s.kernel).1 = OK then
      some (.accepted parent (deathNotice p))
    else none
  | .call .receive, .msg msg => some (.returned caller msg)
  | .goOn, .msg msg => some (.returned caller msg)
  | .call .recvclr, .msg msg => if waits then some (.returned caller msg) else none
  | .call (.recvtime maxwait), .msg msg =>
    if 0 ≤ maxwait.toInt ∧ waits then some (.returned caller msg) else none
  | .call (.create ..), .value p => if p ≠ SYSERR then some (.created p) else none
  | _, _ => none

/-- The mailboxes after a step, from those before it. -/
inductive Delivers (s s' : Kernel) : Option Post → Prop where
  | nothing : s'.mailbox = s.mailbox → Delivers s s' none
  | accepted {p : Int} {msg : UInt32} :
      ¬ isbadpid p s.toSched → s.mailbox p = none →
      s'.mailbox = Function.update s.mailbox p (some msg) → Delivers s s' (some (.accepted p msg))
  | returned {p : Int} {msg : UInt32} :
      s.mailbox p = some msg → s'.mailbox = Function.update s.mailbox p none →
      Delivers s s' (some (.returned p msg))
  | created {p : Int} :
      IsPid p → (s.proctab p).prstate = .free → s'.mailbox = Function.update s.mailbox p none →
      Delivers s s' (some (.created p))

/-! ## Operations on mailboxes -/

variable {s s' : Kernel}

theorem mailbox_none_iff (p : Int) : s.mailbox p = none ↔ (s.proctab p).prhasmsg = false := by
  simp only [Kernel.mailbox, ite_eq_right_iff, reduceCtorEq, imp_false, Bool.not_eq_true]

theorem Frame.mailbox (frame : Frame s s') : s'.mailbox = s.mailbox := by
  funext p
  simp only [Kernel.mailbox, frame.prmsg p, frame.prhasmsg p]

theorem mailbox_setProc (p : Int) (entry : Procent) :
    (s.setProc p entry).mailbox =
      Function.update s.mailbox p (if entry.prhasmsg then some entry.prmsg else none) := by
  funext q
  simp only [Kernel.mailbox, Kernel.setProc, Function.update_apply]
  split <;> rfl

/-- An operation that leaves the mailboxes alone before and after another. -/
theorem Delivers.framed {s₀ s₁ : Kernel} {post : Option Post} (before : s₀.proctab = s.proctab)
    (delivers : Delivers s₀ s₁ post) (after : Frame s₁ s') : Delivers s s' post := by
  have same : s₀.mailbox = s.mailbox := by
    funext p
    simp only [Kernel.mailbox, before]
  have entry (p : Int) : isbadpid p s₀.toSched ↔ isbadpid p s.toSched := by
    simp only [isbadpid, before]
  cases delivers with
  | nothing kept => exact .nothing (by rw [after.mailbox, kept, same])
  | accepted good vacant stored =>
    exact .accepted (by rwa [← entry]) (same ▸ vacant) (by rw [after.mailbox, stored, same])
  | returned full taken => exact .returned (same ▸ full) (by rw [after.mailbox, taken, same])
  | created pid free emptied =>
    exact .created pid (by rw [← before]; exact free) (by rw [after.mailbox, emptied, same])

/-- What becomes of one mailbox. -/
theorem Delivers.mailbox {post : Option Post} (delivers : Delivers s s' post) (p : Int) :
    s'.mailbox p = s.mailbox p ∨
      (∃ msg, post = some (.accepted p msg) ∧ s'.mailbox p = some msg) ∨
      ((∃ msg, post = some (.returned p msg)) ∨ post = some (.created p)) ∧ s'.mailbox p = none := by
  cases delivers with
  | nothing kept => exact Or.inl (by rw [kept])
  | @accepted q msg _ _ stored =>
    rw [stored, Function.update_apply]
    split
    · next same => exact Or.inr (Or.inl ⟨msg, by rw [same], rfl⟩)
    · exact Or.inl rfl
  | @returned q msg _ taken =>
    rw [taken, Function.update_apply]
    split
    · next same => exact Or.inr (Or.inr ⟨Or.inl ⟨msg, by rw [same]⟩, rfl⟩)
    · exact Or.inl rfl
  | created _ _ emptied =>
    rw [emptied, Function.update_apply]
    split
    · next same => exact Or.inr (Or.inr ⟨Or.inr (by rw [same]), rfl⟩)
    · exact Or.inl rfl

theorem send_delivers (p : Int) (msg : UInt32) :
    Delivers s (send p msg s).2
      (if (send p msg s).1 = OK then some (.accepted p msg) else none) := by
  rcases send_cases (s := s) p msg with ⟨-, refused, frame⟩ | ⟨good, vacant, sent, frame⟩
  · rw [refused, if_neg (by decide)]
    exact .nothing frame.mailbox
  · rw [sent, if_pos rfl]
    refine .accepted good ((mailbox_none_iff p).mpr vacant) ?_
    rw [frame.mailbox, mailbox_setProc]
    rfl

theorem kill_delivers (p : Int) {status : Int} (returns : kill p s = some (status, s')) :
    Delivers s s'
      (if status = OK ∧ (send (s.proctab p).prparent (deathNotice p) s).1 = OK then
        some (.accepted (s.proctab p).prparent (deathNotice p)) else none) := by
  obtain ⟨rfl, frame⟩ | ⟨rfl, -, s₀, -, before, after⟩ := kill_cases p returns
  · rw [if_neg (by rintro ⟨same, -⟩; exact absurd same (by decide))]
    exact .nothing frame.mailbox
  · have sent := (send_delivers (s := s₀) (s.proctab p).prparent (deathNotice p)).framed before after
    have status : (send (s.proctab p).prparent (deathNotice p) s₀).1 =
        (send (s.proctab p).prparent (deathNotice p) s).1 := by
      have entry : isbadpid (s.proctab p).prparent s₀.toSched ↔
          isbadpid (s.proctab p).prparent s.toSched := by simp only [isbadpid, before]
      rcases send_cases (s := s₀) (s.proctab p).prparent (deathNotice p) with
        ⟨why, refused, -⟩ | ⟨good, vacant, sent, -⟩ <;>
        rcases send_cases (s := s) (s.proctab p).prparent (deathNotice p) with
          ⟨why', refused', -⟩ | ⟨good', vacant', sent', -⟩
      · rw [refused, refused']
      · rw [before, entry] at why
        simp [good', vacant'] at why
      · rw [before] at vacant
        rw [entry] at good
        simp [good, vacant] at why'
      · rw [sent, sent']
    rw [status] at sent
    simpa only [true_and] using sent

theorem receiveTake_delivers (full : (s.proctab s.currpid).prhasmsg = true) :
    Delivers s (receiveTake s).2 (some (.returned s.currpid (receiveTake s).1)) := by
  refine .returned ?_ ?_
  · simp only [Kernel.mailbox, full, if_true, receiveTake]
  · rw [receiveTake, mailbox_setProc]
    rfl

/-- Taking the message with interrupts masked. -/
theorem receiveTake_masked (full : (s.proctab s.currpid).prhasmsg = true) (mask : UInt32) :
    Delivers s (restore mask (receiveTake (disable s).2).2)
      (some (.returned s.currpid (receiveTake (disable s).2).1)) := by
  have before : (disable s).2.proctab = s.proctab := rfl
  exact .framed before (receiveTake_delivers (s := (disable s).2) full) (frame_restore mask)

theorem recvclr_delivers :
    Delivers s (recvclr s).2
      (if (s.proctab s.currpid).prhasmsg = true then some (.returned s.currpid (recvclr s).1) else none) := by
  simp only [recvclr]
  by_cases full : (s.proctab s.currpid).prhasmsg = true
  · rw [if_pos full, if_pos (show ((disable s).2.proctab (disable s).2.currpid).prhasmsg = true from full)]
    exact receiveTake_masked full _
  · rw [if_neg full, if_neg (show ¬ ((disable s).2.proctab (disable s).2.currpid).prhasmsg = true from full)]
    exact .nothing (frame_disable.trans (frame_restore _)).mailbox

theorem currpid_insertd (p q delay : Int) : (insertd p q delay s).2.currpid = s.currpid := by
  simp only [insertd]
  split <;> rfl

/-- Going to sleep for a message does not touch the mailboxes. -/
theorem recvtimeBlock_frame (maxwait : Int32) :
    Frame s (recvtimeBlock maxwait s).2 ∧ (recvtimeBlock maxwait s).2.currpid = s.currpid := by
  have inserted : Frame s (insertd s.currpid s.sleepq maxwait.toInt s).2 := frame_insertd _ _ _
  simp only [recvtimeBlock]
  split
  · split
    · exact ⟨inserted, currpid_insertd _ _ _⟩
    · exact ⟨(inserted.trans (frame_setState _ (by decide))).trans frame_pendSV, currpid_insertd _ _ _⟩
  · exact ⟨.refl s, rfl⟩

/-- `recvtime` takes the message that waits; without one it does not touch the mailboxes. -/
theorem recvtime_delivers (maxwait : Int32) :
    Delivers s (recvtime maxwait s).2
      (if 0 ≤ maxwait.toInt ∧ (s.proctab s.currpid).prhasmsg = true then
        some (.returned s.currpid (recvtime maxwait s).1) else none) := by
  simp only [recvtime]
  by_cases negative : maxwait.toInt < 0
  · have refused : ¬ (0 ≤ maxwait.toInt ∧ (s.proctab s.currpid).prhasmsg = true) := fun both =>
      absurd both.1 (Int.not_le.mpr negative)
    simp only [if_pos negative, if_neg refused]
    exact .nothing rfl
  obtain ⟨blocked, current⟩ := recvtimeBlock_frame (s := (disable s).2) maxwait
  have flag : ((recvtimeBlock maxwait (disable s).2).2.proctab
      (recvtimeBlock maxwait (disable s).2).2.currpid).prhasmsg = (s.proctab s.currpid).prhasmsg := by
    rw [current]
    exact blocked.prhasmsg s.currpid
  by_cases full : (s.proctab s.currpid).prhasmsg = true
  · have awake : recvtimeBlock maxwait (disable s).2 = (OK, (disable s).2) := by
      rw [recvtimeBlock, if_neg (by simpa [disable] using full)]
    have here : ((disable s).2.proctab (disable s).2.currpid).prhasmsg = true := full
    have taken : 0 ≤ maxwait.toInt ∧ (s.proctab s.currpid).prhasmsg = true :=
      ⟨Int.not_lt.mp negative, full⟩
    simp only [if_neg negative, if_pos taken, awake, if_neg (show OK ≠ SYSERR by decide), recvtimeCheck,
      if_pos here]
    exact receiveTake_masked full _
  · have left : ¬ (0 ≤ maxwait.toInt ∧ (s.proctab s.currpid).prhasmsg = true) := fun both => full both.2
    simp only [if_neg negative, if_neg left, recvtimeCheck, flag, if_neg full]
    split <;> exact .nothing ((frame_disable.trans blocked).trans (frame_restore _)).mailbox

theorem create_delivers {a : View} (track : Tracks 0 s a) (procaddr ssize : UInt32) (priority : Int16)
    (name : List UInt8) (args : List UInt32) :
    Delivers s (create procaddr ssize priority name args s).2
      (if (create procaddr ssize priority name args s).1 ≠ SYSERR then
        some (.created (create procaddr ssize priority name args s).1) else none) := by
  rcases create_cases (s := s) procaddr ssize priority name args with
    ⟨failed, frame⟩ | ⟨s₀, saddr, size, got, result, found, frame⟩
  · rw [failed, if_neg (by simp)]
    exact .nothing frame.mailbox
  · have free : IsPid (newpid s₀).1 ∧ (s.proctab (newpid s₀).1).prstate = .free := by
      rcases create_follows track procaddr ssize priority name args with
        ⟨failed, -⟩ | ⟨p, same, pid, free, -⟩
      · exact absurd (result.symm.trans failed) found
      · rw [← result, same]
        exact ⟨pid, (track.state p).trans free⟩
    rw [result, if_pos found]
    refine .created free.1 free.2 ?_
    have filled : (fillEntry (newpid s₀).1 saddr size procaddr priority name args (newpid s₀).2).mailbox =
        Function.update (newpid s₀).2.mailbox (newpid s₀).1 none := by
      simp only [fillEntry, mailbox_setProc]
      rfl
    have searched : Frame s₀ (newpid s₀).2 := frame_newpidLoop _
    rw [frame.mailbox, filled, searched.mailbox, got.mailbox]

/-! ## Steps on mailboxes -/

/-- A process that is blocked in `receive` waits there with an empty mailbox, and one that goes on
there finds a message. -/
structure Receiving (s : System) : Prop where
  waits : ∀ {p}, IsPid p → (s.kernel.proctab p).prstate = .recv →
    s.kernel.mailbox p = none ∧ s.pc p = .receive
  wakes : ∀ {p}, IsPid p → s.pc p = .receive →
    (s.kernel.proctab p).prstate = .recv ∨ s.kernel.mailbox p ≠ none ∨
      (s.kernel.proctab p).prstate = .free

section Steps

variable {s s' : System} {a : View} {label : Label} {ret : Ret}

theorem Good.shallow (good : Good s a) : Shallow s.kernel.defer.ndefers :=
  shallow_of_zero good.ndefers

/-- A call does to the mailboxes what its result says. -/
theorem Good.call_delivers (good : Good s a) {call : Call} {kernel : Kernel} {pc : Pc}
    (returns : execCall call s.kernel = some (ret, kernel, pc)) :
    Delivers s.kernel kernel (s.post (.call call) ret) := by
  cases messaging : call.messaging with
  | false =>
    have none : s.post (.call call) ret = none := by
      cases call with
      | create | kill | receive | recvtime | recvclr | send => cases messaging
      | _ => rfl
    rw [none]
    exact .nothing (frame_execCall good.shallow messaging returns).mailbox
  | true =>
    cases call with
    | create procaddr ssize priority name args =>
      obtain ⟨rfl, rfl, -⟩ := returns
      exact create_delivers good.tracks procaddr ssize priority name args
    | kill p =>
      simp only [execCall, Option.bind_eq_some_iff, Option.some.injEq, Prod.mk.injEq] at returns
      obtain ⟨⟨status, kernel'⟩, killed, rfl, rfl, -⟩ := returns
      exact kill_delivers p killed
    | receive =>
      simp only [execCall] at returns
      split at returns
      · obtain ⟨rfl, rfl, -⟩ := returns
        refine .nothing ?_
        rw [receiveBlock, frame_pendSV.mailbox, Kernel.setState, mailbox_setProc]
        exact Function.update_eq_self _ _
      · next full =>
        obtain ⟨rfl, rfl, -⟩ := returns
        exact receiveTake_delivers (Bool.not_eq_false _ ▸ full)
    | recvtime maxwait =>
      obtain ⟨rfl, rfl, -⟩ := returns
      exact recvtime_delivers maxwait
    | recvclr =>
      obtain ⟨rfl, rfl, -⟩ := returns
      exact recvclr_delivers
    | send p msg =>
      obtain ⟨rfl, rfl, -⟩ := returns
      exact send_delivers p msg
    | _ => cases messaging

/-- Every step does to the mailboxes what its result says. -/
theorem Good.step_delivers (good : Good s a) (receiving : Receiving s)
    (h : s.step label = some (ret, s')) : Delivers s.kernel s'.kernel (s.post label ret) := by
  rcases System.step_cases h with ⟨call, pc, rfl, -, -, -, returns, -⟩ |
    ⟨rfl, runs, inside, rfl, kernel, -⟩ | ⟨rx, rfl, rfl, kernel, -⟩ | ⟨psp, rfl, -, rfl, kernel, -⟩
  · exact good.call_delivers returns
  · rw [kernel]
    refine receiveTake_delivers ?_
    rcases receiving.wakes (good.tracks.currpid ▸ good.inv.currpid) inside with waits | full | free
    · rw [running, waits] at runs
      cases runs
    · rwa [Ne, mailbox_none_iff, Bool.not_eq_false] at full
    · rw [running, free] at runs
      cases runs
  · exact .nothing (kernel ▸ (frame_tim2Handler rx good.shallow).mailbox)
  · exact .nothing (kernel ▸ (frame_pendSVHandler psp).mailbox)

/-! ## Steps and the states of receivers -/

/-- What no move that the label permits changes about the state of a process stays as it is. -/
theorem Good.keeps (good : Good s a) (h : System.Step label s s') {p : Int} (holds : PrState → Prop)
    (kept : ∀ move old new, label.Permits move → move.Changes p old new → holds old → holds new)
    (start : holds (s.kernel.proctab p).prstate) : holds (s'.kernel.proctab p).prstate := by
  obtain ⟨moves, a', permits, run, good'⟩ := good.step h
  rw [good.tracks.state] at start
  rw [good'.tracks.state]
  exact Moves.keeps holds kept run good.inv permits start

/-- A process that stops being free was created, and starts as a process outside the kernel. -/
theorem Good.spawned (good : Good s a) (h : s.step label = some (ret, s')) {p : Int}
    (free : (s.kernel.proctab p).prstate = .free) (taken : (s'.kernel.proctab p).prstate ≠ .free) :
    s.post label ret = some (.created p) ∧ s'.pc p = .user := by
  have create : ∃ procaddr ssize priority name args,
      label = .call (.create procaddr ssize priority name args) := by
    by_contra other
    exact taken (good.keeps ⟨ret, h⟩ (· = .free)
      (fun move old new permits changes start => absurd (Label.spawns permits (start ▸ changes)) other) free)
  obtain ⟨procaddr, ssize, priority, name, args, rfl⟩ := create
  obtain ⟨-, -, -, pc, returns, points⟩ := System.call_cases h
  simp only [execCall, Option.some.injEq, Prod.mk.injEq] at returns
  obtain ⟨rfl, kernel, -⟩ := returns
  rcases create_follows good.tracks procaddr ssize priority name args with
    ⟨-, a', run, track⟩ | ⟨q, result, pid, -, a', run, track⟩
  · cases run
    rw [← kernel, track.state, ← good.tracks.state] at taken
    exact absurd free taken
  · cases run with
    | cons spawn rest =>
      cases rest
      have same : p = q := by
        by_contra other
        rcases spawn.changes good.inv p with unchanged | changes
        · rw [← kernel, track.state, unchanged, ← good.tracks.state] at taken
          exact taken free
        · generalize a.state p = old, a'.state p = new at changes
          cases changes
          exact other rfl
      subst same
      rw [points, result]
      refine ⟨?_, by simp [resumePoints]⟩
      simp only [System.post]
      rw [if_pos]
      rintro rfl
      exact absurd pid (by decide)

/-- A process becomes free only when it is killed. -/
theorem Good.freed (good : Good s a) (h : System.Step label s s') {p : Int}
    (live : (s.kernel.proctab p).prstate ≠ .free) (notKill : label ≠ .call (.kill p)) :
    (s'.kernel.proctab p).prstate ≠ .free :=
  good.keeps h (· ≠ .free)
    (fun _ _ _ permits changes _ freed => notKill (Label.frees permits (freed ▸ changes))) live

/-- `send` accepts a message exactly when the process can be sent one. -/
theorem send_ok_iff {owed : Int} {s : Kernel} (track : Tracks owed s a) (p : Int) (msg : UInt32) :
    (send p msg s).1 = OK ↔ a.Accepts p := by
  rw [View.Accepts, ← and_assoc, ← track.proctab]
  obtain ⟨why, refused, -⟩ | ⟨good, vacant, sent, -⟩ := send_cases (s := s) p msg
  · rw [refused, track.isbadpid_iff] at *
    refine ⟨fun same => absurd same (by decide), ?_⟩
    rintro ⟨good, vacant⟩
    cases why with
    | inl bad => exact absurd good bad
    | inr full =>
      rw [vacant] at full
      cases full
  · exact iff_of_true sent ⟨track.live_of_good good, vacant⟩

theorem System.step_kill {p : Int} (h : s.step (.call (.kill p)) = some (ret, s')) :
    ∃ status, ret = .value status ∧ kill p s.kernel = some (status, s'.kernel) := by
  obtain ⟨-, -, -, pc, returns, -⟩ := System.call_cases h
  simp only [execCall, Option.bind_eq_some_iff, Option.some.injEq, Prod.mk.injEq] at returns
  obtain ⟨⟨status, kernel⟩, killed, rfl, rfl, -⟩ := returns
  exact ⟨status, rfl, killed⟩

theorem System.step_send {p : Int} {msg : UInt32} (h : s.step (.call (.send p msg)) = some (ret, s')) :
    ret = .value (send p msg s.kernel).1 ∧ s'.kernel = (send p msg s.kernel).2 := by
  obtain ⟨-, -, -, pc, returns, -⟩ := System.call_cases h
  simp only [execCall, Option.some.injEq, Prod.mk.injEq] at returns
  obtain ⟨rfl, kernel, -⟩ := returns
  exact ⟨rfl, kernel.symm⟩

/-- The move that clears an entry leaves every other process as it is. -/
theorem KillMove.state {p q : Int} {move : Move} {a a' : View} (kind : KillMove p move)
    (h : Move.Step move a a') (inv : a.Inv) :
    a'.state q = a.state q ∨ q = p ∧ a'.state q = .free := by
  cases h.changes inv q with
  | inl same => exact Or.inl same
  | inr changes =>
    right
    generalize a.state q = old, a'.state q = new at changes ⊢
    cases kind <;> cases changes <;> exact ⟨rfl, rfl⟩

/-- A process that waits for a message goes on waiting, or is sent one, or is killed. -/
theorem Good.unblocked (good : Good s a) (h : s.step label = some (ret, s')) {p : Int}
    (waits : (s.kernel.proctab p).prstate = .recv) :
    (s'.kernel.proctab p).prstate = .recv ∨ (s'.kernel.proctab p).prstate = .free ∨
      ∃ msg, s.post label ret = some (.accepted p msg) := by
  rw [or_iff_not_imp_left]
  intro left
  have left' := left
  have cause : label = .call (.resume p) ∨ (∃ msg, label = .call (.send p msg)) ∨
      ∃ q, label = .call (.kill q) := by
    by_contra other
    exact left (good.keeps ⟨ret, h⟩ (· = .recv)
      (fun move old new permits changes start => absurd (Label.unblocks permits (start ▸ changes)) other)
      waits)
  rw [good.tracks.state] at waits
  obtain rfl | ⟨msg, rfl⟩ | ⟨q, rfl⟩ := cause
  · obtain ⟨-, -, ret, pc, returns⟩ := System.Step.call ⟨ret, h⟩
    simp only [execCall, Option.some.injEq, Prod.mk.injEq] at returns
    obtain ⟨-, kernel, -⟩ := returns
    obtain ⟨a', run, track⟩ | ⟨-, suspended, -⟩ := resume_follows good.tracks good.inv p
    · cases run
      rw [← kernel, track.state, waits] at left
      exact absurd rfl left
    · rw [waits] at suspended
      cases suspended
  · obtain ⟨rfl, kernel⟩ := System.step_send h
    obtain ⟨moves, kind, a', run, track⟩ := send_follows good.tracks good.inv p msg
    right
    rw [kernel, track.state] at left
    obtain ⟨same, -⟩ | ⟨-, accepts, -⟩ := kind.state run p
    · exact absurd (same.trans waits) left
    · refine ⟨msg, ?_⟩
      simp only [System.post, (send_ok_iff good.tracks p msg).mpr accepts, if_true]
  · obtain ⟨status, rfl, killed⟩ := System.step_kill h
    rcases kill_follows good.tracks good.inv q killed with
      ⟨-, a', run, track⟩ | ⟨rfl, -, -, -, moves, move, kind, last, a', run, track⟩
    · cases run
      rw [track.state, waits] at left
      exact absurd rfl left
    · obtain ⟨b, told, rest⟩ := run.split
      cases rest with
      | cons clear rest =>
        cases rest
        rw [track.state] at left ⊢
        obtain same | ⟨-, freed⟩ := last.state clear (good.inv.moves told)
        · right
          rw [same] at left
          obtain ⟨same', -⟩ | ⟨parent, accepts, -⟩ := kind.state told p
          · exact absurd (same'.trans waits) left
          · rw [← parent] at accepts
            rw [← good.tracks.proctab] at parent
            have sent := (send_ok_iff good.tracks p (deathNotice q)).mpr accepts
            refine ⟨deathNotice q, ?_⟩
            simp only [System.post, ← parent, sent, and_self, if_true]
        · exact Or.inl freed

/-- Only `send` and `kill` put a message into a mailbox. -/
theorem System.post_accepted {p : Int} {msg : UInt32} (post : s.post label ret = some (.accepted p msg)) :
    label = .call (.send p msg) ∨ ∃ q, label = .call (.kill q) := by
  cases label with
  | goOn | tick | switch => cases ret <;> simp [System.post] at post
  | call call =>
    cases call with
    | kill q => exact Or.inr ⟨q, rfl⟩
    | send q msg' =>
      cases ret <;> simp [System.post] at post
      exact Or.inl (by rw [post.2.1, post.2.2])
    | _ => cases ret <;> simp [System.post] at post

/-- A message is returned to the process that runs, and ends its call. -/
theorem System.post_returned {p : Int} {msg : UInt32} (h : s.step label = some (ret, s'))
    (post : s.post label ret = some (.returned p msg)) :
    p = s.kernel.currpid ∧ ret = .msg msg ∧ s'.pc p = .user := by
  rcases System.step_cases h with ⟨call, pc, rfl, -, -, -, returns, points⟩ |
    ⟨rfl, -, -, rfl, -, points⟩ | ⟨rx, rfl, rfl, -⟩ | ⟨psp, rfl, -, rfl, -⟩
  · cases call with
    | receive =>
      simp only [execCall] at returns
      split at returns
      all_goals
        simp only [Option.some.injEq, Prod.mk.injEq] at returns
        obtain ⟨rfl, -, rfl⟩ := returns
      · simp [System.post] at post
      · simp only [System.post, Option.some.injEq, Post.returned.injEq] at post
        obtain ⟨rfl, rfl⟩ := post
        exact ⟨rfl, rfl, by simp [points, resumePoints]⟩
    | recvclr | recvtime =>
      simp only [execCall, Option.some.injEq, Prod.mk.injEq] at returns
      obtain ⟨rfl, -, rfl⟩ := returns
      simp only [System.post, Option.ite_none_right_eq_some, Option.some.injEq, Post.returned.injEq] at post
      obtain ⟨-, rfl, rfl⟩ := post
      exact ⟨rfl, rfl, by simp [points, resumePoints]⟩
    | _ => cases ret <;> simp [System.post] at post
  · simp only [System.post, Option.some.injEq, Post.returned.injEq] at post
    obtain ⟨rfl, rfl⟩ := post
    exact ⟨rfl, rfl, by simp [points]⟩
  all_goals simp [System.post] at post

/-- The receiver of an accepted message does not wait for one. -/
theorem Good.accepted_awake (good : Good s a) (h : s.step label = some (ret, s')) {p : Int} {msg : UInt32}
    (post : s.post label ret = some (.accepted p msg)) : (s'.kernel.proctab p).prstate ≠ .recv := by
  obtain rfl | ⟨q, rfl⟩ := System.post_accepted post
  · obtain ⟨rfl, kernel⟩ := System.step_send h
    obtain ⟨moves, kind, a', run, track⟩ := send_follows good.tracks good.inv p msg
    have accepts : a.Accepts p := by
      rw [← send_ok_iff good.tracks p msg]
      simpa [System.post] using post
    rw [kernel, track.state]
    obtain ⟨same, awake⟩ | ⟨-, -, -, ready⟩ := kind.state run p
    · exact same ▸ (awake rfl accepts).1
    · simp [ready]
  · obtain ⟨status, rfl, killed⟩ := System.step_kill h
    simp only [System.post, Option.ite_none_right_eq_some, Option.some.injEq, Post.accepted.injEq] at post
    obtain ⟨⟨rfl, sent⟩, rfl, rfl⟩ := post
    rw [good.tracks.proctab] at sent ⊢
    have accepts := (send_ok_iff good.tracks (a.proctab q).prparent (deathNotice q)).mp sent
    rcases kill_follows good.tracks good.inv q killed with
      ⟨refused, -⟩ | ⟨-, -, -, -, moves, move, kind, last, a', run, track⟩
    · exact absurd refused (by decide)
    · obtain ⟨b, told, rest⟩ := run.split
      cases rest with
      | cons clear rest =>
        cases rest
        rw [track.state]
        obtain same | ⟨-, freed⟩ := last.state clear (good.inv.moves told)
        · rw [same]
          obtain ⟨same', awake⟩ | ⟨-, -, -, ready⟩ := kind.state told (a.proctab q).prparent
          · exact same' ▸ (awake rfl accepts).1
          · simp [ready]
        · simp [freed]

/-- A process starts to wait for a message in `receive`, with an empty mailbox. -/
theorem Good.blocked (good : Good s a) (h : s.step label = some (ret, s')) {p : Int}
    (waits : (s'.kernel.proctab p).prstate = .recv) :
    (s.kernel.proctab p).prstate = .recv ∨
      p = s.kernel.currpid ∧ s.kernel.mailbox p = none ∧ s'.pc p = .receive ∧ s.post label ret = none := by
  by_cases receives : label = .call .receive
  · subst receives
    obtain ⟨-, -, -, pc, returns, points⟩ := System.call_cases h
    simp only [execCall] at returns
    split at returns
    all_goals
      simp only [Option.some.injEq, Prod.mk.injEq] at returns
      obtain ⟨rfl, kernel, rfl⟩ := returns
    · next vacant =>
      rw [← kernel] at waits
      simp only [receiveBlock, pendSV, Kernel.setState, Kernel.setProc, Function.update_apply] at waits
      split at waits
      · next here =>
        subst here
        exact Or.inr ⟨rfl, (mailbox_none_iff _).mpr vacant, by simp [points, resumePoints], rfl⟩
      · exact Or.inl waits
    · rw [← kernel] at waits
      simp only [receiveTake, Kernel.setProc, Function.update_apply] at waits
      split at waits
      · next here => exact Or.inl (here ▸ waits)
      · exact Or.inl waits
  · left
    by_contra other
    exact good.keeps ⟨ret, h⟩ (· ≠ .recv)
      (fun _ _ _ permits changes _ entered => receives (Label.awaits permits (entered ▸ changes))) other waits

/-- Where a process goes on changes only for the caller and for a process that is created. -/
theorem System.step_points (h : s.step label = some (ret, s')) {p : Int} (pid : IsPid p)
    (other : running s.kernel.toSched → p ≠ s.kernel.currpid)
    (notCreated : s.post label ret ≠ some (.created p)) : s'.pc p = s.pc p := by
  rcases System.step_cases h with ⟨call, pc, rfl, runs, -, -, returns, points⟩ |
    ⟨rfl, runs, -, -, -, points⟩ | ⟨rx, rfl, -, -, points⟩ | ⟨psp, rfl, -, -, -, points⟩
  · have notCaller := other runs
    rw [points]
    cases call with
    | create procaddr ssize priority name args =>
      simp only [execCall, Option.some.injEq, Prod.mk.injEq] at returns
      obtain ⟨rfl, -, -⟩ := returns
      have notNew : p ≠ (create procaddr ssize priority name args s.kernel).1 := by
        rintro rfl
        refine notCreated (if_pos ?_)
        intro failed
        rw [failed] at pid
        exact absurd pid (by decide)
      simp [resumePoints, notCaller, notNew]
    | _ => simp [resumePoints, notCaller]
  · rw [points, Function.update_of_ne (other runs)]
  · rw [points]
  · rw [points]

theorem System.post_created (h : s.step label = some (ret, s')) {p : Int}
    (post : s.post label ret = some (.created p)) : s'.pc p = .user := by
  rcases System.step_cases h with ⟨call, pc, rfl, -, -, -, returns, points⟩ |
    ⟨rfl, -, -, rfl, -⟩ | ⟨rx, rfl, rfl, -⟩ | ⟨psp, rfl, -, rfl, -⟩
  · cases call with
    | create =>
      simp only [execCall, Option.some.injEq, Prod.mk.injEq] at returns
      obtain ⟨rfl, -, -⟩ := returns
      simp only [System.post, Option.ite_none_right_eq_some, Option.some.injEq, Post.created.injEq] at post
      rw [points, ← post.2]
      simp [resumePoints]
    | _ => cases ret <;> simp [System.post] at post
  all_goals simp [System.post] at post

/-- A process gets inside `receive` by waiting there. -/
theorem System.step_receive (h : s.step label = some (ret, s')) {p : Int} (inside : s'.pc p = .receive) :
    s.pc p = .receive ∨ (s'.kernel.proctab p).prstate = .recv := by
  have caller {call : Call} {pc : Pc} (points : s'.pc = resumePoints call ret s.kernel.currpid pc s.pc) :
      s.pc p = .receive ∨ p = s.kernel.currpid ∧ pc = .receive := by
    have before : Function.update s.pc s.kernel.currpid pc p = .receive := by
      rw [points] at inside
      cases call with
      | create =>
        cases ret with
        | value q =>
          simp only [resumePoints] at inside
          by_cases new : p = q
          · rw [new, Function.update_self] at inside
            cases inside
          · rwa [Function.update_of_ne new] at inside
        | _ => exact inside
      | _ => exact inside
    by_cases here : p = s.kernel.currpid
    · subst here
      exact Or.inr ⟨rfl, by simpa using before⟩
    · rw [Function.update_of_ne here] at before
      exact Or.inl before
  rcases System.step_cases h with ⟨call, pc, rfl, -, -, -, returns, points⟩ | ⟨rfl, -, -, -, -, points⟩ |
    ⟨rx, rfl, -, -, points⟩ | ⟨psp, rfl, -, -, -, points⟩
  · rcases caller points with before | ⟨rfl, rfl⟩
    · exact Or.inl before
    · right
      cases call with
      | receive =>
        simp only [execCall] at returns
        split at returns
        · simp only [Option.some.injEq, Prod.mk.injEq] at returns
          rw [← returns.2.1]
          simp [receiveBlock, pendSV, Kernel.setState, Kernel.setProc]
        · simp at returns
      | kill => simp [execCall, Option.bind_eq_some_iff] at returns
      | _ => simp [execCall] at returns
  · rw [points] at inside
    by_cases here : p = s.kernel.currpid
    · subst here
      simp at inside
    · rw [Function.update_of_ne here] at inside
      exact Or.inl inside
  · exact Or.inl (points ▸ inside)
  · exact Or.inl (points ▸ inside)

/-- Every step keeps the receivers of messages in order. -/
theorem Receiving.step (receiving : Receiving s) (good : Good s a) (h : s.step label = some (ret, s')) :
    Receiving s' := by
  have delivers := good.step_delivers receiving h
  constructor
  · intro p pid waits
    obtain before | ⟨rfl, vacant, inside, post⟩ := good.blocked h waits
    · obtain ⟨vacant, inside⟩ := receiving.waits pid before
      have notCreated : s.post label ret ≠ some (.created p) := by
        intro post
        rw [post] at delivers
        cases delivers with
        | created _ free => cases before.symm.trans free
      have points : s'.pc p = s.pc p := by
        refine System.step_points h pid ?_ notCreated
        rintro runs rfl
        cases runs.symm.trans before
      refine ⟨?_, points.trans inside⟩
      obtain same | ⟨msg, post, -⟩ | ⟨-, empty⟩ := delivers.mailbox p
      · exact same.trans vacant
      · exact absurd waits (good.accepted_awake h post)
      · exact empty
    · rw [post] at delivers
      cases delivers with
      | nothing kept => exact ⟨kept ▸ vacant, inside⟩
  · intro p pid inside
    cases System.step_receive h inside with
    | inl before =>
      obtain waits | full | free := receiving.wakes pid before
      · obtain still | freed | ⟨msg, post⟩ := good.unblocked h waits
        · exact Or.inl still
        · exact Or.inr (Or.inr freed)
        · rw [post] at delivers
          cases delivers with
          | accepted _ _ stored => exact Or.inr (Or.inl (by rw [stored, Function.update_self]; simp))
      · obtain same | ⟨msg, -, stored⟩ | ⟨⟨msg, post⟩ | post, -⟩ := delivers.mailbox p
        · exact Or.inr (Or.inl (same ▸ full))
        · exact Or.inr (Or.inl (by simp [stored]))
        · cases inside.symm.trans (System.post_returned h post).2.2
        · cases inside.symm.trans (System.post_created h post)
      · by_cases still : (s'.kernel.proctab p).prstate = .free
        · exact Or.inr (Or.inr still)
        · cases inside.symm.trans (good.spawned h free still).2
    | inr waits => exact Or.inl waits

/-- A turn of another process leaves the receivers of messages as they are. -/
theorem Receiving.turn (receiving : Receiving s) (good : Good s a) {p : Int} (pid : IsPid p)
    (ready : (s.kernel.proctab p).prstate = .ready) :
    Receiving { s with kernel := turnTo p s.kernel } := by
  obtain ⟨a', good', changes⟩ := good.turn pid ready
  have mailbox : (turnTo p s.kernel).mailbox = s.kernel.mailbox := (frame_turnTo p).mailbox
  have unmoved {q : Int} {state : PrState} (other : state = .recv ∨ state = .free) :
      ((turnTo p s.kernel).proctab q).prstate = state ↔ (s.kernel.proctab q).prstate = state := by
    have after : ((turnTo p s.kernel).proctab q).prstate = a'.state q := good'.tracks.state q
    rw [after, good.tracks.state]
    obtain same | moved | moved := changes q
    · rw [same]
    all_goals
      generalize a.state q = old, a'.state q = new at moved
      cases moved
      rcases other with rfl | rfl <;> simp
  constructor
  · intro q qid waits
    obtain ⟨vacant, inside⟩ := receiving.waits qid ((unmoved (Or.inl rfl)).mp waits)
    exact ⟨mailbox ▸ vacant, inside⟩
  · intro q qid inside
    rw [unmoved (Or.inl rfl), unmoved (Or.inr rfl), mailbox]
    exact receiving.wakes qid inside

end Steps

end XinuStm32
