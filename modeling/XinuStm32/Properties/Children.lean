import XinuStm32.Properties.Notices
import XinuStm32.Refinement.Leader

/-!
# A parent and its child

What single steps do to a process that waits for the end of a child: its own calls, ticks and switches, and the calls of
others while it is blocked in `receive`.
-/

namespace XinuStm32

open View

section Steps

variable {s s' : System} {a : View} {label : Label} {ret : Ret} {p c : Int}

/-! ## The child -/

/-- A live process whose parent is in slot `p`. -/
structure Owns (p c : Int) (s : System) : Prop where
  pid : IsPid c
  notNull : c ≠ NULLPROC
  other : c ≠ p
  live : (s.kernel.proctab c).prstate ≠ .free
  parent : s.kernel.parent c = p

theorem lineage_step (h : s.step label = some (ret, s')) (births : Int → Nat) :
    Lineage.step (.step label) ⟨s, births⟩ = some (ret, ⟨s', Lineage.recordBirth (s.post label ret) births⟩) := by
  simp [Lineage.step, h]

theorem lineage_sound (good : Good s a) (receiving : Receiving s) (births : Int → Nat) :
    Lineage.Sound ⟨s, births⟩ := ⟨⟨a, good⟩, receiving⟩

/-- A child that is not killed keeps its parent. -/
theorem Owns.step (owns : Owns p c s) (good : Good s a) (receiving : Receiving s) (h : s.step label = some (ret, s'))
    (notKill : label ≠ .call (.kill c)) : Owns p c s' := by
  have kept := (lineage_sound good receiving fun _ => 0).keeps (lineage_step h _) (p := c) owns.live
    (by simpa using notKill)
  exact ⟨owns.pid, owns.notNull, owns.other, kept.live, kept.parent.trans owns.parent⟩

/-- The process that is created is a child of the caller. -/
theorem Good.owns_created (good : Good s a) (receiving : Receiving s) {procaddr ssize : UInt32} {priority : Int16}
    {name : List UInt8} {args : List UInt32}
    (h : s.step (.call (.create procaddr ssize priority name args)) = some (.value c, s')) (success : c ≠ SYSERR)
    (caller : s.kernel.currpid = p) (alive : (s.kernel.proctab p).prstate ≠ .free) : Owns p c s' := by
  obtain ⟨pid, notNull, live, parent, -⟩ :=
    (lineage_sound good receiving fun _ => 0).created (lineage_step h _) success
  refine ⟨pid, notNull, ?_, live, parent.trans caller⟩
  -- the child took a free slot
  rintro rfl
  cases good.create_step h with
  | inl failed => exact success (Ret.value.inj failed.1)
  | inr created =>
    obtain ⟨_, _, same, -, -, free, -⟩ := created
    obtain rfl := Ret.value.inj same
    exact alive ((good.tracks.state c).trans free)

theorem deathNotice_toNat (pid : IsPid c) : ((deathNotice c).toNat : Int) = c := by
  obtain ⟨low, high⟩ := pid
  simp only [NPROC] at high
  rw [deathNotice, UInt32.toNat_ofNat']
  omega

theorem int32_deathNotice (pid : IsPid c) : int32 (deathNotice c).toNat = c := by
  have bounds := pid
  rw [deathNotice_toNat pid, int32, Int.bmod]
  simp only [IsPid, NPROC] at bounds
  omega

/-- The only message that is the child is its notice. -/
theorem eq_deathNotice {msg : UInt32} (pid : IsPid c) (same : int32 msg.toNat = c) : msg = deathNotice c := by
  have bounds := pid
  have range := msg.toNat_lt
  simp only [IsPid, NPROC] at bounds
  apply UInt32.toNat_inj.mp
  zify
  rw [deathNotice_toNat pid]
  rw [int32, Int.bmod] at same
  split at same <;> omega

theorem deathNotice_inj {q : Int} (pid : IsPid c) (pid' : IsPid q) (same : deathNotice c = deathNotice q) : c = q := by
  rw [← deathNotice_toNat pid, same, deathNotice_toNat pid']

/-! ## The shell's own calls -/

/-- The process has the processor and is not inside a call. -/
structure Runs (p : Int) (s : System) : Prop where
  current : s.kernel.currpid = p
  state : (s.kernel.proctab p).prstate = .curr
  user : s.pc p = .user

theorem System.step_runs {call : Call} (h : s.step (.call call) = some (ret, s')) : Runs s.kernel.currpid s := by
  obtain ⟨runs, user, -⟩ := System.call_cases h
  exact ⟨rfl, runs, user⟩

/-- The calls of the shell that do not take the processor away. -/
def Call.passing : Call → Bool
  | .create .. | .recvclr | .resume _ => true
  | _ => false

theorem Runs.step (runs : Runs p s) (good : Good s a) {call : Call} (passing : call.passing = true)
    (h : s.step (.call call) = some (ret, s')) : Runs p s' := by
  refine ⟨(good.step_currpid h (by simp)).trans runs.current, ?_, ?_⟩
  · refine good.keeps ⟨ret, h⟩ (· = .curr) (fun move old new permits changes here => ?_) runs.state
    subst here
    cases call with
    | create =>
      obtain ⟨c, rfl⟩ := permits
      cases changes
    | recvclr =>
      cases permits
      cases changes
    | resume c =>
      cases permits
      cases changes with
      | ready old => simp at old
    | _ => cases passing
  · obtain ⟨-, -, -, pc, returns, points⟩ := System.call_cases h
    rw [points, runs.current]
    cases call with
    | create =>
      simp only [execCall, Option.some.injEq, Prod.mk.injEq] at returns
      obtain ⟨rfl, -, rfl⟩ := returns
      simp only [resumePoints, Function.update_apply]
      split
      · rfl
      · simp
    | recvclr | resume =>
      simp only [execCall, Option.some.injEq, Prod.mk.injEq] at returns
      simp [resumePoints, ← returns.2.2]
    | _ => cases passing

/-- `recvclr` leaves an empty mailbox. -/
theorem Good.recvclr_empty (good : Good s a) (receiving : Receiving s) (h : s.step (.call .recvclr) = some (ret, s')) :
    s'.kernel.mailbox s.kernel.currpid = none := by
  have delivers := good.step_delivers receiving h
  obtain ⟨-, -, -, pc, returns, -⟩ := System.call_cases h
  simp only [execCall, Option.some.injEq, Prod.mk.injEq] at returns
  obtain ⟨rfl, -, -⟩ := returns
  simp only [System.post] at delivers
  split at delivers
  · cases delivers with
    | returned _ taken => rw [taken, Function.update_self]
  · next vacant =>
    cases delivers with
    | nothing kept =>
      rw [kept, mailbox_none_iff]
      simpa using vacant

/-- The process that receives takes its message, or is blocked until it gets one. -/
theorem Good.receives (good : Good s a) (receiving : Receiving s) (current : s.kernel.currpid = p)
    (own : label = .call .receive ∨ label = .goOn) (h : s.step label = some (ret, s')) :
    ret = .nothing ∧ s.kernel.mailbox p = none ∧ s'.kernel.mailbox p = none ∧ (s'.kernel.proctab p).prstate = .recv ∨
      ∃ msg, ret = .msg msg ∧ s.kernel.mailbox p = some msg ∧ s'.kernel.mailbox p = none ∧
        (s'.kernel.proctab p).prstate = .curr := by
  subst current
  have delivers := good.step_delivers receiving h
  have taking (k : Kernel) : ((receiveTake k).2.proctab k.currpid).prstate = (k.proctab k.currpid).prstate := by
    simp [receiveTake, Kernel.setProc]
  rcases System.step_cases h with ⟨call, pc, rfl, runs, -, -, returns, -⟩ | ⟨rfl, runs, -, rfl, kernel, -⟩ |
    ⟨_, rfl, -⟩ | ⟨_, rfl, -⟩
  · obtain rfl : call = .receive := by simpa using own
    simp only [execCall] at returns
    split at returns
    · next vacant =>
      simp only [Option.some.injEq, Prod.mk.injEq] at returns
      obtain ⟨rfl, kernel, -⟩ := returns
      refine Or.inl ⟨rfl, (mailbox_none_iff _).mpr vacant, ?_, ?_⟩
      · cases delivers with
        | nothing kept => rw [kept, (mailbox_none_iff _).mpr vacant]
      · rw [← kernel]
        simp [receiveBlock, pendSV, Kernel.setState, Kernel.setProc]
    · simp only [Option.some.injEq, Prod.mk.injEq] at returns
      obtain ⟨rfl, kernel, -⟩ := returns
      cases delivers with
      | returned full taken =>
        refine Or.inr ⟨_, rfl, full, by rw [taken, Function.update_self], ?_⟩
        rw [← kernel, taking]
        exact runs
  · cases delivers with
    | returned full taken =>
      refine Or.inr ⟨_, rfl, full, by rw [taken, Function.update_self], ?_⟩
      rw [kernel, taking]
      exact runs
  all_goals simp at own

/-! ## Ticks and switches -/

/-- The steps that no process makes. -/
def Label.Passive (label : Label) : Prop := (∃ rx, label = .tick rx) ∨ ∃ psp, label = .switch psp

/-- They leave the mailboxes alone. -/
theorem Good.passive_mailbox (good : Good s a) (receiving : Receiving s) (h : s.step label = some (ret, s'))
    (passive : label.Passive) : s'.kernel.mailbox = s.kernel.mailbox := by
  have delivers := good.step_delivers receiving h
  have post : s.post label ret = none := by
    obtain ⟨rx, rfl⟩ | ⟨psp, rfl⟩ := passive
    · cases ret <;> rfl
    · cases ret <;> rfl
  rw [post] at delivers
  cases delivers with
  | nothing kept => exact kept

theorem Runs.passive {top : Int} {leader : Option Int} (runs : Runs p s) (good : Good s a) (led : Led top leader a)
    (leads : leader = some p) (pid : IsPid p) (h : s.step label = some (ret, s')) (passive : label.Passive) :
    Runs p s' := by
  obtain ⟨current, state⟩ := good.led_stays led leads pid h passive runs.current runs.state
  refine ⟨current, state, ?_⟩
  obtain ⟨call, _, same, -⟩ | ⟨same, -⟩ | ⟨_, _, -, -, points⟩ | ⟨_, _, -, -, -, points⟩ := System.step_cases h
  · rcases passive with ⟨_, other⟩ | ⟨_, other⟩ <;> cases same.symm.trans other
  · rcases passive with ⟨_, other⟩ | ⟨_, other⟩ <;> cases same.symm.trans other
  · rw [points, runs.user]
  · rw [points, runs.user]

/-- They make no one stop waiting for a message, and no one wait. -/
theorem Good.passive_state (good : Good s a) (h : s.step label = some (ret, s')) (passive : label.Passive)
    (before : (s.kernel.proctab p).prstate = .curr ∨ (s.kernel.proctab p).prstate = .ready ∨
      (s.kernel.proctab p).prstate = .recv) :
    (s'.kernel.proctab p).prstate = .curr ∨ (s'.kernel.proctab p).prstate = .ready ∨
      (s'.kernel.proctab p).prstate = .recv := by
  refine good.keeps ⟨ret, h⟩ (fun state => state = .curr ∨ state = .ready ∨ state = .recv) ?_ before
  intro move old new permits changes _
  obtain ⟨rx, rfl⟩ | ⟨psp, rfl⟩ := passive
  · obtain (rfl | ⟨sem, rfl | rfl⟩) | rfl | rfl := permits
    all_goals cases changes
    all_goals exact Or.inr (Or.inl rfl)
  · obtain rfl | rfl | rfl | ⟨q, rfl⟩ := permits
    all_goals cases changes
    · exact Or.inr (Or.inl rfl)
    · exact Or.inl rfl

/-! ## Calls of the others -/

theorem KillMove.freed {move : Move} {a a' : View} (kind : KillMove p move) (h : Move.Step move a a') :
    a'.state p = .free := by
  cases kind with
  | leave => cases h <;> simp
  | withdraw => cases h; simp
  | abandon => cases h; simp
  | take => cases h; simp

/-- Who is told of the end of a child that has not ended before. -/
theorem Good.child_killed (good : Good s a) (receiving : Receiving s) (owns : Owns p c s) (pid : IsPid p)
    (alive : (s.kernel.proctab p).prstate ≠ .free) (vacant : s.kernel.mailbox p = none)
    (h : s.step (.call (.kill c)) = some (ret, s')) :
    ret = .value OK ∧ s'.kernel.mailbox p = some (deathNotice c) := by
  have inTable {q : Int} (pid : IsPid q) (alive : (s.kernel.proctab q).prstate ≠ .free) :
      ¬ isbadpid q s.kernel.toSched := by
    rw [good.tracks.isbadpid_iff, not_not]
    rw [good.tracks.state] at alive
    exact ⟨pid, alive⟩
  have told := (lineage_sound good receiving fun _ => 0).notice (lineage_step h _) (inTable owns.pid owns.live)
    owns.notNull owns.live
  simp only [owns.parent] at told
  obtain ⟨status, rfl, killed⟩ := System.step_kill h
  obtain rfl := Lineage.kill_ok (inTable owns.pid owns.live) owns.notNull owns.live killed
  refine ⟨rfl, ?_⟩
  rw [told, if_pos ⟨inTable pid alive, vacant⟩, Function.update_self]

theorem Good.killed_free (good : Good s a) (h : s.step (.call (.kill p)) = some (.value OK, s')) :
    (s'.kernel.proctab p).prstate = .free := by
  obtain ⟨status, same, killed⟩ := System.step_kill h
  obtain rfl := Ret.value.inj same
  obtain ⟨refused, -⟩ | ⟨-, -, -, -, moves, move, -, last, a', run, track⟩ := kill_follows good.tracks good.inv p killed
  · cases refused
  · obtain ⟨b, -, rest⟩ := run.split
    cases rest with
    | cons clear rest =>
      cases rest
      rw [track.state]
      exact last.freed clear

/-- A call of another process finds the receiver with an empty mailbox, and leaves it there or tells it that a process
has ended. -/
theorem Good.receiver_step (good : Good s a) (receiving : Receiving s) (pid : IsPid p)
    (waits : (s.kernel.proctab p).prstate = .recv) (h : s.step label = some (ret, s'))
    (notSent : ∀ msg, label ≠ .call (.send p msg)) (notKilled : label ≠ .call (.kill p)) :
    ((s'.kernel.proctab p).prstate = .recv ∨ (s'.kernel.proctab p).prstate = .ready) ∧
      (s'.kernel.mailbox p = none ∨
        ∃ q, label = .call (.kill q) ∧ IsPid q ∧ s'.kernel.mailbox p = some (deathNotice q)) := by
  have vacant := (receiving.waits pid waits).1
  constructor
  · obtain still | freed | ⟨msg, post⟩ := good.unblocked h waits
    · exact Or.inl still
    · exact absurd freed (good.freed ⟨ret, h⟩ (by simp [waits]) notKilled)
    · obtain rfl | ⟨q, rfl⟩ := System.post_accepted post
      · exact absurd rfl (notSent msg)
      · refine good.keeps ⟨ret, h⟩ (fun state => state = .recv ∨ state = .ready) ?_ (Or.inl waits)
        intro move old new permits changes before
        obtain rfl | ⟨parent, rfl | rfl⟩ | kind := permits
        · cases changes
        · cases changes
          exact Or.inr rfl
        · cases changes
          exact Or.inr rfl
        · cases kind <;> cases changes <;> exact absurd rfl notKilled
  · obtain same | ⟨msg, post, stored⟩ | ⟨-, empty⟩ := (good.step_delivers receiving h).mailbox p
    · exact Or.inl (same.trans vacant)
    · obtain rfl | ⟨q, rfl⟩ := System.post_accepted post
      · exact absurd rfl (notSent msg)
      · refine Or.inr ⟨q, rfl, ?_, ?_⟩
        · obtain ⟨status, rfl, killed⟩ := System.step_kill h
          obtain ⟨rfl, -⟩ | ⟨-, pid, -⟩ := kill_follows good.tracks good.inv q killed
          · simp [System.post, OK, SYSERR] at post
          · exact pid
        · obtain ⟨status, rfl, -⟩ := System.step_kill h
          simp only [System.post, Option.ite_none_right_eq_some, Option.some.injEq, Post.accepted.injEq] at post
          rw [stored, post.2.2]
    · exact Or.inl empty

end Steps

end XinuStm32
