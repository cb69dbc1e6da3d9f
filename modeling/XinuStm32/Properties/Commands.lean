import XinuStm32.Kernel.Commands
import XinuStm32.Properties.Children

/-!
# The shell waits for its command

While the shell waits for the child, everyone else makes calls only when the shell is blocked in `receive`: it has the
highest priority, and a notice that makes it ready takes effect before the next call. So its mailbox is empty whenever a
process is killed, no notice is refused, and the notice of the child is the only message that is the child.
-/

namespace XinuStm32

open View

namespace ShellSystem

abbrev Run : List ShellEvent → ShellSystem → ShellSystem → Prop :=
  Transition.Run fun event s s' => ∃ ret, s.step event = some (ret, s')

/-- The state after a list of events. -/
def exec : List ShellEvent → ShellSystem → Option ShellSystem :=
  Transition.exec fun event s => (s.step event).map Prod.snd

theorem run_exec {events : List ShellEvent} {s s' : ShellSystem} (returns : exec events s = some s') :
    Run events s s' := by
  apply Transition.run_exec _ returns
  intro event s s' taken
  obtain ⟨⟨ret, s''⟩, does, rfl⟩ := Option.map_eq_some_iff.mp taken
  exact ⟨ret, does⟩

/-- The booted system, before there is a shell. -/
def boot (image : BootImage) (ram : Nat → UInt8) : ShellSystem :=
    ⟨XinuStm32.boot image int32 ram, none, .elsewhere, false⟩

/-! ## The invariant -/

/-- The shell in its loop. Until the child has ended it can still be told, and then its notice is there. -/
structure Waits (p c : Int) (s : ShellSystem) : Prop where
  state : (s.system.kernel.proctab p).prstate = .curr ∨ (s.system.kernel.proctab p).prstate = .ready ∨
    (s.system.kernel.proctab p).prstate = .recv
  told : s.ended = false ∧ Owns p c s.system ∧ s.system.kernel.mailbox p ≠ some (deathNotice c) ∨
    s.ended = true ∧ IsPid c ∧ s.system.kernel.mailbox p = some (deathNotice c)

/-- What holds of the shell in each phase. -/
def Attends (p : Int) (s : ShellSystem) : Prop :=
  match s.phase with
  | .elsewhere => True
  | .created c _ => s.ended = false ∧ Owns p c s.system ∧ Runs p s.system
  | .cleared c _ => s.ended = false ∧ Owns p c s.system ∧ Runs p s.system ∧ s.system.kernel.mailbox p = none
  | .waiting c => Waits p c s

structure Sound (s : ShellSystem) : Prop where
  led : ∃ a, Good s.system a ∧ Led SHELLPRIO.toInt s.shell a ∧ ∀ p, s.shell = some p → Prompt p a
  receiving : Receiving s.system
  alive : ∀ p, s.shell = some p → IsPid p ∧ p ≠ NULLPROC ∧ (s.system.kernel.proctab p).prstate ≠ .free
  idle : s.shell = none → s.phase = .elsewhere
  attends : ∀ p, s.shell = some p → s.Attends p

/-- The null process has priority 10. -/
theorem boot_prprio (image : BootImage) (ram : Nat → UInt8) :
    ((XinuStm32.boot image int32 ram).kernel.proctab NULLPROC).prprio = 10 := by
  have inits := sysinit_initialized (s := zeroed image.toImage int32 ram) rfl rfl
  simp only [XinuStm32.boot, nulluser]
  generalize sysinit (zeroed image.toImage int32 ram) = s at inits ⊢
  have rest := inits.rest
  have mem : s.mem = Mem.meminit image.endAddr ram := by rw [rest]; rfl
  have proctab : s.proctab = (zeroed image.toImage int32 ram).proctab := by rw [rest]
  obtain ⟨-, -, -, pid, -⟩ := create_first (s := s) mem (by rw [rest]; rfl) (by rw [proctab]; rfl) image.nullprocess
    nullName
  have priority := prprio_create (s := s) image.nullprocess 1024 10 nullName [] (by rw [pid]; decide)
  rw [pid] at priority ⊢
  generalize (create image.nullprocess 1024 10 nullName [] s).2 = s₁ at priority ⊢
  have kept (t : Kernel) : (newqueue t).2.proctab = t.proctab := by rw [newqueue_rest]
  simp only [clkinit, kept, Kernel.setState, Kernel.setProc, NULLPROC, Function.update_self]
  exact priority

theorem sound_boot (image : BootImage) (ram : Nat → UInt8) : Sound (boot image ram) where
  led := by
    have booted := boot_booted image int32 ram
    have good := booted.good grows_int32
    refine ⟨_, good, ?_, by simp [boot]⟩
    have empty {p : Int} (member : p ∈ ([] : List Int)) : False := by cases member
    refine ⟨by simp [boot], fun {p} _ live _ => ?_, by simp [boot], fun member _ => (empty member).elim⟩
    -- the null process is the only one
    rw [← good.tracks.state, booted.prstate p] at live
    have null : p = NULLPROC := by
      by_contra other
      rw [if_neg other] at live
      exact live rfl
    rw [View.prio, ← good.tracks.proctab, null, boot_prprio]
    decide
  receiving := (Recorded.sound_start image ram).receiving
  alive := by simp [boot]
  idle _ := rfl
  attends := by simp [boot]

variable {s s' : ShellSystem} {event : ShellEvent} {label : Label} {ret : Ret} {p c : Int}

theorem step_cases (h : s.step event = some (ret, s')) :
    s.Permits event ∧ s.system.step event.label = some (ret, s'.system) ∧ s' = s.record event ret s'.system := by
  simp only [step, Option.ite_none_right_eq_some, Option.map_eq_some_iff, Prod.exists, Prod.mk.injEq] at h
  obtain ⟨permits, ret', system, taken, rfl, rfl⟩ := h
  have same : (s.record event ret' system).system = system := by
    cases event with
    | step label =>
      cases label with
      | call call =>
        cases call with
        | kill =>
          cases ret' with
          | value status =>
            simp only [record]
            split
            · rfl
            · split <;> rfl
          | _ => rfl
        | _ => cases ret' <;> rfl
      | goOn | tick | switch => cases ret' <;> rfl
    | start | command => cases ret' <;> rfl
  rw [same]
  exact ⟨permits, taken, rfl⟩

/-- A call that the shell permits respects its place. -/
theorem below_of_permits (permits : s.Permits event) (created : ∀ shell, event ≠ .start shell) :
    event.label.Below SHELLPRIO.toInt s.shell := by
  cases event with
  | step label =>
    cases label with
    | call call =>
      have respects := permits.2.1
      cases call with
      | chprio | create => simpa [Call.respects, ShellEvent.label, Label.Below] using respects
      | _ => trivial
    | _ => trivial
  | start shell => exact absurd rfl (created shell)
  | command => simp [ShellEvent.label, Label.Below]; decide

/-! ## One step -/

/-- The shell is gone if it was killed, and otherwise its phase changes by its own calls and by the end of its child. -/
theorem record_step (killed : ∀ p, s.shell = some p → label = .call (.kill p) → ret ≠ .value OK) (system : System) :
    (s.record (.step label) ret system).shell = s.shell := by
  cases label with
  | call call =>
    cases call with
    | kill q =>
      cases ret with
      | value status =>
        simp only [record]
        split
        · rfl
        · next ok =>
          rw [not_not] at ok
          rw [if_neg fun same => killed q same rfl (by rw [ok])]
      | _ => rfl
    | _ => cases ret <;> rfl
  | _ => cases ret <;> rfl

theorem record_elsewhere (phase : s.phase = .elsewhere) (system : System) :
    (s.record (.step label) ret system).phase = .elsewhere := by
  cases label with
  | call call =>
    cases call with
    | kill q =>
      cases ret with
      | value status =>
        simp only [record]
        split
        · exact phase
        · split
          · rfl
          · exact phase
      | _ => simp [record, phase, Phase.after]
    | _ => cases ret <;> simp [record, phase, Phase.after]
  | _ => cases ret <;> simp [record, phase, Phase.after]

/-- What a step that is not the end of the shell keeps of it. -/
theorem Sound.kept (sound : Sound s) (h : s.system.step label = some (ret, s'.system))
    (below : label.Below SHELLPRIO.toInt s.shell) (notKilled : ∀ p, s.shell = some p → label ≠ .call (.kill p)) :
    (∃ a, Good s'.system a ∧ Led SHELLPRIO.toInt s.shell a ∧ ∀ p, s.shell = some p → Prompt p a) ∧
      Receiving s'.system ∧
      ∀ p, s.shell = some p → IsPid p ∧ p ≠ NULLPROC ∧ (s'.system.kernel.proctab p).prstate ≠ .free := by
  obtain ⟨a, good, led, prompt⟩ := sound.led
  refine ⟨good.led_step led (fun p leads => ?_) h below, sound.receiving.step good h, fun p leads => ?_⟩
  · obtain ⟨pid, -, alive⟩ := sound.alive p leads
    exact ⟨pid, good.tracks.state p ▸ alive, prompt p leads⟩
  · obtain ⟨pid, notNull, alive⟩ := sound.alive p leads
    exact ⟨pid, notNull, good.freed ⟨ret, h⟩ alive (notKilled p leads)⟩

theorem Sound.start {shell : UInt32} (sound : Sound s) (h : s.step (.start shell) = some (ret, s')) : Sound s' := by
  obtain ⟨⟨-, none⟩, taken, same⟩ := step_cases h
  obtain ⟨a, good, led, -⟩ := sound.led
  rw [none] at led
  have idle := sound.idle none
  have receiving := sound.receiving.step good taken
  obtain ⟨rfl, good'⟩ | ⟨p, a', rfl, success, pid, free, spawn, good', priority⟩ := good.create_step taken
  · simp only [record, if_true] at same
    rw [same]
    exact ⟨⟨a, good', led, by simp⟩, receiving, by simp, fun _ => idle, by simp⟩
  · simp only [record, if_neg success] at same
    have alive : (s'.system.kernel.proctab p).prstate = .susp := by
      rw [good'.tracks.state]
      cases spawn with
      | spawn _ _ new => rw [state_enroll, if_pos rfl, new]
    have notNull : p ≠ NULLPROC := by
      rintro rfl
      cases good.inv.idle with
      | inl runs => cases runs.symm.trans free
      | inr ready => cases ready.symm.trans free
    rw [same]
    refine ⟨⟨a', good', led.created spawn good.inv priority, ?_⟩, receiving, ?_, by simp, ?_⟩
    · rintro q ⟨⟩ ready
      rw [← good'.tracks.state, alive] at ready
      cases ready
    · rintro q ⟨⟩
      exact ⟨pid, notNull, by simp [alive]⟩
    · rintro q ⟨⟩
      simp [Attends, idle]

theorem Sound.command {cfunc : UInt32} {cname : List UInt8} {ntok tmparg : UInt32} {backgnd : Bool} (sound : Sound s)
    (h : s.step (.command cfunc cname ntok tmparg backgnd) = some (ret, s')) : Sound s' := by
  obtain ⟨⟨-, current, -⟩, taken, same⟩ := step_cases h
  have shell : s.shell = some s.system.kernel.currpid := current
  obtain ⟨led, receiving, alive⟩ := sound.kept taken (below_of_permits (step_cases h).1 (by simp))
    (by simp [ShellEvent.label])
  obtain ⟨a, good, -⟩ := sound.led
  obtain ⟨rfl, -⟩ | ⟨c, -, rfl, success, -⟩ := good.create_step taken
  · simp only [record, if_true] at same
    rw [same]
    exact ⟨led, receiving, alive, fun _ => rfl, fun _ _ => trivial⟩
  · simp only [record, if_neg success] at same
    have owns := good.owns_created sound.receiving taken success rfl (sound.alive _ shell).2.2
    have runs := (System.step_runs taken).step good rfl taken
    rw [same]
    refine ⟨led, receiving, alive, by simp [shell], ?_⟩
    intro p leads
    obtain rfl := Option.some.inj (shell.symm.trans leads)
    exact ⟨rfl, owns, runs⟩

/-- What a call of the shell, or going on in it, does to the phase. -/
theorem record_own (own : label = .goOn ∨ ∃ call, label = .call call ∧ ∀ q, call ≠ .kill q) (system : System) :
    s.record (.step label) ret system =
      { s with system, phase := if s.Current then s.phase.after ret else s.phase } := by
  obtain rfl | ⟨call, rfl, notKill⟩ := own
  · cases ret <;> rfl
  · cases call with
    | kill q => exact absurd rfl (notKill q)
    | _ => cases ret <;> rfl

theorem record_passive (passive : label.Passive) (system : System) :
    s.record (.step label) ret system = { s with system } := by
  obtain ⟨rx, rfl⟩ | ⟨psp, rfl⟩ := passive
  · cases ret <;> rfl
  · cases ret <;> rfl

theorem record_killed {q : Int} (other : s.shell ≠ some q) (system : System) :
    s.record (.step (.call (.kill q))) (.value OK) system =
      { s with system, ended := s.ended || decide (s.phase.child = some q) } := by
  simp only [record]
  rw [if_neg (by simp), if_neg other]

/-- Calls of others that do not end the shell or its child. -/
theorem record_others (notCurrent : ¬ s.Current) (active : label = .goOn ∨ ∃ call, label = .call call)
    (spared : ∀ q, label = .call (.kill q) → s.shell ≠ some q ∧ s.phase.child ≠ some q) (system : System) :
    (s.record (.step label) ret system).phase = s.phase ∧ (s.record (.step label) ret system).ended = s.ended := by
  by_cases kills : ∃ q, label = .call (.kill q)
  · obtain ⟨q, rfl⟩ := kills
    obtain ⟨notShell, notChild⟩ := spared q rfl
    cases ret with
    | value status =>
      simp only [record, if_neg notShell, decide_eq_false notChild, Bool.or_false]
      split <;> exact ⟨rfl, rfl⟩
    | _ => exact ⟨if_neg notCurrent, rfl⟩
  · rw [record_own ?_, if_neg notCurrent]
    · exact ⟨rfl, rfl⟩
    · apply active.imp_right
      rintro ⟨call, same⟩
      exact ⟨call, same, fun q kill => kills ⟨q, by rw [same, kill]⟩⟩

/-- The shell receives: it goes on waiting, unless the message is its child. -/
theorem Waits.own (waits : Waits p c s) (sound : Sound s) (phase : s.phase = .waiting c) (current : s.Current)
    (shell : s.shell = some p) (own : label = .call .receive ∨ label = .goOn)
    (h : s.system.step label = some (ret, s'.system)) (same : s' = s.record (.step label) ret s'.system) :
    s'.Attends p := by
  obtain ⟨a, good, -⟩ := sound.led
  have here : s.system.kernel.currpid = p := Option.some.inj (current.symm.trans shell)
  have after : s' = { s with system := s'.system, phase := (Phase.waiting c).after ret } := by
    rw [record_own ?_, if_pos current, phase] at same
    · exact same
    · obtain rfl | rfl := own
      · exact Or.inr ⟨.receive, rfl, by simp⟩
      · exact Or.inl rfl
  have notKill : label ≠ .call (.kill c) := by
    rcases own with rfl | rfl <;> simp
  have ended : s'.ended = s.ended := by rw [after]
  obtain ⟨rfl, vacant, vacant', blocked⟩ | ⟨msg, rfl, full, vacant', runs⟩ := good.receives sound.receiving here own h
  · have phase' : s'.phase = .waiting c := by rw [after]; rfl
    rw [Attends, phase']
    refine ⟨Or.inr (Or.inr blocked), ?_⟩
    obtain ⟨notEnded, owns, -⟩ | ⟨-, -, told⟩ := waits.told
    · exact Or.inl ⟨ended.trans notEnded, owns.step good sound.receiving h notKill, by simp [vacant']⟩
    · cases vacant.symm.trans told
  · obtain ⟨notEnded, owns, notTold⟩ | ⟨-, pid, told⟩ := waits.told
    · -- no one but the child sends the child
      have other : int32 msg.toNat ≠ c := fun same => notTold (by rw [full, eq_deathNotice owns.pid same])
      have phase' : s'.phase = .waiting c := by rw [after, Phase.after, if_neg other]
      rw [Attends, phase']
      exact ⟨Or.inl runs, Or.inl ⟨ended.trans notEnded, owns.step good sound.receiving h notKill, by simp [vacant']⟩⟩
    · obtain rfl := Option.some.inj (full.symm.trans told)
      have phase' : s'.phase = .elsewhere := by rw [after, Phase.after, if_pos (int32_deathNotice pid)]
      rw [Attends, phase']
      trivial

/-- Ticks and switches leave the shell waiting. -/
theorem Waits.passive (waits : Waits p c s) (sound : Sound s) (phase : s.phase = .waiting c) (passive : label.Passive)
    (h : s.system.step label = some (ret, s'.system)) (same : s' = s.record (.step label) ret s'.system) :
    s'.Attends p := by
  obtain ⟨a, good, -⟩ := sound.led
  have notKill : label ≠ .call (.kill c) := by
    rcases passive with ⟨_, rfl⟩ | ⟨_, rfl⟩ <;> simp
  have mailbox := good.passive_mailbox sound.receiving h passive
  rw [record_passive passive] at same
  have phase' : s'.phase = .waiting c := by rw [same]; exact phase
  have ended : s'.ended = s.ended := by rw [same]
  rw [Attends, phase']
  refine ⟨good.passive_state h passive waits.state, ?_⟩
  rw [ended, mailbox]
  exact waits.told.imp_left fun told => ⟨told.1, told.2.1.step good sound.receiving h notKill, told.2.2⟩

/-- Others get to a call only when the shell is blocked, with an empty mailbox. So the end of the child is told. -/
theorem Waits.others (waits : Waits p c s) (sound : Sound s) (phase : s.phase = .waiting c) (notCurrent : ¬ s.Current)
    (shell : s.shell = some p) (pending : s.system.kernel.pendsv = false)
    (h : s.system.step label = some (ret, s'.system))
    (notSent : ∀ msg, label ≠ .call (.send p msg)) (notKilled : label ≠ .call (.kill p))
    (active : label = .goOn ∨ ∃ call, label = .call call) (same : s' = s.record (.step label) ret s'.system) :
    s'.Attends p := by
  obtain ⟨a, good, -, prompt⟩ := sound.led
  obtain ⟨pid, -, alive⟩ := sound.alive p shell
  have blocked : (s.system.kernel.proctab p).prstate = .recv := by
    obtain curr | ready | recv := waits.state
    · rw [good.tracks.state] at curr
      have current := good.inv.current pid curr
      rw [← good.tracks.currpid] at current
      exact absurd (by rw [Current, shell, current]) notCurrent
    · rw [good.tracks.state] at ready
      have pending' := prompt p shell ready
      rw [good.tracks.pendsv] at pending
      cases pending.symm.trans pending'
    · exact recv
  obtain ⟨vacant, -⟩ := sound.receiving.waits pid blocked
  obtain ⟨notEnded, owns, -⟩ := waits.told.resolve_right fun told => by
    cases vacant.symm.trans told.2.2
  obtain ⟨state, mailbox⟩ := good.receiver_step sound.receiving pid blocked h notSent notKilled
  have state' : (s'.system.kernel.proctab p).prstate = .curr ∨ (s'.system.kernel.proctab p).prstate = .ready ∨
      (s'.system.kernel.proctab p).prstate = .recv := Or.inr state.symm
  by_cases child : label = .call (.kill c)
  · subst child
    obtain ⟨rfl, told⟩ := good.child_killed sound.receiving owns pid alive vacant h
    have other : s.shell ≠ some c := fun same => owns.other (Option.some.inj (same.symm.trans shell))
    rw [record_killed other] at same
    have phase' : s'.phase = .waiting c := by rw [same]; exact phase
    rw [Attends, phase']
    exact ⟨state', Or.inr ⟨by rw [same]; simp [phase, Phase.child], owns.pid, told⟩⟩
  · have owns' := owns.step good sound.receiving h child
    have unchanged : s'.phase = .waiting c ∧ s'.ended = false := by
      rw [same, ← phase, ← notEnded]
      apply record_others notCurrent active
      rintro q rfl
      refine ⟨fun same => notKilled ?_, fun same => child ?_⟩
      · rw [Option.some.inj (same.symm.trans shell)]
      · rw [phase] at same
        rw [Option.some.inj (same.symm : some q = some c)]
    rw [Attends, unchanged.1]
    refine ⟨state', Or.inl ⟨unchanged.2, owns', ?_⟩⟩
    obtain empty | ⟨q, rfl, pid', told⟩ := mailbox
    · simp [empty]
    · rw [told]
      intro same
      exact child (by rw [deathNotice_inj pid' owns.pid (Option.some.inj same)])

/-- The shell makes its next call, before it waits. -/
theorem next_call {call next : Call} (runs : Runs p s.system) (shell : s.shell = some p)
    (permits : s.Permits (.step (.call call))) (phase : s.phase.call = some next) : call = next ∧ s.Current := by
  have current : s.Current := by rw [Current, shell, runs.current]
  cases permits.2.2 current with
  | inl none => cases none.symm.trans phase
  | inr same => exact ⟨Option.some.inj (same.symm.trans phase), current⟩

/-- Ticks and switches leave the processor to the shell. -/
theorem Sound.attends_passive (sound : Sound s) (shell : s.shell = some p) (passive : label.Passive)
    (h : s.system.step label = some (ret, s'.system)) (same : s' = s.record
      (.step label) ret s'.system) {backgnd : Bool}
    (ended : s.ended = false) (owns : Owns p c s.system) (runs : Runs p s.system)
    (busy : s.phase = .created c backgnd ∨ s.phase = .cleared c backgnd ∧ s.system.kernel.mailbox p = none) :
    s'.Attends p := by
  obtain ⟨a, good, led, -⟩ := sound.led
  have notKill : label ≠ .call (.kill c) := by
    rcases passive with ⟨_, rfl⟩ | ⟨_, rfl⟩ <;> simp
  have owns' := owns.step good sound.receiving h notKill
  have runs' := runs.passive good led shell (sound.alive p shell).1 h passive
  have mailbox := good.passive_mailbox sound.receiving h passive
  rw [record_passive passive] at same
  have phase' : s'.phase = s.phase := by rw [same]
  have ended' : s'.ended = false := by rw [same]; exact ended
  obtain phase | ⟨phase, vacant⟩ := busy
  · rw [Attends, phase', phase]
    exact ⟨ended', owns', runs'⟩
  · rw [Attends, phase', phase]
    exact ⟨ended', owns', runs', by rw [mailbox, vacant]⟩

/-- Before the loop the shell has the processor. -/
theorem Sound.attends_running (sound : Sound s) (shell : s.shell = some p) (permits : s.Permits (.step label))
    (h : s.system.step label = some (ret, s'.system)) (same : s' = s.record
      (.step label) ret s'.system) {backgnd : Bool}
    (ended : s.ended = false) (owns : Owns p c s.system) (runs : Runs p s.system)
    (busy : s.phase = .created c backgnd ∨ s.phase = .cleared c backgnd ∧ s.system.kernel.mailbox p = none) :
    s'.Attends p := by
  obtain ⟨a, good, -⟩ := sound.led
  cases label with
  | goOn =>
    obtain ⟨-, inside, -⟩ := System.goOn_cases h
    rw [runs.current, runs.user] at inside
    cases inside
  | call call =>
    obtain phase | ⟨phase, vacant⟩ := busy
    · obtain ⟨rfl, current⟩ := next_call runs shell permits (show s.phase.call = some .recvclr by rw [phase]; rfl)
      rw [record_own (Or.inr ⟨_, rfl, by simp⟩), if_pos current, phase] at same
      have phase' : s'.phase = .cleared c backgnd := by rw [same]; rfl
      have empty := good.recvclr_empty sound.receiving h
      rw [runs.current] at empty
      rw [Attends, phase']
      exact ⟨by rw [same]; exact ended, owns.step good sound.receiving h (by simp), runs.step good rfl h, empty⟩
    · obtain ⟨rfl, current⟩ := next_call runs shell permits (show s.phase.call = some (.resume c) by rw [phase]; rfl)
      rw [record_own (Or.inr ⟨_, rfl, by simp⟩), if_pos current, phase] at same
      have owns' := owns.step good sound.receiving h (by simp)
      have runs' := runs.step good rfl h
      have empty : s'.system.kernel.mailbox p = none := by
        have delivers := good.step_delivers sound.receiving h
        cases ret with
        | value | msg | nothing =>
          cases delivers with
          | nothing kept => rw [kept, vacant]
      cases backgnd with
      | true =>
        have phase' : s'.phase = .elsewhere := by rw [same]; rfl
        rw [Attends, phase']
        trivial
      | false =>
        have phase' : s'.phase = .waiting c := by rw [same]; rfl
        rw [Attends, phase']
        exact ⟨Or.inl runs'.state, Or.inl ⟨by rw [same]; exact ended, owns', by simp [empty]⟩⟩
  | tick rx => exact sound.attends_passive shell (Or.inl ⟨rx, rfl⟩) h same ended owns runs busy
  | switch psp => exact sound.attends_passive shell (Or.inr ⟨psp, rfl⟩) h same ended owns runs busy

theorem Sound.attends_waiting (sound : Sound s) (shell : s.shell = some p) (permits : s.Permits (.step label))
    (h : s.system.step label = some (ret, s'.system)) (same : s' = s.record (.step label) ret s'.system)
    (notKilled : label ≠ .call (.kill p)) (phase : s.phase = .waiting c) (waits : Waits p c s) : s'.Attends p := by
  cases label with
  | goOn =>
    by_cases current : s.Current
    · exact waits.own sound phase current shell (Or.inr rfl) h same
    · exact waits.others sound phase current shell permits h (by simp) notKilled (Or.inl rfl) same
  | call call =>
    by_cases current : s.Current
    · have own : call = .receive := by
        cases permits.2.2 current with
        | inl none => cases (phase ▸ none)
        | inr next => exact Option.some.inj (next.symm.trans (by rw [phase]; rfl))
      exact waits.own sound phase current shell (Or.inl (by rw [own])) h same
    · refine waits.others sound phase current shell permits.1 h ?_ notKilled (Or.inr ⟨call, rfl⟩) same
      rintro msg ⟨⟩
      simpa [Call.respects, shell] using permits.2.1
  | tick rx => exact waits.passive sound phase (Or.inl ⟨rx, rfl⟩) h same
  | switch psp => exact waits.passive sound phase (Or.inr ⟨psp, rfl⟩) h same

/-- Every step keeps the invariant. -/
theorem Sound.step (sound : Sound s) (h : s.step event = some (ret, s')) : Sound s' := by
  cases event with
  | start shell => exact sound.start h
  | command => exact sound.command h
  | step label =>
    obtain ⟨permits, taken, same⟩ := step_cases h
    by_cases killed : ∃ p, s.shell = some p ∧ label = .call (.kill p)
    · obtain ⟨p, shell, rfl⟩ := killed
      obtain ⟨a, good, led, prompt⟩ := sound.led
      obtain ⟨pid, notNull, alive⟩ := sound.alive p shell
      have alive' (q : Int) (leads : s.shell = some q) : IsPid q ∧ a.state q ≠ .free ∧ Prompt q a := by
        obtain ⟨pid, -, alive⟩ := sound.alive q leads
        exact ⟨pid, good.tracks.state q ▸ alive, prompt q leads⟩
      obtain ⟨a', good', led', -⟩ := good.led_step led alive' taken (below_of_permits permits (by simp))
      obtain ⟨status, rfl, returns⟩ := System.step_kill taken
      have inTable : ¬ isbadpid p s.system.kernel.toSched := by
        rw [good.tracks.isbadpid_iff, not_not]
        exact ⟨pid, (alive' p shell).2.1⟩
      obtain rfl := Lineage.kill_ok inTable notNull alive returns
      have gone := good.killed_free taken
      rw [good'.tracks.state] at gone
      rw [shell] at led'
      simp only [record, if_neg (not_not_intro (rfl : OK = OK)), if_pos shell] at same
      rw [same]
      exact ⟨⟨a', good', led'.vacate good'.inv gone, by simp⟩, sound.receiving.step good taken, by simp, fun _ => rfl,
        by simp⟩
    · have spared (p : Int) (shell : s.shell = some p) (kill : label = .call (.kill p)) : False := killed
        ⟨p, shell, kill⟩
      obtain ⟨led, receiving, alive⟩ := sound.kept taken (below_of_permits permits (by simp)) spared
      have shell' : s'.shell = s.shell := by
        rw [same]
        exact record_step (fun p shell kill => absurd kill (spared p shell)) _
      refine ⟨shell' ▸ led, receiving, shell' ▸ alive, fun none => ?_, fun p leads => ?_⟩
      · rw [same]
        exact record_elsewhere (sound.idle (shell' ▸ none)) _
      · rw [shell'] at leads
        have attends := sound.attends p leads
        cases phase : s.phase with
        | elsewhere =>
          have phase' : s'.phase = .elsewhere := by rw [same]; exact record_elsewhere phase _
          rw [Attends, phase']
          trivial
        | created c backgnd =>
          rw [Attends, phase] at attends
          exact sound.attends_running leads permits taken same attends.1 attends.2.1 attends.2.2 (Or.inl phase)
        | cleared c backgnd =>
          rw [Attends, phase] at attends
          exact sound.attends_running leads permits taken same attends.1 attends.2.1 attends.2.2.1
            (Or.inr ⟨phase, attends.2.2.2⟩)
        | waiting c =>
          rw [Attends, phase] at attends
          exact sound.attends_waiting leads permits taken same (spared p leads) phase attends

theorem Sound.run {events : List ShellEvent} (sound : Sound s) (run : Run events s s') : Sound s' :=
  run.invariant Sound (fun _ _ _ step sound => step.elim fun _ h => sound.step h) sound

/-! ## The loop -/

/-- Others change the phase only by killing the shell. -/
theorem record_phase (notCurrent : ¬ s.Current) {system : System}
    (still : (s.record (.step label) ret system).shell = some p) :
    (s.record (.step label) ret system).phase = s.phase := by
  cases label with
  | call call =>
    cases call with
    | kill q =>
      cases ret with
      | value status =>
        simp only [record] at still ⊢
        split at still
        · next refused => rw [if_pos refused]
        · next ok =>
          rw [if_neg ok]
          split at still
          · cases still
          · next other => rw [if_neg other]
      | msg | nothing => exact if_neg notCurrent
    | _ => cases ret <;> exact if_neg notCurrent
  | goOn => cases ret <;> exact if_neg notCurrent
  | tick | switch => cases ret <;> rfl

/-- A shell that waits goes on only when its child has ended. -/
theorem Sound.leaves (sound : Sound s) (shell : s.shell = some p) (phase : s.phase = .waiting c)
    (h : s.step event = some (ret, s')) (still : s'.shell = some p) (left : s'.phase ≠ .waiting c) : s.ended =
      true := by
  obtain ⟨permits, taken, same⟩ := step_cases h
  have waits := sound.attends p shell
  rw [Attends, phase] at waits
  cases event with
  | start => cases shell.symm.trans permits.2
  | command => cases phase.symm.trans permits.2.2
  | step label =>
    by_cases passive : label.Passive
    · rw [same, record_passive passive] at left
      exact absurd phase left
    by_cases current : s.Current
    · have own : label = .call .receive ∨ label = .goOn := by
        cases label with
        | goOn => exact Or.inr rfl
        | call call =>
          cases permits.2.2 current with
          | inl none => cases (phase ▸ none)
          | inr next => exact Or.inl (by rw [Option.some.inj (next.symm.trans (by rw [phase]; rfl))])
        | tick rx => exact absurd (Or.inl ⟨rx, rfl⟩) passive
        | switch psp => exact absurd (Or.inr ⟨psp, rfl⟩) passive
      obtain ⟨a, good, -⟩ := sound.led
      have phase' : s'.phase = (Phase.waiting c).after ret := by
        rw [same, record_own ?_, if_pos current, phase]
        obtain rfl | rfl := own
        · exact Or.inr ⟨.receive, rfl, by simp⟩
        · exact Or.inl rfl
      rw [phase'] at left
      rcases good.receives sound.receiving (Option.some.inj (current.symm.trans shell)) own taken with
        ⟨rfl, -⟩ | ⟨msg, rfl, full, -⟩
      · exact absurd rfl left
      · -- the message is the child, and only its notice is
        have child : int32 msg.toNat = c := by
          by_contra other
          rw [Phase.after, if_neg other] at left
          exact left rfl
        obtain ⟨-, owns, notTold⟩ | ⟨ended, -⟩ := waits.told
        · exact absurd (by rw [full, eq_deathNotice owns.pid child]) notTold
        · exact ended
    · rw [same] at still
      rw [same, record_phase current still] at left
      exact absurd phase left

/-- In its loop the shell is not left blocked when its child has ended: the notice is in its mailbox, and it has the
processor or gets it with the switch that is pending. And it goes on only when the child has ended. -/
theorem shell_waits (image : BootImage) (ram : Nat → UInt8) {events : List ShellEvent}
    (run : Run events (boot image ram) s)
    (shell : s.shell = some p) (phase : s.phase = .waiting c) :
    (s.ended = true →
      (s.system.kernel.proctab p).prstate ≠ .recv ∧ s.system.kernel.mailbox p = some (deathNotice c) ∧
        (s.system.kernel.pendsv = false → s.Current ∧ running s.system.kernel.toSched)) ∧
      ∀ event ret s', s.step event = some (ret, s') → s'.shell = some p → s'.phase ≠ .waiting c → s.ended = true := by
  have sound := (sound_boot image ram).run run
  refine ⟨fun ended => ?_, fun event ret s' h still left => sound.leaves shell phase h still left⟩
  obtain ⟨a, good, -, prompt⟩ := sound.led
  obtain ⟨pid, -, -⟩ := sound.alive p shell
  have waits := sound.attends p shell
  rw [Attends, phase] at waits
  obtain ⟨-, -, told⟩ := waits.told.resolve_left fun notEnded => by
    cases ended.symm.trans notEnded.1
  have notBlocked : (s.system.kernel.proctab p).prstate ≠ .recv := by
    intro blocked
    cases told.symm.trans (sound.receiving.waits pid blocked).1
  refine ⟨notBlocked, told, fun pending => ?_⟩
  obtain curr | ready | recv := waits.state
  · have state := curr
    rw [good.tracks.state] at state
    have current := good.inv.current pid state
    rw [← good.tracks.currpid] at current
    exact ⟨by rw [Current, shell, current], by rw [running, ← current]; exact curr⟩
  · rw [good.tracks.state] at ready
    rw [good.tracks.pendsv] at pending
    cases pending.symm.trans (prompt p shell ready)
  · exact absurd recv notBlocked

/-- The shell is created and gets the processor. It runs a command in the background, and another one that it waits for.
The first one ends while the shell is blocked, then the other one. -/
def twoCommands : List ShellEvent :=
  [.start 0x08017000, .step (.call (.resume 1)), .step (.switch 0),
    .command 0x08018000 [] 1 0 true, .step (.call .recvclr), .step (.call (.resume 2)), .step (.switch 0),
    .command 0x08019000 [] 1 0 false, .step (.call .recvclr), .step (.call (.resume 3)), .step (.switch 0),
    .step (.call .receive), .step (.switch 0), .step (.call (.kill 2)), .step (.switch 0), .step .goOn,
    .step (.call .receive), .step (.switch 0), .step (.call (.kill 3)), .step (.switch 0)]

set_option maxRecDepth 100000 in
theorem twoCommands_waits : ∃ s, exec twoCommands (boot smallImage fun _ => 0) = some s ∧ s.phase = .waiting 3 ∧
    s.ended = true ∧ s.system.kernel.mailbox 1 = some (deathNotice 3) ∧ s.Current := by
  have runs : ((exec twoCommands (boot smallImage fun _ => 0)).map fun s =>
      (s.shell, s.phase, s.ended, s.system.kernel.pendsv)) = some (some 1, .waiting 3, true, false) := by decide +kernel
  obtain ⟨s, returns, seen⟩ := Option.map_eq_some_iff.mp runs
  simp only [Prod.mk.injEq] at seen
  obtain ⟨shell, phase, ended, pending⟩ := seen
  obtain ⟨-, told, current⟩ := (shell_waits smallImage _ (run_exec returns) shell phase).1 ended
  exact ⟨s, returns, phase, ended, told, (current pending).1⟩

end ShellSystem

end XinuStm32
