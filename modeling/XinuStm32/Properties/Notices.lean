import XinuStm32.Properties.Messages
import XinuStm32.Refinement.Parents

/-!
# Who is told of a termination

An entry names the parent by its slot. Beside the system we count the processes that were created in each slot, so
that a process is told from a later one in its slot. The notice goes to the slot, whoever is in it.
-/

namespace XinuStm32

open View

/-- The system, with how many processes have been created in each slot. -/
structure Lineage where
  system : System
  births : Int → Nat

namespace Lineage

/-- The processes created so far after a step. -/
def recordBirth (post : Option Post) (births : Int → Nat) : Int → Nat :=
  match post with
  | some (.created p) => Function.update births p (births p + 1)
  | _ => births

/-- A step, or a turn of any ready process. -/
def step (event : Event) (s : Lineage) : Option (Ret × Lineage) :=
  match event with
  | .step label => (s.system.step label).map fun (ret, system) =>
      (ret, ⟨system, recordBirth (s.system.post label ret) s.births⟩)
  | .turn p => (s.system.take (.turn p)).map fun (ret, system) => (ret, ⟨system, s.births⟩)

abbrev Run : List Event → Lineage → Lineage → Prop :=
  Transition.Run fun event s s' => ∃ ret, s.step event = some (ret, s')

/-- The state after a list of events. -/
def exec : List Event → Lineage → Option Lineage :=
  Transition.exec fun event s => (s.step event).map Prod.snd

theorem run_exec {events : List Event} {s s' : Lineage} (returns : exec events s = some s') : Run events s s' := by
  apply Transition.run_exec _ returns
  intro event s s' taken
  obtain ⟨⟨ret, s''⟩, does, rfl⟩ := Option.map_eq_some_iff.mp taken
  exact ⟨ret, does⟩

/-- The booted system. -/
def start (image : BootImage) (ram : Nat → UInt8) : Lineage := ⟨boot image int32 ram, fun _ => 0⟩

/-- The slot has a process. -/
def Live (p : Int) (s : Lineage) : Prop := (s.system.kernel.proctab p).prstate ≠ .free

instance (p : Int) (s : Lineage) : Decidable (s.Live p) := inferInstanceAs (Decidable (_ ≠ _))

variable {s s' : Lineage} {event : Event} {ret : Ret}

/-! ## Steps -/

theorem step_cases (h : s.step event = some (ret, s')) :
    (∃ label, event = .step label ∧ s.system.step label = some (ret, s'.system) ∧
      s'.births = recordBirth (s.system.post label ret) s.births) ∨
    ∃ p, event = .turn p ∧ IsPid p ∧ (s.system.kernel.proctab p).prstate = .ready ∧
      s'.system = { s.system with kernel := turnTo p s.system.kernel } ∧ s'.births = s.births := by
  cases event with
  | step label =>
    simp only [step, Option.map_eq_some_iff, Prod.exists, Prod.mk.injEq] at h
    obtain ⟨ret', system, taken, rfl, rfl⟩ := h
    exact Or.inl ⟨label, rfl, taken, rfl⟩
  | turn p =>
    simp only [step, System.take, Option.map_eq_some_iff, Prod.exists, Prod.mk.injEq] at h
    obtain ⟨ret', system, taken, rfl, rfl⟩ := h
    split at taken
    · next guard =>
      obtain ⟨-, rfl⟩ := Prod.mk.inj (Option.some.inj taken)
      exact Or.inr ⟨p, rfl, guard.1, guard.2, rfl, rfl⟩
    · cases taken

/-- The running system behaves. -/
structure Sound (s : Lineage) : Prop where
  good : ∃ a, Good s.system a
  receiving : Receiving s.system

theorem sound_start (image : BootImage) (ram : Nat → UInt8) : Sound (start image ram) :=
  ⟨(Recorded.sound_start image ram).good, (Recorded.sound_start image ram).receiving⟩

theorem Sound.step (sound : Sound s) (h : s.step event = some (ret, s')) : Sound s' := by
  obtain ⟨a, good⟩ := sound.good
  obtain ⟨label, -, taken, -⟩ | ⟨p, -, pid, ready, system, -⟩ := step_cases h
  · obtain ⟨-, a', -, -, good'⟩ := good.step ⟨ret, taken⟩
    exact ⟨⟨a', good'⟩, sound.receiving.step good taken⟩
  · obtain ⟨a', good', -⟩ := good.turn pid ready
    exact ⟨⟨a', system ▸ good'⟩, system ▸ sound.receiving.turn good pid ready⟩

theorem Sound.run {events : List Event} (sound : Sound s) (run : Run events s s') : Sound s' :=
  run.invariant Sound (fun _ _ _ step sound => step.elim fun _ h => sound.step h) sound

/-- What a step leaves of a live process that it does not kill: the process, and its parent. -/
structure Keeps (p : Int) (s s' : Lineage) : Prop where
  live : s'.Live p
  births : s'.births p = s.births p
  parent : s'.system.kernel.parent p = s.system.kernel.parent p

theorem Sound.keeps (sound : Sound s) (h : s.step event = some (ret, s')) {p : Int} (live : s.Live p)
    (notKill : event ≠ .step (.call (.kill p))) : Keeps p s s' := by
  obtain ⟨a, good⟩ := sound.good
  obtain ⟨label, rfl, taken, births⟩ | ⟨q, -, pid, ready, system, births⟩ := step_cases h
  · have live' := good.freed ⟨ret, taken⟩ live fun same => notKill (by rw [same])
    have parents := good.step_parents taken
    have delivers := good.step_delivers sound.receiving taken
    generalize s.system.post label ret = post at births parents delivers
    -- only `create` touches the parent of a process, and it takes a free slot
    cases delivers with
    | nothing => exact ⟨live', by rw [births]; rfl, by rw [parents]; rfl⟩
    | accepted => exact ⟨live', by rw [births]; rfl, by rw [parents]; rfl⟩
    | returned => exact ⟨live', by rw [births]; rfl, by rw [parents]; rfl⟩
    | @created q _ free =>
      have other : p ≠ q := by
        rintro rfl
        exact live free
      exact ⟨live', by rw [births]; exact Function.update_of_ne other .., by
        rw [parents]
        exact Function.update_of_ne other ..⟩
  · obtain ⟨a', good', changes⟩ := good.turn pid ready
    refine ⟨?_, by rw [births], by rw [system]; exact congrFun (frame_turnTo q).parent p⟩
    have after : (s'.system.kernel.proctab p).prstate = a'.state p := by
      rw [system]
      exact good'.tracks.state p
    rw [Live, good.tracks.state] at live
    rw [Live, after]
    obtain same | moved | moved := changes p
    · rwa [same]
    all_goals
      generalize a.state p = old, a'.state p = new at moved
      cases moved
      decide

theorem Sound.keeps_run (sound : Sound s) {events : List Event} (run : Run events s s') {p : Int} (live : s.Live p)
    (notKilled : .step (.call (.kill p)) ∉ events) : Keeps p s s' := by
  have whole := run.invariant_of_allowed (fun t => Sound t ∧ Keeps p s t) (· ≠ .step (.call (.kill p))) ?_
    (fun event member same => notKilled (same ▸ member)) ⟨sound, live, rfl, rfl⟩
  · exact whole.2
  · rintro event t t' other ⟨ret, h⟩ ⟨sound, kept⟩
    have next := sound.keeps h kept.live other
    exact ⟨sound.step h, next.live, next.births.trans kept.births, next.parent.trans kept.parent⟩

/-- A process is created in a free slot by the process that runs. -/
theorem Sound.created (sound : Sound s) {procaddr ssize : UInt32} {priority : Int16} {name : List UInt8}
    {args : List UInt32} {c : Int}
    (h : s.step (.step (.call (.create procaddr ssize priority name args))) = some (.value c, s'))
    (success : c ≠ SYSERR) :
    IsPid c ∧ c ≠ NULLPROC ∧ s'.Live c ∧ s'.system.kernel.parent c = s.system.kernel.currpid ∧
      Keeps s.system.kernel.currpid s s' := by
  obtain ⟨a, good⟩ := sound.good
  rcases step_cases h with ⟨label, same, taken, -⟩ | ⟨_, other, -⟩
  · cases same
    obtain ⟨runs, -, -, pc, returns, -⟩ := System.call_cases taken
    have parents := good.step_parents taken
    have post : s.system.post (.call (.create procaddr ssize priority name args)) (.value c) = some (.created c) :=
      if_pos success
    rw [post] at parents
    simp only [execCall, Option.some.injEq, Prod.mk.injEq, Ret.value.injEq] at returns
    obtain ⟨result, kernel, -⟩ := returns
    rcases create_follows good.tracks procaddr ssize priority name args with
      ⟨failed, -⟩ | ⟨q, found, pid, free, a', run, track⟩
    · exact absurd (result.symm.trans failed) success
    · obtain rfl : c = q := result.symm.trans found
      have caller : s.Live s.system.kernel.currpid := by
        rw [Live, runs]
        decide
      have notNull : c ≠ NULLPROC := by
        rintro rfl
        cases good.inv.idle with
        | inl runs => cases runs.symm.trans free
        | inr ready => cases ready.symm.trans free
      refine ⟨pid, notNull, ?_, ?_, sound.keeps h caller (by simp)⟩
      · cases run with
        | cons spawn rest =>
          cases rest
          rw [Live, ← kernel, track.state]
          cases spawn with
          | spawn _ _ new =>
            rw [state_enroll, if_pos rfl, new]
            decide
      · rw [parents]
        exact Function.update_self ..
  · cases other

/-- `kill` of a process that lives, and is not the null process, succeeds if it returns. -/
theorem kill_ok {p : Int} {status : Int} {k k' : Kernel} (good : ¬ isbadpid p k.toSched) (notNull : p ≠ NULLPROC)
    (live : (k.proctab p).prstate ≠ .free) (returns : kill p k = some (status, k')) : status = OK := by
  simp only [kill] at returns
  split at returns
  · next refused =>
    obtain bad | null | free := refused
    · exact absurd bad good
    · exact absurd null notNull
    · exact absurd free live
  · split at returns
    · cases returns
    · exact (Prod.mk.inj (Option.some.inj returns)).1.symm

/-- What `kill` does to the mailboxes: the notice goes to the slot of the parent, if a process is there whose mailbox
is empty. -/
theorem Sound.notice (sound : Sound s) {c : Int} (h : s.step (.step (.call (.kill c))) = some (ret, s'))
    (good : ¬ isbadpid c s.system.kernel.toSched) (notNull : c ≠ NULLPROC) (live : s.Live c) :
    s'.system.kernel.mailbox =
      if ¬ isbadpid (s.system.kernel.parent c) s.system.kernel.toSched ∧
          s.system.kernel.mailbox (s.system.kernel.parent c) = none then
        Function.update s.system.kernel.mailbox (s.system.kernel.parent c) (some (deathNotice c))
      else s.system.kernel.mailbox := by
  obtain ⟨a, inv⟩ := sound.good
  obtain ⟨label, same, taken, -⟩ | ⟨_, other, -⟩ := step_cases h
  · cases same
    obtain ⟨status, rfl, killed⟩ := System.step_kill taken
    obtain rfl : status = OK := kill_ok good notNull live killed
    have delivers := kill_delivers c killed
    rcases send_cases (s := s.system.kernel) (s.system.kernel.parent c) (deathNotice c) with
      ⟨why, refused, -⟩ | ⟨there, vacant, sent, -⟩
    · rw [if_neg (by rintro ⟨-, accepted⟩; exact absurd (refused.symm.trans accepted) (by decide))] at delivers
      rw [if_neg (by
        rintro ⟨there, vacant⟩
        rw [mailbox_none_iff] at vacant
        cases why with
        | inl bad => exact there bad
        | inr full =>
          rw [vacant] at full
          cases full)]
      cases delivers with
      | nothing kept => exact kept
    · rw [if_pos ⟨rfl, sent⟩] at delivers
      rw [if_pos ⟨there, (mailbox_none_iff _).mpr vacant⟩]
      cases delivers with
      | accepted _ _ stored => exact stored
  · cases other

/-! ## The notice -/

/-- The notice of a process that `creator` created goes to the slot of `creator` and nowhere else. While the creator has
not been killed it is in this slot, and the notice is for it. Later the notice is for whoever is there, if anyone is. -/
theorem notice_to_slot (image : BootImage) (ram : Nat → UInt8) {before later : List Event} {s s₁ s₂ s₃ : Lineage}
    {procaddr ssize : UInt32} {priority : Int16} {name : List UInt8} {args : List UInt32} {c : Int}
    (run : Run before (start image ram) s)
    (created : s.step (.step (.call (.create procaddr ssize priority name args))) = some (.value c, s₁))
    (success : c ≠ SYSERR) (rest : Run later s₁ s₂) (notKilled : .step (.call (.kill c)) ∉ later)
    (killed : s₂.step (.step (.call (.kill c))) = some (ret, s₃)) :
    (∀ p, p ≠ s.system.kernel.currpid → s₃.system.kernel.mailbox p = s₂.system.kernel.mailbox p) ∧
      (s₃.system.kernel.mailbox s.system.kernel.currpid =
        if s₂.Live s.system.kernel.currpid ∧ s₂.system.kernel.mailbox s.system.kernel.currpid = none then
          some (deathNotice c)
        else s₂.system.kernel.mailbox s.system.kernel.currpid) ∧
      (.step (.call (.kill s.system.kernel.currpid)) ∉ later →
        s₂.Live s.system.kernel.currpid ∧
          s₂.births s.system.kernel.currpid = s.births s.system.kernel.currpid) := by
  have sound := (sound_start image ram).run run
  obtain ⟨pid, notNull, live, parent, caller⟩ := sound.created created success
  have sound₁ := sound.step created
  have sound₂ := sound₁.run rest
  obtain ⟨a, good⟩ := sound.good
  -- the child is the same process until it is killed, with the same parent
  have child := sound₁.keeps_run rest live notKilled
  have slot : s₂.system.kernel.parent c = s.system.kernel.currpid := child.parent.trans parent
  have inTable {p : Int} (pid : IsPid p) : ¬ isbadpid p s₂.system.kernel.toSched ↔ s₂.Live p := by
    obtain ⟨a₂, good₂⟩ := sound₂.good
    rw [good₂.tracks.isbadpid_iff, not_not, Live, good₂.tracks.state]
    exact and_iff_right pid
  have told := sound₂.notice killed ((inTable pid).mpr child.live) notNull child.live
  simp only [slot, inTable (good.tracks.currpid ▸ good.inv.currpid)] at told
  refine ⟨fun p notCreator => ?_, ?_, fun notKilled' => ?_⟩
  · rw [told]
    split
    · exact Function.update_of_ne notCreator ..
    · rfl
  · rw [told]
    split
    · exact Function.update_self ..
    · rfl
  · have kept := sound₁.keeps_run rest caller.live notKilled'
    exact ⟨kept.live, kept.births.trans caller.births⟩

/-- The null process creates a first process, which gets its turn. -/
def firstProcess : List Event :=
  [.step (.call (.create 0x08017000 1024 20 [] [])), .step (.call (.resume 1)), .turn 1]

/-- The call in which it creates the next one. -/
def nextProcess : Event := .step (.call (.create 0x08018000 256 20 [] []))

/-- It fills the table with others, of which one gets its turn when it has killed itself. That one creates a process
in the slot. -/
def slotReused : List Event :=
  List.replicate 9 nextProcess ++ [.step (.call (.resume 3)), .step (.call (.kill 1)), .turn 3, nextProcess]

/-- Create a process, do other things, kill it. -/
def createdAndKilled (later : List Event) : Option (Lineage × Lineage × Lineage × Lineage) :=
  (exec firstProcess (start smallImage fun _ => 0)).bind fun s =>
    (s.step nextProcess).bind fun (ret, s₁) =>
      (exec later s₁).bind fun s₂ =>
        (s₂.step (.step (.call (.kill 2)))).bind fun (ret', s₃) =>
          if ret = .value 2 ∧ ret' = .value OK then some (s, s₁, s₂, s₃) else none

theorem createdAndKilled_runs {later : List Event} {s s₁ s₂ s₃ : Lineage}
    (returns : createdAndKilled later = some (s, s₁, s₂, s₃)) :
    Run firstProcess (start smallImage fun _ => 0) s ∧ s.step nextProcess = some (.value 2, s₁) ∧ Run later s₁ s₂ ∧
      s₂.step (.step (.call (.kill 2))) = some (.value OK, s₃) := by
  simp only [createdAndKilled, Option.bind_eq_some_iff, Prod.exists, Option.ite_none_right_eq_some,
    Option.some.injEq, Prod.mk.injEq] at returns
  obtain ⟨s, first, ret, s₁, next, s₂, rest, ret', s₃, last, ⟨rfl, rfl⟩, rfl, rfl, rfl, rfl⟩ := returns
  exact ⟨run_exec first, next, run_exec rest, last⟩

set_option maxRecDepth 100000 in
/-- A parent is told of its child. -/
theorem child_noticed : ∃ s₂ s₃ : Lineage, s₃.system.kernel.mailbox 1 =
    if s₂.Live 1 ∧ s₂.system.kernel.mailbox 1 = none then some 2 else s₂.system.kernel.mailbox 1 := by
  have runs : ((createdAndKilled []).map fun s => s.1.system.kernel.currpid) = some 1 := by decide +kernel
  obtain ⟨⟨s, s₁, s₂, s₃⟩, returns, creator⟩ := Option.map_eq_some_iff.mp runs
  obtain ⟨first, created, rest, killed⟩ := createdAndKilled_runs returns
  have told := notice_to_slot smallImage _ first created (by decide) rest (by simp) killed
  rw [creator] at told
  exact ⟨s₂, s₃, told.2.1⟩

set_option maxRecDepth 100000 in
/-- A process that was created in the slot of the parent is told of a child that is not its own. -/
theorem stranger_noticed : ∃ (later : List Event) (s s₁ s₂ s₃ : Lineage),
    Run firstProcess (start smallImage fun _ => 0) s ∧ s.step nextProcess = some (.value 2, s₁) ∧ Run later s₁ s₂ ∧
      .step (.call (.kill 2)) ∉ later ∧ s₂.step (.step (.call (.kill 2))) = some (.value OK, s₃) ∧
      s₂.births s.system.kernel.currpid ≠ s.births s.system.kernel.currpid ∧
      s₂.system.kernel.mailbox s.system.kernel.currpid = none ∧
      s₃.system.kernel.mailbox s.system.kernel.currpid = some 2 := by
  have runs : ((createdAndKilled slotReused).map fun s =>
      (s.1.births s.1.system.kernel.currpid, s.2.2.1.births s.1.system.kernel.currpid,
        s.2.2.1.system.kernel.mailbox s.1.system.kernel.currpid,
        s.2.2.2.system.kernel.mailbox s.1.system.kernel.currpid)) = some (1, 2, none, some 2) := by decide +kernel
  obtain ⟨⟨s, s₁, s₂, s₃⟩, returns, seen⟩ := Option.map_eq_some_iff.mp runs
  obtain ⟨first, created, rest, killed⟩ := createdAndKilled_runs returns
  simp only [Prod.mk.injEq] at seen
  obtain ⟨before, after, empty, full⟩ := seen
  refine ⟨slotReused, s, s₁, s₂, s₃, first, created, rest, by decide, killed, ?_, empty, full⟩
  rw [before, after]
  decide

end Lineage

end XinuStm32
