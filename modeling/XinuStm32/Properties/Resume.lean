import XinuStm32.Properties.Consistency
import XinuStm32.Refinement.Turns

/-!
# `resume` between its test and `ready`

`resume` does not mask interrupts. A process can be switched out when it has found another one suspended and before
it calls `ready`, and meanwhile others may resume, run or kill that one.
-/

namespace XinuStm32

open Links View

/-- The test at the start of `resume`. -/
def resumable (pid : Int) (s : Kernel) : Prop := ¬ isbadpid pid s.toSched ∧ (s.proctab pid).prstate = .susp

instance (pid : Int) (s : Kernel) : Decidable (resumable pid s) := inferInstanceAs (Decidable (_ ∧ _))

/-- The test and the call of `ready` together are `resume` without interruption. -/
theorem resume_parts (pid : Int) (s : Kernel) :
    resume pid s =
      if resumable pid s then ((s.proctab pid).prprio.toInt, (ready pid s).2) else (SYSERR, s) := by
  by_cases bad : isbadpid pid s.toSched
  · rw [if_neg (show ¬ resumable pid s from fun both => both.1 bad), resume, if_pos bad]
  · by_cases suspended : (s.proctab pid).prstate = .susp
    · rw [if_pos (show resumable pid s from ⟨bad, suspended⟩), resume, if_neg bad,
        if_neg (not_not_intro suspended)]
    · rw [if_neg (show ¬ resumable pid s from fun both => suspended both.2), resume, if_neg bad, if_pos suspended]

/-- The system, and for each process the one it is resuming: it has tested it and not called `ready`. -/
structure Resuming where
  system : System
  inside : Int → Option Int

namespace Resuming

inductive Act where
  | step (label : Label)
  | turn (p : Int)
  | test (p : Int)
  | ready
  deriving DecidableEq

/-- The steps that the running process makes. -/
def byCaller : Label → Bool
  | .call _ | .goOn => true
  | .tick _ | .switch _ => false

/-- `resume` is the only call that is not one step. -/
def isResume : Label → Bool
  | .call (.resume _) => true
  | _ => false

/-- A process that was just created is not inside `resume`. -/
def spawned (label : Label) (ret : Ret) (inside : Int → Option Int) : Int → Option Int :=
  match label, ret with
  | .call (.create ..), .value pid => Function.update inside pid none
  | _, _ => inside

def next (act : Act) (s : Resuming) : Option Resuming :=
  let caller := s.system.kernel.currpid
  match act with
  | .step label =>
    if isResume label = false ∧ (byCaller label → s.inside caller = none) then
      (s.system.step label).map fun (ret, system) => ⟨system, spawned label ret s.inside⟩
    else none
  | .turn p => (s.system.take (.turn p)).map fun (_, system) => { s with system := system }
  | .test p =>
    if running s.system.kernel.toSched ∧ s.system.pc caller = .user ∧ s.inside caller = none then
      if resumable p s.system.kernel then some { s with inside := Function.update s.inside caller (some p) }
      else some s
    else none
  | .ready =>
    match s.inside caller with
    | some p =>
      if running s.system.kernel.toSched then
        some ⟨{ s.system with kernel := (XinuStm32.ready p s.system.kernel).2 }, Function.update s.inside caller none⟩
      else none
    | none => none

def start (image : BootImage) (ram : Nat → UInt8) : Resuming := ⟨boot image int32 ram, fun _ => none⟩

/-! ## The ready list -/

/-- The ready list is linked both ways, and the ready processes are on it, each once. -/
structure ReadyLinked (s : Kernel) : Prop where
  linked : Linked s.queuetab.nextOf s.queuetab.prevOf
    (queuehead s.readylist :: s.queuetab.members s.readylist ++ [queuetail s.readylist])
  once : (s.queuetab.members s.readylist).Nodup
  ready_iff : ∀ p, IsPid p → ((s.proctab p).prstate = .ready ↔ p ∈ s.queuetab.members s.readylist)

/-- When `ready` is called the process is still suspended, or `ready` refuses it, or it waits in `receive`, where it
is in no queue either. -/
def Meets (act : Act) (s : Resuming) : Prop :=
  act = .ready → ∀ p ∈ s.inside s.system.kernel.currpid,
    isbadpid p s.system.kernel.toSched ∨ (s.system.kernel.proctab p).prstate = .susp ∨
      (s.system.kernel.proctab p).prstate = .recv

instance (act : Act) (s : Resuming) : Decidable (s.Meets act) := inferInstanceAs (Decidable (_ → _))

variable {s s' : Resuming} {a : View} {act : Act}

theorem readyLinked (good : Good s.system a) : ReadyLinked s.system.kernel := by
  have consistent := good.consistent
  have allocated : s.system.kernel.Allocated s.system.kernel.readylist := by
    rw [good.isQueue_iff, good.tracks.readylist]
    exact good.inv.isQueue_readylist
  refine ⟨consistent.linked allocated, consistent.nodup allocated, fun p pid => ?_⟩
  rw [good.tracks.readylist, good.members_eq good.inv.isQueue_readylist, good.tracks.state]
  exact ⟨fun ready => good.inv.placed.mpr ⟨pid, home_ready ready⟩, fun member => (good.inv.ready_of_mem member).2⟩

/-- `ready` of a process that is in no queue, whoever calls it. -/
theorem ready_good {s : System} {p : Int} (good : Good s a)
    (still : isbadpid p s.kernel.toSched ∨ (s.kernel.proctab p).prstate = .susp ∨
      (s.kernel.proctab p).prstate = .recv) :
    ∃ a', Good { s with kernel := (XinuStm32.ready p s.kernel).2 } a' := by
  by_cases bad : isbadpid p s.kernel.toSched
  · have same : XinuStm32.ready p s.kernel = (SYSERR, s.kernel) := by rw [XinuStm32.ready, if_pos bad]
    rw [same]
    exact ⟨a, good⟩
  · obtain ⟨pid, live⟩ := good.tracks.live_of_good bad
    have state := still.resolve_left bad
    rw [good.tracks.state] at state
    have unqueued : Unqueued (a.state p) := by
      cases state with
      | inl susp => exact Or.inr (Or.inr (Or.inr susp))
      | inr recv => exact Or.inr (Or.inr (Or.inl recv))
    have readied := (good.tracks.ready pid live good.inv.isQueue_readylist
      (good.inv.not_member (home_none unqueued))).2
    have steady := (frame_ready (s := s.kernel) p).toSteady
    exact ⟨_,
      { tracks := readied
        inv := good.inv.step (.ready pid state)
        grows := steady.counting ▸ good.grows
        ndefers := steady.ndefers.trans good.ndefers
        nextsem := steady.nextsem good.nextsem
        nextqid := steady.nextqid.trans good.nextqid
        readyPreemptive := steady.readyPreemptive.trans good.readyPreemptive
        awake := Or.inl rfl }⟩

/-! ## Runs -/

theorem next_good (good : Good s.system a) (taken : s.next act = some s') (meets : s.Meets act) :
    ∃ a', Good s'.system a' := by
  cases act with
  | step label =>
    simp only [next, Option.ite_none_right_eq_some, Option.map_eq_some_iff, Prod.exists] at taken
    obtain ⟨-, ret, system, does, rfl⟩ := taken
    obtain ⟨-, a', -, -, good'⟩ := good.step ⟨ret, does⟩
    exact ⟨a', good'⟩
  | turn p =>
    simp only [next, System.take, Option.map_eq_some_iff, Option.ite_none_right_eq_some, Prod.exists,
      Option.some.injEq, Prod.mk.injEq] at taken
    obtain ⟨ret, system, ⟨⟨pid, ready⟩, -, rfl⟩, rfl⟩ := taken
    obtain ⟨a', good', -⟩ := good.turn pid ready
    exact ⟨a', good'⟩
  | test p =>
    simp only [next, Option.ite_none_right_eq_some] at taken
    obtain ⟨-, taken⟩ := taken
    refine ⟨a, ?_⟩
    split at taken
    · cases taken
      exact good
    · cases taken
      exact good
  | ready =>
    simp only [next] at taken
    split at taken
    · next p inside =>
      simp only [Option.ite_none_right_eq_some, Option.some.injEq] at taken
      obtain ⟨-, rfl⟩ := taken
      exact ready_good good (meets rfl p inside)
    · cases taken

/-- However the calls of `resume` are switched, the ready list is intact as long as each finds its process still in no
queue when it calls `ready`. -/
theorem resumes_linked (image : BootImage) (ram : Nat → UInt8) {acts : List Act} {s : Resuming}
    (run : Transition.Run (fun act s s' => s.next act = some s' ∧ s.Meets act) acts (start image ram) s) :
    ReadyLinked s.system.kernel := by
  have started : ∃ a, Good (start image ram).system a := ⟨_, (boot_booted image int32 ram).good grows_int32⟩
  obtain ⟨a, good⟩ := run.invariant (fun s => ∃ a, Good s.system a) (fun _ _ _ step reached => by
    obtain ⟨a, good⟩ := reached
    exact next_good good step.1 step.2) started
  exact readyLinked good

/-- The null process starts a first one, which creates two more and starts one of them. -/
def threeProcesses : List Act :=
  [.step (.call (.create 0x08017000 1024 20 [] [])), .test 1, .ready, .turn 1,
    .step (.call (.create 0x08018000 1024 20 [] [])), .step (.call (.create 0x08018000 1024 20 [] [])), .test 2, .ready]

/-- The first process is switched out inside `resume`, and goes on there. -/
def switchedOut : List Act := threeProcesses ++ [.test 3, .turn 2, .turn 1, .ready]

set_option maxRecDepth 100000 in
theorem switchedOut_linked : ∃ s,
    Transition.Run (fun act s s' => s.next act = some s' ∧ s.Meets act) switchedOut (start smallImage fun _ => 0) s ∧
      ReadyLinked s.system.kernel := by
  have runs : (Transition.exec (fun act s => if s.Meets act then s.next act else none) switchedOut
      (start smallImage fun _ => 0)).isSome := by decide +kernel
  obtain ⟨s, returns⟩ := Option.isSome_iff_exists.mp runs
  have run : Transition.Run (fun act s s' => s.next act = some s' ∧ s.Meets act) switchedOut
      (start smallImage fun _ => 0) s := by
    apply Transition.run_exec _ returns
    intro act s s' taken
    obtain ⟨meets, does⟩ := Option.ite_none_right_eq_some.mp taken
    exact ⟨does, meets⟩
  exact ⟨s, run, resumes_linked smallImage _ run⟩

/-- Both processes find the third one suspended, and both call `ready`. -/
def twoResumes : List Act := threeProcesses ++ [.test 3, .turn 2, .test 3, .ready, .turn 1, .ready]

set_option maxRecDepth 100000 in
/-- The third process is put on the ready list again, behind the second one, which is ready and no longer found. -/
theorem twoResumes_unlinked : ∃ s, Transition.Run (fun act s s' => s.next act = some s') twoResumes
    (start smallImage fun _ => 0) s ∧ ¬ ReadyLinked s.system.kernel := by
  have runs : ((Transition.exec next twoResumes (start smallImage fun _ => 0)).map fun s =>
      ((s.system.kernel.proctab 2).prstate, s.system.kernel.queuetab.members s.system.kernel.readylist)) =
      some (.ready, [3, 0]) := by decide +kernel
  obtain ⟨s, returns, seen⟩ := Option.map_eq_some_iff.mp runs
  obtain ⟨ready, members⟩ := Prod.mk.inj seen
  refine ⟨s, Transition.run_exec (fun _ _ _ taken => taken) returns, fun intact => ?_⟩
  have member := (intact.ready_iff 2 (by decide)).mp ready
  rw [members] at member
  exact absurd member (by decide)

end Resuming

end XinuStm32
