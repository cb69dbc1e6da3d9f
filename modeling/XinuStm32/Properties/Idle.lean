import XinuStm32.Refinement.Mailbox
import XinuStm32.Properties.Consistency

/-!
# There is always a process to run

The null process is never taken out of the ready list but to run, so the context switch finds a
process whenever it looks for one. The current process is live except after it killed itself, until
the switch it asked for.
-/

namespace XinuStm32

open View

/-- The state in which `reschedule` reaches the `dequeue` of `switchTo`, if it gets that far. -/
def reschedulePoint (s : Kernel) : Option Kernel :=
  let old := s.currpid
  if (s.proctab old).prstate = .curr then
    if (s.proctab old).prprio.toInt > firstkey s.readylist s.toSched then none
    else
      let s := s.setState old .ready
      some (insert old s.readylist (s.proctab old).prprio.toInt s).2
  else some s

/-- The state in which `PendSV_Handler` reaches its `dequeue`, if it gets that far. -/
def dequeuePoint (s : Kernel) : Option Kernel :=
  let s := { s with pendsv := false }
  if s.defer.ndefers > 0 then none else reschedulePoint s

/-- From there on the handler takes the first process of the ready list. -/
theorem pendSVHandler_dequeues {s s' : Kernel} (psp : Nat) (reaches : dequeuePoint s = some s') :
    pendSVHandler psp s = switchTo (sub32 psp 32) s' := by
  simp only [dequeuePoint, reschedulePoint] at reaches
  simp only [pendSVHandler, reschedule]
  split at reaches
  · cases reaches
  next allowed =>
  rw [if_neg allowed]
  split at reaches
  · next runs =>
    rw [if_pos runs]
    split at reaches
    · cases reaches
    · next lower => rw [if_neg lower, Option.some.inj reaches]
  · next stopped => rw [if_neg stopped, Option.some.inj reaches]

/-- What holds of the context switch and the current process in a state. -/
structure Dispatchable (s : System) : Prop where
  nonempty : ∀ {s'}, dequeuePoint s.kernel = some s' →
    ¬ isempty s'.readylist s'.toSched ∧ (dequeue s'.readylist s').1 ≠ EMPTY ∧
      ∀ psp, (pendSVHandler psp s.kernel).currpid = (dequeue s'.readylist s').1
  valid : IsPid s.kernel.currpid
  live : s.kernel.pendsv = false → (s.kernel.proctab s.kernel.currpid).prstate ≠ .free
  /-- Only its own `kill` makes the current process a free entry. -/
  suicide : ∀ {label s'}, System.Step label s s' →
    (s.kernel.proctab s.kernel.currpid).prstate ≠ .free →
    (s'.kernel.proctab s'.kernel.currpid).prstate = .free →
    label = .call (.kill s.kernel.currpid) ∧ s'.kernel.currpid = s.kernel.currpid ∧ s'.kernel.pendsv = true
  /-- After the switch the current process runs. -/
  switched : ∀ {psp s'}, System.Step (.switch psp) s s' →
    (s'.kernel.proctab s'.kernel.currpid).prstate = .curr

namespace Good

variable {s s' : System} {a : View}

/-- When the current process does not run, the null process is ready. -/
theorem stopped_members (inv : a.Inv) (stopped : a.state a.currpid ≠ .curr) :
    a.members a.readylist ≠ [] := by
  intro empty
  have pid : IsPid NULLPROC := by decide
  have member : NULLPROC ∈ a.members a.readylist := by
    refine inv.placed.mpr ⟨pid, home_ready ?_⟩
    cases inv.idle with
    | inl runs => exact absurd (inv.current pid runs ▸ runs) stopped
    | inr ready => exact ready
  simp [empty] at member

theorem dequeues {k : Kernel} {b : View} (track : Tracks 0 k b) (queue : IsQueue b.readylist)
    (members : b.members b.readylist ≠ []) :
    ¬ isempty k.readylist k.toSched ∧ (dequeue k.readylist k).1 ≠ EMPTY := by
  rw [track.readylist, track.isempty_iff queue]
  refine ⟨members, ?_⟩
  cases shape : b.members b.readylist with
  | nil => exact absurd shape members
  | cons p rest =>
    have pid := track.represents.wellFormed.pids (shape ▸ List.mem_cons_self : p ∈ b.members b.readylist)
    rw [(track.dequeue_cons queue shape).1]
    rintro rfl
    exact absurd pid (by decide)

/-- Wherever the switch reaches its `dequeue`, the ready list has a first process. -/
theorem reschedulePoint_tracks {k k' : Kernel} {b : View} (track : Tracks 0 k b) (inv : b.Inv)
    (reaches : reschedulePoint k = some k') :
    ∃ b', Tracks 0 k' b' ∧ IsQueue b'.readylist ∧ b'.members b'.readylist ≠ [] := by
  simp only [reschedulePoint, track.state, track.currpid] at reaches
  by_cases runs : b.state b.currpid = .curr
  · rw [if_pos runs] at reaches
    split at reaches
    · cases reaches
    · have marked := track.setState b.currpid .ready
      have list : (k.setState b.currpid .ready).readylist = b.readylist := marked.readylist
      have prio : ((k.setState b.currpid .ready).proctab b.currpid).prprio.toInt = b.prio b.currpid := by
        simp only [marked.proctab, setState, setProc_proctab, Function.update_self, View.prio]
      rw [list, prio] at reaches
      refine ⟨b.enterReady b.currpid, Option.some.inj reaches ▸ preempt_tracks track inv runs,
        inv.isQueue_readylist, fun empty => ?_⟩
      have member : b.currpid ∈ (b.enterReady b.currpid).members (b.enterReady b.currpid).readylist := by
        rw [readylist_enterReady, members_enterReady, if_pos rfl]
        exact List.mem_append_right _ List.mem_cons_self
      rw [empty] at member
      cases member
  · rw [if_neg runs] at reaches
    exact ⟨b, Option.some.inj reaches ▸ track, inv.isQueue_readylist, stopped_members inv runs⟩

theorem dispatchable (good : Good s a) : Dispatchable s where
  nonempty := by
    intro k reaches
    have point := reaches
    simp only [dequeuePoint, if_neg (Int.not_lt.mpr (Int.le_of_eq good.ndefers))] at point
    obtain ⟨b, track, queue, members⟩ :=
      reschedulePoint_tracks good.tracks.accept (good.inv.step .accept) point
    obtain ⟨full, result⟩ := dequeues track queue members
    refine ⟨full, result, fun psp => ?_⟩
    rw [pendSVHandler_dequeues psp reaches]
    rfl
  valid := good.tracks.currpid ▸ good.inv.currpid
  live := by
    intro settled
    cases good.awake with
    | inl pending => exact absurd (good.tracks.pendsv.symm.trans settled) (by simp [pending])
    | inr runs =>
      rw [good.tracks.state, good.tracks.currpid, runs]
      decide
  suicide := by
    intro label s' h live freed
    by_cases switches : ∃ psp, label = .switch psp
    · obtain ⟨psp, rfl⟩ := switches
      obtain ⟨moves, a', kind, run, good'⟩ := good.switch h
      rw [good'.tracks.state, good'.tracks.currpid, kind.runs run] at freed
      cases freed
    · obtain ⟨moves, a', permits, run, good'⟩ := good.step h
      have same : s'.kernel.currpid = s.kernel.currpid := by
        rw [good'.tracks.currpid, good.tracks.currpid]
        refine Transition.Run.invariant_of_allowed (fun b => b.currpid = a.currpid)
          (fun move => ∀ p, move ≠ .dispatch p) (fun _ _ _ other h same => (h.currpid other).trans same) run
          (fun move member p same => switches (Label.dispatches (same ▸ permits move member))) rfl
      rw [same] at freed
      have kills : label = .call (.kill s.kernel.currpid) := by
        by_contra other
        exact good.freed h live other freed
      refine ⟨kills, same, ?_⟩
      cases good'.awake with
      | inl pending =>
        rw [good'.tracks.pendsv, pending]
      | inr runs =>
        rw [← good'.tracks.state, ← good'.tracks.currpid, same, freed] at runs
        cases runs
  switched := by
    intro psp s' h
    obtain ⟨moves, a', kind, run, good'⟩ := good.switch h
    rw [good'.tracks.state, good'.tracks.currpid]
    exact kind.runs run

end Good

/-- Whatever the processes do and whenever the clock ticks, the context switch finds a process in the
ready list, and the current process is a valid one. -/
theorem reachable_dispatchable (image : BootImage) (ram : Nat → UInt8) {labels : List Label} {s : System}
    (run : System.Run labels (boot image int32 ram) s) : Dispatchable s := by
  obtain ⟨a, good⟩ := ((boot_booted image int32 ram).good grows_int32).run run
  exact good.dispatchable

set_option maxRecDepth 100000 in
theorem twoProcesses_dispatchable :
    ∃ s, System.exec twoProcesses (boot smallImage int32 fun _ => 0) = some s ∧ Dispatchable s := by
  have runs : (System.exec twoProcesses (boot smallImage int32 fun _ => 0)).isSome := by decide +kernel
  obtain ⟨s, returns⟩ := Option.isSome_iff_exists.mp runs
  exact ⟨s, returns, reachable_dispatchable smallImage _ (System.run_exec returns)⟩

/-- A process creates another and kills itself. -/
def suicide : List Label :=
  [.call (.create 0x08017000 1024 20 [] []), .call (.resume 1), .switch 0x2001e000,
    .call (.create 0x08018000 1024 15 [] []), .call (.kill 1)]

set_option maxRecDepth 100000 in
/-- Until the switch it asked for is taken, the current process is a free entry. -/
theorem suicide_free : ∃ s, System.Run suicide (boot smallImage int32 fun _ => 0) s ∧
    (s.kernel.proctab s.kernel.currpid).prstate = .free := by
  have runs : ((System.exec suicide (boot smallImage int32 fun _ => 0)).map
      fun s => (s.kernel.proctab s.kernel.currpid).prstate) = some .free := by decide +kernel
  obtain ⟨s, returns, free⟩ := Option.map_eq_some_iff.mp runs
  exact ⟨s, System.run_exec returns, free⟩

end XinuStm32
