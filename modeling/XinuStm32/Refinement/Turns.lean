import XinuStm32.Refinement.Boot

/-!
# Any process may have the next turn

The context switch picks the process that runs. To speak of calls in any order among any processes
the system gets one more kind of step: `turnTo` gives the processor to a ready process that is chosen
from outside, whatever the priorities, with the same list operations as `PendSV_Handler`.
-/

namespace XinuStm32

open View

/-- Put the running process back into the ready list and take `p` out of it to run. -/
def turnTo (p : Int) (s : Kernel) : Kernel :=
  let old := s.currpid
  let s :=
    if (s.proctab old).prstate = .curr then
      (insert old s.readylist (s.proctab old).prprio.toInt (s.setState old .ready)).2
    else s
  let (_, s) := getitem p s
  let s := { s with currpid := p }
  s.setState p .curr

inductive Event where
  | step (label : Label)
  | turn (p : Int)
  deriving DecidableEq

/-- A step of the system, or a turn of any ready process. -/
def System.take (event : Event) (s : System) : Option (Ret × System) :=
  match event with
  | .step label => s.step label
  | .turn p =>
    if IsPid p ∧ (s.kernel.proctab p).prstate = .ready then
      some (.nothing, { s with kernel := turnTo p s.kernel })
    else none

/-! ## Turns keep the invariant -/

variable {s : Kernel} {a : View}

theorem frame_turnTo (p : Int) : Frame s (turnTo p s) := by
  simp only [turnTo]
  refine .trans ?_ (((frame_getitem p).trans (frame_currpid p)).trans (frame_setState p (by decide)))
  split
  · exact (frame_setState _ (by decide)).trans (frame_insert _ _ _)
  · exact .refl s

theorem Tracks.run {owed : Int} (track : Tracks owed s a) {p : Int} (member : p ∈ a.members a.readylist) :
    Tracks owed (({ (XinuStm32.getitem p s).2 with currpid := p } : Kernel).setState p .curr) (a.run p) :=
  ((track.getitem member).setCurrpid p).setState p .curr

theorem turnTo_follows (track : Tracks 0 s a) (inv : a.Inv) {p : Int} (pid : IsPid p)
    (ready : a.state p = .ready) :
    ∃ a', a'.Inv ∧ Tracks 0 (turnTo p s) a' ∧ a'.state a'.currpid = .curr ∧
      ∀ q, a'.state q = a.state q ∨ Move.Changes q (.dispatch q) (a.state q) (a'.state q) ∨
        Move.Changes q .preempt (a.state q) (a'.state q) := by
  have member : p ∈ a.members a.readylist := inv.placed.mpr ⟨pid, home_ready ready⟩
  have shown : (s.proctab s.currpid).prstate = a.state a.currpid := by rw [track.state, track.currpid]
  have runs (b : View) : (b.run p).state (b.run p).currpid = .curr := by rw [state_run]; exact if_pos rfl
  simp only [turnTo, shown]
  by_cases current : a.state a.currpid = .curr
  · have preempted := inv.step (Move.Step.preempt current)
    have member' : p ∈ (a.enterReady a.currpid).members (a.enterReady a.currpid).readylist := by
      refine preempted.placed.mpr ⟨pid, home_ready ?_⟩
      rw [state_enterReady]
      split
      · rfl
      · exact ready
    have prio : (s.proctab s.currpid).prprio.toInt = a.prio a.currpid := by
      rw [track.proctab, track.currpid]
      rfl
    rw [if_pos current, prio, track.readylist, track.currpid]
    refine ⟨_, preempted.run ?_ member', (preempt_tracks track inv current).run member', runs _, fun q => ?_⟩
    · rw [state_enterReady, if_pos (show (a.enterReady a.currpid).currpid = a.currpid from rfl)]
      decide
    · rw [state_run, state_enterReady]
      by_cases taken : q = p
      · subst taken
        rw [if_pos rfl, ready]
        exact Or.inr (Or.inl .dispatch)
      · rw [if_neg taken]
        split
        · next old => subst old; rw [current]; exact Or.inr (Or.inr .preempt)
        · exact Or.inl rfl
  · rw [if_neg current]
    refine ⟨_, inv.run current member, track.run member, runs _, fun q => ?_⟩
    rw [state_run]
    split
    · next taken => subst taken; rw [ready]; exact Or.inr (Or.inl .dispatch)
    · exact Or.inl rfl

theorem Good.turn {s : System} {a : View} (good : Good s a) {p : Int} (pid : IsPid p)
    (ready : (s.kernel.proctab p).prstate = .ready) :
    ∃ a', Good { s with kernel := turnTo p s.kernel } a' ∧
      ∀ q, a'.state q = a.state q ∨ Move.Changes q (.dispatch q) (a.state q) (a'.state q) ∨
        Move.Changes q .preempt (a.state q) (a'.state q) := by
  rw [good.tracks.state] at ready
  obtain ⟨a', inv, track, runs, changes⟩ := turnTo_follows good.tracks good.inv pid ready
  have steady := (frame_turnTo (s := s.kernel) p).toSteady
  refine ⟨a', ?_, changes⟩
  exact
    { tracks := track
      inv := inv
      grows := steady.counting ▸ good.grows
      ndefers := steady.ndefers.trans good.ndefers
      nextsem := steady.nextsem good.nextsem
      nextqid := steady.nextqid.trans good.nextqid
      readyPreemptive := steady.readyPreemptive.trans good.readyPreemptive
      awake := Or.inr runs }

end XinuStm32
