import XinuStm32.Refinement.Kernel

/-!
# Operations as moves

Each kernel operation, run on a state whose view satisfies the invariant, moves the view by a run
of moves. `Follows` names the moves; `Performs` only says which are allowed.
-/

namespace XinuStm32

open View

/-- The kernel state is tracked by a view that these moves lead to. -/
def Follows (owed : Int) (moves : List Move) (s : Kernel) (a : View) : Prop :=
  ∃ a', Moves moves a a' ∧ Tracks owed s a'

/-- The kernel state is tracked by a view that some allowed moves lead to. -/
def Performs (owed : Int) (allowed : Move → Prop) (s : Kernel) (a : View) : Prop :=
  ∃ moves, (∀ move ∈ moves, allowed move) ∧ Follows owed moves s a

namespace Follows

variable {owed : Int} {s : Kernel} {a : View}

theorem nil (track : Tracks owed s a) : Follows owed [] s a := ⟨a, .nil a, track⟩

theorem single {move : Move} {a' : View} (h : Move.Step move a a') (track : Tracks owed s a') :
    Follows owed [move] s a := ⟨a', .single h, track⟩

theorem tracked {moves : List Move} {s' : Kernel} (follows : Follows owed moves s a)
    (same : ∀ a', Tracks owed s a' → Tracks owed s' a') : Follows owed moves s' a := by
  obtain ⟨a', run, track⟩ := follows
  exact ⟨a', run, same a' track⟩

theorem performs {move : Move} {allowed : Move → Prop} (follows : Follows owed [move] s a)
    (ok : allowed move) : Performs owed allowed s a :=
  ⟨[move], fun _ member => List.mem_singleton.mp member ▸ ok, follows⟩

end Follows

namespace Performs

variable {owed : Int} {allowed : Move → Prop} {s : Kernel} {a : View}

theorem nothing (track : Tracks owed s a) : Performs owed allowed s a :=
  ⟨[], by simp, .nil track⟩

theorem append {s' : Kernel} (performs : Performs owed allowed s a) (inv : a.Inv)
    (rest : ∀ moves a', (∀ move ∈ moves, allowed move) → Moves moves a a' → a'.Inv →
      Tracks owed s a' → Performs owed allowed s' a') : Performs owed allowed s' a := by
  obtain ⟨first, all, a', run, track⟩ := performs
  obtain ⟨second, all', a'', run', track'⟩ := rest first a' all run (inv.moves run) track
  refine ⟨first ++ second, fun move member => ?_, a'', run.append run', track'⟩
  cases List.mem_append.mp member with
  | inl member => exact all move member
  | inr member => exact all' move member

theorem tracked {s' : Kernel} (performs : Performs owed allowed s a)
    (same : ∀ a', Tracks owed s a' → Tracks owed s' a') : Performs owed allowed s' a := by
  obtain ⟨moves, all, follows⟩ := performs
  exact ⟨moves, all, follows.tracked same⟩

theorem mono {allowed' : Move → Prop} (performs : Performs owed allowed s a)
    (imp : ∀ move, allowed move → allowed' move) : Performs owed allowed' s a := by
  obtain ⟨moves, all, follows⟩ := performs
  exact ⟨moves, fun move member => imp move (all move member), follows⟩

end Performs

variable {owed : Int} {s : Kernel} {a : View}

/-! ## Changes that scheduling does not depend on -/

theorem View.quiet_pend (a : View) : Quiet a a.pend :=
  ⟨fun _ => rfl, fun _ => rfl, fun _ => rfl, rfl, fun _ => rfl⟩

theorem View.quiet_setProc (a : View) (p : Int) {entry : Procent}
    (state : entry.prstate = (a.proctab p).prstate) (prio : entry.prprio = (a.proctab p).prprio)
    (prsem : entry.prsem = (a.proctab p).prsem) : Quiet a (a.setProc p entry) := by
  refine ⟨fun p' => ?_, fun p' => ?_, fun p' => ?_, rfl, fun pending => pending⟩
  all_goals
    simp only [setProc_proctab, Function.update_apply]
    split
    · next same => simp only [state, prio, prsem, same]
    · rfl

theorem pendSV_follows (track : Tracks owed s a) : Follows owed [.quiet] (pendSV s) a :=
  .single (.quiet a.quiet_pend) track.pendSV

theorem reschedCntl_start_tracks (track : Tracks owed s a) :
    Tracks owed (reschedCntl .start s).2 a := track.congr rfl

theorem reschedCntl_stop_performs (track : Tracks owed s a) :
    Performs owed (· = .quiet) (reschedCntl .stop s).2 a := by
  simp only [reschedCntl]
  split
  · exact .nothing track
  · split
    · refine ⟨[.quiet], by simp, ?_⟩
      exact pendSV_follows (track.congr rfl)
    · exact .nothing (track.congr rfl)

theorem yield_follows (track : Tracks owed s a) : Follows owed [.quiet] (yield s).2 a :=
  (pendSV_follows track.disable).tracked fun _ track => track.restore _

end XinuStm32
