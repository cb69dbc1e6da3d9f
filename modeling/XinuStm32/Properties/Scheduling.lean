import XinuStm32.Abstract.ReadyList
import XinuStm32.Properties.Consistency

/-!
# Who runs next

The ready list is kept in order of the key a process had when it entered, and `chprio` does not touch
it. Without a change of a ready process's priority the current process has the highest priority after
every switch; and without `chprio` equals take turns.
-/

namespace XinuStm32

open View Line

namespace Kernel

def prio (p : Int) (s : Kernel) : Int := (s.proctab p).prprio.toInt

/-- The processes of the ready list, front first. -/
def readyList (s : Kernel) : List Int := s.queuetab.members s.readylist

def Ready (p : Int) (s : Kernel) : Prop := IsPid p ∧ (s.proctab p).prstate = .ready

end Kernel

namespace Good

variable {s s' : System} {a a' : View}

theorem prio_eq (good : Good s a) (p : Int) : s.kernel.prio p = a.prio p := by
  rw [Kernel.prio, good.tracks.proctab, View.prio]

theorem readyList_eq (good : Good s a) : s.kernel.readyList = a.readyList := by
  rw [Kernel.readyList, good.tracks.readylist, good.members_eq good.inv.isQueue_readylist, View.readyList]

theorem ready_iff (good : Good s a) (p : Int) : s.kernel.Ready p ↔ p ∈ a.readyList := by
  rw [Kernel.Ready, good.tracks.state, good.inv.mem_readyList]

end Good

/-! ## Strict priority -/

/-- The ready list is in order of priority, and a context switch leaves no ready process with a higher
priority than the current one. -/
structure StrictPriority (s : System) : Prop where
  sorted : s.kernel.readyList.Pairwise fun p q => s.kernel.prio q ≤ s.kernel.prio p
  highest : ∀ {psp s'}, System.Step (.switch psp) s s' → ∀ {p}, s'.kernel.Ready p →
    s'.kernel.prio p ≤ s'.kernel.prio s'.kernel.currpid

/-- The step is no `chprio` that gives a ready process another priority. -/
def Label.KeepsReadyPriority (s : System) : Label → Prop
  | .call (.chprio p newprio) => s.kernel.Ready p → s.kernel.prio p = newprio.toInt
  | _ => True

instance (label : Label) (s : System) : Decidable (label.KeepsReadyPriority s) := by
  unfold Label.KeepsReadyPriority Kernel.Ready IsPid
  split <;> infer_instance

/-- A run of moves that gives no ready process another priority keeps the order. -/
theorem View.Ordered.moves {moves : List Move} {a a' : View} (ordered : a.Ordered)
    (run : Moves moves a a') (inv : a.Inv) (calm : ∀ p prio, .chprio p prio ∉ moves) : a'.Ordered :=
  (Transition.Run.invariant_of_allowed (fun a => a.Inv ∧ a.Ordered)
    (fun move => ∀ p prio, move ≠ .chprio p prio)
    (fun _ _ _ allowed h both =>
      ⟨both.1.step h, both.2.step h both.1 fun p prio same => absurd same (allowed p prio)⟩)
    run (fun _ member p prio same => calm p prio (same ▸ member)) ⟨inv, ordered⟩).2

theorem Good.ordered_step {s s' : System} {a : View} {label : Label} (good : Good s a)
    (ordered : a.Ordered) (h : System.Step label s s') (keeps : label.KeepsReadyPriority s) :
    ∃ a', Good s' a' ∧ a'.Ordered := by
  by_cases changes : ∃ p prio, label = .call (.chprio p prio)
  · obtain ⟨p, prio, rfl⟩ := changes
    obtain ⟨-, -, ret, pc, returns⟩ := h.call
    simp only [execCall, Option.some.injEq, Prod.mk.injEq] at returns
    obtain ⟨-, same, -⟩ := returns
    rcases chprio_follows good.tracks p prio with follows | ⟨-, follows⟩
    · obtain ⟨a', run, good'⟩ := good.follow h (by simp) (by simp) (same ▸ follows)
      cases run
      exact ⟨a, good', ordered⟩
    · obtain ⟨a', run, good'⟩ := good.follow h (by simp) (by simp [Label.Permits]) (same ▸ follows)
      refine ⟨a', good', ?_⟩
      cases run with
      | cons step rest =>
        cases rest
        refine ordered.step step good.inv fun p' prio' same member => ?_
        cases same
        rw [← good.prio_eq]
        exact keeps ((good.ready_iff p).mpr member)
  · obtain ⟨moves, a', permits, run, good'⟩ := good.step h
    refine ⟨a', good', ordered.moves run good.inv fun p prio member => ?_⟩
    exact changes ⟨p, prio, Label.chprio (permits _ member)⟩

/-- A dispatch leaves the new process with the highest priority. -/
theorem View.Ordered.dispatched {p : Int} {a a' : View} (ordered : a.Ordered) (inv : a.Inv)
    (run : Moves [.dispatch p, .quiet] a a') {q : Int} (ready : q ∈ a'.readyList) :
    a'.prio q ≤ a'.prio a'.currpid := by
  have inv' := inv.moves run
  obtain ⟨pid, state⟩ := inv'.mem_readyList.mp ready
  cases run with
  | cons dispatch rest =>
    cases rest with
    | cons quiet rest =>
      cases rest
      cases quiet with
      | quiet quiet =>
        obtain ⟨currpid, high⟩ := ordered.highest dispatch inv pid ((quiet.state q).symm.trans state)
        have same : a'.currpid = p := by rw [quiet.rest]; exact currpid
        rw [same, prio, prio, quiet.prio, quiet.prio]
        exact high

theorem View.Ordered.switched {moves : List Move} {a a' : View} (ordered : a.Ordered) (inv : a.Inv)
    (kind : SwitchMoves a moves) (run : Moves moves a a') {q : Int} (ready : q ∈ a'.readyList) :
    a'.prio q ≤ a'.prio a'.currpid := by
  cases kind with
  | stays runs highest =>
    cases run with
    | cons accept rest =>
      cases rest
      cases accept
      have member : q ∈ a.readyList := ready
      cases list : a.readyList with
      | nil => simp [list] at member
      | cons p rest =>
        have descending : Descending a.queuetab.key (p :: rest) := list ▸ ordered.descending
        have first := descending.le_head (list ▸ member)
        rw [ordered.keys member] at first
        exact Int.le_of_lt (Int.lt_of_le_of_lt first (highest p rest list))
  | preempts p runs =>
    cases run with
    | @cons _ _ _ b _ accept rest =>
      cases rest with
      | @cons _ _ _ c _ preempt rest =>
        have ordered' := (ordered.step accept inv (by simp)).step preempt (inv.step accept) (by simp)
        exact ordered'.dispatched ((inv.step accept).step preempt) rest ready
  | dispatches p stopped =>
    cases run with
    | cons accept rest =>
      exact (ordered.step accept inv (by simp)).dispatched (inv.step accept) rest ready

theorem Good.strictPriority {s : System} {a : View} (good : Good s a) (ordered : a.Ordered) :
    StrictPriority s where
  sorted := by
    rw [good.readyList_eq]
    refine List.Pairwise.imp_of_mem (fun first second high => ?_) ordered.descending
    rwa [good.prio_eq, good.prio_eq, ← ordered.keys first, ← ordered.keys second]
  highest := by
    intro psp s' h p ready
    obtain ⟨moves, a', kind, run, good'⟩ := good.switch h
    rw [good'.prio_eq, good'.prio_eq, good'.tracks.currpid]
    exact ordered.switched good.inv kind run ((good'.ready_iff p).mp ready)

theorem ordered_empty (s : Kernel) :
    (viewOf ⟨fun _ => [], s.queuetab.keyOf⟩ 0 s.toSched).Ordered where
  keys := by
    intro p member
    cases member
  descending := List.Pairwise.nil

/-- As long as no ready process gets another priority, the ready list is in order of priority, and
after every context switch no ready process has a higher priority than the current one. -/
theorem reachable_strictPriority (image : BootImage) (ram : Nat → UInt8) {labels : List Label} {s : System}
    (run : Transition.Run (fun label s s' => System.Step label s s' ∧ label.KeepsReadyPriority s) labels
      (boot image int32 ram) s) : StrictPriority s := by
  obtain ⟨a, good, ordered⟩ := Transition.Run.invariant (fun s => ∃ a, Good s a ∧ a.Ordered)
    (fun _ _ _ h ⟨_, good, ordered⟩ => good.ordered_step ordered h.1 h.2) run
    ⟨_, (boot_booted image int32 ram).good grows_int32, ordered_empty _⟩
  exact good.strictPriority ordered

/-- A step that gives no ready process another priority. -/
def keepingStep (label : Label) (s : System) : Option System :=
  if label.KeepsReadyPriority s then (s.step label).map Prod.snd else none

theorem keepingStep_step {label : Label} {s s' : System} (returns : keepingStep label s = some s') :
    System.Step label s s' ∧ label.KeepsReadyPriority s := by
  simp only [keepingStep, Option.ite_none_right_eq_some] at returns
  obtain ⟨keeps, returns⟩ := returns
  obtain ⟨⟨ret, after⟩, taken, rfl⟩ := Option.map_eq_some_iff.mp returns
  exact ⟨⟨ret, taken⟩, keeps⟩

/-- A process of priority 20 runs. One of priority 15 gets priority 60 before it is ready. -/
def raisedInTime : List Label :=
  [.call (.create 0x08017000 1024 20 [] []), .call (.resume 1), .switch 0x2001e000,
    .call (.create 0x08018000 1024 15 [] []), .call (.chprio 2 60), .call (.resume 2)]

set_option maxRecDepth 100000 in
/-- The raised process is the first of the ready list, and the next switch leaves none with a higher priority ready. -/
theorem raisedInTime_strictPriority :
    ∃ s, Transition.exec keepingStep raisedInTime (boot smallImage int32 fun _ => 0) = some s ∧
      s.kernel.readyList = [2, 0] ∧ s.kernel.prio 2 = 60 ∧ StrictPriority s := by
  have runs : (Transition.exec keepingStep raisedInTime (boot smallImage int32 fun _ => 0)).map
      (fun s => (s.kernel.readyList, s.kernel.prio 2)) = some ([2, 0], 60) := by decide +kernel
  obtain ⟨s, returns, outcome⟩ := Option.map_eq_some_iff.mp runs
  obtain ⟨list, raised⟩ := Prod.mk.inj outcome
  have run := Transition.run_exec (fun _ _ _ => keepingStep_step) returns
  exact ⟨s, returns, list, raised, reachable_strictPriority smallImage _ run⟩

/-- A process of priority 20 runs, one of priority 15 is ready and gets priority 60. -/
def raisedPriority : List Label :=
  [.call (.create 0x08017000 1024 20 [] []), .call (.resume 1), .switch 0x2001e000,
    .call (.create 0x08018000 1024 15 [] []), .call (.resume 2), .switch 0x2001d000,
    .call (.chprio 2 60), .call .yield]

set_option maxRecDepth 100000 in
/-- The process of priority 20 keeps the processor. -/
theorem raisedPriority_ignored :
    ¬ ∀ labels s, System.Run labels (boot smallImage int32 fun _ => 0) s → StrictPriority s := by
  intro claim
  have outcome : (System.exec (raisedPriority ++ [.switch 0x2001c000]) (boot smallImage int32 fun _ => 0)).map
      (fun s => (s.kernel.currpid, (s.kernel.proctab 1).prprio, (s.kernel.proctab 2).prstate,
        (s.kernel.proctab 2).prprio)) = some (1, 20, .ready, 60) := by decide +kernel
  obtain ⟨s', returns, outcome⟩ := Option.map_eq_some_iff.mp outcome
  simp only [Prod.mk.injEq] at outcome
  obtain ⟨currpid, current, ready, raised⟩ := outcome
  obtain ⟨s, run, last⟩ := (System.run_exec returns).split
  cases last with
  | cons h rest =>
    cases rest
    have high := (claim _ s run).highest h (p := 2) ⟨by decide, ready⟩
    rw [currpid, Kernel.prio, Kernel.prio, current, raised] at high
    exact absurd high (by decide)

/-! ## Taking turns -/

/-- The step gives `p` the processor. -/
def Dispatches (p : Int) (s s' : System) : Prop :=
  (s.kernel.proctab p).prstate ≠ .curr ∧ (s'.kernel.proctab p).prstate = .curr

namespace Good

variable {s s' : System} {a : View} {label : Label} {q : Int}

/-- The step is a run of permitted moves none of which takes `q` out of the ready list. -/
def KeepsListed (q : Int) (label : Label) (s' : System) (a : View) : Prop :=
  ∃ moves a', (∀ move ∈ moves, label.Permits move) ∧ Moves moves a a' ∧ Good s' a' ∧
    ∀ move ∈ moves, ¬ move.Takes q

theorem keepsListed {moves : List Move} (good : Good s a) (h : System.Step label s s')
    (notSwitch : ∀ psp, label ≠ .switch psp) (permits : ∀ move ∈ moves, label.Permits move)
    (follows : Follows 0 moves s'.kernel a)
    (kept : ∀ a', Moves moves a a' → Good s' a' → ∀ move ∈ moves, ¬ move.Takes q) :
    KeepsListed q label s' a := by
  obtain ⟨a', run, good'⟩ := good.follow h notSwitch permits follows
  exact ⟨moves, a', permits, run, good', kept a' run good'⟩

/-- The process that the last move takes out of the list is not ready. -/
theorem not_taken (moves : List Move) {a' : View} {p : Int} {state : PrState} (good' : Good s' a')
    (run : Moves (moves ++ [.take p state]) a a') (ready : s'.kernel.Ready q) : p ≠ q := by
  rintro rfl
  obtain ⟨b, -, run⟩ := run.split
  cases run with
  | cons take rest =>
    cases rest
    have state' := ready.2
    rw [good'.tracks.state] at state'
    cases take with
    | take _ _ new =>
      rw [state_settle, if_pos rfl] at state'
      rcases new with new | new <;> exact absurd (new.symm.trans state') (by decide)

theorem suspend_keepsListed {p : Int} (good : Good s a) (h : System.Step (.call (.suspend p)) s s')
    (ready : s'.kernel.Ready q) : KeepsListed q (.call (.suspend p)) s' a := by
  obtain ⟨-, -, ret, pc, returns⟩ := h.call
  simp only [execCall, Option.some.injEq, Prod.mk.injEq] at returns
  obtain ⟨-, same, -⟩ := returns
  obtain follows | follows | follows := suspend_follows good.tracks good.inv p
  · exact good.keepsListed h (by simp) (by simp) (same ▸ follows) (by simp)
  · exact good.keepsListed h (by simp) (by simp [Label.Permits]) (same ▸ follows) (by simp [Move.Takes])
  · apply good.keepsListed h (by simp) (by simp [Label.Permits]) (same ▸ follows)
    intro a' run good'
    have other : p ≠ q := not_taken [] good' run ready
    simp [Move.Takes, other]

theorem kill_keepsListed {p : Int} (good : Good s a) (h : System.Step (.call (.kill p)) s s')
    (ready : s'.kernel.Ready q) : KeepsListed q (.call (.kill p)) s' a := by
  obtain ⟨-, -, ret, pc, returns⟩ := h.call
  simp only [execCall, Option.bind_eq_some_iff, Option.some.injEq, Prod.mk.injEq] at returns
  obtain ⟨result, killed, -, same, -⟩ := returns
  have killed : kill p s.kernel = some (result.1, s'.kernel) := by rw [killed, ← same]
  rcases kill_follows good.tracks good.inv p killed with
    ⟨-, follows⟩ | ⟨-, -, -, -, moves, move, kind, last, follows⟩
  · exact good.keepsListed h (by simp) (by simp) follows (by simp)
  · refine good.keepsListed h (by simp) (kill_permits kind last) follows fun a' run good' move' member => ?_
    rcases List.mem_append.mp member with member | member
    · cases kind <;> simp at member
      · simp [Move.Takes, member]
      all_goals rcases member with rfl | rfl <;> simp [Move.Takes]
    · cases List.mem_singleton.mp member
      cases last with
      | take =>
        have other : p ≠ q := not_taken _ good' run ready
        simp [Move.Takes, other]
      | leave | withdraw | abandon => simp [Move.Takes]

theorem switch_keepsListed {psp : Nat} (good : Good s a) (h : System.Step (.switch psp) s s')
    (ready : s'.kernel.Ready q) : KeepsListed q (.switch psp) s' a := by
  obtain ⟨moves, a', kind, run, good'⟩ := good.switch h
  have other {p : Int} {b : View} (run : Moves [.dispatch p, .quiet] b a') : p ≠ q := by
    rintro rfl
    have state := ready.2
    rw [good'.tracks.state, (Moves.dispatched run).2] at state
    cases state
  refine ⟨moves, a', kind.permitted psp, run, good', ?_⟩
  cases kind with
  | stays => simp [Move.Takes]
  | preempts p =>
    cases run with
    | cons _ rest =>
      cases rest with
      | cons _ rest => simp [Move.Takes, other rest]
  | dispatches p =>
    cases run with
    | cons _ rest => simp [Move.Takes, other rest]

/-- If a process is ready after a step, the step did not take it out of the list. -/
theorem step_keepsListed (good : Good s a) (h : System.Step label s s') (ready : s'.kernel.Ready q) :
    KeepsListed q label s' a := by
  by_cases suspends : label = .call (.suspend q)
  · subst suspends
    exact good.suspend_keepsListed h ready
  by_cases kills : label = .call (.kill q)
  · subst kills
    exact good.kill_keepsListed h ready
  by_cases switches : ∃ psp, label = .switch psp
  · obtain ⟨psp, rfl⟩ := switches
    exact good.switch_keepsListed h ready
  obtain ⟨moves, a', permits, run, good'⟩ := good.step h
  refine ⟨moves, a', permits, run, good', fun move member => ?_⟩
  rintro (⟨state, rfl⟩ | rfl)
  · cases Label.takes (permits _ member) with
    | inl suspends' => exact suspends suspends'
    | inr kills' => exact kills kills'
  · exact switches (Label.dispatches (permits _ member))

/-- A process that a step takes out of the list, without suspending or killing it, is dispatched. -/
theorem leaves_dispatched (good : Good s a) (h : System.Step label s s') (ready : s.kernel.Ready q)
    (leaves : ¬ s'.kernel.Ready q) (suspends : label ≠ .call (.suspend q))
    (kills : label ≠ .call (.kill q)) : Dispatches q s s' := by
  have listed := (good.ready_iff q).mp ready
  have stays {moves : List Move} {b : View} (run : Moves moves a b)
      (kept : ∀ move ∈ moves, ¬ move.Takes q) : q ∈ b.readyList :=
    (Transition.Run.invariant_of_allowed (fun a => a.Inv ∧ q ∈ a.readyList) (fun move => ¬ move.Takes q)
      (fun _ _ _ kept h both => ⟨both.1.step h, h.stays_ready both.1 both.2 kept⟩) run kept
      ⟨good.inv, listed⟩).2
  by_cases switches : ∃ psp, label = .switch psp
  · obtain ⟨psp, rfl⟩ := switches
    obtain ⟨moves, a', kind, run, good'⟩ := good.switch h
    rw [good'.ready_iff] at leaves
    have dispatched {p : Int} {b : View} (run : Moves [.dispatch p, .quiet] b a') (other : p = q) :
        Dispatches q s s' := by
      subst other
      refine ⟨by simp [ready.2], ?_⟩
      rw [good'.tracks.state]
      exact (Moves.dispatched run).2
    cases kind with
    | stays => exact absurd (stays run (by simp [Move.Takes])) leaves
    | preempts p =>
      by_cases other : p = q
      · cases run with
        | cons _ rest =>
          cases rest with
          | cons _ rest => exact dispatched rest other
      · exact absurd (stays run (by simp [Move.Takes, other])) leaves
    | dispatches p =>
      by_cases other : p = q
      · cases run with
        | cons _ rest => exact dispatched rest other
      · exact absurd (stays run (by simp [Move.Takes, other])) leaves
  · obtain ⟨moves, a', permits, run, good'⟩ := good.step h
    refine absurd ((good'.ready_iff q).mpr (stays run fun move member => ?_)) leaves
    rintro (⟨state, rfl⟩ | rfl)
    · cases Label.takes (permits _ member) with
      | inl suspends' => exact suspends suspends'
      | inr kills' => exact kills kills'
    · exact switches (Label.dispatches (permits _ member))

end Good

/-- No priority changes. -/
def Label.Calm (label : Label) : Prop := ∀ p prio, label ≠ .call (.chprio p prio)

/-- In order, with `q` in the list and every equal `p` behind it. -/
structure View.Turns (q p : Int) (a : View) : Prop where
  ordered : a.Ordered
  listed : q ∈ a.readyList
  behind : Behind q p a

variable {s s' : System} {a : View} {label : Label} {p q : Int}

theorem View.Turns.step {move : Move} {a' : View} (turns : Turns q p a) (h : Move.Step move a a')
    (inv : a.Inv) (kept : ¬ move.Takes q) (calm : ∀ r prio, move ≠ .chprio r prio) : Turns q p a' := by
  have listed := h.stays_ready inv turns.listed kept
  exact ⟨turns.ordered.step h inv fun r prio same => absurd same (calm r prio), listed,
    turns.behind.step h inv turns.ordered turns.listed listed calm⟩

theorem Good.turns_step (good : Good s a) (turns : Turns q p a) (h : System.Step label s s')
    (calm : label.Calm) (ready : s'.kernel.Ready q) : ∃ a', Good s' a' ∧ Turns q p a' := by
  obtain ⟨moves, a', permits, run, good', kept⟩ := good.step_keepsListed h ready
  refine ⟨a', good', (Transition.Run.invariant_of_allowed (fun a => a.Inv ∧ Turns q p a)
    (fun move => ¬ move.Takes q ∧ ∀ r prio, move ≠ .chprio r prio)
    (fun _ _ _ allowed h both => ⟨both.1.step h, both.2.step h both.1 allowed.1 allowed.2⟩) run
    (fun move member => ⟨kept move member, fun r prio same => ?_⟩) ⟨good.inv, turns⟩).2⟩
  exact calm r prio (Label.chprio (same ▸ permits move member))

/-- While `q` is ahead, its equal is not the one that a dispatch makes run. -/
theorem View.Turns.not_dispatched {r : Int} {a' : View} (turns : Turns q p a) (inv : a.Inv)
    (equal : a.prio p = a.prio q) (run : Moves [.dispatch r, .quiet] a a') (stopped : a.state p ≠ .curr) :
    a'.state p ≠ .curr := by
  intro runs
  cases run with
  | @cons _ _ _ b _ dispatch rest =>
    cases rest with
    | cons quiet rest =>
      cases rest
      have before : b.state p = .curr := by
        by_contra still
        cases quiet.runs still runs
      cases dispatch.runs stopped before
      exact turns.behind.not_next inv equal dispatch

theorem Good.turns_not_dispatched (good : Good s a) (turns : Turns q p a) (h : System.Step label s s')
    (equal : s.kernel.prio p = s.kernel.prio q) : ¬ Dispatches p s s' := by
  rintro ⟨stopped, runs⟩
  rw [good.prio_eq, good.prio_eq] at equal
  rw [good.tracks.state] at stopped
  by_cases switches : ∃ psp, label = .switch psp
  · obtain ⟨psp, rfl⟩ := switches
    obtain ⟨moves, a', kind, run, good'⟩ := good.switch h
    rw [good'.tracks.state] at runs
    cases kind with
    | stays =>
      cases run with
      | cons accept rest =>
        cases rest
        cases accept.runs stopped runs
    | preempts r runs' =>
      cases run with
      | @cons _ _ _ b _ accept rest =>
        cases rest with
        | @cons _ _ _ c _ preempt rest =>
          have turns' := (turns.step accept good.inv (by simp [Move.Takes]) (by simp)).step preempt
            (good.inv.step accept) (by simp [Move.Takes]) (by simp)
          have inv' := (good.inv.step accept).step preempt
          have stopped' : c.state p ≠ .curr := by
            intro now
            by_cases between : b.state p = .curr
            · cases accept.runs stopped between
            · cases preempt.runs between now
          refine turns'.not_dispatched inv' ?_ rest stopped' runs
          cases accept
          cases preempt
          rw [prio_enterReady, prio_enterReady]
          exact equal
    | dispatches r =>
      cases run with
      | cons accept rest =>
        have turns' := turns.step accept good.inv (by simp [Move.Takes]) (by simp)
        cases accept
        exact turns'.not_dispatched (good.inv.step .accept) equal rest stopped runs
  · obtain ⟨moves, a', permits, run, good'⟩ := good.step h
    rw [good'.tracks.state] at runs
    refine Transition.Run.invariant_of_allowed (fun a => a.state p ≠ .curr)
      (fun move => move ≠ .dispatch p) (fun _ _ _ other h stopped runs => other (h.runs stopped runs)) run
      (fun move member same => ?_) stopped runs
    exact switches (Label.dispatches (same ▸ permits move member))

/-- How processes of equal priority take turns from a state of the system on, as long as no priority
changes. -/
structure TakesTurns (s : System) : Prop where
  /-- Who is ahead in the ready list, or enters it first, runs first. -/
  inOrder : ∀ {p q labels s₁ label s₂}, s.kernel.Ready q →
    (s.kernel.Ready p → Before q p s.kernel.readyList) →
    Transition.Run
      (fun label s s' => (System.Step label s s' ∧ label.Calm) ∧ s'.kernel.Ready q) labels s s₁ →
    System.Step label s₁ s₂ → s₁.kernel.prio p = s₁.kernel.prio q → ¬ Dispatches p s₁ s₂
  /-- Between two dispatches of `p`, its equal `q` is dispatched. -/
  between : ∀ {p q first s₁ labels s₂ label s₃}, System.Step first s s₁ → first.Calm →
    Dispatches p s s₁ → s₁.kernel.Ready q →
    Transition.Run (fun label s s' => System.Step label s s' ∧ label.Calm) labels s₁ s₂ →
    (∀ label ∈ labels, label ≠ .call (.suspend q) ∧ label ≠ .call (.kill q)) →
    System.Step label s₂ s₃ → Dispatches p s₂ s₃ → s₂.kernel.prio p = s₂.kernel.prio q →
    ∃ front turn back t t', labels = front ++ turn :: back ∧ System.Run front s₁ t ∧
      System.Step turn t t' ∧ Dispatches q t t' ∧ System.Run back t' s₂

theorem Good.inOrder {labels : List Label} {s₁ s₂ : System} (good : Good s a) (ordered : a.Ordered)
    (ready : s.kernel.Ready q) (ahead : s.kernel.Ready p → Before q p s.kernel.readyList)
    (run : Transition.Run
      (fun label s s' => (System.Step label s s' ∧ label.Calm) ∧ s'.kernel.Ready q) labels s s₁)
    (h : System.Step label s₁ s₂) (equal : s₁.kernel.prio p = s₁.kernel.prio q) : ¬ Dispatches p s₁ s₂ := by
  have turns : Turns q p a := by
    refine ⟨ordered, (good.ready_iff q).mp ready, fun member _ => ?_⟩
    have before := ahead ((good.ready_iff p).mpr member)
    rwa [good.readyList_eq] at before
  obtain ⟨a₁, good₁, turns₁⟩ := Transition.Run.invariant (fun s => ∃ a, Good s a ∧ Turns q p a)
    (fun _ _ _ h ⟨_, good, turns⟩ => good.turns_step turns h.1.1 h.1.2 h.2) run ⟨a, good, turns⟩
  exact good₁.turns_not_dispatched turns₁ h equal

theorem Good.ordered_calm (good : Good s a) (ordered : a.Ordered) (h : System.Step label s s')
    (calm : label.Calm) : ∃ a', Good s' a' ∧ a'.Ordered := by
  apply good.ordered_step ordered h
  cases label with
  | call call =>
    cases call with
    | chprio p prio => exact absurd rfl (calm p prio)
    | _ => trivial
  | _ => trivial

theorem Good.takesTurns (good : Good s a) (ordered : a.Ordered) : TakesTurns s where
  inOrder := good.inOrder ordered
  between := by
    intro p q first s₁ labels s₂ label s₃ h calm dispatched ready run free h' again equal
    obtain ⟨a₁, good₁, ordered₁⟩ := good.ordered_calm ordered h calm
    have notReady : ¬ s₁.kernel.Ready p := fun ready => by
      have state := ready.2
      rw [dispatched.2] at state
      cases state
    rcases run.until_lost (fun s => s.kernel.Ready q) ready with
      all | ⟨front, turn, back, t, t', split, before, kept, turned, lost, after⟩
    · exact absurd again (good₁.inOrder ordered₁ ready (fun ready => absurd ready notReady) all h' equal)
    · have free := free turn (split ▸ List.mem_append_right _ List.mem_cons_self)
      obtain ⟨b, goodTurn⟩ := good₁.run (before.weaken fun _ _ _ h => h.1.1)
      exact ⟨front, turn, back, t, t', split, before.weaken fun _ _ _ h => h.1.1, turned.1,
        goodTurn.leaves_dispatched turned.1 kept lost free.1 free.2, after.weaken fun _ _ _ h => h.1⟩

/-- In a run without `chprio`, processes of equal priority take turns. -/
theorem reachable_takesTurns (image : BootImage) (ram : Nat → UInt8) {labels : List Label} {s : System}
    (run : Transition.Run (fun label s s' => System.Step label s s' ∧ label.Calm) labels
      (boot image int32 ram) s) : TakesTurns s := by
  obtain ⟨a, good, ordered⟩ := Transition.Run.invariant (fun s => ∃ a, Good s a ∧ a.Ordered)
    (fun _ _ _ h ⟨_, good, ordered⟩ => good.ordered_calm ordered h.1 h.2) run
    ⟨_, (boot_booted image int32 ram).good grows_int32, ordered_empty _⟩
  exact good.takesTurns ordered

/-- Two processes of priority 20: the first runs and the second is ready. -/
def equalProcesses : List Label :=
  [.call (.create 0x08017000 1024 20 [] []), .call (.resume 1), .switch 0x2001e000,
    .call (.create 0x08018000 1024 20 [] []), .call (.resume 2)]

set_option maxRecDepth 100000 in
theorem equalProcesses_takeTurns :
    ∃ s, System.exec equalProcesses (boot smallImage int32 fun _ => 0) = some s ∧ s.kernel.currpid = 1 ∧
      s.kernel.readyList = [2, 0] ∧ s.kernel.prio 1 = s.kernel.prio 2 ∧ TakesTurns s := by
  have runs : (System.exec equalProcesses (boot smallImage int32 fun _ => 0)).map
      (fun s => (s.kernel.currpid, s.kernel.readyList, s.kernel.prio 1, s.kernel.prio 2)) =
        some (1, [2, 0], 20, 20) := by decide +kernel
  obtain ⟨s, returns, outcome⟩ := Option.map_eq_some_iff.mp runs
  simp only [Prod.mk.injEq] at outcome
  obtain ⟨current, list, first, second⟩ := outcome
  have calm : ∀ label ∈ equalProcesses, ∀ s : System, label.Calm := by
    simp [equalProcesses, Label.Calm]
  exact ⟨s, returns, current, list, first.trans second.symm,
    reachable_takesTurns smallImage _ ((System.run_exec returns).restrict calm)⟩

end XinuStm32
