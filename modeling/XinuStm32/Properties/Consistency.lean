import XinuStm32.Refinement.Boot

/-!
# The tables are consistent in every reachable state

`Consistent` speaks of the kernel's own tables: the links of `queuetab`, the states of `proctab`, and
the counters. It holds after every run from the booted system.
-/

namespace XinuStm32

open Links

/-! ## What the tables say -/

/-- The processes met on the way from the head of a queue, following `qnext` until an entry that is
not a process. -/
def QTab.members (t : QTab) (q : Int) : List Int :=
  walk t.nextOf (fun i => decide (i < 0 ∨ i ≥ NPROC)) NQENT.toNat (t.nextOf (queuehead q))

namespace Kernel

/-- The queues that `newqueue` has returned so far. -/
def Allocated (q : Int) (s : Kernel) : Prop := NPROC ≤ q ∧ q < s.nextqid ∧ q % 2 = 0

/-- The queue that the state of a process names. -/
def queueOf (p : Int) (s : Kernel) : Option Int :=
  match (s.proctab p).prstate with
  | .ready => some s.readylist
  | .wait => some (s.semtab (s.proctab p).prsem).squeue
  | .sleep | .rectim => some s.sleepq
  | .free | .curr | .recv | .susp => none

/-- The entries of the process table that are in use. -/
def processes (s : Kernel) : List Int :=
  ((List.range NPROC.toNat).map Int.ofNat).filter fun p => (s.proctab p).prstate ≠ .free

structure Consistent (s : Kernel) : Prop where
  /-- From the head over the members to the tail, `qnext` and `qprev` are inverse to each other. -/
  linked : ∀ {q}, s.Allocated q →
    Linked s.queuetab.nextOf s.queuetab.prevOf (queuehead q :: s.queuetab.members q ++ [queuetail q])
  nodup : ∀ {q}, s.Allocated q → (s.queuetab.members q).Nodup
  disjoint : ∀ {q q'}, s.Allocated q → s.Allocated q' → q ≠ q' →
    List.Disjoint (s.queuetab.members q) (s.queuetab.members q')
  placed : ∀ {p q}, s.Allocated q → (p ∈ s.queuetab.members q ↔ IsPid p ∧ s.queueOf p = some q)
  queueOf_allocated : ∀ {p q}, IsPid p → s.queueOf p = some q → s.Allocated q
  current : s.pendsv = false → IsPid s.currpid ∧
    ∀ p, IsPid p → ((s.proctab p).prstate = .curr ↔ p = s.currpid)
  prcount : s.prcount = s.processes.length

end Kernel

/-! ## Good states are consistent -/

namespace Good

variable {s : System} {a : View}

theorem isQueue_iff (good : Good s a) (q : Int) : s.kernel.Allocated q ↔ IsQueue q := by
  simp only [Kernel.Allocated, IsQueue, good.nextqid]

theorem members_eq (good : Good s a) {q : Int} (queue : IsQueue q) :
    s.kernel.queuetab.members q = a.members q := by
  refine (good.tracks.represents.linked queue).walk_eq (fun p member => ?_) ?_
    (good.tracks.represents.enough_fuel q)
  · obtain ⟨low, high⟩ := good.tracks.represents.wellFormed.pids member
    simp only [decide_eq_false_iff_not]
    omega
  · simp only [IsQueue, NPROC] at queue
    simp only [queuetail, NPROC, decide_eq_true_eq]
    omega

theorem queueOf_eq (good : Good s a) (p : Int) : s.kernel.queueOf p = a.home p := by
  have entry : s.kernel.proctab p = a.proctab p := congrFun good.tracks.proctab p
  rw [Kernel.queueOf, good.tracks.readylist, good.tracks.sleepq, good.tracks.semtab, entry]
  rfl

theorem consistent (good : Good s a) : s.kernel.Consistent where
  linked := by
    intro q allocated
    have queue := (good.isQueue_iff q).mp allocated
    rw [good.members_eq queue]
    exact good.tracks.represents.linked queue
  nodup := by
    intro q allocated
    rw [good.members_eq ((good.isQueue_iff q).mp allocated)]
    exact good.inv.wellFormed.nodup q
  disjoint := by
    intro q q' allocated allocated' other p member member'
    rw [good.members_eq ((good.isQueue_iff q).mp allocated)] at member
    rw [good.members_eq ((good.isQueue_iff q').mp allocated')] at member'
    exact other (good.inv.wellFormed.disjoint member member')
  placed := by
    intro p q allocated
    rw [good.members_eq ((good.isQueue_iff q).mp allocated), good.queueOf_eq]
    exact good.inv.placed
  queueOf_allocated := by
    intro p q pid home
    rw [good.queueOf_eq] at home
    exact (good.isQueue_iff q).mpr (good.inv.wellFormed.allocated (good.inv.placed.mpr ⟨pid, home⟩))
  current := by
    intro settled
    have runs : a.state a.currpid = .curr := by
      cases good.awake with
      | inl pending => exact absurd (good.tracks.pendsv.symm.trans settled) (by simp [pending])
      | inr runs => exact runs
    rw [good.tracks.currpid]
    refine ⟨good.inv.currpid, fun p pid => ?_⟩
    rw [good.tracks.state]
    exact ⟨good.inv.current pid, fun same => same ▸ runs⟩
  prcount := by
    have count := good.inv.prcount
    simp only [View.inUse, List.countP_eq_length_filter, ← good.tracks.state] at count
    rw [Kernel.processes, ← View.pids, ← count, ← good.tracks.prcount, Int.add_zero]

end Good

/-! ## Runs -/

/-- However kernel operations, clock ticks and context switches follow on each other after start-up,
the tables stay consistent. -/
theorem reachable_consistent (image : BootImage) (ram : Nat → UInt8) {labels : List Label} {s : System}
    (run : System.Run labels (boot image int32 ram) s) : s.kernel.Consistent := by
  obtain ⟨a, good⟩ := ((boot_booted image int32 ram).good grows_int32).run run
  exact good.consistent

/-- A small image and an empty memory. -/
def smallImage : BootImage where
  endAddr := 0x20002ff8
  userret := 0x08014e25
  inRam := by decide
  belowStack := by decide
  aligned := by decide
  nullprocess := 0x08016000
  room := by decide

/-- Two processes are started; the one with the higher priority goes to sleep and the clock ticks. -/
def twoProcesses : List Label :=
  [.call (.create 0x08017000 1024 20 [] []), .call (.resume 1), .switch 0x2001e000,
    .call (.create 0x08018000 1024 30 [] []), .call (.resume 2), .switch 0x2001d000,
    .call (.sleepms 5), .switch 0x2001c000, .tick none]

set_option maxRecDepth 100000 in
theorem twoProcesses_consistent :
    ∃ s, System.exec twoProcesses (boot smallImage int32 fun _ => 0) = some s ∧ s.kernel.Consistent := by
  have runs : (System.exec twoProcesses (boot smallImage int32 fun _ => 0)).isSome := by decide +kernel
  obtain ⟨s, returns⟩ := Option.isSome_iff_exists.mp runs
  exact ⟨s, returns, reachable_consistent smallImage _ (System.run_exec returns)⟩

end XinuStm32
