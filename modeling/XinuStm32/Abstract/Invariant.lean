import XinuStm32.Abstract.Moves

/-!
# The scheduler invariant

`Placement` says where processes are linked: each in the queue its state names. `Census` says which
process runs and how many there are. Every move preserves both.
-/

namespace XinuStm32

namespace View

/-- The queue a process belongs in. -/
def home (a : View) (p : Int) : Option Int :=
  match a.state p with
  | .ready => some a.readylist
  | .wait => some (a.semtab (a.proctab p).prsem).squeue
  | .sleep | .rectim => some a.sleepq
  | .free | .curr | .recv | .susp => none

/-- The process table's indices in order. -/
def pids : List Int := (List.range NPROC.toNat).map Int.ofNat

/-- The number of entries in use. -/
def inUse (a : View) : Nat := pids.countP fun p => a.state p ≠ .free

structure Placement (a : View) : Prop where
  readylist : a.readylist = 36
  sleepq : a.sleepq = 38
  squeue : ∀ {sem}, ¬ isbadsem sem → (a.semtab sem).squeue = 12 + 2 * sem
  wellFormed : a.queuetab.WellFormed
  placed : ∀ {p q}, p ∈ a.members q ↔ IsPid p ∧ a.home p = some q
  waits : ∀ {p}, IsPid p → a.state p = .wait → ¬ isbadsem (a.proctab p).prsem

structure Census (a : View) : Prop where
  current : ∀ {p}, IsPid p → a.state p = .curr → p = a.currpid
  currpid : IsPid a.currpid
  idle : a.state NULLPROC = .curr ∨ a.state NULLPROC = .ready
  prcount : a.prcount = a.inUse

structure Inv (a : View) : Prop extends Placement a, Census a

/-! ## Counting processes -/

theorem mem_pids {p : Int} : p ∈ pids ↔ IsPid p := by
  simp only [pids, List.mem_map, List.mem_range, IsPid]
  constructor
  · rintro ⟨n, bound, rfl⟩
    simp only [Int.ofNat_eq_natCast, NPROC] at bound ⊢
    omega
  · rintro ⟨low, high⟩
    refine ⟨p.toNat, ?_, Int.toNat_of_nonneg low⟩
    simp only [NPROC] at high ⊢
    omega

theorem nodup_pids : pids.Nodup := by decide

/-- Whether an entry in this state is in use. -/
def weight (state : PrState) : Int := if state = .free then 0 else 1

/-- Changing one element's answer changes the count by the difference of the answers. -/
theorem countP_change {α : Type*} (before after : α → Bool) {l : List α} {x : α}
    (distinct : l.Nodup) (member : x ∈ l) (same : ∀ y, y ≠ x → after y = before y) :
    l.countP after + (before x).toNat = l.countP before + (after x).toNat := by
  obtain ⟨front, back, rfl⟩ := List.append_of_mem member
  rw [List.nodup_middle, List.nodup_cons, List.mem_append, not_or] at distinct
  have unchanged (part : List α) (absent : x ∉ part) : part.countP after = part.countP before :=
    List.countP_congr fun y hy => by rw [same y fun eq => absent (eq ▸ hy)]
  simp only [List.countP_append, List.countP_cons, unchanged front distinct.1.1,
    unchanged back distinct.1.2, Bool.toNat]
  cases before x <;> cases after x <;> simp <;> omega

theorem inUse_change {a a' : View} {p : Int} (pid : IsPid p)
    (same : ∀ p', p' ≠ p → a'.state p' = a.state p') :
    (a'.inUse : Int) = a.inUse + weight (a'.state p) - weight (a.state p) := by
  have change := countP_change (fun p => decide (a.state p ≠ .free))
    (fun p => decide (a'.state p ≠ .free)) nodup_pids (mem_pids.mpr pid)
    fun p' other => by rw [same p' other]
  simp only [inUse, weight]
  by_cases before : a.state p = .free <;> by_cases after : a'.state p = .free <;>
    simp [before, after] at change ⊢ <;> omega

/-! ## Moving one process -/

/-- Everything but the entry of one process, the lists and the fields that `Census` reads. -/
structure SameBut (p : Int) (a a' : View) : Prop where
  state : ∀ p', p' ≠ p → a'.state p' = a.state p'
  prsem : ∀ p', p' ≠ p → (a'.proctab p').prsem = (a.proctab p').prsem
  readylist : a'.readylist = a.readylist
  sleepq : a'.sleepq = a.sleepq
  squeue : ∀ sem, (a'.semtab sem).squeue = (a.semtab sem).squeue

theorem home_congr {a a' : View} {p : Int} (state : a'.state p = a.state p)
    (prsem : (a'.proctab p).prsem = (a.proctab p).prsem) (readylist : a'.readylist = a.readylist)
    (sleepq : a'.sleepq = a.sleepq) (squeue : ∀ sem, (a'.semtab sem).squeue = (a.semtab sem).squeue) :
    a'.home p = a.home p := by
  simp only [home, state, prsem, readylist, sleepq, squeue]

/-- One process moves to where its new state says. -/
theorem Placement.move {a a' : View} (placement : Placement a) {p : Int} (pid : IsPid p)
    (same : SameBut p a a') (moved : Lists.Moved p (a'.home p) a.queuetab a'.queuetab)
    (waits : a'.state p = .wait → ¬ isbadsem (a'.proctab p).prsem) : Placement a' where
  readylist := same.readylist.trans placement.readylist
  sleepq := same.sleepq.trans placement.sleepq
  squeue valid := (same.squeue _).trans (placement.squeue valid)
  wellFormed := moved.wellFormed
  placed := by
    intro p' q
    rw [members, moved.mem_iff]
    by_cases here : p' = p
    · subst here
      simp [pid]
    · have unmoved := home_congr (same.state p' here) (same.prsem p' here) same.readylist
        same.sleepq same.squeue
      rw [unmoved, ← placement.placed]
      simp [here, members]
  waits := by
    intro p' pid' waiting
    by_cases here : p' = p
    · exact here ▸ waits (here ▸ waiting)
    · rw [same.state p' here] at waiting
      rw [same.prsem p' here]
      exact placement.waits pid' waiting

/-- One process other than the null process changes its state, but not to running. -/
theorem Census.move {a a' : View} (census : Census a) {p : Int} (pid : IsPid p)
    (same : ∀ p', p' ≠ p → a'.state p' = a.state p') (currpid : a'.currpid = a.currpid)
    (stopped : a'.state p ≠ .curr) (null : p = NULLPROC → a'.state p = .ready)
    (prcount : a'.prcount = a.prcount + weight (a'.state p) - weight (a.state p)) : Census a' where
  current := by
    intro p' pid' running
    by_cases here : p' = p
    · exact absurd (here ▸ running) stopped
    · rw [same p' here] at running
      rw [currpid]
      exact census.current pid' running
  currpid := currpid ▸ census.currpid
  idle := by
    by_cases here : NULLPROC = p
    · exact Or.inr (here ▸ null here.symm)
    · rw [same _ here]
      exact census.idle
  prcount := by
    rw [prcount, inUse_change pid same, census.prcount]

/-- No process moves. -/
theorem Placement.still {a a' : View} (placement : Placement a)
    (state : ∀ p, a'.state p = a.state p) (prsem : ∀ p, (a'.proctab p).prsem = (a.proctab p).prsem)
    (readylist : a'.readylist = a.readylist) (sleepq : a'.sleepq = a.sleepq)
    (squeue : ∀ sem, (a'.semtab sem).squeue = (a.semtab sem).squeue)
    (elems : a'.queuetab.elems = a.queuetab.elems) : Placement a' where
  readylist := readylist.trans placement.readylist
  sleepq := sleepq.trans placement.sleepq
  squeue valid := (squeue _).trans (placement.squeue valid)
  wellFormed := by
    have old := placement.wellFormed
    exact ⟨elems ▸ old.pids, elems ▸ old.nodup, elems ▸ old.disjoint, elems ▸ old.allocated⟩
  placed := by
    intro p q
    rw [home_congr (state p) (prsem p) readylist sleepq squeue, members, elems]
    exact placement.placed
  waits := by
    intro p pid waiting
    rw [prsem]
    exact placement.waits pid (state p ▸ waiting)

theorem Census.still {a a' : View} (census : Census a) (state : ∀ p, a'.state p = a.state p)
    (currpid : a'.currpid = a.currpid) (prcount : a'.prcount = a.prcount) : Census a' where
  current := by
    intro p pid running
    rw [currpid]
    exact census.current pid (state p ▸ running)
  currpid := currpid ▸ census.currpid
  idle := by
    rw [state]
    exact census.idle
  prcount := by
    have same : a'.inUse = a.inUse := by simp only [inUse, state]
    rw [prcount, census.prcount, same]

/-! ## What a state says about the queues -/

theorem Placement.not_member {a : View} (placement : Placement a) {p : Int} (nowhere : a.home p = none) :
    a.queuetab.Fresh p := by
  intro q member
  have home := (placement.placed.mp member).2
  rw [nowhere] at home
  cases home

theorem Placement.isQueue_readylist {a : View} (placement : Placement a) : IsQueue a.readylist := by
  rw [placement.readylist]
  decide

theorem Placement.isQueue_sleepq {a : View} (placement : Placement a) : IsQueue a.sleepq := by
  rw [placement.sleepq]
  decide

theorem Placement.isQueue_squeue {a : View} (placement : Placement a) {sem : Int}
    (valid : ¬ isbadsem sem) : IsQueue (a.semtab sem).squeue := by
  rw [placement.squeue valid]
  simp only [isbadsem, IsQueue, NSEM, NPROC, NQENT] at *
  omega

/-- The queue a process is in and its state determine each other. -/
theorem Placement.state_of_mem {a : View} (placement : Placement a) {p q : Int}
    (member : p ∈ a.members q) :
    IsPid p ∧ (a.state p = .ready ∧ q = 36 ∨ (a.state p = .sleep ∨ a.state p = .rectim) ∧ q = 38 ∨
      a.state p = .wait ∧ ¬ isbadsem (a.proctab p).prsem ∧ q = 12 + 2 * (a.proctab p).prsem) := by
  obtain ⟨pid, home⟩ := placement.placed.mp member
  refine ⟨pid, ?_⟩
  simp only [View.home, placement.readylist, placement.sleepq] at home
  split at home
  · next state => exact Or.inl ⟨state, (Option.some.inj home).symm⟩
  · next state =>
    have valid := placement.waits pid state
    rw [placement.squeue valid] at home
    exact Or.inr (Or.inr ⟨state, valid, (Option.some.inj home).symm⟩)
  · next state => exact Or.inr (Or.inl ⟨Or.inl state, (Option.some.inj home).symm⟩)
  · next state => exact Or.inr (Or.inl ⟨Or.inr state, (Option.some.inj home).symm⟩)
  all_goals cases home

theorem Placement.ready_of_mem {a : View} (placement : Placement a) {p : Int}
    (member : p ∈ a.members a.readylist) : IsPid p ∧ a.state p = .ready := by
  obtain ⟨pid, ⟨state, -⟩ | ⟨-, queue⟩ | ⟨-, valid, queue⟩⟩ := placement.state_of_mem member
  · exact ⟨pid, state⟩
  · rw [placement.readylist] at queue
    omega
  · rw [placement.readylist] at queue
    simp only [isbadsem, NSEM] at valid
    omega

theorem Placement.asleep_of_mem {a : View} (placement : Placement a) {p : Int}
    (member : p ∈ a.members a.sleepq) : IsPid p ∧ (a.state p = .sleep ∨ a.state p = .rectim) := by
  obtain ⟨pid, ⟨-, queue⟩ | ⟨state, -⟩ | ⟨-, valid, queue⟩⟩ := placement.state_of_mem member
  · rw [placement.sleepq] at queue
    omega
  · exact ⟨pid, state⟩
  · rw [placement.sleepq] at queue
    simp only [isbadsem, NSEM] at valid
    omega

theorem Placement.waiting_of_mem {a : View} (placement : Placement a) {p sem : Int}
    (valid : ¬ isbadsem sem) (member : p ∈ a.members (a.semtab sem).squeue) :
    IsPid p ∧ a.state p = .wait ∧ (a.proctab p).prsem = sem := by
  obtain ⟨pid, ⟨-, queue⟩ | ⟨-, queue⟩ | ⟨state, -, queue⟩⟩ := placement.state_of_mem member
  · rw [placement.squeue valid] at queue
    simp only [isbadsem, NSEM] at valid
    omega
  · rw [placement.squeue valid] at queue
    simp only [isbadsem, NSEM] at valid
    omega
  · rw [placement.squeue valid] at queue
    exact ⟨pid, state, by omega⟩

/-! ## Every move preserves the invariant -/

@[simp] theorem state_setProc (p : Int) (entry : Procent) (a : View) (p' : Int) :
    (a.setProc p entry).state p' = if p' = p then entry.prstate else a.state p' := by
  simp only [state, setProc_proctab, Function.update_apply]
  split <;> rfl

@[simp] theorem state_setState (p : Int) (s : PrState) (a : View) (p' : Int) :
    (a.setState p s).state p' = if p' = p then s else a.state p' :=
  state_setProc p _ a p'

@[simp] theorem state_setLists (lists : Lists) (a : View) (p : Int) :
    (a.setLists lists).state p = a.state p := rfl

@[simp] theorem state_pend (a : View) (p : Int) : a.pend.state p = a.state p := rfl

@[simp] theorem prsem_setState (p : Int) (s : PrState) (a : View) (p' : Int) :
    ((a.setState p s).proctab p').prsem = (a.proctab p').prsem := by
  simp only [setState, setProc_proctab, Function.update_apply]
  split
  · next same => rw [same]
  · rfl

theorem home_ready {a : View} {p : Int} (state : a.state p = .ready) :
    a.home p = some a.readylist := by
  simp [home, state]

theorem home_wait {a : View} {p : Int} (state : a.state p = .wait) :
    a.home p = some (a.semtab (a.proctab p).prsem).squeue := by
  simp [home, state]

theorem home_asleep {a : View} {p : Int} (state : a.state p = .sleep ∨ a.state p = .rectim) :
    a.home p = some a.sleepq := by
  rcases state with state | state <;> simp [home, state]

/-- The states of a process that is in no queue. -/
def Unqueued (s : PrState) : Prop :=
  s = .free ∨ s = .curr ∨ s = .recv ∨ s = .susp

theorem home_none {a : View} {p : Int} (state : Unqueued (a.state p)) : a.home p = none := by
  rcases state with state | state | state | state <;> simp [home, state]

/-- `b` is `a` with process `p` taken out of its queue, its entry as it was. -/
structure Without (p : Int) (a b : View) : Prop where
  proctab : b.proctab = a.proctab
  currpid : b.currpid = a.currpid
  prcount : b.prcount = a.prcount
  readylist : b.readylist = a.readylist
  sleepq : b.sleepq = a.sleepq
  squeue : ∀ sem, (b.semtab sem).squeue = (a.semtab sem).squeue
  lists : Lists.Moved p none a.queuetab b.queuetab

theorem Without.refl {a : View} (placement : Placement a) {p : Int} (state : Unqueued (a.state p)) :
    Without p a a :=
  ⟨rfl, rfl, rfl, rfl, rfl, fun _ => rfl,
    placement.wellFormed.stay (placement.not_member (home_none state))⟩

theorem Without.out {a : View} (placement : Placement a) {p q : Int} (member : p ∈ a.members q) :
    Without p a (a.out p q) :=
  ⟨rfl, rfl, rfl, rfl, rfl, fun _ => rfl, placement.wellFormed.moveOut member⟩

/-- The entries and keys a move touches besides the process it moves. -/
theorem Without.congr {p : Int} {a b b' : View} (without : Without p a b)
    (proctab : b'.proctab = b.proctab) (currpid : b'.currpid = b.currpid)
    (prcount : b'.prcount = b.prcount) (readylist : b'.readylist = b.readylist)
    (sleepq : b'.sleepq = b.sleepq) (squeue : ∀ sem, (b'.semtab sem).squeue = (b.semtab sem).squeue)
    (elems : b'.queuetab.elems = b.queuetab.elems) : Without p a b' where
  proctab := proctab.trans without.proctab
  currpid := currpid.trans without.currpid
  prcount := prcount.trans without.prcount
  readylist := readylist.trans without.readylist
  sleepq := sleepq.trans without.sleepq
  squeue sem := (squeue sem).trans (without.squeue sem)
  lists := by
    have old := without.lists.wellFormed
    refine ⟨⟨elems ▸ old.pids, elems ▸ old.nodup, elems ▸ old.disjoint, elems ▸ old.allocated⟩, ?_⟩
    rw [elems]
    exact without.lists.mem_iff

@[simp] theorem squeue_addCount (sem change : Int) (a : View) (sem' : Int) :
    ((a.addCount sem change).semtab sem').squeue = (a.semtab sem').squeue := by
  simp only [addCount, setSem_semtab, Function.update_apply]
  split
  · next same => rw [same]
  · rfl

theorem Without.addCount {p : Int} {a b : View} (without : Without p a b) (sem change : Int) :
    Without p a (b.addCount sem change) :=
  without.congr rfl rfl rfl rfl rfl (squeue_addCount sem change b) rfl

/-- A process that was taken out arrives where its new state says. -/
theorem Inv.arrive {a b a' : View} (inv : Inv a) {p : Int} (pid : IsPid p) (without : Without p a b)
    (same : SameBut p b a') (currpid : a'.currpid = b.currpid)
    (lists : Lists.Moved p (a'.home p) a.queuetab a'.queuetab)
    (waits : a'.state p = .wait → ¬ isbadsem (a'.proctab p).prsem) (stopped : a'.state p ≠ .curr)
    (null : p = NULLPROC → a'.state p = .ready)
    (prcount : a'.prcount = b.prcount + weight (a'.state p) - weight (a.state p)) : Inv a' := by
  have same' : SameBut p a a' :=
    { state := fun p' other => by rw [same.state p' other, state, without.proctab, state]
      prsem := fun p' other => by rw [same.prsem p' other, without.proctab]
      readylist := same.readylist.trans without.readylist
      sleepq := same.sleepq.trans without.sleepq
      squeue := fun sem => (same.squeue sem).trans (without.squeue sem) }
  exact ⟨inv.toPlacement.move pid same' lists waits,
    inv.toCensus.move pid same'.state (currpid.trans without.currpid) stopped null
      (without.prcount ▸ prcount)⟩

theorem Inv.enterReady {a b : View} (inv : Inv a) {p : Int} (pid : IsPid p) (live : a.state p ≠ .free)
    (without : Without p a b) : Inv (b.enterReady p) := by
  have ready : (b.enterReady p).state p = .ready := by simp [View.enterReady]
  have same : SameBut p b (b.enterReady p) := by
    constructor <;> simp +contextual [View.enterReady, setState]
  refine inv.arrive pid without same rfl ?_ ?_ ?_ (fun _ => ready) ?_
  · rw [home_ready ready]
    exact without.lists.insertSorted pid (without.readylist ▸ inv.isQueue_readylist) _
  · simp [ready]
  · simp [ready]
  · rw [ready]
    simp [weight, live, View.enterReady, setState]

theorem Inv.pend {a : View} (inv : Inv a) : Inv a.pend :=
  ⟨inv.toPlacement.still (fun _ => rfl) (fun _ => rfl) rfl rfl (fun _ => rfl) rfl,
    inv.toCensus.still (fun _ => rfl) rfl rfl⟩

theorem Inv.makeReady {a b : View} (inv : Inv a) {p : Int} (pid : IsPid p) (live : a.state p ≠ .free)
    (without : Without p a b) : Inv (b.makeReady p) :=
  (inv.enterReady pid live without).pend

theorem Inv.settle {a b : View} (inv : Inv a) {p : Int} (pid : IsPid p) (live : a.state p ≠ .free)
    (notNull : p ≠ NULLPROC) (without : Without p a b) {s : PrState}
    (new : s = .recv ∨ s = .susp ∨ s = .free) : Inv (b.settle p s) := by
  have state : (b.settle p s).state p = s := by
    simp only [View.settle]
    split
    · next same => simp [View.state, setState, same]
    · simp
  have lists : (b.settle p s).queuetab = b.queuetab := by
    simp only [View.settle]
    split <;> rfl
  have same : SameBut p b (b.settle p s) := by
    simp only [View.settle]
    constructor <;> split <;> simp +contextual [View.state, setState]
  refine inv.arrive pid without same ?_ ?_ ?_ ?_ (fun null => absurd null notNull) ?_
  · simp only [View.settle]
    split <;> rfl
  · rw [home_none (by rw [state]; rcases new with new | new | new <;> simp [Unqueued, new]), lists]
    exact without.lists
  · rw [state]
    rcases new with new | new | new <;> simp [new]
  · rw [state]
    rcases new with new | new | new <;> simp [new]
  · rw [state]
    rcases new with new | new | new <;> subst new <;> simp [View.settle, weight, live, setState]

theorem Inv.block {a b : View} (inv : Inv a) (runs : a.state a.currpid = .curr)
    (notNull : a.currpid ≠ NULLPROC) (without : Without a.currpid a b) {sem : Int}
    (valid : ¬ isbadsem sem) : Inv (b.block sem) := by
  have state : (b.block sem).state a.currpid = .wait := by
    simp [View.block, without.currpid, View.state]
  have prsem : ((b.block sem).proctab a.currpid).prsem = sem := by
    simp [View.block, without.currpid]
  have same : SameBut a.currpid b (b.block sem) := by
    constructor <;>
      simp +contextual [View.block, without.currpid, View.state]
  refine inv.arrive inv.currpid without same rfl ?_ ?_ ?_ (fun null => absurd null notNull) ?_
  · have queue : IsQueue (b.semtab sem).squeue := without.squeue sem ▸ inv.isQueue_squeue valid
    rw [home_wait state, prsem, same.squeue]
    have moved := without.lists.append inv.currpid queue
    rw [← without.currpid] at moved ⊢
    exact moved
  · exact fun _ => prsem.symm ▸ valid
  · simp [state]
  · rw [state]
    simp [weight, runs, View.block]

theorem Inv.sleep {a : View} (inv : Inv a) (runs : a.state a.currpid = .curr)
    (notNull : a.currpid ≠ NULLPROC) {s : PrState} (new : s = .sleep ∨ s = .rectim) (delay : Int) :
    Inv (a.sleep s delay) := by
  have without := Without.refl inv.toPlacement (p := a.currpid) (Or.inr (Or.inl runs))
  have state : (a.sleep s delay).state a.currpid = s := by simp [View.sleep]
  have same : SameBut a.currpid a (a.sleep s delay) := by
    constructor <;> simp +contextual [View.sleep, setState]
  refine inv.arrive inv.currpid without same rfl ?_ ?_ ?_ (fun null => absurd null notNull) ?_
  · rw [home_asleep (by rw [state]; exact new)]
    exact without.lists.insertDelta inv.currpid inv.isQueue_sleepq delay
  · rw [state]
    rcases new with new | new <;> simp [new]
  · rw [state]
    rcases new with new | new <;> simp [new]
  · rw [state]
    rcases new with new | new <;> subst new <;> simp [weight, runs, View.sleep, setState]

/-- A process of the ready list starts to run, after the running one has stopped. -/
theorem Inv.run {a : View} (inv : Inv a) (stopped : a.state a.currpid ≠ .curr) {p : Int}
    (member : p ∈ a.members a.readylist) : Inv (a.run p) := by
  obtain ⟨pid, ready⟩ := inv.ready_of_mem member
  have without := Without.out inv.toPlacement member
  have state (p' : Int) : (a.run p).state p' = if p' = p then .curr else a.state p' := by
    simp only [View.run, state_setState]
    rfl
  have same : SameBut p a (a.run p) := by
    constructor <;> simp +contextual [View.run, View.out, View.state, setState]
  have running : (a.run p).state p = .curr := by rw [state, if_pos rfl]
  refine ⟨inv.toPlacement.move pid same ?_ ?_, ?_⟩
  · rw [home_none (by rw [running]; exact Or.inr (Or.inl rfl))]
    exact without.lists
  · simp [running]
  · constructor
    · intro p' pid' running'
      rw [state] at running'
      split at running'
      · assumption
      · -- nothing else was running, since the old process had stopped
        exact absurd (inv.current pid' running' ▸ running') stopped
    · exact pid
    · rw [state]
      split
      · exact Or.inl rfl
      · exact inv.idle
    · rw [inUse_change pid same.state, running, ready]
      simp [weight, View.run, View.out, setState, inv.prcount]

theorem Without.bump {a : View} (placement : Placement a) {p q : Int} (member : p ∈ a.members q)
    (behind : List Int) : Without p a ((a.bump p behind).out p q) := by
  have out := Without.out placement member
  cases behind with
  | nil => exact out
  | cons next rest => exact out.congr rfl rfl rfl rfl rfl (fun _ => rfl) rfl

/-- A member of the ready list or the sleep queue is live, and the null process never sleeps. -/
theorem Inv.sleeper {a : View} (inv : Inv a) {p : Int} (member : p ∈ a.members a.sleepq) :
    IsPid p ∧ a.state p ≠ .free ∧ p ≠ NULLPROC := by
  obtain ⟨pid, asleep⟩ := inv.asleep_of_mem member
  refine ⟨pid, ?_, ?_⟩
  · rcases asleep with state | state <;> simp [state]
  · rintro rfl
    rcases inv.idle with idle | idle <;> rcases asleep with state | state <;> simp [idle] at state

theorem Inv.waiter {a : View} (inv : Inv a) {p : Int} (waiting : a.state p = .wait) :
    a.state p ≠ .free ∧ p ≠ NULLPROC := by
  refine ⟨by simp [waiting], ?_⟩
  rintro rfl
  rcases inv.idle with idle | idle <;> simp [idle] at waiting

theorem Inv.waiter_mem {a : View} (inv : Inv a) {p : Int} (pid : IsPid p) (waiting : a.state p = .wait) :
    p ∈ a.members (a.semtab (a.proctab p).prsem).squeue :=
  inv.placed.mpr ⟨pid, home_wait waiting⟩

/-- A change of the semaphore table that leaves the queues where they are. -/
theorem Inv.setSem {a : View} (inv : Inv a) (sem : Int) {entry : Sentry}
    (squeue : entry.squeue = (a.semtab sem).squeue) : Inv (a.setSem sem entry) := by
  refine ⟨inv.toPlacement.still (fun _ => rfl) (fun _ => rfl) rfl rfl ?_ rfl,
    inv.toCensus.still (fun _ => rfl) rfl rfl⟩
  intro sem'
  simp only [setSem_semtab, Function.update_apply]
  split
  · next same => rw [squeue, same]
  · rfl

theorem Inv.addCount {a : View} (inv : Inv a) (sem change : Int) : Inv (a.addCount sem change) :=
  inv.setSem sem rfl

theorem Inv.spawn {a : View} (inv : Inv a) {p : Int} {entry : Procent} (pid : IsPid p)
    (free : a.state p = .free) (new : entry.prstate = .susp) :
    Inv (a.enroll p entry) := by
  have without := Without.refl inv.toPlacement (p := p) (Or.inl free)
  have state : (a.enroll p entry).state p = .susp := by
    simp [View.enroll, View.state, new]
  have notNull : p ≠ NULLPROC := by
    rintro rfl
    rcases inv.idle with idle | idle <;> simp [idle] at free
  have same : SameBut p a (a.enroll p entry) := by
    constructor <;> simp +contextual [View.enroll, View.state]
  refine inv.arrive pid without same rfl ?_ ?_ ?_ (fun null => absurd null notNull) ?_
  · rw [home_none (by rw [state]; exact Or.inr (Or.inr (Or.inr rfl)))]
    exact without.lists
  · simp [state]
  · simp [state]
  · rw [state]
    simp [weight, free, View.enroll]

/-- Every move preserves the invariant. -/
theorem Inv.step {move : Move} {a a' : View} (h : Move.Step move a a') (inv : Inv a) : Inv a' := by
  cases h with
  | quiet quiet =>
    refine ⟨inv.toPlacement.still quiet.state quiet.prsem ?_ ?_ ?_ ?_, inv.toCensus.still quiet.state ?_ ?_⟩ <;>
      rw [quiet.rest]
    exact fun _ => rfl
  | accept =>
    exact ⟨inv.toPlacement.still (fun _ => rfl) (fun _ => rfl) rfl rfl (fun _ => rfl) rfl,
      inv.toCensus.still (fun _ => rfl) rfl rfl⟩
  | @chprio _ p prio pid =>
    have state : ∀ p', (a.setProc p { a.proctab p with prprio := prio }).state p' = a.state p' := by
      intro p'
      rw [state_setProc]
      split
      · next same => rw [same]; rfl
      · rfl
    refine ⟨inv.toPlacement.still state ?_ rfl rfl (fun _ => rfl) rfl, inv.toCensus.still state rfl rfl⟩
    intro p'
    simp only [setProc_proctab, Function.update_apply]
    split
    · next same => rw [same]
    · rfl
  | spawn pid free new => exact inv.spawn pid free new
  | ready pid idle =>
    refine inv.makeReady pid ?_ (Without.refl inv.toPlacement ?_)
    · rcases idle with state | state <;> simp [state]
    · rcases idle with state | state <;> simp [Unqueued, state]
  | preempt runs =>
    exact inv.enterReady inv.currpid (by simp [runs]) (Without.refl inv.toPlacement (Or.inr (Or.inl runs)))
  | dispatch stopped front => exact inv.run stopped (front ▸ List.mem_cons_self)
  | release valid _ front =>
    have member := front ▸ List.mem_cons_self
    obtain ⟨pid, waiting, -⟩ := inv.waiting_of_mem valid member
    have without := Without.out inv.toPlacement member
    exact inv.makeReady pid (inv.waiter waiting).1 (without.addCount _ 1)
  | drain valid front =>
    have member := front ▸ List.mem_cons_self
    obtain ⟨pid, waiting, -⟩ := inv.waiting_of_mem valid member
    exact inv.makeReady pid (inv.waiter waiting).1 (Without.out inv.toPlacement member)
  | post => exact inv.addCount _ _
  | pass => exact inv.addCount _ _
  | setCount => exact inv.setSem _ rfl
  | close => exact inv.setSem _ rfl
  | block valid _ runs notNull =>
    have without := Without.refl inv.toPlacement (p := a.currpid) (Or.inr (Or.inl runs))
    exact inv.block runs notNull (without.addCount _ _) valid
  | abandon pid waiting =>
    have without := Without.out inv.toPlacement (inv.waiter_mem pid waiting)
    exact inv.settle pid (inv.waiter waiting).1 (inv.waiter waiting).2 (without.addCount _ 1)
      (Or.inr (Or.inr rfl))
  | sleep new runs notNull =>
    exact inv.sleep runs notNull (by rcases new with ⟨new, -⟩ | ⟨new, -⟩ <;> simp [new]) _
  | tick =>
    exact ⟨inv.toPlacement.still (fun _ => rfl) (fun _ => rfl) rfl rfl (fun _ => rfl) rfl,
      inv.toCensus.still (fun _ => rfl) rfl rfl⟩
  | wake front =>
    have member := front ▸ List.mem_cons_self
    obtain ⟨pid, live, -⟩ := inv.sleeper member
    exact inv.makeReady pid live (Without.out inv.toPlacement member)
  | @withdrawReady _ p front behind _ split =>
    have member : p ∈ a.members a.sleepq := by simp [split]
    obtain ⟨pid, live, -⟩ := inv.sleeper member
    exact inv.makeReady pid live (Without.bump inv.toPlacement member behind)
  | @withdrawFree _ p front behind split =>
    have member : p ∈ a.members a.sleepq := by simp [split]
    obtain ⟨pid, live, notNull⟩ := inv.sleeper member
    exact inv.settle pid live notNull (Without.bump inv.toPlacement member behind) (Or.inr (Or.inr rfl))
  | leaveCurr runs notNull new =>
    have without := Without.refl inv.toPlacement (p := a.currpid) (Or.inr (Or.inl runs))
    exact (inv.settle inv.currpid (by simp [runs]) notNull without new).pend
  | @leaveIdle _ p pid idle =>
    have notNull : p ≠ NULLPROC := by
      rintro rfl
      rcases inv.idle with state | state <;> rcases idle with idle | idle <;> simp [state] at idle
    refine inv.settle pid ?_ notNull (Without.refl inv.toPlacement ?_) (Or.inr (Or.inr rfl))
    · rcases idle with state | state <;> simp [state]
    · rcases idle with state | state <;> simp [Unqueued, state]
  | take notNull member new =>
    obtain ⟨pid, ready⟩ := inv.ready_of_mem member
    exact inv.settle pid (by simp [ready]) notNull (Without.out inv.toPlacement member) (Or.inr new)

/-- A run of moves preserves the invariant. -/
theorem Inv.moves {moves : List Move} {a a' : View} (run : Moves moves a a') (inv : Inv a) : Inv a' :=
  Transition.Run.invariant Inv (fun _ _ _ h inv => inv.step h) run inv

end View

end XinuStm32
