import XinuStm32.Refinement.Heap
import XinuStm32.Refinement.System

/-!
# Start-up reaches a good state

`sysinit` and `clkinit` allocate the queues one after the other, each empty. When `nulluser` is done
all fourteen are there, every semaphore has its queue and a count that is not negative, and the null
process is the only one.
-/

namespace XinuStm32

open View

/-! ## Queues -/

/-- The queues `newqueue` has handed out are empty lists. -/
structure Opened (n : Int) (s : Kernel) : Prop where
  nextqid : s.nextqid = NPROC + 2 * n
  next_head : ∀ k, 0 ≤ k → k < n → s.queuetab.nextOf (12 + 2 * k) = 12 + 2 * k + 1
  prev_tail : ∀ k, 0 ≤ k → k < n → s.queuetab.prevOf (12 + 2 * k + 1) = 12 + 2 * k
  key_tail : ∀ k, 0 ≤ k → k < n → s.queuetab.keyOf (12 + 2 * k + 1) = MINKEY

theorem newqueue_opens {s : Kernel} {n : Int} (opened : Opened n s) (room : n < 14) :
    (newqueue s).1 = 12 + 2 * n ∧ Opened (n + 1) (newqueue s).2 := by
  obtain ⟨nextqid, next_head, prev_tail, key_tail⟩ := opened
  have left : ¬ s.nextqid ≥ NQENT := by
    simp only [nextqid, NPROC, NQENT, NSEM]
    omega
  have made : newqueue s = (12 + 2 * n, Kernel.setQueue (s.queuetab.makeQueue (12 + 2 * n))
      { s with nextqid := 12 + 2 * n + 2 }) := by
    simp only [newqueue]
    rw [if_neg left, nextqid]
  rw [made]
  refine ⟨rfl, ?_, fun k low high => ?_, fun k low high => ?_, fun k low high => ?_⟩
  · simp only [Kernel.setQueue, Kernel.touch, NPROC]
    omega
  all_goals
    simp only [Kernel.setQueue, QTab.makeQueue, queuehead, queuetail]
    by_cases last : k = n
    · subst last
      simp [show 12 + 2 * k ≠ 12 + 2 * k + 1 by omega]
    · have older := And.intro low (show k < n by omega)
      have apart : (12 + 2 * k ≠ 12 + 2 * n ∧ 12 + 2 * k ≠ 12 + 2 * n + 1) ∧
          12 + 2 * k + 1 ≠ 12 + 2 * n ∧ 12 + 2 * k + 1 ≠ 12 + 2 * n + 1 := by omega
      simp only [QTab.nextOf_setKey, QTab.nextOf_setPrev, QTab.nextOf_setNext, QTab.prevOf_setKey,
        QTab.prevOf_setPrev, QTab.prevOf_setNext, QTab.keyOf_setKey, QTab.keyOf_setPrev,
        QTab.keyOf_setNext, if_neg apart.1.1, if_neg apart.1.2, if_neg apart.2.1, if_neg apart.2.2]
      first
        | exact next_head k older.1 older.2
        | exact prev_tail k older.1 older.2
        | exact key_tail k older.1 older.2

/-- `newqueue` allocates; nothing else of the kernel changes. -/
theorem newqueue_rest (s : Kernel) :
    (newqueue s).2 = { s with
      queuetab := (newqueue s).2.queuetab, nextqid := (newqueue s).2.nextqid, cpu := (newqueue s).2.cpu } := by
  simp only [newqueue]
  split <;> rfl

/-- The loop of `sysinit` gives every semaphore an empty queue. -/
theorem initSemaphores_opens {s : Kernel} {i : Int} (fuel : Nat) (opened : Opened i s) (low : 0 ≤ i)
    (room : i + fuel ≤ 14)
    (sems : ∀ sem, 0 ≤ sem → sem < i → s.semtab sem = ⟨.free, 0, 12 + 2 * sem⟩) :
    Opened (i + fuel) (initSemaphores fuel i s) ∧
      (∀ sem, 0 ≤ sem → sem < i + fuel →
        (initSemaphores fuel i s).semtab sem = ⟨.free, 0, 12 + 2 * sem⟩) ∧
      initSemaphores fuel i s = { s with
        semtab := (initSemaphores fuel i s).semtab
        queuetab := (initSemaphores fuel i s).queuetab
        nextqid := (initSemaphores fuel i s).nextqid
        cpu := (initSemaphores fuel i s).cpu } := by
  induction fuel generalizing s i with
  | zero =>
    have none : i + ((0 : Nat) : Int) = i := Int.add_zero i
    rw [none]
    exact ⟨opened, sems, rfl⟩
  | succ fuel inductionHypothesis =>
    obtain ⟨made, opened'⟩ := newqueue_opens opened (by omega)
    have rest := newqueue_rest s
    have stored : Opened (i + 1) ((newqueue s).2.setSem i ⟨.free, 0, (newqueue s).1⟩) :=
      ⟨opened'.nextqid, opened'.next_head, opened'.prev_tail, opened'.key_tail⟩
    have sems' : ∀ sem, 0 ≤ sem → sem < i + 1 →
        ((newqueue s).2.setSem i ⟨.free, 0, (newqueue s).1⟩).semtab sem = ⟨.free, 0, 12 + 2 * sem⟩ := by
      intro sem nonnegative high
      simp only [Kernel.setSem, Function.update_apply]
      split
      · next same => rw [made, same]
      · next other =>
        rw [rest]
        exact sems sem nonnegative (by omega)
    obtain ⟨opens, filled, frame⟩ := inductionHypothesis stored (by omega) (by omega) sems'
    have count : i + 1 + (fuel : Int) = i + (fuel + 1 : Nat) := by omega
    rw [count] at opens filled
    refine ⟨opens, filled, ?_⟩
    simp only [initSemaphores]
    rw [frame, rest]
    rfl

/-! ## Semaphores -/

/-- Only the semaphore table, its search position, the console line and the processor differ, the
queues are as they were, and no count has become negative. -/
structure SemsOnly (s s' : Kernel) : Prop where
  rest : s' = { s with semtab := s'.semtab, nextsem := s'.nextsem, tty := s'.tty, cpu := s'.cpu }
  squeue : ∀ sem, (s'.semtab sem).squeue = (s.semtab sem).squeue
  scount : ∀ sem, 0 ≤ (s.semtab sem).scount → 0 ≤ (s'.semtab sem).scount

namespace SemsOnly

theorem trans {s s' s'' : Kernel} (first : SemsOnly s s') (second : SemsOnly s' s'') :
    SemsOnly s s'' := by
  refine ⟨?_, fun sem => (second.squeue sem).trans (first.squeue sem),
    fun sem nonnegative => second.scount sem (first.scount sem nonnegative)⟩
  rw [second.rest, first.rest]

theorem same {s s' : Kernel}
    (rest : s' = { s with nextsem := s'.nextsem, tty := s'.tty, cpu := s'.cpu }) : SemsOnly s s' := by
  refine ⟨?_, fun sem => ?_, fun sem => ?_⟩ <;> rw [rest]
  exact id

theorem setSem (s : Kernel) {sem : Int} {entry : Sentry} (squeue : entry.squeue = (s.semtab sem).squeue)
    (scount : 0 ≤ (s.semtab sem).scount → 0 ≤ entry.scount) : SemsOnly s (s.setSem sem entry) := by
  refine ⟨rfl, fun sem' => ?_, fun sem' => ?_⟩
  all_goals
    simp only [Kernel.setSem, Function.update_apply]
    split
    · next here => subst here; assumption
    · first | rfl | exact id

end SemsOnly

theorem newsemLoop_semsOnly (fuel : Nat) (s : Kernel) : SemsOnly s (newsemLoop fuel s).2 := by
  induction fuel generalizing s with
  | zero => exact .same rfl
  | succ fuel inductionHypothesis =>
    have advanced : SemsOnly s
        { s with nextsem := if s.nextsem + 1 ≥ NSEM then 0 else s.nextsem + 1 } := .same rfl
    simp only [newsemLoop]
    split
    · exact advanced.trans (.setSem _ rfl id)
    · exact advanced.trans (inductionHypothesis _)

theorem semcreate_semsOnly (count : Int32) (s : Kernel) : SemsOnly s (semcreate count s).2 := by
  have opened : SemsOnly s (disable s).2 := .same rfl
  have closed (mask : UInt32) (s : Kernel) : SemsOnly s (restore mask s) := .same rfl
  simp only [semcreate]
  split
  · exact opened.trans (closed _ _)
  · next nonnegative =>
    have found := opened.trans (newsemLoop_semsOnly NSEM.toNat (disable s).2)
    have counted (s : Kernel) (sem : Int) :
        SemsOnly s (s.setSem sem { s.semtab sem with scount := count.toInt }) :=
      .setSem s rfl fun _ => Int.not_lt.mp nonnegative
    split
    · exact found.trans (closed _ _)
    · exact (found.trans (counted _ _)).trans (closed _ _)

theorem frame_ttyinit {s : Kernel} : Frame s (ttyinit s) :=
  ((frame_semcreate 0).trans (frame_semcreate TY_OBUFLEN)).trans (frame_tty _)

theorem ttyinit_semsOnly (s : Kernel) : SemsOnly s (ttyinit s) := by
  have both := (semcreate_semsOnly 0 s).trans (semcreate_semsOnly TY_OBUFLEN _)
  simp only [ttyinit]
  generalize semcreate TY_OBUFLEN (semcreate 0 s).2 = made at both ⊢
  exact both.trans (.same rfl)

/-- What `sysinit` leaves: thirteen empty queues, one of them the ready list, and the semaphores. -/
structure Initialized (s s' : Kernel) : Prop where
  opened : Opened 13 s'
  readylist : s'.readylist = 36
  squeue : ∀ {sem}, ¬ isbadsem sem → (s'.semtab sem).squeue = 12 + 2 * sem
  scount : ∀ {sem}, ¬ isbadsem sem → 0 ≤ (s'.semtab sem).scount
  nextsem : 0 ≤ s'.nextsem ∧ s'.nextsem < NSEM
  ndefers : s'.defer.ndefers = 0
  rest : s' = { s with
    prcount := 0, defer := s'.defer, semtab := s'.semtab, queuetab := s'.queuetab, readylist := s'.readylist,
    nextsem := s'.nextsem, nextqid := s'.nextqid, tty := s'.tty, cpu := s'.cpu }

theorem sysinit_initialized {s : Kernel} (nextqid : s.nextqid = NPROC) (nextsem : s.nextsem = 0) :
    Initialized s (sysinit s) := by
  have start : Opened 0 { s with prcount := 0, defer := { s.defer with ndefers := 0 } } := by
    refine ⟨nextqid, ?_, ?_, ?_⟩ <;> intro k low high <;> omega
  obtain ⟨opened, sems, rest⟩ := initSemaphores_opens NSEM.toNat start (Int.le_refl 0) (by decide)
    (fun sem low high => absurd low (Int.not_le.mpr high))
  simp only [sysinit]
  generalize initSemaphores NSEM.toNat 0 _ = s₁ at opened sems rest ⊢
  obtain ⟨made, opened'⟩ := newqueue_opens (n := 12) opened (by decide)
  have rest' := newqueue_rest s₁
  generalize newqueue s₁ = queue at made opened' rest' ⊢
  obtain ⟨q, s₂⟩ := queue
  simp only at made rest'
  have inits : SemsOnly { s₂ with readylist := q } (ttyinit (disable { s₂ with readylist := q }).2) :=
    (SemsOnly.same rfl).trans (ttyinit_semsOnly _)
  have steady := (frame_ttyinit (s := (disable { s₂ with readylist := q }).2)).toSteady
  generalize ttyinit (disable { s₂ with readylist := q }).2 = s₃ at inits steady ⊢
  have valid {sem : Int} (good : ¬ isbadsem sem) : s₂.semtab sem = ⟨.free, 0, 12 + 2 * sem⟩ := by
    simp only [isbadsem, NSEM] at good
    rw [rest']
    exact sems sem (by omega) (by simp only [NSEM]; omega)
  have queues : s₃.queuetab = s₂.queuetab := by rw [inits.rest]
  have count : s₃.nextqid = s₂.nextqid := by rw [inits.rest]
  refine ⟨⟨count.trans opened'.nextqid, queues ▸ opened'.next_head, queues ▸ opened'.prev_tail,
    queues ▸ opened'.key_tail⟩, ?_, fun good => ?_, fun good => ?_, ?_, ?_, ?_⟩
  · change s₃.readylist = 36
    rw [inits.rest]
    exact made
  · exact (inits.squeue _).trans (congrArg Sentry.squeue (valid good))
  · exact inits.scount _ (Int.le_of_eq (congrArg Sentry.scount (valid good)).symm)
  · apply steady.nextsem
    change 0 ≤ s₂.nextsem ∧ s₂.nextsem < NSEM
    rw [rest', rest]
    simp [nextsem]
  · apply steady.ndefers.trans
    change s₂.defer.ndefers = 0
    rw [rest', rest]
  · simp only [restore]
    rw [inits.rest, rest', rest]

/-! ## The null process -/

/-- The one free block of the heap is large enough for the stack of the null process. -/
theorem getstk_first (image : BootImage) (ram : Nat → UInt8) :
    ∃ address memory, (Mem.meminit image.endAddr ram).getstk 1024 = some (address, memory) ∧
      address ≠ SYSERR32 := by
  have room := image.room
  have low := image.inRam
  simp only [MAXADDR, HANDLERSTACK, Nat.reduceSub] at room
  have list := Mem.meminit_freeList (by omega) image.belowStack ram
  obtain ⟨small, -⟩ | ⟨a, memory, blocks, found, taken⟩ := list.getstk_spec (n := 1024) (by decide)
  · have size := small _ (List.mem_singleton.mpr rfl)
    rw [show roundmb 1024 = 1024 from rfl] at size
    simp only [MAXADDR, HANDLERSTACK, Nat.reduceSub] at size
    omega
  · refine ⟨_, _, found, ?_⟩
    obtain ⟨b, member, start, stop⟩ := taken.free
    rw [show roundmb 1024 = 1024 from rfl] at stop ⊢
    rw [List.mem_singleton.mp member] at start stop
    simp only [FreeBlocks.Block.limit, MAXADDR, HANDLERSTACK, Nat.reduceSub] at start stop
    simp only [SYSERR32, sub32, add32]
    omega

/-- The first `create` takes entry 0. -/
theorem create_first {image : BootImage} {ram : Nat → UInt8} {s : Kernel}
    (mem : s.mem = Mem.meminit image.endAddr ram) (nextpid : s.nextpid = 0)
    (free : (s.proctab 0).prstate = .free) (procaddr : UInt32) (name : List UInt8) :
    ∃ entry : Procent, entry.prstate = .susp ∧ entry.prhasmsg = false ∧
      (create procaddr 1024 10 name [] s).1 = 0 ∧
      (create procaddr 1024 10 name [] s).2.toSched =
        { s.toSched with proctab := Function.update s.proctab 0 entry, prcount := s.prcount + 1 } := by
  have size : roundew (if (1024 : UInt32).toNat < MINSTK then MINSTK else (1024 : UInt32).toNat) = 1024 := rfl
  have got : (getstk 1024 (disable s).2).1 ≠ SYSERR32 := by
    obtain ⟨address, memory, found, valid⟩ := getstk_first image ram
    have here : (disable (disable s).2).2.mem.getstk 1024 = some (address, memory) := by
      rw [← found, ← mem]
      rfl
    simpa only [getstk, here] using valid
  have rest : (getstk 1024 (disable s).2).2.toSched = s.toSched ∧
      (getstk 1024 (disable s).2).2.nextpid = s.nextpid := by
    simp only [getstk]
    split <;> simp [disable, restore, Kernel.setMem, Kernel.touch]
  simp only [create, size]
  generalize getstk 1024 (disable s).2 = stack at got rest ⊢
  obtain ⟨saddr, s'⟩ := stack
  obtain ⟨sched, position⟩ := rest
  have first : newpid s' = (0, { s' with nextpid := 1 }) := by
    rw [newpid, show NPROC.toNat = 11 + 1 from rfl, newpidLoop]
    have start : s'.nextpid % NPROC = 0 := by rw [position, nextpid]; rfl
    have open' : (s'.proctab 0).prstate = .free := by rw [sched]; exact free
    simp only [start]
    rw [if_pos open']
    rfl
  have accepted : ¬ ((0 : Int) = SYSERR ∨ (10 : Int16).toInt < 1) := by decide
  rw [if_neg got, first, if_neg accepted]
  refine ⟨(fillEntry 0 saddr 1024 procaddr 10 name [] { s' with nextpid := 1 }).proctab 0, ?_, ?_, rfl, ?_⟩
  · simp [fillEntry, Kernel.setProc]
  · simp [fillEntry, Kernel.setProc]
  · simp only at sched
    rw [← sched]
    simp [fillEntry, Kernel.setProc, Kernel.touch, restore]

/-! ## The booted system -/

/-- The kernel when the null process starts to run. -/
structure Booted (counting : Int → Int) (s : Kernel) : Prop where
  opened : Opened 14 s
  readylist : s.readylist = 36
  sleepq : s.sleepq = 38
  squeue : ∀ {sem}, ¬ isbadsem sem → (s.semtab sem).squeue = 12 + 2 * sem
  scount : ∀ {sem}, ¬ isbadsem sem → 0 ≤ (s.semtab sem).scount
  nextsem : 0 ≤ s.nextsem ∧ s.nextsem < NSEM
  ndefers : s.defer.ndefers = 0
  prstate : ∀ p, (s.proctab p).prstate = if p = NULLPROC then .curr else .free
  prhasmsg : ∀ p, (s.proctab p).prhasmsg = false
  prcount : s.prcount = 1
  currpid : s.currpid = NULLPROC
  counting : s.counting = counting
  pendsv : s.pendsv = false
  readyPreemptive : s.readyPreemptive = true

theorem boot_booted (image : BootImage) (counting : Int → Int) (ram : Nat → UInt8) :
    Booted counting (boot image counting ram).kernel := by
  have inits := sysinit_initialized (s := zeroed image.toImage counting ram) rfl rfl
  simp only [boot, nulluser]
  generalize sysinit (zeroed image.toImage counting ram) = s at inits ⊢
  have rest := inits.rest
  have mem : s.mem = Mem.meminit image.endAddr ram := by rw [rest]; rfl
  have proctab : s.proctab = (zeroed image.toImage counting ram).proctab := by rw [rest]
  obtain ⟨entry, susp, empty, pid, sched⟩ := create_first (s := s) mem (by rw [rest]; rfl)
    (by rw [proctab]; rfl) image.nullprocess nullName
  have steady := steady_create (s := s) image.nullprocess 1024 10 nullName []
  generalize create image.nullprocess 1024 10 nullName [] s = created at pid sched steady ⊢
  obtain ⟨p, s₁⟩ := created
  simp only at pid sched steady ⊢
  subst pid
  have queues : s₁.queuetab = s.queuetab := by rw [sched]
  have opened : Opened 13 (s₁.setState 0 .curr) :=
    ⟨steady.nextqid.trans inits.opened.nextqid, queues ▸ inits.opened.next_head,
      queues ▸ inits.opened.prev_tail, queues ▸ inits.opened.key_tail⟩
  obtain ⟨made, opened'⟩ := newqueue_opens opened (by decide)
  have rest' := newqueue_rest (s₁.setState 0 .curr)
  simp only [clkinit]
  generalize newqueue (s₁.setState 0 .curr) = clock at made opened' rest' ⊢
  obtain ⟨q, s₂⟩ := clock
  simp only at made opened' rest' ⊢
  have final : s₂.toSched =
      { s.toSched with
        proctab := Function.update s.proctab 0 { entry with prstate := .curr }
        prcount := 1
        currpid := NULLPROC
        queuetab := s₂.queuetab
        readylist := 36
        counting := counting
        pendsv := false } := by
    have prcount : s.prcount = 0 := by rw [rest]
    have currpid : s.currpid = NULLPROC := by rw [rest]; rfl
    have sameCounting : s.counting = counting := by rw [rest]; rfl
    have pendsv : s.pendsv = false := by rw [rest]; rfl
    rw [rest']
    simp [Kernel.setState, Kernel.setProc, Kernel.touch, sched, prcount, currpid, inits.readylist,
      sameCounting, pendsv]
  exact
    { opened := ⟨opened'.nextqid, opened'.next_head, opened'.prev_tail, opened'.key_tail⟩
      readylist := congrArg Sched.readylist final
      sleepq := made
      squeue := fun valid => congrArg Sched.semtab final ▸ inits.squeue valid
      scount := fun valid => congrArg Sched.semtab final ▸ inits.scount valid
      nextsem := by
        change 0 ≤ s₂.nextsem ∧ s₂.nextsem < NSEM
        rw [rest']
        exact steady.nextsem inits.nextsem
      ndefers := (congrArg (·.defer.ndefers) final).trans inits.ndefers
      prstate := fun p => by
        apply (congrArg (fun sched => (sched.proctab p).prstate) final).trans
        simp only [Function.update_apply]
        split
        · rfl
        · rw [proctab]; rfl
      prhasmsg := fun p => by
        apply (congrArg (fun sched => (sched.proctab p).prhasmsg) final).trans
        simp only [Function.update_apply]
        split
        · exact empty
        · rw [proctab]; rfl
      prcount := congrArg Sched.prcount final
      currpid := congrArg Sched.currpid final
      counting := congrArg Sched.counting final
      pendsv := congrArg Sched.pendsv final
      readyPreemptive := rfl }

/-- The queues that start-up allocates are the entries from `NPROC` on, two by two. -/
theorem IsQueue.index {q : Int} (queue : IsQueue q) : ∃ k, 0 ≤ k ∧ k < 14 ∧ q = 12 + 2 * k := by
  simp only [IsQueue, NPROC, NQENT, NSEM] at queue
  exact ⟨(q - 12) / 2, by omega, by omega, by omega⟩

/-- The view of a kernel in which no process is in a queue. -/
theorem Booted.represents {counting : Int → Int} {s : Kernel} (booted : Booted counting s) :
    Represents s.queuetab ⟨fun _ => [], s.queuetab.keyOf⟩ where
  wellFormed := ⟨by simp, by simp, by simp, by simp⟩
  linked := by
    intro q queue
    obtain ⟨k, low, high, rfl⟩ := queue.index
    simp only [nodes, queuehead, queuetail, List.cons_append, List.nil_append]
    exact List.isChain_cons_cons.mpr
      ⟨⟨booted.opened.next_head k low high, booted.opened.prev_tail k low high⟩, .singleton _⟩
  tailkey := by
    intro q queue
    obtain ⟨k, low, high, rfl⟩ := queue.index
    exact booted.opened.key_tail k low high
  keys := fun _ => rfl

namespace Booted

variable {counting : Int → Int} {s : Kernel}

theorem inv (booted : Booted counting s) :
    (viewOf ⟨fun _ => [], s.queuetab.keyOf⟩ 0 s.toSched).Inv where
  readylist := booted.readylist
  sleepq := booted.sleepq
  squeue := booted.squeue
  wellFormed := booted.represents.wellFormed
  placed := by
    intro p q
    have nowhere : (viewOf ⟨fun _ => [], s.queuetab.keyOf⟩ 0 s.toSched).home p = none := by
      apply home_none
      rw [state]
      change Unqueued (s.proctab p).prstate
      rw [booted.prstate]
      split
      · exact Or.inr (Or.inl rfl)
      · exact Or.inl rfl
    rw [nowhere]
    simp [members, viewOf]
  waits := by
    intro p pid waiting
    have state := booted.prstate p
    rw [show (s.proctab p).prstate = .wait from waiting] at state
    split at state <;> cases state
  current := by
    intro p pid runs
    have state := booted.prstate p
    rw [show (s.proctab p).prstate = .curr from runs] at state
    split at state
    · next null => exact null.trans booted.currpid.symm
    · cases state
  currpid := by
    change IsPid s.currpid
    rw [booted.currpid]
    decide
  idle := Or.inl ((booted.prstate NULLPROC).trans (if_pos rfl))
  prcount := by
    have count : (viewOf ⟨fun _ => [], s.queuetab.keyOf⟩ 0 s.toSched).inUse = 1 := by
      simp only [inUse, state, viewOf, booted.prstate]
      decide
    rw [count]
    simp [viewOf, booted.prcount]

theorem good {s : System} (booted : Booted counting s.kernel) (grows : Grows counting) :
    Good s (viewOf ⟨fun _ => [], s.kernel.queuetab.keyOf⟩ 0 s.kernel.toSched) where
  tracks := .mk booted.represents
  inv := booted.inv
  grows := booted.counting.symm ▸ grows
  ndefers := booted.ndefers
  nextsem := booted.nextsem
  nextqid := booted.opened.nextqid
  readyPreemptive := booted.readyPreemptive
  awake := by
    right
    change (s.kernel.proctab s.kernel.currpid).prstate = .curr
    rw [booted.prstate, if_pos booted.currpid]

end Booted

end XinuStm32
