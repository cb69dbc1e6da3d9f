import XinuStm32.Abstract.Sleepers
import XinuStm32.Refinement.Queue
import XinuStm32.Kernel.Dispatch
import XinuStm32.Lib.Deadlines
import XinuStm32.Properties.Consistency

/-!
# The deadlines of the sleep queue

`insertd` and `unsleep` rewrite the key of one neighbour each. In terms of deadlines, they put an entry in its place and
take one out, and leave every other entry as it is.
-/

namespace XinuStm32

open Agenda View

variable {s : Kernel} {l : Lists} {due : Int → Int} {p delay : Int} {front back : List Int}

/-- The queue table holds a sleep queue with these members and keys; the members sleep, no key is negative, and no
deadline is out of range. -/
structure SleepQueue (s : Kernel) (l : Lists) : Prop where
  represents : Represents s.queuetab l
  queue : IsQueue s.sleepq
  asleep : ∀ p ∈ l.elems s.sleepq, (s.proctab p).prstate = .sleep ∨ (s.proctab p).prstate = .rectim
  nonnegative : ∀ p ∈ l.elems s.sleepq, 0 ≤ l.key p
  bounded : ∀ entry ∈ deadlines l.key 0 (l.elems s.sleepq), entry.2 < 2147483648

/-- The table holds these lists, whose sleep queue has these deadlines and no negative key; the other queues are those
of `l`. -/
structure Requeued (s : Kernel) (l : Lists) (t : QTab) (entries : List (Int × Int)) (l' : Lists) : Prop where
  represents : Represents t l'
  nonnegative : ∀ p ∈ l'.elems s.sleepq, 0 ≤ l'.key p
  entries : deadlines l'.key 0 (l'.elems s.sleepq) = entries
  others : ∀ q, q ≠ s.sleepq → l'.elems q = l.elems q

theorem SleepQueue.scheduled (sleeping : SleepQueue s l) :
    ∃ due, Scheduled l.key due 0 (l.elems s.sleepq) ∧ ∀ p ∈ l.elems s.sleepq, due p < 2147483648 := by
  obtain ⟨due, scheduled⟩ := exists_scheduled (sleeping.represents.wellFormed.nodup s.sleepq) sleeping.nonnegative 0
  refine ⟨due, scheduled, fun p member => ?_⟩
  apply sleeping.bounded (p, due p)
  rw [scheduled.deadlines_eq]
  exact List.mem_map_of_mem member

/-! ## `insertd` -/

theorem insertd_queuetab (q : Int) (good : ¬(isbadqid q ∨ isbadpid p s.toSched)) :
    insertd p q delay s = (OK, s.setQueue (s.queuetab.linkDelta p q delay)) := by
  rw [insertd, if_neg good]

theorem IsQueue.good {q : Int} (queue : IsQueue q) : ¬isbadqid q := by
  simp only [IsQueue, isbadqid, NPROC, NQENT] at queue ⊢
  omega

theorem SleepQueue.inserted (sleeping : SleepQueue s l) (live : ¬isbadpid p s.toSched) (fresh : l.Fresh p)
    (nonnegative : 0 ≤ delay) (range : delay < 2147483648) :
    ∃ front back, deadlines l.key 0 (l.elems s.sleepq) = front ++ back ∧ (∀ entry ∈ front, entry.2 ≤ delay) ∧
      (∀ entry ∈ back, delay < entry.2) ∧
      Requeued s l (s.queuetab.linkDelta p s.sleepq delay) (front ++ (p, delay) :: back)
        (l.insertDelta p s.sleepq delay) := by
  obtain ⟨due, scheduled, bounded⟩ := sleeping.scheduled
  have distinct := sleeping.represents.wellFormed.nodup s.sleepq
  have absent := fresh s.sleepq
  have pid : IsPid p := by
    simp only [isbadpid, not_or, NPROC] at live
    simp only [IsPid, NPROC]
    omega
  have inserted := insertDelta_scheduled scheduled (fun x member => by have := bounded x member; omega) distinct absent
    nonnegative range
  rw [Int.zero_add] at inserted
  have whole := Lists.deltaSplit_append l.key (l.elems s.sleepq) delay
  obtain ⟨after, before, -⟩ := deltaSplit_scheduled scheduled nonnegative range
  rw [Int.zero_add] at after before
  have elems : (l.insertDelta p s.sleepq delay).elems =
      (l.setElems s.sleepq ((Lists.deltaSplit l.key (l.elems s.sleepq) delay).1 ++
        p :: (Lists.deltaSplit l.key (l.elems s.sleepq) delay).2.1)).elems := by
    simp only [Lists.insertDelta]
    split <;> rfl
  -- From here on only the two parts count, not how the scan found them.
  generalize Lists.deltaSplit l.key (l.elems s.sleepq) delay = split at whole after before elems
  obtain ⟨front, back, left⟩ := split
  simp only at whole after before elems
  have here : (l.insertDelta p s.sleepq delay).elems s.sleepq = front ++ p :: back := by
    rw [elems, Lists.elems_setElems, if_pos rfl]
  have kept {x : Int} (member : x ∈ front ++ back) : Function.update due p delay x = due x :=
    Function.update_of_ne (fun same : x = p => absent (whole ▸ same ▸ member)) _ _
  refine ⟨front.map fun x => (x, due x), back.map fun x => (x, due x), ?_, ?_, ?_, ?_, ?_, ?_, ?_⟩
  · rw [scheduled.deadlines_eq, ← whole, List.map_append]
  · intro entry member
    obtain ⟨x, among, rfl⟩ := List.mem_map.mp member
    rw [← whole] at scheduled
    exact le_trans ((scheduled_append.mp scheduled).1.le_finish among) after
  · intro entry member
    obtain ⟨x, among, rfl⟩ := List.mem_map.mp member
    exact before x among
  · exact sleeping.represents.linkDelta pid sleeping.queue fresh
  · exact fun x member => inserted.nonnegative member
  · rw [inserted.deadlines_eq, here, List.map_append, List.map_cons, Function.update_self]
    congr 1
    · apply List.map_congr_left
      exact fun x member => by rw [kept (List.mem_append_left _ member)]
    · congr 1
      apply List.map_congr_left
      exact fun x member => by rw [kept (List.mem_append_right _ member)]
  · intro q other
    rw [elems, Lists.elems_setElems, if_neg other]

/-! ## `unsleep` -/

/-- The queue table behind `unsleep`: the neighbour waits for both delays. -/
def unslept (p : Int) (t : QTab) : QTab :=
  (if t.nextOf p < NPROC then t.setKey (t.nextOf p) (int32 (t.keyOf (t.nextOf p) + t.keyOf p)) else t).unlink p

theorem unsleep_queuetab (live : ¬isbadpid p s.toSched)
    (asleep : (s.proctab p).prstate = .sleep ∨ (s.proctab p).prstate = .rectim) :
    (unsleep p s).1 = OK ∧ (unsleep p s).2.queuetab = unslept p s.queuetab := by
  have live' : ¬isbadpid p (disable s).2.toSched := live
  have asleep' : ¬(((disable s).2.proctab p).prstate ≠ .sleep ∧ ((disable s).2.proctab p).prstate ≠ .rectim) := by
    intro awake
    exact asleep.elim awake.1 awake.2
  simp only [unsleep]
  rw [if_neg live', if_neg asleep']
  refine ⟨rfl, ?_⟩
  rw [unslept]
  by_cases inside : ((disable s).2.queuetab.entry p).qnext < NPROC
  · have inside' : s.queuetab.nextOf p < NPROC := inside
    rw [if_pos inside, if_pos inside']
    rfl
  · have outside : ¬s.queuetab.nextOf p < NPROC := inside
    rw [if_neg inside, if_neg outside]
    rfl

/-- The key of the neighbour takes up that of an entry that leaves. -/
def Lists.handOn (p : Int) (behind : List Int) (l : Lists) : Lists :=
  match behind with
  | [] => l
  | next :: _ => l.setKey next (int32 (l.key next + l.key p))

@[simp] theorem Lists.elems_handOn (p : Int) (behind : List Int) (l : Lists) : (l.handOn p behind).elems = l.elems := by
  cases behind <;> rfl

theorem SleepQueue.represents_unslept (sleeping : SleepQueue s l) (split : l.elems s.sleepq = front ++ p :: back) :
    Represents (unslept p s.queuetab) ((l.handOn p back).remove p s.sleepq) := by
  have behind := (sleeping.represents.neighbours split).1
  have member : p ∈ l.elems s.sleepq := by simp [split]
  have pid : IsPid p := sleeping.represents.wellFormed.pids member
  rw [unslept, behind]
  cases back with
  | nil =>
    have queue := sleeping.queue
    -- The node behind the last entry is the tail, whose number is no process.
    rw [rightOf, List.headD_nil, queuetail, if_neg]
    · exact sleeping.represents.unlink member
    · simp only [IsQueue] at queue
      omega
  | cons next back =>
    have pidNext : IsPid next := sleeping.represents.wellFormed.pids (q := s.sleepq) (by simp [split])
    rw [rightOf_cons, if_pos pidNext.2, sleeping.represents.keys pid, sleeping.represents.keys pidNext]
    exact (sleeping.represents.setKey pidNext _).unlink (by simpa using member)

/-- The keys of the lists behind `unsleep`. -/
theorem handOn_scheduled (scheduled : Scheduled l.key due 0 (front ++ p :: back))
    (bounded : ∀ q ∈ front ++ p :: back, due q < 2147483648) (distinct : (front ++ p :: back).Nodup) :
    Scheduled (l.handOn p back).key due 0 (front ++ back) := by
  cases back with
  | nil => exact scheduled.remove (fun _ _ => rfl) trivial
  | cons next rest =>
    rw [List.nodup_middle, List.nodup_cons] at distinct
    have apart := List.nodup_middle.mp distinct.2
    rw [List.nodup_cons, List.mem_append, not_or] at apart
    -- The two delays together are within the deadline of the entry behind.
    have sum : int32 (l.key next + l.key p) = l.key next + l.key p := by
      have far := bounded next (by simp)
      obtain ⟨start, nonnegative, here, nonnegative', there, -⟩ := scheduled_append.mp scheduled
      have first := start.now_le_finish
      apply int32_of_range <;> omega
    rw [Lists.handOn]
    apply scheduled.remove
    · intro q member
      rw [Lists.key_setKey, if_neg]
      exact fun same => apart.1.1 (same ▸ member)
    · constructor
      · rw [Lists.key_setKey, if_pos rfl, sum]
      · intro q member
        rw [Lists.key_setKey, if_neg]
        exact fun same => apart.1.2 (same ▸ member)

/-- An entry leaves; the others keep their deadlines. -/
theorem SleepQueue.removed (sleeping : SleepQueue s l) (member : p ∈ l.elems s.sleepq) :
    ∃ front back deadline l', deadlines l.key 0 (l.elems s.sleepq) = front ++ (p, deadline) :: back ∧
      Requeued s l (unslept p s.queuetab) (front ++ back) l' := by
  obtain ⟨due, scheduled, bounded⟩ := sleeping.scheduled
  obtain ⟨front, back, split⟩ := List.append_of_mem member
  have distinct := sleeping.represents.wellFormed.nodup s.sleepq
  have entries := scheduled.deadlines_eq
  rw [split, List.map_append, List.map_cons, ← split] at entries
  have left : ((l.handOn p back).remove p s.sleepq).elems s.sleepq = front ++ back := by
    rw [Lists.remove, Lists.elems_setElems, if_pos rfl, Lists.elems_handOn, split]
    rw [split, List.nodup_middle, List.nodup_cons, List.mem_append, not_or] at distinct
    rw [List.erase_append_right _ distinct.1.1, List.erase_cons_head]
  rw [split] at scheduled bounded distinct
  have remaining := handOn_scheduled scheduled bounded distinct
  refine ⟨_, _, _, _, entries, sleeping.represents_unslept split, ?_, ?_, ?_⟩
  · intro x among
    rw [left] at among
    exact remaining.nonnegative among
  · rw [left, ← List.map_append]
    exact remaining.deadlines_eq
  · intro q other
    rw [Lists.remove, Lists.elems_setElems, if_neg other, Lists.elems_handOn]

/-! ## Both -/

/-- The scan of `insertd` has ended when its fuel runs out. -/
theorem SleepQueue.insertd_ends (sleeping : SleepQueue s l) (delay : Int) {fuel : Nat} (enough : NQENT.toNat ≤ fuel) :
    QTab.insertdScan (queuetail s.sleepq) s.queuetab fuel (queuehead s.sleepq)
        (s.queuetab.entry (queuehead s.sleepq)).qnext delay =
      QTab.insertdScan (queuetail s.sleepq) s.queuetab NQENT.toNat (queuehead s.sleepq)
        (s.queuetab.entry (queuehead s.sleepq)).qnext delay := by
  have few := sleeping.represents.enough_fuel s.sleepq
  have first := sleeping.represents.firstid_eq sleeping.queue
  have head : leftOf s.sleepq [] = queuehead s.sleepq := rfl
  rw [QTab.entry_qnext, first, ← head, sleeping.represents.insertdScan_eq delay sleeping.queue [] rfl few,
    sleeping.represents.insertdScan_eq delay sleeping.queue [] rfl (Nat.lt_of_lt_of_le few enough)]

/-- For every sleep queue: `insertd` puts a process that is in no queue behind the entries whose deadlines are not later
and in front of the others, and `unsleep` takes out one that sleeps; every other entry keeps its place and its
deadline. -/
theorem sleep_queue_deadlines (sleeping : SleepQueue s l) (p : Int) :
    (¬isbadpid p s.toSched → l.Fresh p → ∀ delay, 0 ≤ delay → delay < 2147483648 →
      (insertd p s.sleepq delay s).1 = OK ∧
        (∀ fuel, NQENT.toNat ≤ fuel →
          QTab.insertdScan (queuetail s.sleepq) s.queuetab fuel (queuehead s.sleepq)
              (s.queuetab.entry (queuehead s.sleepq)).qnext delay =
            QTab.insertdScan (queuetail s.sleepq) s.queuetab NQENT.toNat (queuehead s.sleepq)
              (s.queuetab.entry (queuehead s.sleepq)).qnext delay) ∧
        ∃ front back l', deadlines l.key 0 (l.elems s.sleepq) = front ++ back ∧
          (∀ entry ∈ front, entry.2 ≤ delay) ∧ (∀ entry ∈ back, delay < entry.2) ∧
          Requeued s l (insertd p s.sleepq delay s).2.queuetab (front ++ (p, delay) :: back) l') ∧
    (p ∈ l.elems s.sleepq →
      (unsleep p s).1 = OK ∧
        ∃ front back deadline l', deadlines l.key 0 (l.elems s.sleepq) = front ++ (p, deadline) :: back ∧
          Requeued s l (unsleep p s).2.queuetab (front ++ back) l') := by
  constructor
  · intro live fresh delay nonnegative range
    have good : ¬(isbadqid s.sleepq ∨ isbadpid p s.toSched) := not_or.mpr ⟨sleeping.queue.good, live⟩
    obtain ⟨front, back, entries, before, behind, requeued⟩ := sleeping.inserted live fresh nonnegative range
    rw [insertd_queuetab s.sleepq good]
    refine ⟨rfl, ?_, front, back, _, entries, before, behind, requeued⟩
    exact fun fuel enough => sleeping.insertd_ends delay enough
  · intro member
    -- A process that sleeps is not free, so that `unsleep` refuses none on the queue.
    have asleep := sleeping.asleep p member
    have live : ¬isbadpid p s.toSched := by
      obtain ⟨low, high⟩ := sleeping.represents.wellFormed.pids member
      simp only [isbadpid, not_or]
      refine ⟨by omega, by omega, ?_⟩
      intro free
      rw [free] at asleep
      simp at asleep
    obtain ⟨status, table⟩ := unsleep_queuetab live asleep
    rw [table]
    exact ⟨status, sleeping.removed member⟩

/-- `insertd` puts a process to sleep beside the others. -/
theorem SleepQueue.slept (sleeping : SleepQueue s l) {p delay : Int} (live : ¬isbadpid p s.toSched) (fresh : l.Fresh p)
    (nonnegative : 0 ≤ delay) (range : delay < 2147483648) :
    ∃ front back s' l', SleepQueue s' l' ∧ s'.sleepq = s.sleepq ∧ (∀ q, q ≠ p → s'.proctab q = s.proctab q) ∧
      deadlines l.key 0 (l.elems s.sleepq) = front ++ back ∧
      (∀ entry ∈ front, entry.2 ≤ delay) ∧ (∀ entry ∈ back, delay < entry.2) ∧
      deadlines l'.key 0 (l'.elems s.sleepq) = front ++ (p, delay) :: back ∧
      ∀ q, q ≠ s.sleepq → l'.elems q = l.elems q := by
  obtain ⟨front, back, entries, before, behind, requeued⟩ := sleeping.inserted live fresh nonnegative range
  generalize s.queuetab.linkDelta p s.sleepq delay = table at requeued
  generalize Lists.insertDelta p s.sleepq delay l = l' at requeued
  have members (q : Int) (member : q ∈ l'.elems s.sleepq) : q = p ∨ q ∈ l.elems s.sleepq := by
    rw [← map_fst_deadlines l'.key 0 (l'.elems s.sleepq), requeued.entries] at member
    rw [← map_fst_deadlines l.key 0 (l.elems s.sleepq), entries]
    simp only [List.map_append, List.map_cons, List.mem_append, List.mem_cons] at member ⊢
    tauto
  refine ⟨front, back, (s.setQueue table).setState p .sleep, l', ⟨requeued.represents, sleeping.queue,
    fun q member => ?_, requeued.nonnegative, fun entry member => ?_⟩, rfl, fun q other => ?_, entries, before, behind,
    requeued.entries, requeued.others⟩
  · by_cases same : q = p
    · left
      simp [same, Kernel.setState, Kernel.setProc]
    · have asleep := sleeping.asleep q ((members q member).resolve_left same)
      simpa [Kernel.setState, Kernel.setProc, Kernel.setQueue, Kernel.touch, Function.update_of_ne same] using asleep
  · change entry ∈ deadlines l'.key 0 (l'.elems s.sleepq) at member
    rw [requeued.entries] at member
    have bounded := sleeping.bounded
    rw [entries] at bounded
    rw [List.mem_append, List.mem_cons] at member
    obtain member | rfl | member := member
    · exact bounded entry (List.mem_append_left _ member)
    · exact range
    · exact bounded entry (List.mem_append_right _ member)
  · simp [Kernel.setState, Kernel.setProc, Kernel.setQueue, Kernel.touch, Function.update_of_ne other]

/-- Entries that are in order are split by a delay in one way. -/
theorem split_two {x y : Int × Int} {front back : List (Int × Int)} (split : [x, y] = front ++ back)
    (before : ∀ entry ∈ front, entry.2 ≤ delay) (behind : ∀ entry ∈ back, delay < entry.2)
    (first : x.2 ≤ delay) (second : delay < y.2) : front = [x] ∧ back = [y] := by
  cases front with
  | nil =>
    rw [List.nil_append] at split
    have late := behind x (by simp [← split])
    omega
  | cons a front =>
    rw [List.cons_append, List.cons.injEq] at split
    obtain ⟨rfl, split⟩ := split
    cases front with
    | nil => exact ⟨rfl, split.symm⟩
    | cons b front =>
      rw [List.cons_append, List.cons.injEq] at split
      obtain ⟨rfl, -⟩ := split
      have early := before y (by simp)
      omega

/-- Processes 3 and 6 sleep until 5 and 9; process 4 is in no queue. -/
structure TwoSleepers (s : Kernel) (l : Lists) : Prop extends SleepQueue s l where
  entries : deadlines l.key 0 (l.elems s.sleepq) = [(3, 5), (6, 9)]
  fresh : l.Fresh 4
  live : ¬isbadpid 4 s.toSched

theorem exists_twoSleepers : ∃ s l, TwoSleepers s l := by
  have booted := boot_booted smallImage int32 fun _ => 0
  generalize (boot smallImage int32 fun _ => 0).kernel = k at booted
  have queue : k.sleepq = 38 := booted.sleepq
  generalize started : ((k.setState 3 .susp).setState 4 .susp).setState 6 .susp = s₀
  have nothing : SleepQueue s₀ ⟨fun _ => [], k.queuetab.keyOf⟩ := by
    subst started
    exact ⟨booted.represents, booted.sleepq ▸ (by decide : IsQueue 38), by simp, by simp, by simp [deadlines]⟩
  have susp (p : Int) (known : p = 3 ∨ p = 4 ∨ p = 6) : (s₀.proctab p).prstate = .susp := by
    subst started
    obtain rfl | rfl | rfl := known <;> simp [Kernel.setState, Kernel.setProc]
  have live (p : Int) (known : p = 3 ∨ p = 4 ∨ p = 6) : ¬isbadpid p s₀.toSched := by
    have state := susp p known
    obtain rfl | rfl | rfl := known <;> simp [isbadpid, state]
  obtain ⟨front, back, s₁, l₁, one, sleepq, same, entries, -, -, first, others⟩ := nothing.slept (live 3 (by decide))
    (fun q => List.not_mem_nil) (show (0 : Int) ≤ 5 by decide) (by decide)
  obtain ⟨rfl, rfl⟩ := List.append_eq_nil_iff.mp entries.symm
  have only (p : Int) (other : p ≠ 3) : l₁.Fresh p := by
    intro q
    by_cases here : q = s₀.sleepq
    · rw [here, ← map_fst_deadlines l₁.key 0 (l₁.elems s₀.sleepq), first]
      simpa using other
    · rw [others q here]
      exact List.not_mem_nil
  have awake (p : Int) (known : p = 4 ∨ p = 6) : ¬isbadpid p s₁.toSched := by
    have state := same p (by omega)
    have before := live p (by tauto)
    simpa [isbadpid, state] using before
  obtain ⟨front, back, s₂, l₂, two, sleepq', same', entries, before, behind, both, others'⟩ :=
    one.slept (awake 6 (by decide)) (only 6 (by decide)) (show (0 : Int) ≤ 9 by decide) (by decide)
  rw [sleepq, first, List.nil_append] at entries
  -- the second goes to sleep behind the first
  obtain ⟨rfl, rfl⟩ : front = [(3, 5)] ∧ back = [] := by
    cases front with
    | nil =>
      rw [List.nil_append] at entries
      have late := behind (3, 5) (by simp [← entries])
      simp at late
    | cons a front =>
      rw [List.cons_append, List.cons.injEq] at entries
      obtain ⟨rfl, rest⟩ := entries
      obtain ⟨rfl, rfl⟩ := List.append_eq_nil_iff.mp rest.symm
      exact ⟨rfl, rfl⟩
  rw [← sleepq'] at both others'
  refine ⟨s₂, l₂, two, both, fun q => ?_, ?_⟩
  · by_cases here : q = s₂.sleepq
    · rw [here, ← map_fst_deadlines l₂.key 0 (l₂.elems s₂.sleepq), both]
      decide
    · rw [others' q here]
      exact only 4 (by decide) q
  · have state := same' 4 (by decide)
    have before := awake 4 (by decide)
    simpa [isbadpid, state] using before

/-- A process that sleeps until 7 gets between the two, and the first of them is woken. -/
theorem sleep_queue_deadlines_sleepers :
    ∃ s l, TwoSleepers s l ∧
      ((insertd 4 s.sleepq 7 s).1 = OK ∧
        ∃ l', Requeued s l (insertd 4 s.sleepq 7 s).2.queuetab [(3, 5), (4, 7), (6, 9)] l') ∧
      (unsleep 3 s).1 = OK ∧ ∃ l', Requeued s l (unsleep 3 s).2.queuetab [(6, 9)] l' := by
  obtain ⟨s, l, two⟩ := exists_twoSleepers
  have member : 3 ∈ l.elems s.sleepq := by
    rw [← map_fst_deadlines l.key 0 (l.elems s.sleepq), two.entries]
    decide
  obtain ⟨inserted, -, front, back, l', entries, before, behind, requeued⟩ :=
    (sleep_queue_deadlines two.toSleepQueue 4).1 two.live two.fresh 7 (by decide) (by decide)
  obtain ⟨woken, front', back', deadline, l'', entries', requeued'⟩ :=
    (sleep_queue_deadlines two.toSleepQueue 3).2 member
  rw [two.entries] at entries entries'
  obtain ⟨rfl, rfl⟩ := split_two entries before behind (by decide) (by decide)
  obtain ⟨rfl, rfl⟩ : front' = [] ∧ back' = [(6, 9)] := by
    cases front' with
    | nil =>
      rw [List.nil_append, List.cons.injEq] at entries'
      exact ⟨rfl, entries'.2.symm⟩
    | cons a front' =>
      -- no other entry is that of process 3
      rw [List.cons_append, List.cons.injEq] at entries'
      have among : (3, deadline) ∈ [((6 : Int), (9 : Int))] := by
        rw [entries'.2]
        simp
      simp at among
  exact ⟨s, l, two, ⟨inserted, l', requeued⟩, woken, l'', requeued'⟩

end XinuStm32
