import XinuStm32.Kernel.System
import XinuStm32.Abstract.Invariant
import XinuStm32.Refinement.Queue

/-!
# The kernel and its view

`Tracks owed s a` says that `a` is the kernel state `s` with the queues as lists. In the middle of
`kill` the process count is already one less than the number of processes; `owed` is that
difference. Each queue operation of the kernel is followed by the edit of the view of the same name.
-/

namespace XinuStm32

open View

/-- The scheduler's variables of a kernel state around given lists. Deferral only delays a switch
to the end of an operation, so the view has none. -/
def viewOf (lists : Lists) (owed : Int) (s : Sched QTab) : View where
  proctab := s.proctab
  prcount := s.prcount + owed
  currpid := s.currpid
  semtab := s.semtab
  queuetab := lists
  readylist := s.readylist
  sleepq := s.sleepq
  defer := ⟨0, false⟩
  counting := s.counting
  pendsv := s.pendsv

inductive Tracks (owed : Int) (s : Kernel) : View → Prop where
  | mk {lists : Lists} : Represents s.queuetab lists → Tracks owed s (viewOf lists owed s.toSched)

namespace Tracks

variable {owed : Int} {s : Kernel} {a : View}

/-! ## Reading -/

theorem represents (track : Tracks owed s a) : Represents s.queuetab a.queuetab := by
  cases track with
  | mk rep => exact rep

theorem proctab (track : Tracks owed s a) : s.proctab = a.proctab := by
  cases track; rfl

theorem prcount (track : Tracks owed s a) : s.prcount + owed = a.prcount := by
  cases track; rfl

theorem currpid (track : Tracks owed s a) : s.currpid = a.currpid := by
  cases track; rfl

theorem semtab (track : Tracks owed s a) : s.semtab = a.semtab := by
  cases track; rfl

theorem readylist (track : Tracks owed s a) : s.readylist = a.readylist := by
  cases track; rfl

theorem sleepq (track : Tracks owed s a) : s.sleepq = a.sleepq := by
  cases track; rfl

theorem counting (track : Tracks owed s a) : s.counting = a.counting := by
  cases track; rfl

theorem pendsv (track : Tracks owed s a) : s.pendsv = a.pendsv := by
  cases track; rfl

theorem state (track : Tracks owed s a) (p : Int) : (s.proctab p).prstate = a.state p := by
  cases track; rfl

theorem isbadpid_iff (track : Tracks owed s a) (p : Int) :
    isbadpid p s.toSched ↔ ¬ (IsPid p ∧ a.state p ≠ .free) := by
  rw [isbadpid, track.state p, IsPid]
  by_cases free : a.state p = .free
  · simp [free]
  · simp only [free, or_false, ne_eq, not_false_eq_true, and_true]
    omega

theorem live_of_good (track : Tracks owed s a) {p : Int} (good : ¬ isbadpid p s.toSched) :
    IsPid p ∧ a.state p ≠ .free :=
  Decidable.not_not.mp fun bad => good ((track.isbadpid_iff p).mpr bad)

theorem firstid (track : Tracks owed s a) {q : Int} (queue : IsQueue q) :
    XinuStm32.firstid q s.toSched = (a.members q).headD (queuetail q) :=
  track.represents.firstid_eq queue

theorem isempty_iff (track : Tracks owed s a) {q : Int} (queue : IsQueue q) :
    isempty q s.toSched ↔ a.members q = [] := by
  rw [isempty, track.firstid queue]
  cases shape : a.members q with
  | nil =>
    simp only [IsQueue, NPROC] at queue
    simp only [List.headD_nil, queuetail, NPROC, iff_true]
    omega
  | cons p rest =>
    have member : p ∈ a.members q := shape ▸ List.mem_cons_self
    have pid := track.represents.wellFormed.pids member
    simp only [IsPid, NPROC] at pid
    simp only [List.headD_cons, NPROC, reduceCtorEq, iff_false]
    omega

theorem firstid_cons (track : Tracks owed s a) {q p : Int} {rest : List Int} (queue : IsQueue q)
    (shape : a.members q = p :: rest) : XinuStm32.firstid q s.toSched = p := by
  rw [track.firstid queue, shape]
  rfl

theorem firstkey_cons (track : Tracks owed s a) {q p : Int} {rest : List Int} (queue : IsQueue q)
    (shape : a.members q = p :: rest) : firstkey q s.toSched = a.queuetab.key p := by
  have member : p ∈ a.members q := shape ▸ List.mem_cons_self
  have pid := track.represents.wellFormed.pids member
  rw [firstkey, track.firstid_cons queue shape]
  exact track.represents.keys pid

theorem firstkey_nil (track : Tracks owed s a) {q : Int} (queue : IsQueue q)
    (shape : a.members q = []) : firstkey q s.toSched = MINKEY := by
  rw [firstkey, track.firstid queue, shape]
  exact track.represents.tailkey queue

/-! ## Stores outside the queues -/

theorem setProc (track : Tracks owed s a) (p : Int) (entry : Procent) :
    Tracks owed (s.setProc p entry) (a.setProc p entry) := by
  cases track with
  | mk rep => exact ⟨rep⟩

theorem setState (track : Tracks owed s a) (p : Int) (state : PrState) :
    Tracks owed (s.setState p state) (a.setState p state) := by
  cases track with
  | mk rep => exact ⟨rep⟩

theorem setSem (track : Tracks owed s a) (sem : Int) (entry : Sentry) :
    Tracks owed (s.setSem sem entry) (a.setSem sem entry) := by
  cases track with
  | mk rep => exact ⟨rep⟩

theorem addCount (track : Tracks owed s a) (sem change : Int) :
    Tracks owed (s.addCount sem change) (a.addCount sem change) := by
  cases track with
  | mk rep => exact ⟨rep⟩

theorem pendSV (track : Tracks owed s a) : Tracks owed (XinuStm32.pendSV s) a.pend := by
  cases track with
  | mk rep => exact ⟨rep⟩

/-- `kill` counts the process out first and clears its entry last. -/
theorem owe (track : Tracks owed s a) : Tracks (owed + 1) { s with prcount := s.prcount - 1 } a := by
  cases track with
  | @mk lists rep =>
    have shape : viewOf lists owed s.toSched =
        viewOf lists (owed + 1) { s.toSched with prcount := s.prcount - 1 } := by
      simp only [viewOf, Sched.mk.injEq, true_and, and_true]
      omega
    rw [shape]
    exact ⟨rep⟩

theorem settleFree (track : Tracks (owed + 1) s a) (p : Int) :
    Tracks owed (s.setState p .free) (a.settle p .free) := by
  cases track with
  | @mk lists rep =>
    have shape : (viewOf lists (owed + 1) s.toSched).settle p .free =
        viewOf lists owed (s.setState p .free).toSched := by
      simp only [viewOf, View.settle, View.setState, View.setProc, Kernel.setState, Kernel.setProc,
        Kernel.touch, if_true, Sched.mk.injEq, true_and, and_true]
      omega
    rw [shape]
    exact ⟨rep⟩

theorem setCurrpid (track : Tracks owed s a) (p : Int) :
    Tracks owed { s with currpid := p } { a with currpid := p } := by
  cases track with
  | mk rep => exact ⟨rep⟩

theorem accept (track : Tracks owed s a) :
    Tracks owed { s with pendsv := false } { a with pendsv := false } := by
  cases track with
  | mk rep => exact ⟨rep⟩

theorem setQueue (track : Tracks owed s a) {t : QTab} {lists : Lists} (rep : Represents t lists) :
    Tracks owed (s.setQueue t) (a.setLists lists) := by
  cases track with
  | mk _ => exact ⟨rep⟩

/-- Two kernel states that differ in nothing the view shows. -/
theorem congr (track : Tracks owed s a) {s' : Kernel}
    (same : s'.toSched = { s.toSched with defer := s'.defer }) : Tracks owed s' a := by
  cases track with
  | @mk lists rep =>
    have shape : viewOf lists owed s.toSched = viewOf lists owed s'.toSched := by rw [same]; rfl
    rw [shape]
    exact ⟨by rw [same]; exact rep⟩

theorem disable (track : Tracks owed s a) : Tracks owed (XinuStm32.disable s).2 a :=
  track.congr rfl

theorem restore (track : Tracks owed s a) (mask : UInt32) : Tracks owed (restore mask s) a :=
  track.congr rfl

/-! ## Queue operations -/

theorem getitem (track : Tracks owed s a) {p q : Int} (member : p ∈ a.members q) :
    Tracks owed (getitem p s).2 (a.out p q) :=
  track.setQueue (track.represents.unlink member)

theorem getfirst_cons (track : Tracks owed s a) {p q : Int} {rest : List Int} (queue : IsQueue q)
    (shape : a.members q = p :: rest) :
    (getfirst q s).1 = p ∧ Tracks owed (getfirst q s).2 (a.out p q) := by
  have first := track.firstid_cons queue shape
  have full : ¬ isempty q s.toSched := by simp [track.isempty_iff queue, shape]
  rw [getfirst, if_neg full, first]
  exact ⟨rfl, track.getitem (shape ▸ List.mem_cons_self)⟩

theorem getfirst_nil (track : Tracks owed s a) {q : Int} (queue : IsQueue q)
    (shape : a.members q = []) : getfirst q s = (EMPTY, s) := by
  rw [getfirst, if_pos ((track.isempty_iff queue).mpr shape)]

end Tracks

theorem not_isbadqid {q : Int} (queue : IsQueue q) : ¬ isbadqid q := by
  simp only [IsQueue, isbadqid, NPROC, NQENT] at *
  omega

namespace Tracks

variable {owed : Int} {s : Kernel} {a : View}

theorem dequeue_cons (track : Tracks owed s a) {p q : Int} {rest : List Int} (queue : IsQueue q)
    (shape : a.members q = p :: rest) :
    (dequeue q s).1 = p ∧ Tracks owed (dequeue q s).2 (a.out p q) := by
  have full : ¬ isempty q s.toSched := by simp [track.isempty_iff queue, shape]
  have member : p ∈ a.members q := shape ▸ List.mem_cons_self
  have pid := track.represents.wellFormed.pids member
  obtain ⟨first, taken⟩ := track.getfirst_cons queue shape
  simp only [dequeue, if_neg (not_isbadqid queue), if_neg full, first]
  exact ⟨trivial,
    taken.setQueue (taken.represents.clear pid (track.represents.wellFormed.fresh_remove member))⟩

theorem dequeue_nil (track : Tracks owed s a) {q : Int} (queue : IsQueue q)
    (shape : a.members q = []) : dequeue q s = (EMPTY, s) := by
  rw [dequeue, if_neg (not_isbadqid queue), if_pos ((track.isempty_iff queue).mpr shape)]

theorem enqueue (track : Tracks owed s a) {p q : Int} (pid : IsPid p) (live : a.state p ≠ .free)
    (queue : IsQueue q) (fresh : a.queuetab.Fresh p) :
    Tracks owed (enqueue p q s).2 (a.setLists (a.queuetab.append p q)) := by
  have good : ¬ (isbadqid q ∨ isbadpid p s.toSched) := by
    simp [not_isbadqid queue, track.isbadpid_iff, pid, live]
  rw [XinuStm32.enqueue, if_neg good]
  exact track.setQueue (track.represents.linkTail pid queue fresh)

theorem insert (track : Tracks owed s a) {p q key : Int} (pid : IsPid p) (live : a.state p ≠ .free)
    (queue : IsQueue q) (fresh : a.queuetab.Fresh p) (low : MINKEY < key) :
    Tracks owed (insert p q key s).2 (a.setLists (a.queuetab.insertSorted p q key)) := by
  have good : ¬ (isbadqid q ∨ isbadpid p s.toSched) := by
    simp [not_isbadqid queue, track.isbadpid_iff, pid, live]
  rw [XinuStm32.insert, if_neg good]
  exact track.setQueue (track.represents.linkSorted pid queue fresh low)

theorem insertd (track : Tracks owed s a) {p q : Int} (delay : Int) (pid : IsPid p)
    (live : a.state p ≠ .free) (queue : IsQueue q) (fresh : a.queuetab.Fresh p) :
    (insertd p q delay s).1 = OK ∧
      Tracks owed (insertd p q delay s).2 (a.setLists (a.queuetab.insertDelta p q delay)) := by
  have good : ¬ (isbadqid q ∨ isbadpid p s.toSched) := by
    simp [not_isbadqid queue, track.isbadpid_iff, pid, live]
  rw [XinuStm32.insertd, if_neg good]
  exact ⟨rfl, track.setQueue (track.represents.linkDelta pid queue fresh)⟩

end Tracks

/-- Every priority is above the key of the tail. -/
theorem minkey_lt_prio (prio : Int16) : MINKEY < prio.toInt := by
  have low : -32768 ≤ prio.toInt := prio.minValue_le_toInt
  simp only [MINKEY]
  omega

theorem ready_bad {p : Int} {s : Kernel} (bad : isbadpid p s.toSched) : ready p s = (SYSERR, s) := by
  rw [ready, if_pos bad]

/-- `ready` of a process that is in no queue. -/
theorem Tracks.ready {owed : Int} {s : Kernel} {a : View} (track : Tracks owed s a) {p : Int}
    (pid : IsPid p) (live : a.state p ≠ .free) (queue : IsQueue a.readylist)
    (fresh : a.queuetab.Fresh p) :
    (ready p s).1 = OK ∧ Tracks owed (ready p s).2 (a.makeReady p) := by
  have good : ¬ isbadpid p s.toSched := by simp [track.isbadpid_iff, pid, live]
  have marked := track.setState p .ready
  have inserted := marked.insert (q := a.readylist) pid (by simp) queue fresh
    (minkey_lt_prio ((a.setState p .ready).proctab p).prprio)
  rw [XinuStm32.ready, if_neg good]
  refine ⟨rfl, ?_⟩
  have same : (s.setState p .ready).proctab = (a.setState p .ready).proctab := marked.proctab
  have same' : (s.setState p .ready).readylist = a.readylist := marked.readylist
  simp only [same, same']
  exact inserted.pendSV

end XinuStm32
