import XinuStm32.Kernel.Tables

/-!
# Process queues, `queue.c`

`QTab` is `queuetab`: process entries below `NPROC`, then a head and a tail entry for each queue.
Each function of `queue.c` is split into its checks, which read the process table, and the edit of
the queue table.
-/

namespace XinuStm32

@[simp] abbrev queuehead (q : Int) : Int := q
@[simp] abbrev queuetail (q : Int) : Int := q + 1

/-! ## The linked table -/

namespace QTab

def setEntry (i : Int) (e : Qentry) (t : QTab) : QTab := ⟨Function.update t.entry i e⟩

def setNext (i next : Int) (t : QTab) : QTab := t.setEntry i { t.entry i with qnext := next }
def setPrev (i prev : Int) (t : QTab) : QTab := t.setEntry i { t.entry i with qprev := prev }
def setKey (i key : Int) (t : QTab) : QTab := t.setEntry i { t.entry i with qkey := key }

/-- `enqueue`: insert just before the tail node. -/
def linkTail (pid q : Int) (t : QTab) : QTab :=
  let tail := queuetail q
  let prev := (t.entry tail).qprev
  let t := t.setNext pid tail
  let t := t.setPrev pid prev
  let t := t.setNext prev pid
  t.setPrev tail pid

/-- `getitem`: remove a process from an arbitrary point in a queue. -/
def unlink (pid : Int) (t : QTab) : QTab :=
  let next := (t.entry pid).qnext
  let prev := (t.entry pid).qprev
  let t := t.setNext prev next
  t.setPrev next prev

/-- The two stores of `dequeue` after the removal. -/
def clear (pid : Int) (t : QTab) : QTab :=
  (t.setPrev pid EMPTY).setNext pid EMPTY

/-- The loop of `insert`; it ends at the tail, whose key is `MINKEY`. -/
def insertScan (key : Int) (t : QTab) : Nat → Int → Int
  | 0, curr => curr
  | fuel + 1, curr =>
    if (t.entry curr).qkey ≥ key then insertScan key t fuel (t.entry curr).qnext else curr

/-- `insert`: link in descending key order. -/
def linkSorted (pid q key : Int) (t : QTab) : QTab :=
  let curr := insertScan key t NQENT.toNat (t.entry (queuehead q)).qnext
  let prev := (t.entry curr).qprev
  let t := t.setNext pid curr
  let t := t.setPrev pid prev
  let t := t.setKey pid key
  let t := t.setNext prev pid
  t.setPrev curr pid

/-- The loop of `insertd`: the node to insert after, the node to insert before, and what is left
of the delay. -/
def insertdScan (tail : Int) (t : QTab) : Nat → Int → Int → Int → Int × Int × Int
  | 0, prev, next, key => (prev, next, key)
  | fuel + 1, prev, next, key =>
    if next ≠ tail ∧ (t.entry next).qkey ≤ key then
      insertdScan tail t fuel next (t.entry next).qnext (int32 (key - (t.entry next).qkey))
    else (prev, next, key)

/-- `insertd`: link in a delta list. -/
def linkDelta (pid q key : Int) (t : QTab) : QTab :=
  let (prev, next, key) :=
    insertdScan (queuetail q) t NQENT.toNat (queuehead q) (t.entry (queuehead q)).qnext key
  let t := t.setNext pid next
  let t := t.setPrev pid prev
  let t := t.setKey pid key
  let t := t.setNext prev pid
  let t := t.setPrev next pid
  if next ≠ queuetail q then t.setKey next (int32 ((t.entry next).qkey - key)) else t

/-- The initialization in `newqueue`. -/
def makeQueue (q : Int) (t : QTab) : QTab :=
  let t := t.setNext (queuehead q) (queuetail q)
  let t := t.setPrev (queuehead q) EMPTY
  let t := t.setKey (queuehead q) MAXKEY
  let t := t.setNext (queuetail q) EMPTY
  let t := t.setPrev (queuetail q) (queuehead q)
  t.setKey (queuetail q) MINKEY

end QTab

/-! ## Queue operations on the kernel -/

/-- `isbadpid`. -/
def isbadpid {T : Type} (pid : Int) (s : Sched T) : Prop :=
  pid < 0 ∨ pid ≥ NPROC ∨ (s.proctab pid).prstate = .free

instance {T : Type} (pid : Int) (s : Sched T) : Decidable (isbadpid pid s) :=
  inferInstanceAs (Decidable (_ ∨ _ ∨ _))

/-- `isbadqid`. -/
def isbadqid (q : Int) : Prop := q < NPROC ∨ q ≥ NQENT - 1

instance (q : Int) : Decidable (isbadqid q) := inferInstanceAs (Decidable (_ ∨ _))

def firstid (q : Int) (s : Sched QTab) : Int := (s.queuetab.entry (queuehead q)).qnext

def firstkey (q : Int) (s : Sched QTab) : Int := (s.queuetab.entry (firstid q s)).qkey

def isempty (q : Int) (s : Sched QTab) : Prop := firstid q s ≥ NPROC

instance (q : Int) (s : Sched QTab) : Decidable (isempty q s) := inferInstanceAs (Decidable (_ ≥ _))

def enqueue (pid q : Int) (s : Kernel) : Int × Kernel :=
  if isbadqid q ∨ isbadpid pid s.toSched then (SYSERR, s)
  else (pid, s.setQueue (s.queuetab.linkTail pid q))

def getitem (pid : Int) (s : Kernel) : Int × Kernel :=
  (pid, s.setQueue (s.queuetab.unlink pid))

def getfirst (q : Int) (s : Kernel) : Int × Kernel :=
  if isempty q s.toSched then (EMPTY, s)
  else getitem (firstid q s.toSched) s

def dequeue (q : Int) (s : Kernel) : Int × Kernel :=
  if isbadqid q then (SYSERR, s)
  else if isempty q s.toSched then (EMPTY, s)
  else
    let (pid, s) := getfirst q s
    (pid, s.setQueue (s.queuetab.clear pid))

def insert (pid q key : Int) (s : Kernel) : Int × Kernel :=
  if isbadqid q ∨ isbadpid pid s.toSched then (SYSERR, s)
  else (OK, s.setQueue (s.queuetab.linkSorted pid q key))

def insertd (pid q key : Int) (s : Kernel) : Int × Kernel :=
  if isbadqid q ∨ isbadpid pid s.toSched then (SYSERR, s)
  else (OK, s.setQueue (s.queuetab.linkDelta pid q key))

def newqueue (s : Kernel) : Int × Kernel :=
  let q := s.nextqid
  if q ≥ NQENT then (SYSERR, s)
  else
    let s := { s with nextqid := s.nextqid + 2 }
    (q, s.setQueue (s.queuetab.makeQueue q))

end XinuStm32
