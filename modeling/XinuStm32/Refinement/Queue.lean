import XinuStm32.Kernel.Queue
import XinuStm32.Abstract.Queues
import XinuStm32.Lib.Links

/-!
# The linked table represents the lists

`Represents t l` says that every queue of the table `t` is a doubly linked list whose nodes are the
head, the members that `l` gives, and the tail. Each edit of `queue.c` turns a represented pair
into a represented pair.
-/

namespace XinuStm32

open Links

/-! ## Stores to the table -/

namespace QTab

def nextOf (t : QTab) (i : Int) : Int := (t.entry i).qnext
def prevOf (t : QTab) (i : Int) : Int := (t.entry i).qprev
def keyOf (t : QTab) (i : Int) : Int := (t.entry i).qkey

@[simp] theorem entry_qnext (t : QTab) (i : Int) : (t.entry i).qnext = t.nextOf i := rfl
@[simp] theorem entry_qprev (t : QTab) (i : Int) : (t.entry i).qprev = t.prevOf i := rfl
@[simp] theorem entry_qkey (t : QTab) (i : Int) : (t.entry i).qkey = t.keyOf i := rfl

@[simp] theorem nextOf_setNext (i value : Int) (t : QTab) (j : Int) :
    (t.setNext i value).nextOf j = if j = i then value else t.nextOf j := by
  simp only [nextOf, setNext, setEntry, Function.update_apply]
  split <;> rfl

@[simp] theorem nextOf_setPrev (i value : Int) (t : QTab) (j : Int) :
    (t.setPrev i value).nextOf j = t.nextOf j := by
  simp only [nextOf, setPrev, setEntry, Function.update_apply]
  split <;> simp [*]

@[simp] theorem nextOf_setKey (i value : Int) (t : QTab) (j : Int) :
    (t.setKey i value).nextOf j = t.nextOf j := by
  simp only [nextOf, setKey, setEntry, Function.update_apply]
  split <;> simp [*]

@[simp] theorem prevOf_setNext (i value : Int) (t : QTab) (j : Int) :
    (t.setNext i value).prevOf j = t.prevOf j := by
  simp only [prevOf, setNext, setEntry, Function.update_apply]
  split <;> simp [*]

@[simp] theorem prevOf_setPrev (i value : Int) (t : QTab) (j : Int) :
    (t.setPrev i value).prevOf j = if j = i then value else t.prevOf j := by
  simp only [prevOf, setPrev, setEntry, Function.update_apply]
  split <;> rfl

@[simp] theorem prevOf_setKey (i value : Int) (t : QTab) (j : Int) :
    (t.setKey i value).prevOf j = t.prevOf j := by
  simp only [prevOf, setKey, setEntry, Function.update_apply]
  split <;> simp [*]

@[simp] theorem keyOf_setNext (i value : Int) (t : QTab) (j : Int) :
    (t.setNext i value).keyOf j = t.keyOf j := by
  simp only [keyOf, setNext, setEntry, Function.update_apply]
  split <;> simp [*]

@[simp] theorem keyOf_setPrev (i value : Int) (t : QTab) (j : Int) :
    (t.setPrev i value).keyOf j = t.keyOf j := by
  simp only [keyOf, setPrev, setEntry, Function.update_apply]
  split <;> simp [*]

@[simp] theorem keyOf_setKey (i value : Int) (t : QTab) (j : Int) :
    (t.setKey i value).keyOf j = if j = i then value else t.keyOf j := by
  simp only [keyOf, setKey, setEntry, Function.update_apply]
  split <;> rfl

end QTab

/-! ## The relation -/

/-- The nodes of a queue: its head entry, its members, its tail entry. -/
def nodes (l : Lists) (q : Int) : List Int := queuehead q :: l.elems q ++ [queuetail q]

structure Represents (t : QTab) (l : Lists) : Prop where
  wellFormed : l.WellFormed
  linked : ∀ {q}, IsQueue q → Linked t.nextOf t.prevOf (nodes l q)
  /-- `insert` stops at the tail because no priority is that low. -/
  tailkey : ∀ {q}, IsQueue q → t.keyOf (queuetail q) = MINKEY
  keys : ∀ {p}, IsPid p → t.keyOf p = l.key p

theorem IsPid.ne_queue {p q : Int} (pid : IsPid p) (queue : IsQueue q) :
    p ≠ queuehead q ∧ p ≠ queuetail q := by
  simp only [IsPid, IsQueue, NPROC] at pid queue
  constructor
  · intro same
    simp only [queuehead] at same
    omega
  · intro same
    simp only [queuetail] at same
    omega

/-- An entry is a node of one queue only. -/
theorem Lists.WellFormed.nodes_disjoint {l : Lists} (wellFormed : l.WellFormed) {q q' i : Int}
    (queue : IsQueue q) (queue' : IsQueue q') (first : i ∈ nodes l q) (second : i ∈ nodes l q') :
    q = q' := by
  simp only [nodes, List.cons_append, List.mem_cons, List.mem_append, List.not_mem_nil,
    or_false] at first second
  have apart {p r : Int} (member : p ∈ l.elems r) {s : Int} (queue : IsQueue s) :=
    (wellFormed.pids member).ne_queue queue
  simp only [queuehead, queuetail] at apart first second
  obtain rfl | member | rfl := first
  · obtain same | member | same := second
    · exact same
    · exact absurd rfl (apart member queue).1
    · simp only [IsQueue] at queue queue'
      omega
  · obtain rfl | member' | rfl := second
    · exact absurd rfl (apart member queue').1
    · exact wellFormed.disjoint member member'
    · exact absurd rfl (apart member queue').2
  · obtain same | member | same := second
    · simp only [IsQueue] at queue queue'
      omega
    · exact absurd rfl (apart member queue).2
    · omega

theorem Lists.WellFormed.nodes_nodup {l : Lists} (wellFormed : l.WellFormed) {q : Int}
    (queue : IsQueue q) : (nodes l q).Nodup := by
  have noHead : queuehead q ∉ l.elems q := fun member =>
    ((wellFormed.pids member).ne_queue queue).1 rfl
  have noTail : queuetail q ∉ l.elems q := fun member =>
    ((wellFormed.pids member).ne_queue queue).2 rfl
  have distinct := wellFormed.nodup q
  simp only [queuehead, queuetail] at noHead noTail
  simp only [nodes, queuehead, queuetail, List.cons_append, List.nodup_cons, List.nodup_append]
  grind

theorem Lists.Fresh.not_mem_nodes {l : Lists} {p q : Int} (fresh : l.Fresh p) (pid : IsPid p)
    (queue : IsQueue q) : p ∉ nodes l q := by
  have apart := pid.ne_queue queue
  have absent := fresh q
  simp only [nodes, List.cons_append, List.mem_cons, List.mem_append, List.not_mem_nil, or_false]
  grind

theorem tail_not_pid {p q : Int} (pid : IsPid p) (queue : IsQueue q) : queuetail q ≠ p :=
  (pid.ne_queue queue).2.symm

/-! ## Linking in and out -/

/-- The node in front of a place in a queue. -/
def leftOf (q : Int) (front : List Int) : Int := (queuehead q :: front).getLast (List.cons_ne_nil _ _)

/-- The node behind a place in a queue. -/
def rightOf (q : Int) (back : List Int) : Int := back.headD (queuetail q)

/-- A place in a queue is a place between two adjacent nodes, whatever is put there. -/
theorem nodes_split (q : Int) (front back : List Int) :
    ∃ before after, ∀ middle, queuehead q :: (front ++ (middle ++ back)) ++ [queuetail q] =
      before ++ leftOf q front :: (middle ++ rightOf q back :: after) := by
  obtain ⟨before, left⟩ : ∃ before, queuehead q :: front = before ++ [leftOf q front] :=
    ⟨_, (List.dropLast_append_getLast _).symm⟩
  obtain ⟨after, right⟩ : ∃ after, back ++ [queuetail q] = rightOf q back :: after := by
    cases back with
    | nil => exact ⟨_, rfl⟩
    | cons x back => exact ⟨_, rfl⟩
  refine ⟨before, after, fun middle => ?_⟩
  calc queuehead q :: (front ++ (middle ++ back)) ++ [queuetail q]
      = (queuehead q :: front) ++ (middle ++ (back ++ [queuetail q])) := by simp
    _ = before ++ leftOf q front :: (middle ++ rightOf q back :: after) := by
      rw [left, right, List.append_assoc, List.singleton_append]

theorem leftOf_mem {l : Lists} {q : Int} {front back : List Int}
    (split : l.elems q = front ++ back) : leftOf q front ∈ nodes l q := by
  obtain ⟨before, after, shape⟩ := nodes_split q front back
  have shape := shape []
  simp only [List.nil_append] at shape
  rw [nodes, split, shape]
  simp

theorem rightOf_mem {l : Lists} {q : Int} {front back : List Int}
    (split : l.elems q = front ++ back) : rightOf q back ∈ nodes l q := by
  obtain ⟨before, after, shape⟩ := nodes_split q front back
  have shape := shape []
  simp only [List.nil_append] at shape
  rw [nodes, split, shape]
  simp

variable {t t' : QTab} {l : Lists}

/-- Linking a process into a place of a queue. -/
theorem Represents.insertAt (rep : Represents t l) {p q : Int} {front back : List Int}
    (pid : IsPid p) (queue : IsQueue q) (fresh : l.Fresh p) (split : l.elems q = front ++ back)
    (edit : LinkIn t.nextOf t.prevOf t'.nextOf t'.prevOf (leftOf q front) p (rightOf q back))
    (keys : ∀ i, i ≠ p → t'.keyOf i = t.keyOf i) :
    Represents t' ((l.setElems q (front ++ p :: back)).setKey p (t'.keyOf p)) where
  wellFormed := (rep.wellFormed.insertAt pid queue fresh split).setKey p _
  linked := by
    intro q' queue'
    obtain ⟨before, after, shape⟩ := nodes_split q front back
    by_cases same : q' = q
    · subst same
      have linked := rep.linked queue
      have distinct := rep.wellFormed.nodes_nodup queue
      have absent := fresh.not_mem_nodes pid queue
      have old : nodes l q' = before ++ leftOf q' front :: rightOf q' back :: after := by
        simpa [nodes, split] using shape []
      have new : nodes ((l.setElems q' (front ++ p :: back)).setKey p (t'.keyOf p)) q' =
          before ++ leftOf q' front :: p :: rightOf q' back :: after := by
        simpa [nodes] using shape [p]
      rw [old] at linked distinct absent
      rw [new]
      exact linked.linkIn distinct absent edit
    · have unchanged : nodes ((l.setElems q (front ++ p :: back)).setKey p (t'.keyOf p)) q' =
          nodes l q' := by
        simp [nodes, same]
      rw [unchanged]
      have absent := fresh.not_mem_nodes pid queue'
      have apart : ∀ i ∈ nodes l q', i ∉ nodes l q := fun i hi hi' =>
        same (rep.wellFormed.nodes_disjoint queue' queue hi hi')
      refine (rep.linked queue').congr (fun i hi => ?_) (fun i hi => ?_)
      · have hi := List.dropLast_subset _ hi
        exact edit.next_other i (fun eq => apart i hi (eq ▸ leftOf_mem split))
          (fun eq => absent (eq ▸ hi))
      · have hi := List.mem_of_mem_tail hi
        exact edit.prev_other i (fun eq => apart i hi (eq ▸ rightOf_mem split))
          (fun eq => absent (eq ▸ hi))
  tailkey := by
    intro q' queue'
    rw [keys _ (tail_not_pid pid queue')]
    exact rep.tailkey queue'
  keys := by
    intro p' pid'
    rw [Lists.key_setKey]
    split
    · next same => rw [same]
    · next other => exact (keys p' other).trans (rep.keys pid')

/-- Taking a process out of its place in a queue. -/
theorem Represents.removeAt (rep : Represents t l) {p q : Int} {front back : List Int}
    (split : l.elems q = front ++ p :: back)
    (edit : LinkOut t.nextOf t.prevOf t'.nextOf t'.prevOf (leftOf q front) (rightOf q back))
    (keys : ∀ i, t'.keyOf i = t.keyOf i) : Represents t' (l.remove p q) where
  wellFormed := rep.wellFormed.remove p q
  linked := by
    intro q' queue'
    obtain ⟨before, after, shape⟩ := nodes_split q front back
    have queue : IsQueue q := rep.wellFormed.allocated (p := p) (by simp [split])
    by_cases same : q' = q
    · subst same
      have linked := rep.linked queue
      have distinct := rep.wellFormed.nodes_nodup queue
      have old : nodes l q' = before ++ leftOf q' front :: p :: rightOf q' back :: after := by
        simpa [nodes, split] using shape [p]
      have erased : (l.elems q').erase p = front ++ back := by
        have distinct := rep.wellFormed.nodup q'
        rw [split] at distinct ⊢
        have absent : p ∉ front := fun member =>
          (List.nodup_append.mp distinct).2.2 p member p (by simp) rfl
        rw [List.erase_append_right _ absent, List.erase_cons_head]
      have new : nodes (l.remove p q') q' = before ++ leftOf q' front :: rightOf q' back :: after := by
        simpa [nodes, Lists.remove, erased] using shape []
      rw [old] at linked distinct
      rw [new]
      exact linked.linkOut distinct edit
    · have unchanged : nodes (l.remove p q) q' = nodes l q' := by simp [nodes, Lists.remove, same]
      rw [unchanged]
      have apart : ∀ i ∈ nodes l q', i ∉ nodes l q := fun i hi hi' =>
        same (rep.wellFormed.nodes_disjoint queue' queue hi hi')
      have rightMem : rightOf q back ∈ nodes l q := by
        have split : l.elems q = (front ++ [p]) ++ back := by simp [split]
        exact rightOf_mem split
      refine (rep.linked queue').congr (fun i hi => ?_) (fun i hi => ?_)
      · have hi := List.dropLast_subset _ hi
        exact edit.next_other i (fun eq => apart i hi (eq ▸ leftOf_mem split))
      · have hi := List.mem_of_mem_tail hi
        exact edit.prev_other i (fun eq => apart i hi (eq ▸ rightMem))
  tailkey := by
    intro q' queue'
    rw [keys]
    exact rep.tailkey queue'
  keys := by
    intro p' pid'
    rw [keys]
    exact rep.keys pid'

/-- What the table holds on both sides of a place in a queue. -/
theorem Represents.place (rep : Represents t l) {q : Int} {front back : List Int} (queue : IsQueue q)
    (split : l.elems q = front ++ back) :
    t.nextOf (leftOf q front) = rightOf q back ∧ t.prevOf (rightOf q back) = leftOf q front := by
  obtain ⟨before, after, shape⟩ := nodes_split q front back
  have shape : nodes l q = before ++ leftOf q front :: rightOf q back :: after := by
    simpa [nodes, split] using shape []
  have linked := rep.linked queue
  rw [shape] at linked
  exact ⟨linked.next_eq, linked.prev_eq⟩

/-- The neighbours that the table gives a member of a queue. -/
theorem Represents.neighbours (rep : Represents t l) {p q : Int} {front back : List Int}
    (split : l.elems q = front ++ p :: back) :
    t.nextOf p = rightOf q back ∧ t.prevOf p = leftOf q front := by
  have queue : IsQueue q := rep.wellFormed.allocated (p := p) (by simp [split])
  have splitAfter : l.elems q = (front ++ [p]) ++ back := by simp [split]
  have left : leftOf q (front ++ [p]) = p := by simp [leftOf]
  have placeAfter := rep.place queue splitAfter
  rw [left] at placeAfter
  exact ⟨placeAfter.1, (rep.place queue split).2⟩

/-- The stores that link a process in between two nodes. -/
theorem QTab.linkIn_stores (t t' : QTab) {p x y : Int} (p_x : p ≠ x) (p_y : p ≠ y)
    (next : t'.nextOf = (((t.setNext p y).setPrev p x).setNext x p).nextOf)
    (prev : t'.prevOf = (((t.setNext p y).setPrev p x).setPrev y p).prevOf) :
    LinkIn t.nextOf t.prevOf t'.nextOf t'.prevOf x p y := by
  constructor <;> simp +contextual [next, prev, p_x, p_y]

/-! ## Edits of the queues -/

theorem Lists.Fresh.not_node {p : Int} (fresh : l.Fresh p) {q : Int} {front back : List Int}
    (pid : IsPid p) (queue : IsQueue q) (split : l.elems q = front ++ back) :
    p ≠ leftOf q front ∧ p ≠ rightOf q back := by
  have absent := fresh.not_mem_nodes pid queue
  exact ⟨fun same => absent (same ▸ leftOf_mem split), fun same => absent (same ▸ rightOf_mem split)⟩

theorem Represents.linkTail (rep : Represents t l) {p q : Int} (pid : IsPid p) (queue : IsQueue q)
    (fresh : l.Fresh p) : Represents (t.linkTail p q) (l.append p q) := by
  have split : l.elems q = l.elems q ++ [] := (List.append_nil _).symm
  have place := rep.place queue split
  have apart := fresh.not_node pid queue split
  have tail : rightOf q [] = queuetail q := rfl
  rw [tail] at place apart
  have edit : LinkIn t.nextOf t.prevOf (t.linkTail p q).nextOf (t.linkTail p q).prevOf
      (leftOf q (l.elems q)) p (rightOf q []) := by
    refine QTab.linkIn_stores t _ apart.1 apart.2 ?_ ?_
    · funext i
      simp [QTab.linkTail, place.2, tail]
    · funext i
      simp [QTab.linkTail, place.2, tail]
  have keys : (t.linkTail p q).keyOf = t.keyOf := by
    funext i
    simp [QTab.linkTail]
  have result := rep.insertAt pid queue fresh split edit fun i _ => congrFun keys i
  rw [keys, rep.keys pid] at result
  rwa [show l.key p = (l.setElems q (l.elems q ++ [p])).key p from rfl, Lists.setKey_self] at result

theorem Represents.unlink (rep : Represents t l) {p q : Int} (member : p ∈ l.elems q) :
    Represents (t.unlink p) (l.remove p q) := by
  obtain ⟨front, back, split⟩ := List.append_of_mem member
  obtain ⟨next, prev⟩ := rep.neighbours split
  refine rep.removeAt split ?_ fun i => by simp [QTab.unlink]
  constructor <;> simp +contextual [QTab.unlink, next, prev]

theorem Represents.clear (rep : Represents t l) {p : Int} (pid : IsPid p) (fresh : l.Fresh p) :
    Represents (t.clear p) l where
  wellFormed := rep.wellFormed
  linked := by
    intro q queue
    have absent := fresh.not_mem_nodes pid queue
    refine (rep.linked queue).congr (fun i hi => ?_) (fun i hi => ?_)
    · have other : i ≠ p := fun same => absent (same ▸ List.dropLast_subset _ hi)
      simp [QTab.clear, other]
    · have other : i ≠ p := fun same => absent (same ▸ List.mem_of_mem_tail hi)
      simp [QTab.clear, other]
  tailkey := by
    intro q queue
    simpa [QTab.clear] using rep.tailkey queue
  keys := by
    intro p' pid'
    simpa [QTab.clear] using rep.keys pid'

theorem Represents.setKey (rep : Represents t l) {p : Int} (pid : IsPid p) (key : Int) :
    Represents (t.setKey p key) (l.setKey p key) where
  wellFormed := rep.wellFormed.setKey p key
  linked := by
    intro q queue
    refine (rep.linked queue).congr (fun i _ => ?_) (fun i _ => ?_) <;> simp
  tailkey := by
    intro q queue
    simpa [tail_not_pid pid queue] using rep.tailkey queue
  keys := by
    intro p' pid'
    simp [rep.keys pid']

/-! ## The scans of `insert` and `insertd` -/

/-- The place behind the first members of the rest of a queue. -/
theorem rightOf_cons (q p : Int) (back : List Int) : rightOf q (p :: back) = p := rfl

theorem Represents.insertScan_eq (rep : Represents t l) {q key : Int} (queue : IsQueue q)
    (low : MINKEY < key) (front : List Int) {back : List Int} (split : l.elems q = front ++ back)
    {fuel : Nat}
    (enough : back.length < fuel) :
    QTab.insertScan key t fuel (rightOf q back) = rightOf q (back.dropWhile (key ≤ l.key ·)) := by
  induction back generalizing front fuel with
  | nil =>
    cases fuel with
    | zero => rfl
    | succ fuel =>
      have tail : ¬ t.keyOf (queuetail q) ≥ key := by
        rw [rep.tailkey queue]
        exact Int.not_le.mpr low
      simp only [QTab.insertScan, QTab.entry_qkey]
      exact if_neg tail
  | cons p back inductionHypothesis =>
    cases fuel with
    | zero => exact absurd enough (Nat.not_lt_zero _)
    | succ fuel =>
      have next := (rep.neighbours split).1
      have pid : IsPid p := rep.wellFormed.pids (q := q) (by simp [split])
      simp only [QTab.insertScan, rightOf_cons, QTab.entry_qkey, QTab.entry_qnext, rep.keys pid, next,
        List.dropWhile_cons, ge_iff_le, decide_eq_true_eq]
      split
      · exact inductionHypothesis (front ++ [p]) (by simp [split]) (Nat.lt_of_succ_lt_succ enough)
      · rfl

theorem Represents.insertdScan_eq (rep : Represents t l) {q : Int} (delay : Int) (queue : IsQueue q)
    (front : List Int) {back : List Int} (split : l.elems q = front ++ back) {fuel : Nat}
    (enough : back.length < fuel) :
    QTab.insertdScan (queuetail q) t fuel (leftOf q front) (rightOf q back) delay =
      (leftOf q (front ++ (Lists.deltaSplit l.key back delay).1),
        rightOf q (Lists.deltaSplit l.key back delay).2.1, (Lists.deltaSplit l.key back delay).2.2) := by
  induction back generalizing front fuel delay with
  | nil =>
    cases fuel with
    | zero => exact absurd enough (Nat.not_lt_zero _)
    | succ fuel => simp [QTab.insertdScan, rightOf, Lists.deltaSplit]
  | cons p back inductionHypothesis =>
    cases fuel with
    | zero => exact absurd enough (Nat.not_lt_zero _)
    | succ fuel =>
      have next := (rep.neighbours split).1
      have pid : IsPid p := rep.wellFormed.pids (q := q) (by simp [split])
      have p_tail : p ≠ queuetail q := (pid.ne_queue queue).2
      have here : leftOf q (front ++ [p]) = p := by simp [leftOf]
      simp only [QTab.insertdScan, rightOf_cons, QTab.entry_qkey, QTab.entry_qnext, rep.keys pid, next,
        Lists.deltaSplit, ne_eq, p_tail, not_false_eq_true, true_and]
      split
      · have rest := inductionHypothesis (int32 (delay - l.key p)) (front ++ [p]) (by simp [split])
          (Nat.lt_of_succ_lt_succ enough)
        rw [here] at rest
        rw [rest]
        simp
      · simp [rightOf_cons]

/-- More nodes than any queue has. -/
theorem Represents.enough_fuel (rep : Represents t l) (q : Int) :
    (l.elems q).length < NQENT.toNat :=
  Nat.lt_of_le_of_lt (rep.wellFormed.length_le q) (by decide)

theorem Represents.firstid_eq (rep : Represents t l) {q : Int} (queue : IsQueue q) :
    t.nextOf (queuehead q) = rightOf q (l.elems q) :=
  (rep.linked queue).next_head

theorem Represents.linkSorted (rep : Represents t l) {p q key : Int} (pid : IsPid p)
    (queue : IsQueue q) (fresh : l.Fresh p) (low : MINKEY < key) :
    Represents (t.linkSorted p q key) (l.insertSorted p q key) := by
  have split : l.elems q = l.ahead key q ++ l.behind key q := (l.ahead_append_behind key q).symm
  have place := rep.place queue split
  have apart := fresh.not_node pid queue split
  have scan : QTab.insertScan key t NQENT.toNat (t.nextOf (queuehead q)) =
      rightOf q (l.behind key q) := by
    rw [rep.firstid_eq queue]
    exact rep.insertScan_eq queue low [] rfl (rep.enough_fuel q)
  have edit : LinkIn t.nextOf t.prevOf (t.linkSorted p q key).nextOf (t.linkSorted p q key).prevOf
      (leftOf q (l.ahead key q)) p (rightOf q (l.behind key q)) := by
    refine QTab.linkIn_stores t _ apart.1 apart.2 ?_ ?_
    · funext i
      simp only [QTab.linkSorted, QTab.entry_qnext, QTab.entry_qprev, scan, place.2]
      simp
    · funext i
      simp only [QTab.linkSorted, QTab.entry_qnext, QTab.entry_qprev, scan, place.2]
      simp
  have keys : ∀ i, (t.linkSorted p q key).keyOf i = if i = p then key else t.keyOf i := by
    intro i
    simp [QTab.linkSorted]
  have result := rep.insertAt pid queue fresh split edit fun i other => by rw [keys, if_neg other]
  rwa [keys, if_pos rfl] at result

theorem Represents.linkDelta (rep : Represents t l) {p q delay : Int} (pid : IsPid p)
    (queue : IsQueue q) (fresh : l.Fresh p) :
    Represents (t.linkDelta p q delay) (l.insertDelta p q delay) := by
  have scan := rep.insertdScan_eq delay queue [] rfl (rep.enough_fuel q)
  rw [List.nil_append, ← rep.firstid_eq queue, show leftOf q [] = queuehead q from rfl] at scan
  have split := (Lists.deltaSplit_append l.key (l.elems q) delay).symm
  simp only [QTab.linkDelta, QTab.entry_qnext, scan, Lists.insertDelta]
  generalize Lists.deltaSplit l.key (l.elems q) delay = parts at split
  obtain ⟨front, back, left⟩ := parts
  simp only at split ⊢
  have place := rep.place queue split
  have apart := fresh.not_node pid queue split
  have linked : Represents
      (((((t.setNext p (rightOf q back)).setPrev p (leftOf q front)).setKey p left).setNext
        (leftOf q front) p).setPrev (rightOf q back) p)
      ((l.setElems q (front ++ p :: back)).setKey p left) := by
    have edit := QTab.linkIn_stores t
      (((((t.setNext p (rightOf q back)).setPrev p (leftOf q front)).setKey p left).setNext
        (leftOf q front) p).setPrev (rightOf q back) p) apart.1 apart.2
      (by funext i; simp) (by funext i; simp)
    have result := rep.insertAt pid queue fresh split edit fun i other => by simp [other]
    simpa using result
  cases back with
  | nil => simpa [rightOf] using linked
  | cons next back =>
    have member : next ∈ l.elems q := by simp [split]
    have pidNext : IsPid next := rep.wellFormed.pids member
    have next_tail : next ≠ queuetail q := (pidNext.ne_queue queue).2
    have next_p : next ≠ p := fun same => fresh q (same ▸ member)
    have result := linked.setKey pidNext (int32 (l.key next - left))
    simpa [rightOf_cons, next_tail, next_p, rep.keys pidNext] using result

end XinuStm32
