import Mathlib

/-!
# Doubly linked lists

A list of nodes over an arbitrary index type, seen through the two functions that give each node
its successor and its predecessor. `Linked` says that consecutive nodes point at each other. The
two edits, linking a node in between two neighbours and taking one out, are stated for any pair of
functions that has the new links and keeps the others, whatever the order of the stores was.
-/

namespace Links

variable {ι : Type*} {next prev next' prev' : ι → ι}

/-- Consecutive nodes point at each other. -/
def Linked (next prev : ι → ι) (nodes : List ι) : Prop :=
  nodes.IsChain fun x y => next x = y ∧ prev y = x

/-! ## Reading -/

/-- A chain is the chain up to and including a node, that node and its successor, and the chain
from the successor on. -/
theorem linked_middle {front back : List ι} {x y : ι} :
    Linked next prev (front ++ x :: y :: back) ↔
      Linked next prev (front ++ [x]) ∧ (next x = y ∧ prev y = x) ∧ Linked next prev (y :: back) :=
  List.isChain_append_cons_cons

theorem Linked.next_eq {front back : List ι} {x y : ι}
    (linked : Linked next prev (front ++ x :: y :: back)) : next x = y :=
  (linked_middle.mp linked).2.1.1

theorem Linked.prev_eq {front back : List ι} {x y : ι}
    (linked : Linked next prev (front ++ x :: y :: back)) : prev y = x :=
  (linked_middle.mp linked).2.1.2

/-- The node a head points at is the first of its list, or the tail. -/
theorem Linked.next_head {head tail : ι} {nodes : List ι}
    (linked : Linked next prev (head :: nodes ++ [tail])) : next head = nodes.headD tail := by
  cases nodes with
  | nil => exact (List.isChain_cons_cons.mp linked).1.1
  | cons node nodes => exact (List.isChain_cons_cons.mp linked).1.1

/-- Links read the successor of every node but the last, and the predecessor of every node but the
first. -/
theorem Linked.congr {nodes : List ι} (linked : Linked next prev nodes)
    (sameNext : ∀ x ∈ nodes.dropLast, next' x = next x)
    (samePrev : ∀ x ∈ nodes.tail, prev' x = prev x) : Linked next' prev' nodes := by
  apply List.isChain_iff_forall_rel_of_append_cons_cons.mpr
  intro x y front back split
  subst split
  have link := (linked_middle.mp linked).2.1
  rw [sameNext x (by simp [List.dropLast_append_of_ne_nil]), samePrev y (by cases front <;> simp)]
  exact link

/-! ## Editing -/

/-- What linking `node` in between `x` and `y` does to the two functions. -/
structure LinkIn (next prev next' prev' : ι → ι) (x node y : ι) : Prop where
  next_left : next' x = node
  next_node : next' node = y
  prev_node : prev' node = x
  prev_right : prev' y = node
  next_other : ∀ i, i ≠ x → i ≠ node → next' i = next i
  prev_other : ∀ i, i ≠ y → i ≠ node → prev' i = prev i

/-- What taking out the node between `x` and `y` does to the two functions. -/
structure LinkOut (next prev next' prev' : ι → ι) (x y : ι) : Prop where
  next_left : next' x = y
  prev_right : prev' y = x
  next_other : ∀ i, i ≠ x → next' i = next i
  prev_other : ∀ i, i ≠ y → prev' i = prev i

theorem Linked.linkIn {front back : List ι} {x node y : ι}
    (linked : Linked next prev (front ++ x :: y :: back))
    (distinct : (front ++ x :: y :: back).Nodup) (fresh : node ∉ front ++ x :: y :: back)
    (edit : LinkIn next prev next' prev' x node y) :
    Linked next' prev' (front ++ x :: node :: y :: back) := by
  obtain ⟨left, -, right⟩ := linked_middle.mp linked
  have seam : Linked next' prev' (node :: y :: back) := by
    refine List.isChain_cons_cons.mpr ⟨⟨edit.next_node, edit.prev_right⟩, right.congr ?_ ?_⟩
    · intro i hi
      have hi := List.dropLast_subset _ hi
      exact edit.next_other i (by grind) (by grind)
    · intro i hi
      exact edit.prev_other i (by grind) (by grind)
  refine linked_middle.mpr ⟨left.congr ?_ ?_, ⟨edit.next_left, edit.prev_node⟩, seam⟩
  · intro i hi
    rw [List.dropLast_concat] at hi
    exact edit.next_other i (by grind) (by grind)
  · intro i hi
    have hi := List.mem_of_mem_tail hi
    exact edit.prev_other i (by grind) (by grind)

theorem Linked.linkOut {front back : List ι} {x node y : ι}
    (linked : Linked next prev (front ++ x :: node :: y :: back))
    (distinct : (front ++ x :: node :: y :: back).Nodup)
    (edit : LinkOut next prev next' prev' x y) :
    Linked next' prev' (front ++ x :: y :: back) := by
  obtain ⟨left, -, right⟩ := linked_middle.mp linked
  have right : Linked next prev (y :: back) := (List.isChain_cons_cons.mp right).2
  refine linked_middle.mpr
    ⟨left.congr ?_ ?_, ⟨edit.next_left, edit.prev_right⟩, right.congr ?_ ?_⟩
  · intro i hi
    rw [List.dropLast_concat] at hi
    exact edit.next_other i (by grind)
  · intro i hi
    have hi := List.mem_of_mem_tail hi
    exact edit.prev_other i (by grind)
  · intro i hi
    have hi := List.dropLast_subset _ hi
    exact edit.next_other i (by grind)
  · intro i hi
    exact edit.prev_other i (by grind)

/-! ## Walking -/

/-- Follow `next` from a node until `stop` holds, collecting the nodes on the way. -/
def walk (next : ι → ι) (stop : ι → Bool) : Nat → ι → List ι
  | 0, _ => []
  | fuel + 1, node => if stop node then [] else node :: walk next stop fuel (next node)

/-- Walking from the successor of the head up to the tail gives the nodes between them. -/
theorem Linked.walk_eq {stop : ι → Bool} {head tail : ι} {nodes : List ι}
    (linked : Linked next prev (head :: nodes ++ [tail])) (passes : ∀ x ∈ nodes, stop x = false)
    (stops : stop tail = true) {fuel : Nat} (enough : nodes.length < fuel) :
    walk next stop fuel (next head) = nodes := by
  induction nodes generalizing head fuel with
  | nil =>
    rw [linked.next_head]
    cases fuel with
    | zero => rfl
    | succ fuel => simp [walk, stops]
  | cons node nodes inductionHypothesis =>
    rw [linked.next_head]
    cases fuel with
    | zero => exact absurd enough (Nat.not_lt_zero _)
    | succ fuel =>
      have rest := inductionHypothesis (List.isChain_cons_cons.mp linked).2
        (fun x hx => passes x (List.mem_cons_of_mem node hx)) (Nat.lt_of_succ_lt_succ enough)
      simp [walk, passes node (by simp), rest]

end Links
