import Mathlib

/-!
# Chains of cells in a table

A table gives each cell one entry: free, the next cell of its chain, or the end of it. An allocation is a list of
chains that have no cell in common and leave no used cell out. A new chain, one more cell at the end of a chain and the
release of a whole chain are edits of a few entries that keep an allocation, with every other chain as it was.
-/

namespace Chains

inductive Entry (κ : Type*) where
  | free
  | link (next : κ)
  | last
deriving DecidableEq

variable {κ : Type*}

/-- The cells from the first to the last, each with a link to the one behind it. -/
def Chain (table : κ → Entry κ) : List κ → Prop
  | [] => False
  | [cell] => table cell = .last
  | cell :: next :: cells => table cell = .link next ∧ Chain table (next :: cells)

/-- Chains that hold every usable cell which is not free, and each of them once. -/
structure Allocation (usable : κ → Prop) (table : κ → Entry κ) (chains : List (List κ)) : Prop where
  chain : ∀ cells ∈ chains, Chain table cells
  apart : chains.flatten.Nodup
  within : ∀ cell ∈ chains.flatten, usable cell
  rest : ∀ cell, usable cell → cell ∉ chains.flatten → table cell = .free

variable {usable : κ → Prop} {table table' : κ → Entry κ} {cells : List κ} {cell next new : κ}
  {chains front back : List (List κ)}

/-! ## Chains -/

theorem Chain.ne_nil (chain : Chain table cells) : cells ≠ [] := by
  intro empty
  subst empty
  exact chain

theorem Chain.congr (chain : Chain table cells) (same : ∀ cell ∈ cells, table' cell = table cell) :
    Chain table' cells := by
  induction cells with
  | nil => exact chain
  | cons cell cells inductionHypothesis =>
    cases cells with
    | nil => exact (same cell (by simp)).trans chain
    | cons next cells =>
      exact ⟨(same cell (by simp)).trans chain.1,
        inductionHypothesis chain.2 fun cell inside => same cell (List.mem_cons_of_mem _ inside)⟩

theorem Chain.used (chain : Chain table cells) (inside : cell ∈ cells) : table cell ≠ .free := by
  induction cells with
  | nil => exact absurd chain id
  | cons first cells inductionHypothesis =>
    cases cells with
    | nil =>
      rw [List.mem_singleton.mp inside, show table first = .last from chain]
      simp
    | cons next cells =>
      cases List.mem_cons.mp inside with
      | inl here =>
        rw [here, chain.1]
        simp
      | inr later => exact inductionHypothesis chain.2 later

theorem Chain.getLast (chain : Chain table cells) : table (cells.getLast chain.ne_nil) = .last := by
  induction cells with
  | nil => exact absurd chain id
  | cons first cells inductionHypothesis =>
    cases cells with
    | nil => exact chain
    | cons next cells => exact inductionHypothesis chain.2

/-- A cell of a chain has the next one as its link. -/
theorem Chain.link (chain : Chain table cells) {i : Nat} (inside : i + 1 < cells.length) :
    table cells[i] = .link cells[i + 1] := by
  induction cells generalizing i with
  | nil => exact absurd inside (Nat.not_lt_zero _)
  | cons first cells inductionHypothesis =>
    cases cells with
    | nil => exact absurd inside (by simp)
    | cons next cells =>
      cases i with
      | zero => exact chain.1
      | succ i => exact inductionHypothesis chain.2 (Nat.lt_of_succ_lt_succ inside)

/-- A table has at most one chain from a cell. -/
theorem Chain.unique {others : List κ} (chain : Chain table (cell :: cells))
    (other : Chain table (cell :: others)) : cells = others := by
  induction cells generalizing cell others with
  | nil =>
    cases others with
    | nil => rfl
    | cons next others =>
      have clash : Entry.last = Entry.link next := (show table cell = .last from chain).symm.trans other.1
      cases clash
  | cons next cells inductionHypothesis =>
    cases others with
    | nil =>
      have clash : Entry.link next = Entry.last := chain.1.symm.trans other
      cases clash
    | cons next' others =>
      have same : next = next' := Entry.link.inj (chain.1.symm.trans other.1)
      subst same
      rw [inductionHypothesis chain.2 other.2]

section Edits

variable [DecidableEq κ]

/-- A link from the last cell to a new one, which becomes the last. -/
def append (table : κ → Entry κ) (last new : κ) : κ → Entry κ :=
  Function.update (Function.update table last (.link new)) new .last

/-- Every one of the cells is free. -/
def release (table : κ → Entry κ) (cells : List κ) : κ → Entry κ := fun cell =>
  if cell ∈ cells then .free else table cell

theorem append_other {last : κ} (notLast : cell ≠ last) (notNew : cell ≠ new) :
    append table last new cell = table cell := by
  rw [append, Function.update_of_ne notNew, Function.update_of_ne notLast]

theorem Chain.append (chain : Chain table cells) (apart : cells.Nodup) (fresh : new ∉ cells) :
    Chain (append table (cells.getLast chain.ne_nil) new) (cells ++ [new]) := by
  induction cells with
  | nil => exact absurd chain id
  | cons first cells inductionHypothesis =>
    have notNew : first ≠ new := fun same => fresh (same ▸ List.mem_cons_self)
    cases cells with
    | nil =>
      constructor
      · exact (Function.update_of_ne notNew _ _).trans (Function.update_self _ _ _)
      · exact Function.update_self _ _ _
    | cons next cells =>
      have notLast : first ≠ (next :: cells).getLast (by simp) :=
        fun same => (List.nodup_cons.mp apart).1 (same ▸ List.getLast_mem _)
      constructor
      · exact (append_other notLast notNew).trans chain.1
      · exact inductionHypothesis chain.2 (List.nodup_cons.mp apart).2
          fun inside => fresh (List.mem_cons_of_mem _ inside)

end Edits

/-! ## Allocations -/

namespace Allocation

theorem apart_of_mem (allocation : Allocation usable table chains) (inside : cells ∈ chains) : cells.Nodup :=
  List.Nodup.sublist (List.sublist_flatten_of_mem inside) allocation.apart

theorem mem_flatten (inside : cells ∈ chains) (among : cell ∈ cells) : cell ∈ chains.flatten :=
  List.mem_flatten.mpr ⟨cells, inside, among⟩

/-- A usable cell is free exactly when no chain has it. -/
theorem free_iff (allocation : Allocation usable table chains) (isUsable : usable cell) :
    table cell = .free ↔ cell ∉ chains.flatten := by
  constructor
  · intro free inside
    obtain ⟨cells, ofChain, among⟩ := List.mem_flatten.mp inside
    exact (allocation.chain cells ofChain).used among free
  · exact allocation.rest cell isUsable

/-- Only the entries of usable cells matter. -/
theorem congr (allocation : Allocation usable table chains) (same : ∀ cell, usable cell → table' cell = table cell) :
    Allocation usable table' chains where
  chain cells inside := (allocation.chain cells inside).congr fun cell among =>
    same cell (allocation.within cell (mem_flatten inside among))
  apart := allocation.apart
  within := allocation.within
  rest cell isUsable absent := (same cell isUsable).trans (allocation.rest cell isUsable absent)

/-- A cell of one chain is in no other. -/
theorem other_chain (allocation : Allocation usable table (front ++ cells :: back)) {others : List κ}
    (other : others ∈ front ++ back) (among : cell ∈ others) : cell ∉ cells := by
  intro inside
  have apart := allocation.apart
  rw [List.flatten_append, List.flatten_cons, List.nodup_append, List.nodup_append] at apart
  cases List.mem_append.mp other with
  | inl before => exact apart.2.2 cell (mem_flatten before among) cell (by simp [inside]) rfl
  | inr behind => exact apart.2.1.2.2 cell inside cell (mem_flatten behind among) rfl

variable [DecidableEq κ]

/-- A free cell becomes a chain of its own. -/
theorem insert (allocation : Allocation usable table chains) (isUsable : usable new)
    (fresh : new ∉ chains.flatten) :
    Allocation usable (Function.update table new .last) (chains ++ [[new]]) where
  chain cells inside := by
    cases List.mem_append.mp inside with
    | inl old =>
      apply (allocation.chain cells old).congr
      intro cell among
      exact Function.update_of_ne (fun same : cell = new => fresh (same ▸ mem_flatten old among)) _ _
    | inr isNew =>
      rw [List.mem_singleton.mp isNew]
      exact Function.update_self _ _ _
  apart := by
    rw [List.flatten_append, List.nodup_append]
    refine ⟨allocation.apart, by simp, ?_⟩
    intro cell inside other among same
    rw [show other = new by simpa using among] at same
    exact fresh (same ▸ inside)
  within cell inside := by
    rw [List.flatten_append, List.mem_append] at inside
    cases inside with
    | inl old => exact allocation.within cell old
    | inr isNew => rw [show cell = new by simpa using isNew]; exact isUsable
  rest cell isUsable absent := by
    rw [List.flatten_append, List.mem_append, not_or] at absent
    have notNew : cell ≠ new := fun same => absent.2 (by simp [same])
    exact (Function.update_of_ne notNew _ _).trans (allocation.rest cell isUsable absent.1)

/-- A free cell becomes the end of a chain. -/
theorem extend (allocation : Allocation usable table (front ++ cells :: back)) (nonempty : cells ≠ [])
    (isUsable : usable new) (fresh : new ∉ (front ++ cells :: back).flatten) :
    Allocation usable (append table (cells.getLast nonempty) new) (front ++ (cells ++ [new]) :: back) := by
  have member : cells ∈ front ++ cells :: back := by simp
  have flat : ∀ cell, cell ∈ (front ++ (cells ++ [new]) :: back).flatten ↔
      cell ∈ (front ++ cells :: back).flatten ∨ cell = new := by
    intro cell
    simp only [List.flatten_append, List.flatten_cons, List.mem_append, List.mem_singleton]
    tauto
  constructor
  · intro others inside
    have old : others = cells ++ [new] ∨ others ∈ front ++ back := by
      simp only [List.mem_append, List.mem_cons] at inside ⊢
      tauto
    cases old with
    | inl extended =>
      rw [extended]
      exact (allocation.chain cells member).append (allocation.apart_of_mem member)
        fun among => fresh (mem_flatten member among)
    | inr other =>
      have was : others ∈ front ++ cells :: back := by
        simp only [List.mem_append, List.mem_cons] at other ⊢
        tauto
      apply (allocation.chain others was).congr
      intro cell among
      apply append_other
      · exact fun same => allocation.other_chain other among (same ▸ List.getLast_mem nonempty)
      · exact fun same => fresh (same ▸ mem_flatten was among)
  · have permuted : ((front ++ (cells ++ [new]) :: back).flatten).Perm
        (new :: (front ++ cells :: back).flatten) := by
      simp only [List.flatten_append, List.flatten_cons, List.append_assoc, List.singleton_append]
      rw [← List.append_assoc]
      exact List.perm_middle.trans (by simp)
    exact permuted.nodup_iff.mpr (List.nodup_cons.mpr ⟨fresh, allocation.apart⟩)
  · intro cell inside
    cases (flat cell).mp inside with
    | inl old => exact allocation.within cell old
    | inr isNew => exact isNew ▸ isUsable
  · intro cell isUsable absent
    rw [flat, not_or] at absent
    have notLast : cell ≠ cells.getLast nonempty :=
      fun same => absent.1 (same ▸ mem_flatten member (List.getLast_mem nonempty))
    exact (append_other notLast absent.2).trans (allocation.rest cell isUsable absent.1)

/-- The cells of a chain become free. -/
theorem remove (allocation : Allocation usable table (front ++ cells :: back)) :
    Allocation usable (release table cells) (front ++ back) where
  chain others inside := by
    have was : others ∈ front ++ cells :: back := by
      simp only [List.mem_append, List.mem_cons] at inside ⊢
      tauto
    apply (allocation.chain others was).congr
    intro cell among
    exact if_neg (allocation.other_chain inside among)
  apart := by
    apply List.Nodup.sublist _ allocation.apart
    rw [List.flatten_append, List.flatten_append, List.flatten_cons]
    exact (List.Sublist.refl _).append (List.sublist_append_right _ _)
  within cell inside := by
    apply allocation.within cell
    rw [List.flatten_append, List.mem_append] at inside
    rw [List.flatten_append, List.flatten_cons, List.mem_append, List.mem_append]
    tauto
  rest cell isUsable absent := by
    rw [release]
    split
    · rfl
    next other =>
      apply allocation.rest cell isUsable
      rw [List.flatten_append, List.mem_append] at absent
      rw [List.flatten_append, List.flatten_cons, List.mem_append, List.mem_append]
      tauto

end Allocation

end Chains
