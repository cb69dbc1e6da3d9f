import Mathlib

/-!
# The history of a one-place channel

A channel with room for one message is seen through what it has accepted and what it has handed on
since it was opened. The history explains the content when what was accepted is what was handed on
followed by the content: then every message is handed on at most once, in the order of acceptance,
and none is made up.
-/

namespace Channel

variable {α : Type*}

structure History (α : Type*) where
  accepted : List α
  returned : List α

namespace History

/-- A channel that was just opened. -/
def opened : History α := ⟨[], []⟩

def accept (msg : α) (h : History α) : History α := { h with accepted := h.accepted ++ [msg] }

def handOn (msg : α) (h : History α) : History α := { h with returned := h.returned ++ [msg] }

def Explains (h : History α) (content : Option α) : Prop :=
  h.accepted = h.returned ++ content.toList

/-- The later history of a channel that stays open. -/
structure Extends (h h' : History α) : Prop where
  accepted : h.accepted <+: h'.accepted
  returned : h.returned <+: h'.returned

variable {h h' h'' : History α}

theorem explains_opened : (opened : History α).Explains none := rfl

theorem Explains.accept (explains : h.Explains none) (msg : α) : (h.accept msg).Explains (some msg) := by
  simp only [Explains, Option.toList_none, List.append_nil] at explains
  simp only [Explains, History.accept, explains, Option.toList_some]

theorem Explains.handOn {msg : α} (explains : h.Explains (some msg)) :
    (h.handOn msg).Explains none := by
  simp only [Explains, History.handOn, Option.toList_none, List.append_nil]
  exact explains

theorem Explains.empty_iff {content : Option α} (explains : h.Explains content) :
    content = none ↔ h.accepted = h.returned := by
  rw [explains]
  cases content <;> simp

theorem Explains.full_iff {content : Option α} (explains : h.Explains content) (msg : α) :
    content = some msg ↔ h.accepted = h.returned ++ [msg] := by
  rw [explains]
  cases content <;> simp

theorem Extends.refl (h : History α) : h.Extends h := ⟨List.prefix_rfl, List.prefix_rfl⟩

theorem Extends.trans (first : h.Extends h') (second : h'.Extends h'') : h.Extends h'' :=
  ⟨first.accepted.trans second.accepted, first.returned.trans second.returned⟩

theorem extends_accept (msg : α) (h : History α) : h.Extends (h.accept msg) :=
  ⟨List.prefix_append _ _, List.prefix_rfl⟩

theorem extends_handOn (msg : α) (h : History α) : h.Extends (h.handOn msg) :=
  ⟨List.prefix_rfl, List.prefix_append _ _⟩

/-- A message stays in an open channel until it is the next one to be handed on. -/
theorem Explains.kept {content content' : Option α} {msg : α} (explains : h.Explains content)
    (explains' : h'.Explains content') (extends' : h.Extends h') (full : content = some msg) :
    content' = some msg ∧ h'.returned = h.returned ∨ h.returned ++ [msg] <+: h'.returned := by
  have accepted := extends'.accepted
  rw [(explains.full_iff msg).mp full] at accepted
  obtain ⟨more, same⟩ := extends'.returned
  rw [explains', ← same, List.append_assoc, List.prefix_append_right_inj] at accepted
  cases more with
  | nil =>
    left
    refine ⟨?_, by simpa using same.symm⟩
    cases content' with
    | none => simp at accepted
    | some msg' => simpa [eq_comm] using accepted
  | cons first rest =>
    right
    obtain ⟨rfl, -⟩ := List.cons_prefix_cons.mp accepted
    rw [← same, List.prefix_append_right_inj]
    exact List.cons_prefix_cons.mpr ⟨rfl, List.nil_prefix⟩

end History

end Channel
