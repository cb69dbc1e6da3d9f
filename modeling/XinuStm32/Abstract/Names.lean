import Mathlib

/-!
# Names and the table that maps them

What a name is mapped to, apart from buffers: the first entry whose prefix the name begins with replaces the prefix, and
the mapping goes on as long as the entry belongs to the namespace itself.
-/

namespace XinuStm32

namespace Names

variable {α ι : Type*}

/-- A prefix, what replaces it, and the device the name is then given to. -/
structure Mapping (α ι : Type*) where
  front : List α
  replacement : List α
  device : ι

variable {table : List (Mapping α ι)} {own device device' : ι} {fits : List α → Prop} {name name' name'' : List α}
  {limit : Nat}

/-- The first entry whose prefix the name begins with replaces it. -/
inductive Rewrites (table : List (Mapping α ι)) (name : List α) : ι → List α → Prop where
  | first {before after : List (Mapping α ι)} {entry : Mapping α ι} {rest : List α}
      (split : table = before ++ entry :: after) (unmatched : ∀ other ∈ before, ¬other.front <+: name)
      (matched : name = entry.front ++ rest) : Rewrites table name entry.device (entry.replacement ++ rest)

/-- The name is mapped within a number of replacements; every name on the way fits. -/
inductive MapsTo (table : List (Mapping α ι)) (own : ι) (fits : List α → Prop) :
    Nat → List α → ι → List α → Prop where
  | here {limit : Nat} {name name' : List α} {device : ι} (rewrites : Rewrites table name device name')
      (fitting : fits name') (other : device ≠ own) : MapsTo table own fits (limit + 1) name device name'
  | onward {limit : Nat} {name name' name'' : List α} {device : ι} (rewrites : Rewrites table name own name')
      (fitting : fits name') (rest : MapsTo table own fits limit name' device name'') :
      MapsTo table own fits (limit + 1) name device name''

/-- There is no such mapping: a name on the way has no prefix in the table or is replaced by one that does not fit, or
the limit is reached. -/
inductive Fails (table : List (Mapping α ι)) (own : ι) (fits : List α → Prop) : Nat → List α → Prop where
  | limit {name : List α} : Fails table own fits 0 name
  | unmatched {limit : Nat} {name : List α} (none : ∀ entry ∈ table, ¬entry.front <+: name) :
      Fails table own fits (limit + 1) name
  | long {limit : Nat} {name name' : List α} {device : ι} (rewrites : Rewrites table name device name')
      (unfit : ¬fits name') : Fails table own fits (limit + 1) name
  | onward {limit : Nat} {name name' : List α} (rewrites : Rewrites table name own name') (fitting : fits name')
      (rest : Fails table own fits limit name') : Fails table own fits (limit + 1) name

theorem Rewrites.matched (rewrites : Rewrites table name device name') :
    ∃ entry ∈ table, entry.front <+: name ∧ entry.device = device := by
  cases rewrites with
  | @first before after entry rest split unmatched matched =>
    exact ⟨entry, by rw [split]; simp, ⟨rest, matched.symm⟩, rfl⟩

/-- A name begins with the prefix of no entry, or is rewritten. -/
theorem rewrites_or (table : List (Mapping α ι)) (name : List α) :
    (∀ entry ∈ table, ¬entry.front <+: name) ∨ ∃ device name', Rewrites table name device name' := by
  induction table with
  | nil => exact Or.inl (by simp)
  | cons entry table inductionHypothesis =>
    by_cases matched : entry.front <+: name
    · obtain ⟨rest, rfl⟩ := matched
      exact Or.inr ⟨_, _, .first (List.nil_append _).symm (by simp) rfl⟩
    · cases inductionHypothesis with
      | inl none =>
        left
        intro other member
        cases List.mem_cons.mp member with
        | inl head =>
          rw [head]
          exact matched
        | inr tail => exact none other tail
      | inr some =>
        obtain ⟨device, name', rewrites⟩ := some
        cases rewrites with
        | @first before after entry' rest split unmatched matched' =>
          refine Or.inr ⟨_, _, .first (show entry :: table =
            (entry :: before) ++ entry' :: after by rw [split]; rfl) ?_ matched'⟩
          intro other member
          cases List.mem_cons.mp member with
          | inl head =>
            rw [head]
            exact matched
          | inr tail => exact unmatched other tail

/-- Only one entry is the first. -/
theorem Rewrites.unique (first : Rewrites table name device name') (second : Rewrites table name device' name'') :
    device = device' ∧ name' = name'' := by
  cases first with
  | @first before after entry rest split unmatched matched =>
    cases second with
    | @first before' after' entry' rest' split' unmatched' matched' =>
      rw [split] at split'
      obtain ⟨between, rfl, tail⟩ | ⟨between, rfl, tail⟩ := List.append_eq_append_iff.mp split'
      · cases between with
        | nil =>
          obtain ⟨rfl, -⟩ := List.cons.inj tail
          rw [matched, List.append_cancel_left_eq] at matched'
          exact ⟨rfl, by rw [matched']⟩
        | cons other between =>
          obtain ⟨rfl, -⟩ := List.cons.inj tail
          exact absurd ⟨rest, matched.symm⟩ (unmatched' entry (by simp))
      · cases between with
        | nil =>
          obtain ⟨rfl, -⟩ := List.cons.inj tail
          rw [matched, List.append_cancel_left_eq] at matched'
          exact ⟨rfl, by rw [matched']⟩
        | cons other between =>
          obtain ⟨rfl, -⟩ := List.cons.inj tail
          exact absurd ⟨rest', matched'.symm⟩ (unmatched entry' (by simp))

theorem MapsTo.device_mem (maps : MapsTo table own fits limit name device name') :
    ∃ entry ∈ table, entry.device = device := by
  induction maps with
  | here rewrites fitting other =>
    obtain ⟨entry, member, -, same⟩ := rewrites.matched
    exact ⟨entry, member, same⟩
  | onward rewrites fitting rest inductionHypothesis => exact inductionHypothesis

theorem MapsTo.fitting (maps : MapsTo table own fits limit name device name') : fits name' := by
  induction maps with
  | here rewrites fitting other => exact fitting
  | onward rewrites fitting rest inductionHypothesis => exact inductionHypothesis

/-- A name that is mapped has no reason not to be. -/
theorem MapsTo.not_fails (maps : MapsTo table own fits limit name device name') :
    ¬Fails table own fits limit name := by
  induction maps with
  | here rewrites fitting other =>
    intro fails
    cases fails with
    | unmatched none =>
      obtain ⟨entry, member, matched, -⟩ := rewrites.matched
      exact none entry member matched
    | long rewrites' unfit =>
      obtain ⟨-, rfl⟩ := rewrites.unique rewrites'
      exact unfit fitting
    | onward rewrites' fitting' rest => exact other (rewrites.unique rewrites').1
  | onward rewrites fitting rest inductionHypothesis =>
    intro fails
    cases fails with
    | unmatched none =>
      obtain ⟨entry, member, matched, -⟩ := rewrites.matched
      exact none entry member matched
    | long rewrites' unfit =>
      obtain ⟨-, rfl⟩ := rewrites.unique rewrites'
      exact unfit fitting
    | onward rewrites' fitting' rest' =>
      obtain ⟨-, rfl⟩ := rewrites.unique rewrites'
      exact inductionHypothesis rest'

end Names

end XinuStm32
