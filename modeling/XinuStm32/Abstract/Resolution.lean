import XinuStm32.Kernel.Paths

/-!
# What a file name stands for

A directory is the list of the names on the way to it from the root, so that the root is its own parent. A relative
name leads from a directory to another one through the steps at its front, and the rest is looked up there.
-/

namespace XinuStm32

namespace Resolution

/-- The absolute path of a directory, with a slash at its end. -/
def render (dirs : List (List UInt8)) : List UInt8 := SLASH :: dirs.flatMap (· ++ [SLASH])

/-- The names in a path behind its first slash, each up to the next slash. -/
def split : List UInt8 → List (List UInt8)
  | [] => []
  | c :: path =>
    if c = SLASH then [] :: split path
    else
      match split path with
      | [] => [[c]]
      | dir :: dirs => (c :: dir) :: dirs

/-- The directory of an absolute path. -/
def directory (path : List UInt8) : List (List UInt8) := split path.tail

/-- No name has a slash in it. -/
def Plain (dirs : List (List UInt8)) : Prop := ∀ dir ∈ dirs, SLASH ∉ dir

def parent (dirs : List (List UInt8)) : List (List UInt8) := dirs.dropLast

/-- Take each `./` and `../` from the front of a name: the directory they lead to, and the rest of the name. -/
def follow : List UInt8 → List (List UInt8) → List (List UInt8) × List UInt8
  | 46 :: 47 :: name, dirs => follow name dirs
  | 46 :: 46 :: 47 :: name, dirs => follow name (parent dirs)
  | name, dirs => (dirs, name)

/-- The path of what a name stands for in a directory. -/
def resolve (name : List UInt8) (dirs : List (List UInt8)) : List UInt8 :=
  if name.head? = some SLASH then name
  else render (follow name dirs).1 ++ (follow name dirs).2

variable {name path : List UInt8} {dirs : List (List UInt8)}

@[simp]
theorem follow_dot (name : List UInt8) (dirs : List (List UInt8)) :
    follow (DOT :: SLASH :: name) dirs = follow name dirs := rfl

@[simp]
theorem follow_up (name : List UInt8) (dirs : List (List UInt8)) :
    follow (DOT :: DOT :: SLASH :: name) dirs = follow name (parent dirs) := rfl

theorem follow_rest (noDot : ¬ [DOT, SLASH] <+: name) (noUp : ¬ [DOT, DOT, SLASH] <+: name) :
    follow name dirs = (dirs, name) := by
  rw [follow]
  · rintro rest rfl
    exact noDot (List.prefix_append [DOT, SLASH] rest)
  · rintro rest rfl
    exact noUp (List.prefix_append [DOT, DOT, SLASH] rest)

@[simp]
theorem parent_nil : parent [] = [] := rfl

@[simp]
theorem parent_concat (dirs : List (List UInt8)) (dir : List UInt8) : parent (dirs ++ [dir]) = dirs :=
  List.dropLast_concat

/-- A name never grows, and each step taken from it makes it shorter. -/
theorem length_follow (name : List UInt8) (dirs : List (List UInt8)) :
    (follow name dirs).2.length ≤ name.length := by
  fun_induction follow name dirs with
  | case1 name dirs inductionHypothesis => exact Nat.le_add_right_of_le (Nat.le_add_right_of_le inductionHypothesis)
  | case2 name dirs inductionHypothesis =>
    exact Nat.le_add_right_of_le (Nat.le_add_right_of_le (Nat.le_add_right_of_le inductionHypothesis))
  | case3 => exact Nat.le_refl _

theorem render_concat (dirs : List (List UInt8)) (dir : List UInt8) :
    render (dirs ++ [dir]) = render dirs ++ dir ++ [SLASH] := by
  simp [render]

/-- The path of a directory above is no longer. -/
theorem length_render_parent (dirs : List (List UInt8)) : (render (parent dirs)).length ≤ (render dirs).length := by
  cases dirs using List.reverseRecOn with
  | nil => exact Nat.le_refl _
  | append_singleton dirs dir =>
    rw [parent_concat, render_concat, List.append_assoc, List.length_append]
    exact Nat.le_add_right _ _

theorem length_render_follow (name : List UInt8) (dirs : List (List UInt8)) :
    (render (follow name dirs).1).length ≤ (render dirs).length := by
  fun_induction follow name dirs with
  | case1 name dirs inductionHypothesis => exact inductionHypothesis
  | case2 name dirs inductionHypothesis => exact inductionHypothesis.trans (length_render_parent dirs)
  | case3 => exact Nat.le_refl _

/-! ## The paths of directories -/

theorem render_getLast (dirs : List (List UInt8)) : (render dirs).getLast? = some SLASH := by
  cases dirs using List.reverseRecOn with
  | nil => rfl
  | append_singleton dirs dir =>
    rw [render_concat]
    exact List.getLast?_concat

theorem split_plain (path : List UInt8) : Plain (split path) := by
  induction path with
  | nil => simp [split, Plain]
  | cons c path inductionHypothesis =>
    rw [split]
    by_cases slash : c = SLASH
    · rw [if_pos slash]
      exact List.forall_mem_cons.mpr ⟨List.not_mem_nil, inductionHypothesis⟩
    · rw [if_neg slash]
      cases dirs : split path with
      | nil => simpa [Plain] using Ne.symm slash
      | cons dir dirs' =>
        rw [dirs] at inductionHypothesis
        obtain ⟨first, rest⟩ := List.forall_mem_cons.mp inductionHypothesis
        refine List.forall_mem_cons.mpr ⟨?_, rest⟩
        simp only [List.mem_cons, not_or]
        exact ⟨Ne.symm slash, first⟩

/-- The names, each with the slash behind it, are the path again. -/
theorem flatMap_split (ends : path ≠ [] → path.getLast? = some SLASH) :
    (split path).flatMap (· ++ [SLASH]) = path := by
  induction path with
  | nil => rfl
  | cons c path inductionHypothesis =>
    have last := ends (List.cons_ne_nil c path)
    have tail : (split path).flatMap (· ++ [SLASH]) = path := by
      apply inductionHypothesis
      intro some
      rwa [List.getLast?_cons_of_ne_nil some] at last
    rw [split]
    by_cases slash : c = SLASH
    · rw [if_pos slash, List.flatMap_cons, tail, slash]
      rfl
    · rw [if_neg slash]
      cases dirs : split path with
      | nil =>
        -- a last character that is no slash
        rw [dirs] at tail
        rw [← tail] at last
        exact absurd (Option.some.inj last) slash
      | cons dir dirs' =>
        rw [dirs, List.flatMap_cons] at tail
        rw [List.flatMap_cons, List.cons_append, List.cons_append, tail]

theorem directory_plain (path : List UInt8) : Plain (directory path) := split_plain path.tail

/-- An absolute path that ends in a slash is the path of its directory. -/
theorem render_directory (absolute : path.head? = some SLASH) (slash : path.getLast? = some SLASH) :
    render (directory path) = path := by
  obtain ⟨tail, rfl⟩ := List.head?_eq_some_iff.mp absolute
  rw [render, directory, List.tail_cons, flatMap_split]
  intro some
  rwa [List.getLast?_cons_of_ne_nil some] at slash

/-- Only the root has a path of one character. -/
theorem render_eq_root : render dirs = [SLASH] ↔ dirs = [] := by
  cases dirs with
  | nil => exact iff_of_true rfl rfl
  | cons dir dirs => simp [render]

end Resolution

end XinuStm32
