import XinuStm32.Abstract.Resolution
import XinuStm32.Properties.CurrentDirectory

/-!
# File names of commands

`full_path` looks for one `./` and then for one `../`. It cuts the path at its last slash and then behind the one
before, and above the root there is none. Where a name has no more steps than these, and none above the root, what
it builds is the path of what the name stands for.
-/

namespace XinuStm32

open Resolution

variable {name curdir : List UInt8} {dirs : List (List UInt8)}

/-- The name behind the `./` that `full_path` drops. -/
def behindDot (name : List UInt8) : List UInt8 := if [DOT, SLASH] <+: name then name.drop 2 else name

/-- There is a step at the front of the name. -/
def Leads (name : List UInt8) : Prop := [DOT, SLASH] <+: name ∨ [DOT, DOT, SLASH] <+: name

instance (name : List UInt8) : Decidable (Leads name) := inferInstanceAs (Decidable (_ ∨ _))

/-- The path built is the one of what the name stands for; it is absolute and fits the buffer. -/
structure Resolves (name curdir : List UInt8) : Prop where
  resolved : fullPath name curdir = resolve name (directory curdir)
  absolute : (fullPath name curdir).head? = some SLASH
  fits : (fullPath name curdir).length < BUF

/-- The name is absolute, or has at most one `./` and then at most one `../`, the latter only below the root. -/
def FewSteps (name curdir : List UInt8) : Prop :=
  name.head? = some SLASH ∨
    ¬ [DOT, SLASH] <+: behindDot name ∧
      ([DOT, DOT, SLASH] <+: behindDot name → curdir ≠ [SLASH] ∧ ¬ Leads ((behindDot name).drop 3))

instance (name curdir : List UInt8) : Decidable (FewSteps name curdir) := by
  unfold FewSteps
  infer_instance

/-! ## Cutting a path -/

theorem strrchr_append {c : UInt8} {back : List UInt8} (front : List UInt8) (missing : c ∉ back) :
    strrchr c (front ++ c :: back) = some front.length := by
  induction front with
  | nil =>
    have none : strrchr c back = none := by
      cases found : strrchr c back with
      | none => rfl
      | some i =>
        obtain ⟨before, after, rfl, -⟩ := Directory.strrchr_some found
        exact absurd (List.mem_append_right before List.mem_cons_self) missing
    simp [strrchr, none]
  | cons x front inductionHypothesis => simp [strrchr, inductionHypothesis]

/-- The two cuts lead from a directory to its parent. -/
theorem cut_render (dirs : List (List UInt8)) {dir : List UInt8} (plain : SLASH ∉ dir) :
    cutBehindSlash (cutAtSlash (render (dirs ++ [dir]))) = render dirs := by
  obtain ⟨front, parent⟩ := List.getLast?_eq_some_iff.mp (render_getLast dirs)
  have first : cutAtSlash (render (dirs ++ [dir])) = front ++ SLASH :: dir := by
    rw [render_concat, cutAtSlash, Directory.strrchr_concat]
    change (render dirs ++ dir ++ [SLASH]).take (render dirs ++ dir).length = _
    rw [List.take_left, parent, List.append_assoc]
    rfl
  have second : (front ++ [SLASH] ++ dir).take (front.length + 1) = front ++ [SLASH] :=
    List.take_left' (by rw [List.length_append, List.length_singleton])
  rw [first, cutBehindSlash, strrchr_append front plain, parent]
  rwa [List.append_assoc] at second

theorem cut_root : cutBehindSlash (cutAtSlash [SLASH]) = [] := by decide

/-! ## Names -/

theorem behindDot_of_dot (name : List UInt8) : behindDot (DOT :: SLASH :: name) = name := if_pos
    (List.prefix_append _ _)

/-- The `./` that is dropped leads nowhere else. -/
theorem follow_behindDot (name : List UInt8) (dirs : List (List UInt8)) :
    follow (behindDot name) dirs = follow name dirs := by
  by_cases dot : [DOT, SLASH] <+: name
  · obtain ⟨rest, rfl⟩ := dot
    change follow (behindDot (DOT :: SLASH :: rest)) dirs = follow (DOT :: SLASH :: rest) dirs
    rw [behindDot_of_dot, follow_dot]
  · rw [behindDot, if_neg dot]

/-- Steps make the path shorter than the name with them. -/
theorem follow_shorter (leads : Leads name) (dirs : List (List UInt8)) :
    (render (follow name dirs).1).length + (follow name dirs).2.length + 2 ≤ (render dirs).length + name.length := by
  cases leads with
  | inl dot =>
    obtain ⟨rest, rfl⟩ := dot
    have above := length_render_follow rest dirs
    have shorter := length_follow rest dirs
    change (render (follow rest dirs).1).length + (follow rest dirs).2.length + 2 ≤ _ + (rest.length + 2)
    omega
  | inr up =>
    obtain ⟨rest, rfl⟩ := up
    have above := (length_render_follow rest (parent dirs)).trans (length_render_parent dirs)
    have shorter := length_follow rest (parent dirs)
    change (render (follow rest (parent dirs)).1).length + (follow rest (parent dirs)).2.length + 2 ≤ _ +
      (rest.length + 3)
    omega

theorem follow_plain (plain : ¬ Leads name) : follow name dirs = (dirs, name) :=
  follow_rest (fun dot => plain (Or.inl dot)) (fun up => plain (Or.inr up))

/-- A directory followed by a name is what the name stands for exactly when no step is left in the name. -/
theorem append_eq_follow (name : List UInt8) (dirs : List (List UInt8)) :
    render dirs ++ name = render (follow name dirs).1 ++ (follow name dirs).2 ↔ ¬ Leads name := by
  constructor
  · intro same leads
    have shorter := follow_shorter leads dirs
    have lengths := congrArg List.length same
    simp only [List.length_append] at lengths
    omega
  · intro plain
    rw [follow_plain plain]

/-- Above the root `full_path` loses the slash. -/
theorem root_ne_follow (name : List UInt8) : name ≠ render (follow name []).1 ++ (follow name []).2 := by
  intro same
  have lengths := congrArg List.length same
  rw [List.length_append] at lengths
  have slash : 1 ≤ (render (follow name []).1).length := Nat.le_add_left 1 _
  by_cases leads : Leads name
  · have shorter := follow_shorter leads []
    have root : (render []).length = 1 := rfl
    omega
  · rw [follow_plain leads] at lengths slash
    simp only at lengths slash
    omega

theorem fullPath_relative (relative : name.head? ≠ some SLASH) :
    fullPath name curdir =
      if [DOT, DOT, SLASH] <+: behindDot name then cutBehindSlash (cutAtSlash curdir) ++ (behindDot name).drop 3
      else curdir ++ behindDot name := by
  rw [fullPath, if_neg relative]
  exact ite_not _ _ _

/-- `full_path` builds the path of what the name stands for exactly when the name has few steps. -/
theorem fullPath_eq_iff (plain : Plain dirs) :
    fullPath name (render dirs) = resolve name dirs ↔ FewSteps name (render dirs) := by
  by_cases absolute : name.head? = some SLASH
  · refine iff_of_true ?_ (Or.inl absolute)
    rw [fullPath, if_pos absolute, resolve, if_pos absolute]
  · rw [fullPath_relative absolute, resolve, if_neg absolute, FewSteps, ← follow_behindDot]
    generalize behindDot name = rest
    by_cases up : [DOT, DOT, SLASH] <+: rest
    · obtain ⟨rest, rfl⟩ := up
      have noDot : ¬ [DOT, SLASH] <+: [DOT, DOT, SLASH] ++ rest := by simp [List.cons_prefix_cons]
      rw [if_pos (List.prefix_append _ _)]
      simp only [absolute, noDot, not_false_eq_true, true_and, false_or, List.prefix_append, true_implies]
      change _ ++ rest = render (follow rest (parent dirs)).1 ++ (follow rest (parent dirs)).2 ↔ _ ∧ ¬ Leads rest
      cases dirs using List.reverseRecOn with
      | nil =>
        rw [show render [] = [SLASH] from rfl, cut_root]
        exact iff_of_false (root_ne_follow rest) (fun fine => fine.1 rfl)
      | append_singleton dirs dir =>
        have below : render (dirs ++ [dir]) ≠ [SLASH] := by
          intro root
          simpa using render_eq_root.mp root
        rw [cut_render dirs (plain dir (List.mem_append_right dirs List.mem_cons_self)), parent_concat,
          append_eq_follow]
        exact (and_iff_right below).symm
    · rw [if_neg up, append_eq_follow]
      simp only [absolute, up, false_or, false_implies, and_true, Leads, or_false]

/-- For an absolute directory with its slash, and where the result fits, `full_path` resolves exactly the names with
few steps. -/
theorem fullPath_resolves_iff (absolute : curdir.head? = some SLASH) (slash : curdir.getLast? = some SLASH)
    (fits : (resolve name (directory curdir)).length < BUF) : Resolves name curdir ↔ FewSteps name curdir := by
  have exact_iff := @fullPath_eq_iff name _ (directory_plain curdir)
  rw [render_directory absolute slash] at exact_iff
  rw [← exact_iff]
  constructor
  · intro resolves
    exact resolves.resolved
  · intro same
    refine ⟨same, ?_, same ▸ fits⟩
    rw [same, resolve]
    split
    · next head => exact head
    · exact List.head?_append_of_ne_nil _ (List.cons_ne_nil _ _)

/-- `./../b` in `/a/` is `/b`. -/
theorem fullPath_above : fullPath [DOT, SLASH, DOT, DOT, SLASH, 98] [SLASH, 97, SLASH] = [SLASH, 98] ∧
    Resolves [DOT, SLASH, DOT, DOT, SLASH, 98] [SLASH, 97, SLASH] :=
  ⟨by decide, (fullPath_resolves_iff (by decide) (by decide) (by decide)).mpr (by decide)⟩

/-- `../b` in the root directory becomes the relative name `b`. -/
theorem fullPath_above_root : fullPath [DOT, DOT, SLASH, 98] [SLASH] = [98] ∧
    resolve [DOT, DOT, SLASH, 98] (directory [SLASH]) = [SLASH, 98] ∧ ¬ Resolves [DOT, DOT, SLASH, 98] [SLASH] := by
  refine ⟨by decide, by decide, ?_⟩
  intro resolves
  exact absurd resolves.absolute (by decide)

end XinuStm32
