import XinuStm32.Kernel.Paths
import XinuStm32.Lib.Transition

/-!
# The current directory

`path` is scratch, and only some commands leave `curdir` in it. `cd .` copies it back without looking, and a path
that `cd` builds is not checked for its length or for being absolute. Up to that, `curdir` is what it should be.
-/

namespace XinuStm32

open ShellPaths

/-- The shell's paths, with the paths that `cd` has opened. -/
structure Directory extends ShellPaths where
  opened : List (List UInt8)

namespace Directory

/-- The path that a command makes the current directory of, as one that it opened. -/
def opens : Command → ShellPaths → List (List UInt8)
  | .cd arg, s =>
    if arg ≠ [DOT] ∧ arg ≠ [DOT, DOT] ∧ s.dirs (fullPath arg s.curdir) then [fullPath arg s.curdir] else []
  | _, _ => []

/-- A command leaves what it computes, if it fits the buffers. What is behind them is not known, so nothing is known
of `curdir` after one that does not. -/
inductive Step : Command → Directory → Directory → Prop where
  | fits {command : Command} {s : Directory} :
      Fits command s.toShellPaths →
        Step command s ⟨exec command s.toShellPaths, s.opened ++ opens command s.toShellPaths⟩
  | overruns {command : Command} {s s' : Directory} : ¬ Fits command s.toShellPaths → Step command s s'

/-- The shell starts in the root directory. -/
def start (dirs : List UInt8 → Bool) : Directory := ⟨⟨[SLASH], [SLASH], dirs⟩, []⟩

/-- The directory is the root, one that was opened, or an ancestor of one. -/
def Names (s : Directory) : Prop := s.curdir = [SLASH] ∨ ∃ path ∈ s.opened, s.curdir <+: withSlash path

/-- `curdir` is an absolute path that ends in a slash, fits its buffer and names a directory. -/
structure Sound (s : Directory) : Prop where
  absolute : s.curdir.head? = some SLASH
  slash : s.curdir.getLast? = some SLASH
  short : s.curdir.length < BUF
  names : s.Names

/-- The command is `cd`. -/
def isCd : Command → Bool
  | .cd _ => true
  | _ => false

/-- A step is right when it leaves a sound state, and moves `curdir` only as a `cd` to another directory. -/
structure Right (command : Command) (s s' : Directory) : Prop where
  sound : s'.Sound
  dot : command = .cd [DOT] → s'.curdir = s.curdir
  other : isCd command = false → s'.curdir = s.curdir

/-- `path` names the current directory, up to the slash at its end. -/
def Restored (s : ShellPaths) : Prop := s.path ≠ [] ∧ withSlash s.path = s.curdir

/-- The commands that return with their own file in `path`: they do not call `update_path`. -/
def leavesPath : Command → Bool
  | .touch _ | .rm _ | .mkdir _ | .dump _ false => true
  | _ => false

/-- `cd .` finds the current directory in `path`, and a path that is built fits the buffer and, if `cd` opens it, is
absolute and fits with a slash at its end. -/
def Meets (command : Command) (s : Directory) : Prop :=
  match command with
  | .cd arg =>
    if arg = [DOT] then Restored s.toShellPaths
    else if arg = [DOT, DOT] then True
    else
      (fullPath arg s.curdir).length < BUF ∧
        (s.dirs (fullPath arg s.curdir) →
          (fullPath arg s.curdir).head? = some SLASH ∧ (withSlash (fullPath arg s.curdir)).length < BUF)
  | .cat arg | .touch arg | .rm arg | .mkdir arg | .dump arg _ | .run arg => (fullPath arg s.curdir).length < BUF
  | _ => True

/-! ## Strings -/

variable {s t : List UInt8}

theorem strrchr_some {c : UInt8} {i : Nat} (found : strrchr c s = some i) :
    ∃ front back, s = front ++ c :: back ∧ front.length = i := by
  induction s generalizing i with
  | nil => cases found
  | cons x s inductionHypothesis =>
    simp only [strrchr] at found
    cases later : strrchr c s with
    | some j =>
      rw [later] at found
      obtain ⟨front, back, rfl, rfl⟩ := inductionHypothesis later
      cases found
      exact ⟨x :: front, back, rfl, rfl⟩
    | none =>
      rw [later] at found
      simp only [Option.ite_none_right_eq_some, Option.some.injEq] at found
      obtain ⟨rfl, rfl⟩ := found
      exact ⟨[], s, rfl, rfl⟩

theorem strrchr_concat (c : UInt8) (s : List UInt8) : strrchr c (s ++ [c]) = some s.length := by
  induction s with
  | nil => simp [strrchr]
  | cons x s inductionHypothesis => simp [strrchr, inductionHypothesis]

theorem strrchr_none {c : UInt8} (missing : strrchr c s = none) : c ∉ s := by
  induction s with
  | nil => simp
  | cons x s inductionHypothesis =>
    simp only [strrchr] at missing
    cases later : strrchr c s with
    | some j =>
      rw [later] at missing
      cases missing
    | none =>
      rw [later] at missing
      have other : x ≠ c := by
        rintro rfl
        simp at missing
      simp only [List.mem_cons, not_or]
      exact ⟨Ne.symm other, inductionHypothesis later⟩

theorem withSlash_getLast (s : List UInt8) : (withSlash s).getLast? = some SLASH := by
  simp only [withSlash]
  split
  · assumption
  · exact List.getLast?_concat

theorem withSlash_of_slash (slash : s.getLast? = some SLASH) : withSlash s = s := if_pos slash

theorem withSlash_head (some : s ≠ []) : (withSlash s).head? = s.head? := by
  simp only [withSlash]
  split
  · rfl
  · exact List.head?_append_of_ne_nil s some

theorem length_le_withSlash (s : List UInt8) : s.length ≤ (withSlash s).length := by
  simp only [withSlash]
  split
  · exact Nat.le_refl _
  · simp

/-- The parent of a directory that is not the root: an absolute path that ends in a slash, and the front of it. -/
theorem parent (absolute : s.head? = some SLASH) (slash : s.getLast? = some SLASH) (notRoot : s ≠ [SLASH]) :
    (cutBehindSlash (cutAtSlash s)).head? = some SLASH ∧
      (cutBehindSlash (cutAtSlash s)).getLast? = some SLASH ∧ cutBehindSlash (cutAtSlash s) <+: s := by
  obtain ⟨front, rfl⟩ := List.getLast?_eq_some_iff.mp slash
  have cut : cutAtSlash (front ++ [SLASH]) = front := by
    simp [cutAtSlash, strrchr_concat]
  have notEmpty : front ≠ [] := by
    rintro rfl
    exact notRoot rfl
  rw [List.head?_append_of_ne_nil _ notEmpty] at absolute
  rw [cut, cutBehindSlash]
  cases found : strrchr SLASH front with
  | none => exact absurd (List.mem_of_mem_head? absolute) (strrchr_none found)
  | some i =>
    obtain ⟨top, rest, rfl, rfl⟩ := strrchr_some found
    have taken : (top ++ SLASH :: rest).take (top.length + 1) = top ++ [SLASH] := by
      rw [List.take_append, List.take_of_length_le (Nat.le_succ _), Nat.add_sub_cancel_left]
      rfl
    refine ⟨?_, ?_, ?_⟩
    · change ((top ++ SLASH :: rest).take (top.length + 1)).head? = _
      rw [taken]
      cases top with
      | nil => rfl
      | cons first top => exact absolute
    · change ((top ++ SLASH :: rest).take (top.length + 1)).getLast? = _
      rw [taken]
      exact List.getLast?_concat
    · change (top ++ SLASH :: rest).take (top.length + 1) <+: _
      rw [taken]
      exact ⟨rest ++ [SLASH], by simp⟩

theorem fullPath_nil (curdir : List UInt8) : fullPath [] curdir = curdir := by
  simp [fullPath]

/-! ## Steps -/

variable {command : Command} {s s' : Directory}

/-- A path with a slash at its end that fits, fits without it. -/
theorem doneFits {path : List UInt8} (some : path ≠ []) (short : (withSlash path).length < BUF) : DoneFits path :=
  ⟨some, Nat.lt_of_le_of_lt (length_le_withSlash path) short, short⟩

/-- What meets its condition in a sound state fits the buffers. -/
theorem fits_of_meets (sound : s.Sound) (meets : Meets command s) : Fits command s.toShellPaths := by
  cases command with
  | cd arg =>
    simp only [Meets] at meets
    simp only [Fits]
    split
    · next dot =>
      rw [if_pos dot] at meets
      exact doneFits meets.1 (by rw [meets.2]; exact sound.short)
    · next other =>
      rw [if_neg other] at meets
      split
      · by_cases root : s.curdir = [SLASH]
        · exact Or.inl root
        · obtain ⟨absolute, slash, front⟩ := parent sound.absolute sound.slash root
          refine Or.inr ⟨sound.short, doneFits ?_ ?_⟩
          · intro empty
            rw [empty] at absolute
            cases absolute
          · rw [withSlash_of_slash slash]
            exact Nat.lt_of_le_of_lt front.length_le sound.short
      · next notUp =>
        rw [if_neg notUp] at meets
        refine ⟨meets.1, fun opened => doneFits ?_ (meets.2 opened).2⟩
        intro empty
        have absolute := (meets.2 opened).1
        rw [empty] at absolute
        cases absolute
  | ls => exact (congrArg (·.length < BUF) (fullPath_nil s.curdir)).mpr sound.short
  | pwd => exact (congrArg (·.length < BUF) (fullPath_nil s.curdir)).mpr sound.short
  | files dirs => trivial
  | cat arg => exact meets
  | touch arg => exact meets
  | rm arg => exact meets
  | mkdir arg => exact meets
  | dump arg found => exact meets
  | run arg => exact meets

/-- Only `cd` touches `curdir`. -/
theorem exec_curdir (other : isCd command = false) (s : ShellPaths) : (exec command s).curdir = s.curdir := by
  cases command with
  | cd arg => cases other
  | dump arg found => cases found <;> rfl
  | _ => rfl

/-- A name stays one when more is opened. -/
theorem Names.mono {s : Directory} {paths : ShellPaths} {opened : List (List UInt8)} (names : s.Names)
    (same : paths.curdir = s.curdir) : Names ⟨paths, s.opened ++ opened⟩ := by
  cases names with
  | inl root => exact Or.inl (same.trans root)
  | inr above =>
    obtain ⟨path, member, front⟩ := above
    exact Or.inr ⟨path, List.mem_append_left _ member, by rw [same]; exact front⟩

/-- A state in which `curdir` is what it was is as sound as it was. -/
theorem Sound.same {s : Directory} {paths : ShellPaths} {opened : List (List UInt8)} (sound : s.Sound)
    (same : paths.curdir = s.curdir) : Sound ⟨paths, s.opened ++ opened⟩ where
  absolute := (congrArg List.head? same).trans sound.absolute
  slash := (congrArg List.getLast? same).trans sound.slash
  short := (congrArg (·.length < BUF) same).mpr sound.short
  names := sound.names.mono same

/-- A path that becomes `curdir`. -/
theorem Sound.moved {path : List UInt8} {opened : List (List UInt8)} {paths : ShellPaths}
    (absolute : path.head? = some SLASH) (short : (withSlash path).length < BUF) (member : path ∈ opened)
    (moved : paths.curdir = withSlash path) : Sound ⟨paths, opened⟩ where
  absolute := by
    have notEmpty : path ≠ [] := by
      rintro rfl
      cases absolute
    rw [moved, withSlash_head notEmpty]
    exact absolute
  slash := by
    rw [moved]
    exact withSlash_getLast path
  short := by
    rw [moved]
    exact short
  names := Or.inr ⟨path, member, by rw [moved]⟩

/-- What `cd ..` leaves: `curdir` if it is the root, else the part of it before its last name. -/
theorem cdUp_curdir (s : ShellPaths) :
    (cdUp s).curdir = if s.curdir = [SLASH] then s.curdir else withSlash (cutBehindSlash (cutAtSlash s.curdir)) := by
  unfold cdUp
  split
  · rfl
  · cases found : strrchr SLASH s.curdir with
    | none => simp only [cdDone, cutAtSlash, found]
    | some i => simp only [cdDone, cutAtSlash, found]

theorem up_right (sound : s.Sound) : Right (.cd [DOT, DOT]) s ⟨cdUp s.toShellPaths, s.opened ++ []⟩ := by
  refine ⟨?_, fun dot => ?_, fun other => ?_⟩
  · by_cases root : s.curdir = [SLASH]
    · exact sound.same (by rw [cdUp_curdir, if_pos root])
    · obtain ⟨absolute, slash, front⟩ := parent sound.absolute sound.slash root
      have moved : (cdUp s.toShellPaths).curdir = cutBehindSlash (cutAtSlash s.curdir) := by
        rw [cdUp_curdir, if_neg root, withSlash_of_slash slash]
      refine ⟨(congrArg List.head? moved).trans absolute, (congrArg List.getLast? moved).trans slash, ?_, ?_⟩
      · rw [moved]
        exact Nat.lt_of_le_of_lt front.length_le sound.short
      · -- what is above an ancestor is one, and the root has none
        cases sound.names with
        | inl isRoot => exact absurd isRoot root
        | inr above =>
          obtain ⟨path, member, under⟩ := above
          exact Or.inr ⟨path, List.mem_append_left _ member, by rw [moved]; exact front.trans under⟩
  · cases dot
  · cases other

section Other

/-! A `cd` of another argument than `.` and `..`. -/

variable {arg : List UInt8} (notDot : arg ≠ [DOT]) (notUp : arg ≠ [DOT, DOT]) (s : ShellPaths)
include notDot notUp

theorem xshCd_found (found : s.dirs (fullPath arg s.curdir) = true) : xshCd arg s = cdDone (useFullPath arg s) := by
  rw [xshCd, if_neg notDot, if_neg notUp]
  exact if_pos found

theorem xshCd_missing (missing : ¬ s.dirs (fullPath arg s.curdir) = true) :
    xshCd arg s = updatePath (useFullPath arg s) := by
  rw [xshCd, if_neg notDot, if_neg notUp]
  exact if_neg missing

end Other

/-- What meets its condition leaves a sound state as it should. -/
theorem exec_right (sound : s.Sound) (meets : Meets command s) :
    Right command s ⟨exec command s.toShellPaths, s.opened ++ opens command s.toShellPaths⟩ := by
  by_cases other : isCd command = false
  · have same := exec_curdir other s.toShellPaths
    exact ⟨sound.same same, fun _ => same, fun _ => same⟩
  · cases command with
    | cd arg =>
      simp only [Meets] at meets
      by_cases dot : arg = [DOT]
      · rw [if_pos dot] at meets
        have same : (exec (.cd arg) s.toShellPaths).curdir = s.curdir := by
          simp only [exec, xshCd, if_pos dot, cdDone]
          exact meets.2
        exact ⟨sound.same same, fun _ => same, fun _ => same⟩
      · rw [if_neg dot] at meets
        by_cases up : arg = [DOT, DOT]
        · rw [up]
          exact up_right sound
        · rw [if_neg up] at meets
          refine ⟨?_, fun isDot => absurd (by cases isDot; rfl) dot, fun other => by cases other⟩
          by_cases found : s.dirs (fullPath arg s.curdir) = true
          · obtain ⟨absolute, short⟩ := meets.2 found
            apply Sound.moved absolute short
            · rw [opens, if_pos ⟨dot, up, found⟩]
              exact List.mem_append_right _ List.mem_cons_self
            · rw [exec, xshCd_found dot up _ found]
              rfl
          · apply sound.same
            rw [exec, xshCd_missing dot up _ found]
            rfl
    | _ => exact absurd rfl other

theorem Step.right (step : Step command s s') (sound : s.Sound) (meets : Meets command s) : Right command s s' := by
  cases step with
  | fits => exact exec_right sound meets
  | overruns not => exact absurd (fits_of_meets sound meets) not

/-- A command that overruns a buffer can leave anything, an empty `curdir` for one. -/
theorem fits_of_right (right : ∀ s', Step command s s' → Right command s s') : Fits command s.toShellPaths := by
  by_contra overruns
  have unsound := (right ⟨⟨[], [], s.dirs⟩, s.opened⟩ (.overruns overruns)).sound.absolute
  cases unsound

/-- A command all of whose results are right meets its condition. -/
theorem meets_of_right (right : ∀ s', Step command s s' → Right command s s') : Meets command s := by
  have fits := fits_of_right right
  have result := right _ (.fits fits)
  cases command with
  | cd arg =>
    simp only [Meets]
    simp only [Fits] at fits
    split
    · next dot =>
      rw [if_pos dot] at fits
      refine ⟨fits.1, ?_⟩
      have same := result.dot (by rw [dot])
      simp only [exec, xshCd, if_pos dot, cdDone] at same
      exact same
    · next dot =>
      rw [if_neg dot] at fits
      split
      · trivial
      · next up =>
        rw [if_neg up] at fits
        refine ⟨fits.1, fun found => ⟨?_, (fits.2 found).2.2⟩⟩
        have absolute := result.sound.absolute
        simp only [exec, xshCd_found dot up _ found] at absolute
        rw [← absolute]
        exact (withSlash_head (fits.2 found).1).symm
  | ls => trivial
  | pwd => trivial
  | files dirs => trivial
  | cat arg => exact fits
  | touch arg => exact fits
  | rm arg => exact fits
  | mkdir arg => exact fits
  | dump arg found => exact fits
  | run arg => exact fits

/-- Only the commands that leave their own path in `path` spoil it for a later `cd .`. -/
theorem Step.restored (step : Step command s s') (sound : s.Sound) (meets : Meets command s)
    (restores : leavesPath command = false) (before : Restored s.toShellPaths) : Restored s'.toShellPaths := by
  have notEmpty : s.curdir ≠ [] := by
    intro empty
    have absolute := sound.absolute
    rw [empty] at absolute
    cases absolute
  have updated (opened : ShellPaths) (same : opened.curdir = s.curdir) : Restored (updatePath opened) := by
    refine ⟨?_, ?_⟩
    · rw [updatePath, same]
      exact notEmpty
    · rw [updatePath, same]
      exact withSlash_of_slash sound.slash
  have same : Restored (useFullPath [] s.toShellPaths) := by
    rw [useFullPath, fullPath_nil]
    exact ⟨notEmpty, withSlash_of_slash sound.slash⟩
  cases step with
  | overruns not => exact absurd (fits_of_meets sound meets) not
  | fits fits =>
    cases command with
    | cd arg =>
      simp only [Fits] at fits
      by_cases dot : arg = [DOT]
      · simp only [exec, xshCd, if_pos dot]
        exact ⟨before.1, rfl⟩
      · rw [if_neg dot] at fits
        by_cases up : arg = [DOT, DOT]
        · rw [if_pos up] at fits
          simp only [exec, xshCd, if_neg dot, if_pos up]
          unfold cdUp
          split
          · exact before
          · next root =>
            have front := (fits.resolve_left root).2.1
            cases found : strrchr SLASH s.curdir with
            | none =>
              rw [cutAtSlash, found] at front
              simp only [found]
              exact ⟨front, rfl⟩
            | some i =>
              rw [cutAtSlash, found] at front
              simp only [found]
              exact ⟨front, rfl⟩
        · rw [if_neg up] at fits
          by_cases found : s.dirs (fullPath arg s.curdir) = true
          · simp only [exec, xshCd_found dot up _ found]
            exact ⟨(fits.2 found).1, rfl⟩
          · simp only [exec, xshCd_missing dot up _ found]
            exact updated _ rfl
    | ls => exact same
    | pwd => exact same
    | files dirs => exact before
    | cat arg => exact updated _ rfl
    | run arg => exact updated _ rfl
    | dump arg found =>
      cases found with
      | true => exact updated _ rfl
      | false => cases restores
    | touch arg => cases restores
    | rm arg => cases restores
    | mkdir arg => cases restores

/-! ## Sequences of commands -/

theorem start_sound (dirs : List UInt8 → Bool) : (start dirs).Sound where
  absolute := rfl
  slash := rfl
  short := Nat.one_lt_two_pow (by decide : 7 ≠ 0)
  names := Or.inl rfl

/-- After any sequence of commands that meet their conditions, `curdir` is sound, and one more command leaves it as it
should just if it meets its own. Of these only `touch`, `rm`, `mkdir` and a `dump` of a missing file take `path` away
from a later `cd .`. -/
theorem curdir_right_iff (dirs : List UInt8 → Bool) (commands : List Command) (s : Directory)
    (run : Transition.Run (fun command s s' => Step command s s' ∧ Meets command s) commands (start dirs) s) :
    s.Sound ∧ ∀ command, ((∀ s', Step command s s' → Right command s s') ↔ Meets command s) ∧
      (leavesPath command = false → Meets command s → Restored s.toShellPaths →
        ∀ s', Step command s s' → Restored s'.toShellPaths) := by
  have sound : s.Sound :=
    run.invariant Sound (fun _ _ _ step sound => (step.1.right sound step.2).sound) (start_sound dirs)
  refine ⟨sound, fun command => ⟨⟨meets_of_right, fun meets s' step => step.right sound meets⟩, ?_⟩⟩
  intro restores meets before s' step
  exact step.restored sound meets restores before

/-- `touch a`, `cat a`, `cd .` in the root directory. -/
theorem catBeforeDot_right : ∃ s, s.Sound ∧
    ∀ s', Step (.cd [DOT]) s s' → Right (.cd [DOT]) s s' := by
  have run : Transition.Run (fun command s s' => Step command s s' ∧ Meets command s) [.touch [97], .cat [97]]
      (start fun _ => false) ⟨⟨[SLASH], [SLASH], fun _ => false⟩, []⟩ :=
    .cons ⟨.fits (by decide : 2 < 128), (by decide : 2 < 128)⟩
      (.cons ⟨.fits (by decide : 2 < 128), (by decide : 2 < 128)⟩ (.nil _))
  obtain ⟨sound, each⟩ := curdir_right_iff (fun _ => false) _ _ run
  exact ⟨_, sound, (each (.cd [DOT])).1.mpr ⟨by simp, rfl⟩⟩

/-- `touch a` and then `cd .` in the root directory: the new file becomes the current directory. -/
theorem touchBeforeDot_moves : ∃ s s', Transition.Run Step [.touch [97]] (start fun _ => false) s ∧
    Step (.cd [DOT]) s s' ∧ s'.curdir ≠ s.curdir ∧ ¬ s'.Names := by
  refine ⟨⟨⟨[SLASH, 97], [SLASH], fun _ => false⟩, []⟩, ⟨⟨[SLASH, 97], [SLASH, 97, SLASH], fun _ => false⟩, []⟩,
    .single (.fits (by decide : 2 < 128)), .fits ⟨by simp, by decide, by decide⟩, by simp, ?_⟩
  rintro (root | ⟨path, member, front⟩)
  · simp at root
  · simp at member

end Directory

end XinuStm32
