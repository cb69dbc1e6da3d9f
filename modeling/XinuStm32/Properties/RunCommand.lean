import XinuStm32.Kernel.ShellCommands
import XinuStm32.Properties.Create
import XinuStm32.Properties.LoaderHeap
import XinuStm32.Properties.Resume

/-!
# `run` starts a process or fails

`xsh_run` takes an image from the loader and an entry from `create`, and does not look at the second result before it
stores through it. It settles every outcome in which the loader and `create` both succeed, and those in which the loader
fails and holds no image.
-/

namespace XinuStm32

open FreeBlocks Loader MallocState

variable {s : Kernel} {live blocks : List Block}

/-! ## The process table under `create` and `resume` -/

section Table

variable (procaddr ssize : UInt32) (priority : Int16) (name : List UInt8) (args : List UInt32)

theorem fillEntry_table (pid : Int) (saddr size : Nat) :
    ∃ entry : Procent, entry.prstate = .susp ∧
      (fillEntry pid saddr size procaddr priority name args s).proctab = Function.update s.proctab pid entry :=
  ⟨_, rfl, rfl⟩

/-- A process that was created has an entry that was free, and no other entry changed. -/
theorem create_table (success : (create procaddr ssize priority name args s).1 ≠ SYSERR) :
    IsPid (create procaddr ssize priority name args s).1 ∧
      (s.proctab (create procaddr ssize priority name args s).1).prstate = .free ∧
      ∃ entry : Procent, entry.prstate = .susp ∧ (create procaddr ssize priority name args s).2.proctab =
        Function.update s.proctab (create procaddr ssize priority name args s).1 entry := by
  cases found : s.mem.getstk (stackSize ssize) with
  | none => exact absurd (create_refused procaddr ssize priority name args found).1 success
  | some stack =>
    obtain ⟨address, memory⟩ := stack
    have valid := (create_granted procaddr ssize priority name args found).1.not.mp success
    simp only [not_or] at valid
    have found' :
        (disable (disable s).2).2.mem.getstk (roundew (if ssize.toNat < MINSTK then MINSTK else ssize.toNat)) =
          some (address, memory) := found
    simp only [create, getstk, found', if_neg valid.1]
    generalize got : restore (disable (disable s).2).1 ((disable (disable s).2).2.setMem memory) = s'
    have same : s'.proctab = s.proctab := by
      rw [← got]
      rfl
    obtain ⟨position, rest⟩ := newpidLoop_rest (s := s') NPROC.toNat
    have rest : (newpid s').2 = { s' with nextpid := position } := rest
    have searched := newpidLoop_found (s := s') NPROC.toNat
    obtain ⟨-, full⟩ | ⟨pid, -⟩ := newpid_cases (s := s')
    · rw [HasFree, same] at full
      exact absurd full valid.2.1
    · rw [if_neg (by simp only [SYSERR]; omega), rest]
      obtain ⟨failed, -⟩ | ⟨low, high, free⟩ := searched
      · have failed : (newpid s').1 = SYSERR := failed
        simp only [SYSERR] at failed
        omega
      · rw [same] at free
        obtain ⟨entry, suspended, filled⟩ := fillEntry_table (s := { s' with nextpid := position }) procaddr priority
          name args (newpid s').1 address (roundew (if ssize.toNat < MINSTK then MINSTK else ssize.toNat))
        refine ⟨⟨low, high⟩, free, entry, suspended, filled.trans ?_⟩
        exact congrArg (fun table => Function.update table _ entry) same

/-- One that was not leaves the table. -/
theorem create_failed (failed : (create procaddr ssize priority name args s).1 = SYSERR) :
    (create procaddr ssize priority name args s).2.proctab = s.proctab := by
  cases found : s.mem.getstk (stackSize ssize) with
  | none => exact (create_refused procaddr ssize priority name args found).2.2.proctab
  | some stack => exact ((create_granted procaddr ssize priority name args found).2 failed).2.proctab

end Table

/-- The shell's commands get a process when an entry is free and a free block can hold the stack. -/
theorem create_command_iff (list : s.mem.FreeList blocks) (procaddr : UInt32) (name : List UInt8) (args : List UInt32) :
    (create procaddr SHELL_CMDSTK SHELL_CMDPRIO name args s).1 ≠ SYSERR ↔
      HasFree s ∧ ∃ b ∈ blocks, SHELL_CMDSTK.toNat ≤ b.size := by
  have size : stackSize SHELL_CMDSTK = 2048 := by decide
  have rounded : roundmb 2048 = 2048 := by decide
  have least : SHELL_CMDSTK.toNat = 2048 := by decide
  have priority : ¬ SHELL_CMDPRIO.toInt < 1 := by decide
  obtain ⟨small, none⟩ | ⟨a, m, blocks', found, taken⟩ := list.getstk_spec (show stackSize SHELL_CMDSTK ≠ 0 by decide)
  · have refused := (create_refused procaddr SHELL_CMDSTK SHELL_CMDPRIO name args none).1
    rw [size, rounded] at small
    refine iff_of_false (fun created => created refused) ?_
    rintro ⟨-, b, member, large⟩
    have := small b member
    omega
  · rw [ne_eq, (create_granted procaddr SHELL_CMDSTK SHELL_CMDPRIO name args found).1.not]
    have inHeap := taken.in_heap list
    have bound := list.high
    obtain ⟨b, member, low, high⟩ := taken.free
    rw [size, rounded] at inHeap high ⊢
    -- the last word of the stack is in the heap
    have address : ¬ sub32 (add32 a 2048) 4 = SYSERR32 := by
      rw [add32_of_lt (by omega), sub32_of_le (by omega) (by omega)]
      simp only [SYSERR32]
      omega
    have room : ∃ b ∈ blocks, SHELL_CMDSTK.toNat ≤ b.size := ⟨b, member, by simp only [Block.limit] at high; omega⟩
    rw [not_or, not_or, not_not]
    constructor
    · exact fun possible => ⟨possible.2.1, room⟩
    · exact fun possible => ⟨address, possible.1, priority⟩

theorem resume_table {pid : Int} (valid : IsPid pid) (suspended : (s.proctab pid).prstate = .susp) :
    (resume pid s).2.proctab = Function.update s.proctab pid { s.proctab pid with prstate := .ready } := by
  have good : ¬ isbadpid pid s.toSched := by
    rintro (low | high | free)
    · exact absurd valid.1 (not_le.mpr low)
    · exact absurd valid.2 (not_lt.mpr high)
    · rw [suspended] at free
      cases free
  rw [resume_parts, if_pos ⟨good, suspended⟩, ready, if_neg good]
  dsimp only [pendSV]
  rw [insert]
  split
  · rfl
  · rfl

theorem resume_syserr : resume SYSERR s = (SYSERR, s) := by
  rw [resume, if_pos (.inl (by decide))]

/-! ## The outcomes of `xsh_run` -/

/-- One process was started, in an entry that was free, and it has the image: nothing was reported. -/
def Started (s : Kernel) (image : Option Block) (c : RunCommand) : Prop :=
  c.reported = none ∧ ∃ child, ∃ b ∈ image, IsPid child ∧ (s.proctab child).prstate = .free ∧
    (c.kernel.proctab child).prstate = .ready ∧ (c.kernel.proctab child).elf = true ∧
    (c.kernel.proctab child).img = b.addr ∧ ∀ p, p ≠ child → c.kernel.proctab p = s.proctab p

/-- A failure was reported. The process table is as before, and so is what lies around it, and the heap has its blocks
back. -/
structure Failed (s : Kernel) (c : RunCommand) : Prop where
  reported : c.reported ≠ none
  table : ∀ p, c.kernel.proctab p = s.proctab p
  heap : c.kernel.mem.freeList = s.mem.freeList

variable {nargs args : UInt32} {arg : List UInt8} {fopen : List UInt8 → Option ProgramFile} {ximg : Nat}
  {paths : ShellPaths} {r : Execve} {c : RunCommand} {program : ProgramCode}

theorem xshRun_of_loaded
    (loaded : elfExecve program (paths.useFullPath arg).path (fopen (paths.useFullPath arg).path) s = .ok r) :
    xshRun program nargs args arg fopen ximg paths s =
      if 0 < int32 r.code then
        .ok ⟨none, (paths.useFullPath arg).updatePath,
          launch nargs args (paths.useFullPath arg).path r.code (r.start.getD ximg) r.kernel⟩
      else
        .ok ⟨some (int32 r.code, (paths.useFullPath arg).path), (paths.useFullPath arg).updatePath, r.kernel⟩ := by
  rw [xshRun, loaded, ok_bind]
  rfl

theorem setImage_table (child : Int) (img : Nat) (s : Kernel) :
    (setImage child img s).proctab =
      Function.update s.proctab child { s.proctab child with elf := true, img := img } := rfl

/-- With an entry from `create` the image has its process. -/
theorem launch_started {tmp : List UInt8} {code img : Nat} {image : Block} {k : Kernel} (start : img = image.addr)
    (same : k.proctab = s.proctab)
    (success : (create (UInt32.ofNat code) SHELL_CMDSTK SHELL_CMDPRIO tmp [nargs, args] k).1 ≠ SYSERR)
    (paths' : ShellPaths) : Started s (some image) ⟨none, paths', launch nargs args tmp code img k⟩ := by
  obtain ⟨valid, free, entry, suspended, table⟩ := create_table _ _ _ _ _ success
  rw [launch]
  generalize create (UInt32.ofNat code) SHELL_CMDSTK SHELL_CMDPRIO tmp [nargs, args] k = created at *
  obtain ⟨child, k'⟩ := created
  dsimp only at valid free table ⊢
  have here : (setImage child img k').proctab child = { entry with elf := true, img := img } := by
    rw [setImage_table, Function.update_self, table, Function.update_self]
  have resumed := resume_table valid (s := setImage child img k') (by rw [here]; exact suspended)
  refine ⟨rfl, child, image, rfl, valid, same ▸ free, ?_, ?_, ?_, fun p other => ?_⟩
  · rw [resumed, Function.update_self]
  · rw [resumed, Function.update_self, here]
  · rw [resumed, Function.update_self, here]
    exact start
  · rw [resumed, Function.update_of_ne other, setImage_table, Function.update_of_ne other, table,
      Function.update_of_ne other, same]

/-- Without one, nothing in the table becomes ready. -/
theorem launch_refused {tmp : List UInt8} {code img : Nat} {k : Kernel} (same : k.proctab = s.proctab)
    (failed : (create (UInt32.ofNat code) SHELL_CMDSTK SHELL_CMDPRIO tmp [nargs, args] k).1 = SYSERR)
    {paths' : ShellPaths} {image : Option Block} :
    ¬ Started s image ⟨none, paths', launch nargs args tmp code img k⟩ := by
  have table := (create_failed _ _ _ _ _ failed).trans same
  rw [launch]
  generalize create (UInt32.ofNat code) SHELL_CMDSTK SHELL_CMDPRIO tmp [nargs, args] k = created at *
  obtain ⟨child, k'⟩ := created
  dsimp only at failed table ⊢
  subst failed
  rw [resume_syserr]
  rintro ⟨-, child, b, -, valid, free, ready, -⟩
  -- the stores went in front of the table
  have other : child ≠ SYSERR := by
    have low := valid.1
    simp only [SYSERR]
    omega
  dsimp only at ready
  rw [setImage_table, Function.update_of_ne other, table, free] at ready
  cases ready

/-- `xsh_run` settles an outcome exactly when the loader and `create` both succeed, or the loader holds no image and
says so. -/
theorem xshRun_settled_iff (keeps : StaysInside program) (sound : MallocState.Sound 8 ⟨s.mem, live⟩ blocks)
    (loaded : elfExecve program (paths.useFullPath arg).path (fopen (paths.useFullPath arg).path) s = .ok r) :
    (∃ c, xshRun program nargs args arg fopen ximg paths s = .ok c ∧ (Started s r.image c ∨ Failed s c)) ↔
      (0 < int32 r.code ∧ r.image ≠ none ∧ HasFree s ∧ ∃ b ∈ r.kernel.mem.freeList, SHELL_CMDSTK.toNat ≤ b.size) ∨
        (int32 r.code ≤ 0 ∧ r.image = none) := by
  have leaves := elfExecve_leaves keeps sound loaded
  have restored := leaves.freeList_iff sound
  obtain ⟨table, list⟩ := leaves.kernel
  rw [xshRun_of_loaded loaded]
  by_cases positive : 0 < int32 r.code
  · rw [if_pos positive]
    simp only [Except.ok.injEq, exists_eq_left', not_le.mpr positive, false_and, or_false, positive,
      true_and]
    have unreported : ¬ Failed s ⟨none, (paths.useFullPath arg).updatePath,
        launch nargs args (paths.useFullPath arg).path r.code (r.start.getD ximg) r.kernel⟩ :=
      fun failed => failed.reported rfl
    rw [or_iff_left unreported]
    have possible := create_command_iff list (UInt32.ofNat r.code) (paths.useFullPath arg).path [nargs, args]
    rw [HasFree, table] at possible
    cases leaves with
    | nothing holds image =>
      refine iff_of_false ?_ fun both => both.1 image
      rintro ⟨-, child, b, member, -⟩
      rw [image] at member
      cases member
    | @image h b holds behind image start =>
      rw [image, and_iff_right (by simp), HasFree, ← possible]
      constructor
      · exact fun started failed => launch_refused table failed started
      · intro created
        exact launch_started (by rw [start]; rfl) table created _
  · rw [if_neg positive]
    simp only [Except.ok.injEq, exists_eq_left', positive, false_and, false_or, not_lt.mp positive,
      true_and]
    rw [← restored]
    constructor
    · rintro (started | failed)
      · cases started.1
      · exact failed.heap
    · exact fun heap => .inr ⟨by simp, fun p => congrFun table p, heap⟩

/-! ## Repeated failures -/

/-- A `run` whose program the loader turns down. -/
def TurnedDown (s s' : Kernel) : Prop :=
  ∃ program nargs args arg fopen ximg paths r c, StaysInside program ∧
    elfExecve program (paths.useFullPath arg).path (fopen (paths.useFullPath arg).path) s = .ok r ∧
    int32 r.code ≤ 0 ∧ r.image = none ∧ xshRun program nargs args arg fopen ximg paths s = .ok c ∧ s' = c.kernel

theorem TurnedDown.keeps {s' : Kernel} (down : TurnedDown s s') (sound : MallocState.Sound 8 ⟨s.mem, live⟩ blocks) :
    s'.mem.freeList = s.mem.freeList ∧ s'.proctab = s.proctab ∧
      ∃ blocks', MallocState.Sound 8 ⟨s'.mem, live⟩ blocks' := by
  obtain ⟨program, nargs, args, arg, fopen, ximg, paths, r, c, keeps, loaded, nonpositive, image, ran, rfl⟩ := down
  have leaves := elfExecve_leaves keeps sound loaded
  rw [xshRun_of_loaded loaded, if_neg (not_lt.mpr nonpositive)] at ran
  cases ran
  refine ⟨(leaves.freeList_iff sound).mpr image, leaves.kernel.1, ?_⟩
  cases leaves with
  | nothing holds =>
    obtain ⟨-, -, -, blocks', sound', -⟩ := holds
    exact ⟨blocks', sound'⟩
  | image _ _ image' =>
    rw [image] at image'
    cases image'

/-- However often: the heap and the table stay. -/
theorem turned_down_keeps {s' : Kernel} (sound : MallocState.Sound 8 ⟨s.mem, live⟩ blocks)
    (runs : Relation.ReflTransGen TurnedDown s s') :
    s'.mem.freeList = s.mem.freeList ∧ s'.proctab = s.proctab ∧
      ∃ blocks', MallocState.Sound 8 ⟨s'.mem, live⟩ blocks' := by
  induction runs with
  | refl => exact ⟨rfl, rfl, blocks, sound⟩
  | tail _ down inductionHypothesis =>
    obtain ⟨heap, table, blocks', sound'⟩ := inductionHypothesis
    obtain ⟨heap', table', again⟩ := down.keeps sound'
    exact ⟨heap'.trans heap, table'.trans table, again⟩

/-! ## A full table -/

/-- Twelve processes, and a heap with one free block. -/
def fullTable : Kernel :=
  let s := zeroed heapImage int32 fun _ => 0
  { s.setMem (Mem.meminit heapImage.endAddr fun _ => 0) with
    proctab := fun pid => { s.proctab pid with prstate := if pid = 1 then .curr else .susp } }

/-- A program of one segment of four bytes that is also its entry: the header of the file, the one of the segment and
the segment. -/
def tinyProgram : ProgramFile where
  bytes :=
    [0x7f, 69, 76, 70, 1, 1, 1, 0, 0, 0, 0, 0, 0, 0, 0, 0, 2, 0, 40, 0, 1, 0, 0, 0, 0, 0, 0, 0, 52, 0, 0, 0,
      0, 0, 0, 0, 0, 0, 0, 0, 52, 0, 32, 0, 1, 0, 40, 0, 0, 0, 0, 0] ++
    [1, 0, 0, 0, 84, 0, 0, 0, 0, 0, 0, 0, 0, 0, 0, 0, 4, 0, 0, 0, 4, 0, 0, 0, 5, 0, 0, 0, 4, 0, 0, 0] ++
    [0xfe, 0xe7, 0, 0xbf]
  arrives := 88
  length_lt := by decide
  arrives_le := by decide

theorem fullTable_sound : ∃ blocks, MallocState.Sound 8 ⟨fullTable.mem, []⟩ blocks :=
  start_aligned heapImage (by decide) fun _ => 0

/-- `"/a"`. -/
def pathA : List UInt8 := [SLASH, 0x61]

theorem tinyProgram_loaded : ∃ r, elfExecve idle pathA (some tinyProgram) fullTable = .ok r ∧ 0 < int32 r.code := by
  have evaluated : (elfExecve idle pathA (some tinyProgram) fullTable).toOption.map Execve.code = some 0x20006069 := by
    decide +kernel
  cases run : elfExecve idle pathA (some tinyProgram) fullTable with
  | error stop =>
    rw [run] at evaluated
    cases evaluated
  | ok r =>
    rw [run] at evaluated
    have code : r.code = 0x20006069 := Option.some.inj evaluated
    exact ⟨r, rfl, by rw [code]; decide⟩

/-- The program is loaded, there is no entry for it, and nothing is reported. -/
theorem full_table_run : ∃ r c, elfExecve idle pathA (some tinyProgram) fullTable = .ok r ∧
    xshRun idle 2 0x20005f00 [0x61] (fun _ => some tinyProgram) 0 ⟨[], [SLASH], fun _ => true⟩ fullTable = .ok c ∧
    ¬ (Started fullTable r.image c ∨ Failed fullTable c) := by
  obtain ⟨r, loaded, positive⟩ := tinyProgram_loaded
  obtain ⟨blocks, sound⟩ := fullTable_sound
  obtain ⟨table, list⟩ := (elfExecve_leaves idle_stays sound loaded).kernel
  have full : ¬ HasFree r.kernel := by
    rw [HasFree, table]
    rintro ⟨pid, -, -, free⟩
    simp only [fullTable] at free
    split at free
    · cases free
    · cases free
  have ran := @xshRun_of_loaded fullTable 2 0x20005f00 [0x61] (fun _ => some tinyProgram) 0
    ⟨[], [SLASH], fun _ => true⟩ r idle loaded
  rw [if_pos positive] at ran
  refine ⟨r, _, loaded, ran, ?_⟩
  rintro (started | failed)
  · refine launch_refused table ?_ started
    by_contra success
    exact full ((create_command_iff list _ _ _).mp success).1
  · exact failed.reported rfl

theorem elfExecve_missing (name : List UInt8) (s : Kernel) :
    ∃ r, elfExecve idle name none s = .ok r ∧ r.code = 0xffffffff ∧ r.image = none := ⟨_, rfl, rfl, rfl⟩

/-- One process, and a heap with one free block. -/
def oneCommand : Kernel :=
  let s := zeroed heapImage int32 fun _ => 0
  { s.setMem (Mem.meminit heapImage.endAddr fun _ => 0) with
    proctab := fun pid => { s.proctab pid with prstate := if pid = 1 then .curr else .free } }

theorem oneCommand_sound : ∃ blocks, MallocState.Sound 8 ⟨oneCommand.mem, []⟩ blocks :=
  start_aligned heapImage (by decide) fun _ => 0

/-- The program is loaded, and a stack for it is left. -/
theorem oneCommand_loaded : ∃ r, elfExecve idle pathA (some tinyProgram) oneCommand = .ok r ∧ 0 < int32 r.code ∧
    r.image ≠ none ∧ ∃ b ∈ r.kernel.mem.freeList, SHELL_CMDSTK.toNat ≤ b.size := by
  have evaluated : (elfExecve idle pathA (some tinyProgram) oneCommand).toOption.map
    (fun r => decide (0 < int32 r.code ∧
      r.image ≠ none ∧ ∃ b ∈ r.kernel.mem.freeList, SHELL_CMDSTK.toNat ≤ b.size)) = some true := by
    decide +kernel
  cases run : elfExecve idle pathA (some tinyProgram) oneCommand with
  | error stop =>
    rw [run] at evaluated
    cases evaluated
  | ok r =>
    rw [run] at evaluated
    exact ⟨r, rfl, of_decide_eq_true (Option.some.inj evaluated)⟩

/-- A program is started, and without its file the command says so and changes nothing. -/
theorem xshRun_settled_tiny :
    (∃ b c, xshRun idle 2 0x20005f00 [0x61] (fun _ => some tinyProgram) 0 ⟨[], [SLASH], fun _ => true⟩ oneCommand =
        .ok c ∧ Started oneCommand (some b) c) ∧
      ∃ c, xshRun idle 2 0x20005f00 [0x61] (fun _ => none) 0 ⟨[], [SLASH], fun _ => true⟩ fullTable = .ok c ∧
        Failed fullTable c := by
  constructor
  · obtain ⟨blocks, sound⟩ := oneCommand_sound
    obtain ⟨r, loaded, positive, image, room⟩ := oneCommand_loaded
    obtain ⟨table, -⟩ := (elfExecve_leaves idle_stays sound loaded).kernel
    have free : HasFree r.kernel := by
      rw [HasFree, table]
      exact ⟨2, by decide, by decide, rfl⟩
    rw [HasFree, table] at free
    obtain ⟨c, ran, started | failed⟩ := (@xshRun_settled_iff oneCommand [] blocks 2 0x20005f00 [0x61]
      (fun _ => some tinyProgram) 0 ⟨[], [SLASH], fun _ => true⟩ r idle idle_stays sound loaded).mpr
      (.inl ⟨positive, image, free, room⟩)
    · obtain ⟨b, is⟩ := Option.ne_none_iff_exists.mp image
      rw [← is] at started
      exact ⟨b, c, ran, started⟩
    · -- with a positive return value nothing is reported
      have result := @xshRun_of_loaded oneCommand 2 0x20005f00 [0x61] (fun _ => some tinyProgram) 0
        ⟨[], [SLASH], fun _ => true⟩ r idle loaded
      rw [if_pos positive, ran] at result
      cases result
      exact absurd rfl failed.reported
  · obtain ⟨blocks, sound⟩ := fullTable_sound
    obtain ⟨r, loaded, code, image⟩ := elfExecve_missing pathA fullTable
    have negative : int32 r.code ≤ 0 := by
      rw [code]
      decide
    obtain ⟨c, ran, started | failed⟩ := (@xshRun_settled_iff fullTable [] blocks 2 0x20005f00 [0x61] (fun _ => none) 0
      ⟨[], [SLASH], fun _ => true⟩ r idle idle_stays sound loaded).mpr (.inr ⟨negative, image⟩)
    · obtain ⟨-, child, b, member, -⟩ := started
      rw [image] at member
      cases member
    · exact ⟨c, ran, failed⟩

end XinuStm32
