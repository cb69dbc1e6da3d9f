import XinuStm32.Properties.MaskedLoader

/-!
# Sections in sections

The exact extent: which sequences of sections keep their masks, and which operations of the kernel stay masked from
their opening `disable` to their own last `restore`.
-/

namespace XinuStm32

/-! ## Sequences of sections -/

/-- A well-nested sequence of `disable` and `restore`. -/
inductive Sections where
  | done
  | pair (inside after : Sections)

namespace Sections

/-- Run a sequence; each `restore` is given the mask that its `disable` returned. -/
def exec : Sections → Kernel → Kernel
  | done, s => s
  | pair inside after, s =>
    let (mask, s) := disable s
    exec after (restore mask (exec inside s))

/-- Every `restore` of the sequence leaves interrupts masked exactly when they were masked at its `disable`. -/
def Restored : Sections → Kernel → Prop
  | done, _ => True
  | pair inside after, s =>
    let (mask, t) := disable s
    let u := restore mask (exec inside t)
    Restored inside t ∧ u.cpu.primask = s.cpu.primask ∧ Restored after u

/-- The same of every pair that is inside another. -/
def InnerRestored : Sections → Kernel → Prop
  | done, _ => True
  | pair inside after, s =>
    let (mask, t) := disable s
    Restored inside t ∧ InnerRestored after (restore mask (exec inside t))

/-- No pair is inside another. -/
def Flat : Sections → Prop
  | done => True
  | pair inside after => inside = done ∧ Flat after

/-- The first pair that is opened while interrupts are masked unmasks them. -/
theorem restored_masked {sections : Sections} {s : Kernel} (masked : s.cpu.primask = true) :
    Restored sections s ↔ sections = done := by
  cases sections with
  | done => simp [Restored]
  | pair inside after =>
    simp only [Restored, reduceCtorEq, iff_false]
    rintro ⟨-, same, -⟩
    rw [masked] at same
    cases same

theorem innerRestored_iff (sections : Sections) (s : Kernel) : InnerRestored sections s ↔ Flat sections := by
  induction sections generalizing s with
  | done => exact Iff.rfl
  | pair inside after _ inductionHypothesis =>
    have opened : (disable s).2.cpu.primask = true := rfl
    simp only [InnerRestored, Flat, restored_masked opened, inductionHypothesis]

end Sections

/-! ## The operations -/

/-- The operations that unmask inside their section: they open another, or use the driver of the flash. -/
def Nests (b : Board) : Operation → Prop
  | .call call => CallNests b.kernel call
  | .init descrp _ => devtab descrp = some .console ∨ devtab descrp = some .name ∨ devtab descrp = some .flash
  | .openDev descrp fuel name buffers =>
    devtab descrp = some .name ∧ (nammap fuel b.names name namespaceDev buffers).map Prod.fst ≠ some SYSERR
  | .getc descrp | .putc descrp _ => devtab descrp = some .console
  | .read descrp count => devtab descrp = some .console ∧ 0 ≤ count.toInt32.toInt
  | .write descrp _ count => devtab descrp = some .console ∧ 0 < count.toInt32.toInt
  | .control descrp func => devtab descrp = some .console ∧ (func = 3 ∨ func = 8)
  | .readSector descrp _ count | .writeSector descrp _ _ count => devtab descrp = some .flash ∧ count ≠ 0
  | .elfExecve .. => True
  | _ => False

section Paths

variable {b b' c : Board} {others : Surroundings} {descrp : Int} {answer : Reply} {device : Device}

/-- How an operation goes from its entry to its return. -/
def Path (nests : Prop) (s s' : Kernel) : Prop := nests ∧ Broken s s' ∨ ¬ nests ∧ (Section s s' ∨ Inside s s')

theorem Section.path {s s' : Kernel} (path : Section s s') : Path False s s' := Or.inr ⟨id, Or.inl path⟩

theorem snd_of_some {r : Reply × Board} (ran : some r = some (answer, c)) : c = r.2 := by
  cases ran
  rfl

open Board

/-- The path of a call whose driver unmasks in the rows that `P` says. -/
theorem device_path {f : Device → Board → Option (Reply × Board)} {P : Device → Prop} {nests : Prop}
    (returns : (deviceCall descrp f b).map Prod.snd = some b')
    (same : nests ↔ ∃ device ∈ devtab descrp, P device)
    (unmasks : ∀ device answer c, P device → f device b.entered = some (answer, c) →
      Unmasks b.entered.kernel c.kernel)
    (inside : ∀ device answer c, ¬ P device → f device b.entered = some (answer, c) →
      Inside b.entered.kernel c.kernel) : Path nests b.kernel b'.kernel := by
  obtain ⟨⟨answer, c⟩, ran, rfl⟩ := Option.map_eq_some_iff.mp returns
  rw [Path, same]
  cases deviceCall_path ran unmasks inside with
  | inl broken => exact Or.inl broken
  | inr flat => exact Or.inr ⟨flat.1, Or.inl flat.2⟩

/-- The path of a call whose drivers do nothing to the processor. -/
theorem still_path {f : Device → Board → Option (Reply × Board)}
    (returns : (deviceCall descrp f b).map Prod.snd = some b')
    (still : ∀ device answer c, f device b.entered = some (answer, c) → c.kernel = b.entered.kernel) :
    Path False b.kernel b'.kernel := by
  obtain ⟨⟨answer, c⟩, ran, rfl⟩ := Option.map_eq_some_iff.mp returns
  exact (deviceCall_section ran still).path

theorem init_path {tmpstr : Nat → UInt8} (returns : (b.init descrp tmpstr).map Prod.snd = some b') :
    Path (devtab descrp = some .console ∨ devtab descrp = some .name ∨ devtab descrp = some .flash)
      b.kernel b'.kernel := by
  apply device_path (P := fun device => device = .console ∨ device = .name ∨ device = .flash) returns
  · constructor
    · rintro (row | row | row)
      · exact ⟨_, row, Or.inl rfl⟩
      · exact ⟨_, row, Or.inr (Or.inl rfl)⟩
      · exact ⟨_, row, Or.inr (Or.inr rfl)⟩
    · rintro ⟨device, row, rfl | rfl | rfl⟩
      · exact Or.inl row
      · exact Or.inr (Or.inl row)
      · exact Or.inr (Or.inr row)
  · rintro device answer c (rfl | rfl | rfl) ran
    · rw [snd_of_some ran]
      exact ttyinit_unmasks
    · rw [snd_of_some ran]
      exact naminit_unmasks tmpstr
    · rw [snd_of_some ran]
      exact irqs_unmasks
  · intro device answer c other ran
    rw [snd_of_some ran]
    cases device with
    | console => exact absurd (Or.inl rfl) other
    | name => exact absurd (Or.inr (Or.inl rfl)) other
    | flash => exact absurd (Or.inr (Or.inr rfl)) other
    | nulldev => exact .refl _
    | led => exact .refl _

/-- The row of one device, and a condition on the arguments. -/
theorem row_iff (device : Device) (condition : Prop) :
    devtab descrp = some device ∧ condition ↔ ∃ found ∈ devtab descrp, found = device ∧ condition := by
  constructor
  · rintro ⟨row, holds⟩
    exact ⟨device, row, rfl, holds⟩
  · rintro ⟨found, row, rfl, holds⟩
    exact ⟨row, holds⟩

theorem openFound_unmasks {newdev : Int} (ran : b.openFound newdev = some (answer, c)) :
    Unmasks b.kernel c.kernel := by
  apply (deviceCall_section ran ?_).unmasks
  intro device answer c ran
  cases device with
  | name => cases ran
  | console => rw [snd_of_some ran]; rfl
  | nulldev => rw [snd_of_some ran]; rfl
  | led => rw [snd_of_some ran]; rfl
  | flash => rw [snd_of_some ran]; rfl

theorem openDev_path {fuel : Nat} {name : Nat → UInt8} {buffers : NameBuffers}
    (returns : (b.openDev descrp fuel name buffers).map Prod.snd = some b') :
    Path (devtab descrp = some .name ∧
      (nammap fuel b.names name namespaceDev buffers).map Prod.fst ≠ some SYSERR) b.kernel b'.kernel := by
  apply device_path returns (row_iff .name _)
  · rintro device answer c ⟨rfl, found⟩ ran
    simp only [namopen] at ran
    change (nammap fuel b.entered.names name namespaceDev buffers).map Prod.fst ≠ some SYSERR at found
    split at ran
    · cases ran
    · next newdev _ mapped =>
      rw [mapped] at found
      rw [if_neg fun same => found (congrArg some same)] at ran
      exact openFound_unmasks ran
  · intro device answer c other ran
    cases device with
    | name =>
      simp only [namopen] at ran
      split at ran
      · cases ran
      · next newdev _ mapped =>
        have none : newdev = SYSERR := by
          by_contra some
          apply other
          change _ ∧ (nammap fuel b.entered.names name namespaceDev buffers).map Prod.fst ≠ _
          rw [mapped]
          exact ⟨rfl, fun same => some (Option.some.inj same)⟩
        rw [if_pos none] at ran
        rw [snd_of_some ran]
        exact .refl _
    | console => rw [snd_of_some ran]; exact .refl _
    | nulldev => rw [snd_of_some ran]; exact .refl _
    | led => rw [snd_of_some ran]; exact .refl _
    | flash => rw [snd_of_some ran]; exact .refl _

/-- The path of a call that only the console answers with more than a status. -/
theorem console_path {f : Device → Board → Reply × Board} {condition : Prop}
    (returns : (deviceCall descrp (fun device b => some (f device b)) b).map Prod.snd = some b')
    (unmasks : condition → Unmasks b.entered.kernel (f .console b.entered).2.kernel)
    (inside : ¬ condition → Inside b.entered.kernel (f .console b.entered).2.kernel)
    (still : ∀ device, device ≠ .console → (f device b.entered).2.kernel = b.entered.kernel) :
    Path (devtab descrp = some .console ∧ condition) b.kernel b'.kernel := by
  apply device_path returns (row_iff .console _)
  · rintro device answer c ⟨rfl, holds⟩ ran
    rw [snd_of_some ran]
    exact unmasks holds
  · intro device answer c other ran
    rw [snd_of_some ran]
    by_cases console : device = .console
    · subst console
      exact inside fun holds => other ⟨rfl, holds⟩
    · exact .of_cpu (by rw [still device console])

theorem getc_path (returns : (b.getc others.toMeanwhile descrp).map Prod.snd = some b') :
    Path (devtab descrp = some .console) b.kernel b'.kernel := by
  rw [← and_true (devtab descrp = some .console)]
  apply console_path returns (fun _ => ttygetc_unmasks) (fun none => absurd trivial none)
  intro device other
  cases device with
  | console => exact absurd rfl other
  | _ => rfl

theorem putc_path {ch : UInt8} (returns : (b.putc others.toMeanwhile descrp ch).map Prod.snd = some b') :
    Path (devtab descrp = some .console) b.kernel b'.kernel := by
  rw [← and_true (devtab descrp = some .console)]
  apply console_path returns (fun _ => ttyputc_unmasks ch) (fun none => absurd trivial none)
  intro device other
  cases device with
  | console => exact absurd rfl other
  | _ => rfl

theorem read_path {count : UInt32} (returns : (b.read others.toMeanwhile descrp count).map Prod.snd = some b') :
    Path (devtab descrp = some .console ∧ 0 ≤ count.toInt32.toInt) b.kernel b'.kernel := by
  apply console_path returns ttyread_unmasks (fun negative => ttyread_inside (Int.not_le.mp negative))
  intro device other
  cases device with
  | console => exact absurd rfl other
  | _ => rfl

theorem write_path {buffer : Nat → UInt8} {count : UInt32}
    (returns : (b.write others.toMeanwhile descrp buffer count).map Prod.snd = some b') :
    Path (devtab descrp = some .console ∧ 0 < count.toInt32.toInt) b.kernel b'.kernel := by
  apply console_path returns (ttywrite_unmasks buffer) (ttywrite_inside buffer)
  intro device other
  cases device with
  | console => exact absurd rfl other
  | _ => rfl

/-- Two of the functions of `ttycontrol` call the kernel. -/
theorem ttycontrol_unmasks {func : Int} (calls : func = 3 ∨ func = 8) :
    Unmasks b.kernel (b.ttycontrol others.toMeanwhile func).2.kernel := by
  cases calls with
  | inl nextc =>
    subst nextc
    have looked := (section_signal (s := (b.waitFor others.toMeanwhile b.kernel.tty.tyisem).kernel)
      (b.waitFor others.toMeanwhile b.kernel.tty.tyisem).kernel.tty.tyisem).unmasks
    exact (waitFor_unmasks _).then looked.onward
  | inr ichars =>
    subst ichars
    exact (section_semcount _).unmasks

theorem ttycontrol_inside {func : Int} (none : ¬ (func = 3 ∨ func = 8)) :
    Inside b.kernel (b.ttycontrol others.toMeanwhile func).2.kernel := by
  rw [not_or] at none
  simp only [Board.ttycontrol, ttyRequest, if_neg none.1, if_neg none.2]
  split
  · exact .refl _
  · next request => grind
  · next request _ found =>
    apply Inside.of_cpu
    split_ifs at found
    all_goals
      cases found
      rfl

theorem control_path {func : Int} (returns : (b.control others.toMeanwhile descrp func).map Prod.snd = some b') :
    Path (devtab descrp = some .console ∧ (func = 3 ∨ func = 8)) b.kernel b'.kernel := by
  apply console_path returns ttycontrol_unmasks ttycontrol_inside
  intro device other
  cases device with
  | console => exact absurd rfl other
  | _ => rfl

theorem readSector_path {sector count : UInt32} (returns : (b.readSector descrp sector count).map Prod.snd = some b') :
    Path (devtab descrp = some .flash ∧ count ≠ 0) b.kernel b'.kernel := by
  apply device_path returns (row_iff .flash _)
  · rintro device answer c ⟨rfl, some⟩ ran
    rw [snd_of_some ran]
    exact irqs_iterate_unmasks fun none => some (UInt32.toNat_inj.mp none)
  · intro device answer c other ran
    cases device with
    | flash =>
      have none : count = 0 := by
        by_contra some
        exact other ⟨rfl, some⟩
      subst none
      rw [snd_of_some ran]
      exact .refl _
    | _ => cases ran

theorem writeSector_path {buffer : Nat → UInt8} {sector count : UInt32}
    (returns : (b.writeSector descrp buffer sector count).map Prod.snd = some b') :
    Path (devtab descrp = some .flash ∧ count ≠ 0) b.kernel b'.kernel := by
  apply device_path returns (row_iff .flash _)
  · rintro device answer c ⟨rfl, some⟩ ran
    obtain ⟨flash, -, same⟩ := Option.map_eq_some_iff.mp ran
    cases same
    exact irqs_iterate_unmasks fun none => some (UInt32.toNat_inj.mp none)
  · intro device answer c other ran
    cases device with
    | flash =>
      have none : count = 0 := by
        by_contra some
        exact other ⟨rfl, some⟩
      subst none
      obtain ⟨flash, -, same⟩ := Option.map_eq_some_iff.mp ran
      cases same
      exact .refl _
    | _ => cases ran

theorem section_addargs (pid ntok : Int) (tok : Nat) (tlen : Int) (tokbuf dummy : Nat) (s : Kernel) :
    Section s (addargs pid ntok tok tlen tokbuf dummy s).2.1 := by
  simp only [addargs]
  split
  · exact .refuse _
  · exact .leave _ (.of_cpu rfl)

theorem section_getdev (devname : Nat → UInt8) (s : Kernel) : Section s (getdev devname s).2 := by
  simp only [getdev]
  split <;> exact .refuse _

theorem section_mount (nprefixStr replace : Nat → UInt8) (device : Int) :
    Section b.kernel (b.mount nprefixStr replace device).2.kernel := .refuse _

theorem operate_path {operation : Operation} (returns : operate others operation b = some b') :
    Path (Nests b operation) b.kernel b'.kernel := by
  cases operation with
  | call call =>
    obtain ⟨⟨ret, s', pc⟩, ran, rfl⟩ := Option.map_eq_some_iff.mp returns
    exact execCall_path ran
  | getprio pid => cases returns; exact (section_getprio pid).path
  | unsleep pid => cases returns; exact (section_unsleep pid).path
  | getmem nbytes => cases returns; exact (section_getmem nbytes).path
  | getstk nbytes => cases returns; exact (section_getstk nbytes).path
  | freemem blkaddr nbytes => cases returns; exact (section_freemem blkaddr nbytes).path
  | kputc c =>
    cases returns
    apply Section.path
    exact .leave _ (.of_cpu rfl)
  | addargs pid ntok tok tlen tokbuf dummy =>
    cases returns
    exact (section_addargs pid ntok tok tlen tokbuf dummy b.kernel).path
  | mount nprefixStr replace device =>
    cases returns
    exact (section_mount nprefixStr replace device).path
  | getdev devname => cases returns; exact (section_getdev devname b.kernel).path
  | init descrp tmpstr => exact init_path returns
  | openDev descrp fuel name buffers => exact openDev_path returns
  | getc descrp => exact getc_path returns
  | putc descrp ch => exact putc_path returns
  | read descrp count => exact read_path returns
  | write descrp buffer count => exact write_path returns
  | control descrp func => exact control_path returns
  | readSector descrp sector count => exact readSector_path returns
  | writeSector descrp buffer sector count => exact writeSector_path returns
  | close descrp =>
    apply still_path returns
    intro device answer c ran
    rw [snd_of_some ran]
    cases device with
    | _ => rfl
  | seek descrp =>
    apply still_path returns
    intro device answer c ran
    rw [snd_of_some ran]
    rfl
  | set descrp ch =>
    apply still_path returns
    intro device answer c ran
    rw [snd_of_some ran]
    cases device with
    | _ => rfl
  | toggle descrp =>
    apply still_path returns
    intro device answer c ran
    rw [snd_of_some ran]
    cases device with
    | _ => rfl
  | elfExecve name file =>
    obtain ⟨r, ran, rfl⟩ := Option.map_eq_some_iff.mp returns
    cases run : Loader.elfExecve others.program name file b.kernel with
    | error stop =>
      rw [run] at ran
      cases ran
    | ok execve =>
      rw [run] at ran
      cases ran
      exact Or.inl ⟨trivial, Loader.elfExecve_broken run⟩

theorem Path.staysMasked_iff {nests : Prop} {s s' : Kernel} (path : Path nests s s') :
    (Opens s s' → StaysMasked s s') ↔ ¬ nests := by
  cases path with
  | inl path =>
    obtain ⟨nests, broken⟩ := path
    obtain ⟨opens, unmasked⟩ := broken.not_staysMasked
    exact iff_of_false (fun stays => unmasked (stays opens)) (not_not.mpr nests)
  | inr path =>
    obtain ⟨flat, path⟩ := path
    refine iff_of_true (fun opens => ?_) flat
    cases path with
    | inl masked => exact masked.staysMasked
    | inr inside => exact absurd opens inside.not_opens

end Paths

/-! ## The extent of nesting -/

/-- The masks of inner sections are restored exactly in sequences without inner sections. An operation of the kernel
that opens with `disable` stays masked to its last `restore` exactly if it is not one of those that unmask inside
their section, and the handler for a character that arrives never stays masked. -/
theorem masking_nests_iff (others : Surroundings) (b : Board) :
    (∀ sections, Sections.InnerRestored sections b.kernel ↔ Sections.Flat sections) ∧
      (∀ {operation b'}, operate others operation b = some b' →
        ((Opens b.kernel b'.kernel → StaysMasked b.kernel b'.kernel) ↔ ¬ Nests b operation)) ∧
      ∀ c, ¬ KeepsMask b.kernel (ttyhandleIn c b.kernel) :=
  ⟨fun sections => Sections.innerRestored_iff sections b.kernel, fun returns => (operate_path returns).staysMasked_iff,
    fun c => (ttyhandleIn_unmasks c).not_keepsMask⟩

/-- Nothing else runs. -/
def quiet : Surroundings where
  run := id
  goesOn := fun _ => List.suffix_refl _
  program := Loader.idle
  constructsOn := by
    intro image constructor s s' called
    cases called
    exact List.suffix_refl _

/-- A board before anything is started. -/
def unstarted : Board where
  kernel := Console.unopened
  out := ⟨0, 0, fun _ => 0, 0, 0, false⟩
  names := ⟨fun _ => ⟨fun _ => 0, fun _ => 0, 0⟩, 0, 0⟩
  flash := ⟨fun _ => 0, fun _ => 0⟩
  cardSize := 0
  odr := 0

/-- To read a count, to close the console and to write nothing to it each is one section. -/
theorem semcount_staysMasked :
    ∀ operation ∈ [.call (.semcount 0), .close 0, .write 0 (fun _ => 0) 0], ∃ b', operate quiet operation unstarted =
      some b' ∧ Opens unstarted.kernel b'.kernel ∧ StaysMasked unstarted.kernel b'.kernel := by
  have stays {operation : Operation} {b' : Board} (returns : operate quiet operation unstarted = some b')
      (flat : ¬ Nests unstarted operation) (opens : Opens unstarted.kernel b'.kernel) :
      ∃ b', operate quiet operation unstarted = some b' ∧ Opens unstarted.kernel b'.kernel ∧
        StaysMasked unstarted.kernel b'.kernel :=
    ⟨b', returns, opens, ((masking_nests_iff quiet unstarted).2.1 returns).mpr flat opens⟩
  intro operation member
  simp only [List.mem_cons, List.not_mem_nil, or_false] at member
  obtain rfl | rfl | rfl := member
  · exact stays rfl id ⟨[.restore], rfl⟩
  · exact stays rfl id ⟨[.restore], rfl⟩
  · exact stays rfl (fun nests => absurd nests.2 (by decide)) ⟨[.restore], rfl⟩

/-- A section in a section is left with interrupts enabled. So is `create` by `getstk`, and it fills the entry of the
new process that way. -/
theorem create_unmasked :
    ¬ Sections.InnerRestored (.pair (.pair .done .done) .done) Console.unopened ∧
      ∃ ret s' pc, execCall (.create 0x08017000 1024 20 [] []) Console.unopened = some (ret, s', pc) ∧
        Opens Console.unopened s' ∧ ¬ StaysMasked Console.unopened s' ∧ .update .proctab false ∈ s'.cpu.accesses := by
  refine ⟨?_, _, _, _, rfl, ?_⟩
  · simp [Sections.innerRestored_iff, Sections.Flat]
  · obtain ⟨opens, unmasked⟩ := (create_broken (s := Console.unopened) 0x08017000 1024 20 [] []).not_staysMasked
    exact ⟨opens, unmasked, by decide +kernel⟩

end XinuStm32
