import XinuStm32.Kernel.Operations
import XinuStm32.Properties.LoaderHeap
import XinuStm32.Properties.MaskedCalls

/-!
# Masking in the calls of devices

A driver is entered with interrupts masked. Which drivers unmask them, and that the loader does: what a driver calls
opens and ends a section of its own, and the driver of the flash enables interrupts itself.
-/

namespace XinuStm32

variable {s s' : Kernel} {b b' : Board} {others : Meanwhile}

theorem onward_of_suffix (goesOn : s.cpu.accesses <:+ s'.cpu.accesses) : Onward s s' := by
  obtain ⟨trace, accesses⟩ := goesOn
  exact ⟨trace, accesses.symm⟩

/-- A loop whose body unmasks, when it is entered at all. -/
theorem foldl_unmasks {A T : Type} {f : T → A → T} (kernel : T → Kernel)
    (body : ∀ t a, Unmasks (kernel t) (kernel (f t a))) {items : List A} (entered : items ≠ []) (t : T) :
    Unmasks (kernel t) (kernel (items.foldl f t)) := by
  induction items generalizing t with
  | nil => exact absurd rfl entered
  | cons a items inductionHypothesis =>
    have first := body t a
    by_cases rest : items = []
    · rw [rest]
      exact first
    · exact first.then (inductionHypothesis rest (f t a)).onward

/-! ## Output of the kernel -/

theorem kputc_unmasks (c : UInt8) : Unmasks s (kputc c s) := by
  have path : Section s (kputc c s) := .leave _ (.of_cpu rfl)
  exact path.unmasks

theorem kprintf_unmasks {text : List UInt8} (printed : text ≠ []) : Unmasks s (kprintf text s) :=
  foldl_unmasks id (fun _ c => kputc_unmasks c) printed s

/-! ## The transmitter -/

namespace Terminal

variable {t : Terminal}

theorem onward_semcount : Onward t.kernel t.semcount.2.kernel := (section_semcount _).unmasks.onward

theorem onward_idle : Onward t.kernel t.idle.2.kernel := by
  simp only [idle]
  split
  · exact onward_semcount
  · exact .refl _

theorem onward_sendHead : Onward t.kernel t.sendHead.kernel := (kputc_unmasks _).onward

theorem onward_echoLoop (uspace : Nat) : Onward t.kernel (t.echoLoop uspace).2.kernel := by
  induction uspace generalizing t with
  | zero => exact .refl _
  | succ uspace inductionHypothesis =>
    simp only [echoLoop]
    split
    · apply onward_sendHead.trans
      split
      · exact @inductionHypothesis { t.sendHead with out := { t.sendHead.out with tyehead := 0 } }
      · exact inductionHypothesis
    · exact .refl _

theorem onward_outLoop (uspace : Nat) (avail : Int) (ochars : Int32) :
    Onward t.kernel (t.outLoop uspace avail ochars).2.kernel := by
  induction uspace generalizing t avail ochars with
  | zero => exact .refl _
  | succ uspace inductionHypothesis =>
    simp only [outLoop]
    split
    · apply onward_sendHead.trans
      split
      · exact @inductionHypothesis { t.sendHead with out := { t.sendHead.out with tyohead := 0 } } _ _
      · exact inductionHypothesis _ _
    · exact .refl _

theorem onward_ttyhandleOut : Onward t.kernel t.ttyhandleOut.kernel := by
  simp only [ttyhandleOut]
  split
  · exact .refl _
  split
  · exact onward_idle
  have looped := (onward_idle.trans (onward_echoLoop UART_FIFO_SIZE)).trans
    (onward_semcount (t := (t.idle.2.echoLoop UART_FIFO_SIZE).2))
  have sent := looped.trans (onward_outLoop (t.idle.2.echoLoop UART_FIFO_SIZE).1
    (TY_OBUFLEN.toInt - (t.idle.2.echoLoop UART_FIFO_SIZE).2.semcount.1) 0)
  split
  · exact (sent.trans (section_signaln _ _).unmasks.onward).trans onward_idle
  · exact sent.trans onward_idle

theorem onward_ttykickout : Onward t.kernel t.ttykickout.kernel := by
  simp only [ttykickout]
  have masked : Onward t.kernel (disable t.kernel).2 := onward_disable
  have handled := masked.trans (onward_ttyhandleOut (t := { t with kernel := (disable t.kernel).2 }))
  exact (handled.trans section_yield.unmasks.onward).trans unmasks_enable.onward

end Terminal

namespace Board

/-! ## The console -/

theorem onward_run (b : Board) : Onward b.kernel (others.run b).kernel := onward_of_suffix (others.goesOn b)

theorem waitFor_unmasks (sem : Int) : Unmasks b.kernel (b.waitFor others sem).kernel :=
  (section_wait sem).unmasks.then (onward_run _)

theorem ttygetc_unmasks : Unmasks b.kernel (b.ttygetc others).2.kernel := by
  have taken {s : Kernel} : Onward s (ttygetcTake s).2 := by
    apply onward_of_cpu
    simp only [ttygetcTake]
    split <;> rfl
  exact (waitFor_unmasks _).then taken

theorem onward_ttyreadLoop (plan : ReadPlan) (left : Nat) (buff : List UInt8) :
    Onward b.kernel (b.ttyreadLoop others plan left buff).2.kernel := by
  induction left generalizing buff b with
  | zero => exact .refl _
  | succ left inductionHypothesis =>
    have got := (ttygetc_unmasks : Unmasks b.kernel (b.ttygetc others).2.kernel).onward
    simp only [ttyreadLoop]
    split
    · exact got.trans (inductionHypothesis _)
    · exact got
    · exact got

theorem ttyreadLoop_unmasks (plan : ReadPlan) {left : Nat} (some : 0 < left) (buff : List UInt8) :
    Unmasks b.kernel (b.ttyreadLoop others plan left buff).2.kernel := by
  obtain ⟨left, rfl⟩ := Nat.exists_eq_add_one.mpr some
  have got : Unmasks b.kernel (b.ttygetc others).2.kernel := ttygetc_unmasks
  simp only [ttyreadLoop]
  split
  · exact got.then (onward_ttyreadLoop plan left _)
  · exact got
  · exact got

theorem ttyread_unmasks {count : Int32} (nonnegative : 0 ≤ count.toInt) :
    Unmasks b.kernel (b.ttyread others count).2.kernel := by
  simp only [ttyread, ttyreadPlan, if_neg (Int.not_lt.mpr nonnegative)]
  by_cases raw : b.kernel.tty.tyimode ≠ TY_IMCOOKED
  · rw [if_pos raw]
    by_cases all : count = 0
    · rw [if_pos all]
      exact (section_semcount _).unmasks.then (onward_ttyreadLoop _ _ _)
    · rw [if_neg all]
      apply ttyreadLoop_unmasks
      have nonzero : count.toInt ≠ 0 := fun zero => all (Int32.toInt_inj.mp zero)
      omega
  · rw [if_neg raw]
    apply ttyreadLoop_unmasks
    omega

theorem ttyread_inside {count : Int32} (negative : count.toInt < 0) :
    Inside b.kernel (b.ttyread others count).2.kernel := by
  simp only [ttyread, ttyreadPlan, if_pos negative]
  exact .refl _

theorem putByte_unmasks (ch : UInt8) : Unmasks b.kernel (b.putByte others ch).kernel := by
  have stored {t : Terminal} : Onward t.kernel (t.ttyputcStore ch).kernel := onward_of_cpu rfl
  exact (((waitFor_unmasks _).then stored).then Terminal.onward_ttykickout).then (onward_run _)

theorem ttyputc_unmasks (ch : UInt8) : Unmasks b.kernel (b.ttyputc others ch).2.kernel := by
  refine foldl_unmasks (fun b => b.kernel) (fun b ch => putByte_unmasks ch) ?_ b
  simp only [Terminal.ttyputcBytes]
  split <;> simp

theorem ttywrite_unmasks (buff : Nat → UInt8) {count : Int32} (positive : 0 < count.toInt) :
    Unmasks b.kernel (b.ttywrite others buff count).2.kernel := by
  simp only [ttywrite, if_neg (Int.not_lt.mpr positive.le), if_neg positive.ne']
  refine foldl_unmasks (fun b => b.kernel) (fun b ch => ttyputc_unmasks ch) ?_ b
  simp only [ne_eq, List.map_eq_nil_iff, List.range_eq_nil]
  omega

theorem ttywrite_inside (buff : Nat → UInt8) {count : Int32} (nonpositive : ¬ 0 < count.toInt) :
    Inside b.kernel (b.ttywrite others buff count).2.kernel := by
  simp only [ttywrite]
  split
  · exact .refl _
  · rw [if_pos (by omega)]
    exact .refl _

theorem ttyinit_unmasks : Unmasks b.kernel b.ttyinit.2.kernel :=
  ((section_semcreate 0).unmasks.then (section_semcreate TY_OBUFLEN).unmasks.onward).then (onward_of_cpu rfl)

/-! ## Names -/

theorem nameTurn_unmasks (t : Board × (Nat → UInt8)) (device : Dentry) :
    Unmasks t.1.kernel (nameTurn t device).1.kernel := by
  simp only [nameTurn, onKernel]
  generalize nameDevice device t.1.names t.2 = turn
  have line : nameLine turn.1.tmpstr device.dvnum ≠ [] := by simp [nameLine]
  exact ((kprintf_unmasks line).then onward_disable).then (unmasks_restore _).onward

theorem naminit_unmasks (tmpstr : Nat → UInt8) : Unmasks b.kernel (b.naminit tmpstr).2.kernel := by
  have some : devnames ≠ [] := by simp [devnames]
  simp only [naminit]
  generalize devnames = devices at some ⊢
  exact foldl_unmasks (fun t : Board × (Nat → UInt8) => t.1.kernel) nameTurn_unmasks some
    ({ b with names := { b.names with nnames := 0, ndevs := NDEVS } }, tmpstr)

/-! ## The flash -/

theorem irqs_unmasks : Unmasks b.kernel b.irqs.kernel := onward_disable.unmasks unmasks_enable

theorem onward_irqs (count : Nat) : Onward b.kernel (irqs^[count] b).kernel := by
  induction count generalizing b with
  | zero => exact .refl _
  | succ count inductionHypothesis => exact irqs_unmasks.onward.trans inductionHypothesis

theorem irqs_iterate_unmasks {count : Nat} (some : count ≠ 0) : Unmasks b.kernel (irqs^[count] b).kernel := by
  obtain ⟨count, rfl⟩ := Nat.exists_eq_succ_of_ne_zero some
  exact irqs_unmasks.then (onward_irqs count)

/-! ## The calls -/

/-- The board when a driver is entered. -/
def entered (b : Board) : Board := { b with kernel := (disable b.kernel).2 }

/-- A call is one section, or its driver unmasks. -/
theorem deviceCall_path {descrp : Int} {f : Device → Board → Option (Reply × Board)} {answer : Reply}
    {P : Device → Prop} (returns : deviceCall descrp f b = some (answer, b'))
    (unmasks : ∀ device answer c, P device → f device b.entered = some (answer, c) →
      Unmasks b.entered.kernel c.kernel)
    (inside : ∀ device answer c, ¬ P device → f device b.entered = some (answer, c) →
      Inside b.entered.kernel c.kernel) :
    (∃ device ∈ devtab descrp, P device) ∧ Broken b.kernel b'.kernel ∨
      ¬ (∃ device ∈ devtab descrp, P device) ∧ Section b.kernel b'.kernel := by
  simp only [deviceCall] at returns
  cases row : devtab descrp with
  | none =>
    rw [row] at returns
    cases returns
    exact Or.inr ⟨by simp, .refuse _⟩
  | some device =>
    rw [row] at returns
    obtain ⟨⟨_, c⟩, ran, same⟩ := Option.map_eq_some_iff.mp returns
    cases same
    simp only [Option.mem_some_iff, exists_eq_left']
    by_cases nests : P device
    · exact Or.inl ⟨nests, _, _, unmasks device _ c nests ran, rfl⟩
    · exact Or.inr ⟨nests, .leave _ (inside device _ c nests ran)⟩

/-- A call whose driver does nothing to the processor. -/
theorem deviceCall_section {descrp : Int} {f : Device → Board → Option (Reply × Board)} {answer : Reply}
    (returns : deviceCall descrp f b = some (answer, b'))
    (still : ∀ device answer c, f device b.entered = some (answer, c) → c.kernel = b.entered.kernel) :
    Section b.kernel b'.kernel := by
  have path := deviceCall_path (P := fun _ => False) returns (fun _ _ _ none => none.elim)
    fun device answer c _ ran => .of_cpu (by rw [still device answer c ran])
  cases path with
  | inl broken =>
    obtain ⟨⟨_, _, none⟩, -⟩ := broken
    exact none.elim
  | inr flat => exact flat.2

end Board

end XinuStm32
