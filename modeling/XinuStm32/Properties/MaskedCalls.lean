import XinuStm32.Kernel.Masking
import XinuStm32.Properties.InputRing

/-!
# Masking in the calls

`restore` unmasks interrupts whatever the mask it is given, so a section inside another ends both. Which kernel calls
stay masked from their opening `disable` to their own last `restore`, and that the handler for a character does not.
-/

namespace XinuStm32

/-! ## Paths through the kernel -/

/-- Interrupts are never unmasked, and every update of a table happens while they are masked. -/
def Unbroken (trace : List Access) : Prop :=
  (∀ access ∈ trace, access.unmasks = false) ∧ ∀ table masked, .update table masked ∈ trace → masked = true

/-- The path from `s` to `s'` opens with `disable`. -/
def Opens (s s' : Kernel) : Prop := ∃ trace, s'.cpu.accesses = trace ++ .disable :: s.cpu.accesses

/-- Interrupts stay masked from the opening `disable` to the last `restore` of the path. -/
def StaysMasked (s s' : Kernel) : Prop :=
  ∃ trace, s'.cpu.accesses = .restore :: (trace ++ .disable :: s.cpu.accesses) ∧ Unbroken trace

/-- The calls that open a section inside their own. -/
def CallNests (s : Kernel) : Call → Prop
  | .create .. => True
  | .kill p => ¬ (isbadpid p s.toSched ∨ p = NULLPROC)
  | .send p _ => ¬ isbadpid p s.toSched ∧ (s.proctab p).prhasmsg = false ∧ (s.proctab p).prstate = .rectim
  | _ => False

instance (s : Kernel) (call : Call) : Decidable (CallNests s call) := by
  cases call <;> unfold CallNests <;> infer_instance

/-- A path whose section is unmasked on the way. -/
def Broken (s s' : Kernel) : Prop := ∃ mask inner, Unmasks (disable s).2 inner ∧ s' = restore mask inner

variable {s s' : Kernel}

theorem Section.staysMasked (path : Section s s') : StaysMasked s s' := by
  obtain ⟨mask, inner, ⟨tables, cpu⟩, rfl⟩ := path
  refine ⟨tables.map (Access.update · true), ?_, ?_, ?_⟩
  · simp only [restore, cpu]
    rfl
  · simp [Access.unmasks]
  · intro table masked member
    simp only [List.mem_map, Access.update.injEq] at member
    obtain ⟨-, -, -, rfl⟩ := member
    rfl

/-- A path without `disable` does not open with one. -/
theorem Inside.not_opens (inside : Inside s s') : ¬ Opens s s' := by
  obtain ⟨tables, cpu⟩ := inside
  rintro ⟨trace, accesses⟩
  rw [cpu, List.append_cons] at accesses
  have same := List.append_cancel_right accesses
  have member : Access.disable ∈ tables.map (Access.update · s.cpu.primask) := by
    rw [same]
    simp
  simp at member

theorem Broken.not_staysMasked (path : Broken s s') : Opens s s' ∧ ¬ StaysMasked s s' := by
  obtain ⟨mask, inner, ⟨trace, accesses, access, member, opens⟩, rfl⟩ := path
  have whole : (restore mask inner).cpu.accesses = .restore :: (trace ++ .disable :: s.cpu.accesses) := by
    simp only [restore, accesses]
    rfl
  refine ⟨⟨.restore :: trace, whole⟩, ?_⟩
  rintro ⟨trace', same, unbroken, -⟩
  rw [whole, List.cons.injEq] at same
  rw [← List.append_cancel_right same.2] at unbroken
  cases opens.symm.trans (unbroken access member)

theorem Broken.unmasks (path : Broken s s') : Unmasks s s' := by
  obtain ⟨mask, inner, unmasks, rfl⟩ := path
  exact (onward_disable.unmasks unmasks).then (unmasks_restore mask).onward

/-! ## The calls with sections inside -/

/-- Without a receiver in `recvtime`, `send` is one section. -/
theorem send_section (p : Int) (msg : UInt32) (flat : ¬ CallNests s (.send p msg)) : Section s (send p msg s).2 := by
  simp only [CallNests, not_and] at flat
  simp only [send]
  split
  · exact .refuse _
  · next good =>
    split
    · exact .refuse _
    · next vacant =>
      have notTimed : (s.proctab p).prstate ≠ .rectim := flat good (Bool.not_eq_true _ ▸ vacant)
      have state : ((disable s).2.setProc p
          { (disable s).2.proctab p with prmsg := msg, prhasmsg := true }).proctab p =
            { s.proctab p with prmsg := msg, prhasmsg := true } := by
        simp only [Kernel.setProc, Function.update_self]
        rfl
      apply Section.leave
      split
      · exact (inside_setProc _ _).trans (inside_ready p)
      · rw [state, if_neg notTimed]
        exact inside_setProc _ _

/-- A receiver in `recvtime` is taken off the sleep queue by `unsleep`, which has a section of its own. -/
theorem send_broken (p : Int) (msg : UInt32) (nests : CallNests s (.send p msg)) : Broken s (send p msg s).2 := by
  obtain ⟨good, vacant, timed⟩ := nests
  have full : ¬ ((disable s).2.proctab p).prhasmsg = true := by
    intro full
    cases vacant.symm.trans full
  have state : ((disable s).2.setProc p
      { (disable s).2.proctab p with prmsg := msg, prhasmsg := true }).proctab p =
        { s.proctab p with prmsg := msg, prhasmsg := true } := by
    simp only [Kernel.setProc, Function.update_self]
    rfl
  simp only [send]
  rw [if_neg (show ¬ isbadpid p (disable s).2.toSched from good), if_neg full]
  refine ⟨_, _, ?_, rfl⟩
  simp only [state, timed, reduceCtorEq, if_false, if_true]
  exact ((inside_setProc _ _).onward.unmasks (section_unsleep p).unmasks).then (inside_ready p).onward

theorem send_unmasks (p : Int) (msg : UInt32) : Unmasks s (send p msg s).2 := by
  by_cases nests : CallNests s (.send p msg)
  · exact (send_broken p msg nests).unmasks
  · exact (send_section p msg nests).unmasks

/-- `create` gets the stack in a section of `getstk`. -/
theorem create_broken (procaddr ssize : UInt32) (priority : Int16) (name : List UInt8) (args : List UInt32) :
    Broken s (create procaddr ssize priority name args s).2 := by
  simp only [create]
  generalize roundew (if ssize.toNat < MINSTK then MINSTK else ssize.toNat) = size
  have got := (section_getstk (s := (disable s).2) size).unmasks
  split
  · exact ⟨_, _, got, rfl⟩
  · have searched := got.then (inside_newpidLoop NPROC.toNat).onward
    split
    · exact ⟨_, _, searched, rfl⟩
    · refine ⟨_, _, searched.then ?_, rfl⟩
      exact (Inside.trans (.of_cpu rfl) (inside_setProc _ _)).onward

theorem onward_freestk (p len : Nat) : Onward s (freestk p len s).2 := (section_freemem _ _).unmasks.onward

theorem onward_free (pmem : Nat) : Onward s (free pmem s) := by
  simp only [free]
  split
  · exact .refl s
  · exact (section_freemem _ _).unmasks.onward

theorem killRelease_unmasks (p : Int) : Unmasks s (killRelease p s) := by
  simp only [killRelease]
  have sent := send_unmasks (s := s) (s.proctab p).prparent (UInt32.ofNat p.toNat)
  have closed {t : Kernel} (descrp : Int) : Onward t (close descrp t).2 := (section_close descrp).unmasks.onward
  have image {t : Kernel} : Onward t (if (t.proctab p).elf = true then free (t.proctab p).img t else t) := by
    split
    · exact onward_free _
    · exact .refl t
  exact ((((sent.then (closed _)).then (closed _)).then (closed _)).then (onward_freestk _ _)).then image

theorem killState_onward (p : Int) : Onward s (killState p s) := by
  have unslept {t : Kernel} : Onward t (unsleep p t).2 := (section_unsleep p).unmasks.onward
  simp only [killState]
  split
  · exact ((((inside_setState p _).trans inside_pendSV).onward).trans unslept).trans (inside_setState p _).onward
  · exact unslept.trans (inside_setState p _).onward
  · exact unslept.trans (inside_setState p _).onward
  · exact (((inside_addCount _ 1).trans (inside_getitem p)).trans (inside_setState p _)).onward
  · exact ((inside_getitem p).trans (inside_setState p _)).onward
  · exact (inside_setState p _).onward

/-- A `kill` that is not refused sends to the parent, in a section of `send`. -/
theorem kill_section_or_broken (p : Int) {status : Int} (returns : kill p s = some (status, s')) :
    if CallNests s (.kill p) then Broken s s' else Section s s' := by
  have same : isbadpid p (disable s).2.toSched ∨ p = NULLPROC ∨ ((disable s).2.proctab p).prstate = .free ↔
      ¬ CallNests s (.kill p) := by
    simp only [CallNests, not_not]
    constructor
    · rintro (bad | null | free)
      · exact Or.inl bad
      · exact Or.inr null
      · exact Or.inl (Or.inr (Or.inr free))
    · rintro (bad | null)
      · exact Or.inl bad
      · exact Or.inr (Or.inl null)
  simp only [kill, same] at returns
  by_cases nests : CallNests s (.kill p)
  · rw [if_pos nests]
    rw [if_neg (not_not.mpr nests)] at returns
    split at returns
    · cases returns
    · obtain ⟨-, rfl⟩ := Prod.mk.inj (Option.some.inj returns)
      have counted : Inside (disable s).2 { (disable s).2 with prcount := (disable s).2.prcount - 1 } := .of_cpu rfl
      have released := counted.onward.unmasks (killRelease_unmasks p)
      exact ⟨_, _, released.then (killState_onward p), rfl⟩
  · rw [if_neg nests]
    rw [if_pos nests] at returns
    obtain ⟨-, rfl⟩ := Prod.mk.inj (Option.some.inj returns)
    exact .refuse _

/-- Every call is one section, or stays inside none, or opens a section inside its own. -/
theorem execCall_path {call : Call} {ret : Ret} {pc : Pc} (returns : execCall call s = some (ret, s', pc)) :
    CallNests s call ∧ Broken s s' ∨ ¬ CallNests s call ∧ (Section s s' ∨ Inside s s') := by
  cases call with
  | create procaddr ssize priority name args =>
    obtain ⟨-, rfl, -⟩ := returns
    exact Or.inl ⟨trivial, create_broken procaddr ssize priority name args⟩
  | kill p =>
    simp only [execCall, Option.bind_eq_some_iff, Option.some.injEq, Prod.mk.injEq] at returns
    obtain ⟨⟨status, kernel⟩, killed, -, rfl, -⟩ := returns
    have path := kill_section_or_broken p killed
    split at path
    · next nests => exact Or.inl ⟨nests, path⟩
    · next flat => exact Or.inr ⟨flat, Or.inl path⟩
  | send p msg =>
    obtain ⟨-, rfl, -⟩ := returns
    by_cases nests : CallNests s (.send p msg)
    · exact Or.inl ⟨nests, send_broken p msg nests⟩
    · exact Or.inr ⟨nests, Or.inl (send_section p msg nests)⟩
  | receive =>
    right
    refine ⟨id, Or.inr ?_⟩
    simp only [execCall] at returns
    split at returns
    all_goals
      simp only [Option.some.injEq, Prod.mk.injEq] at returns
      obtain ⟨-, rfl, -⟩ := returns
    · exact inside_receiveBlock
    · exact inside_receiveTake
  | resume p => obtain ⟨-, rfl, -⟩ := returns; exact Or.inr ⟨id, Or.inr (inside_resume p)⟩
  | suspend p => obtain ⟨-, rfl, -⟩ := returns; exact Or.inr ⟨id, Or.inl (section_suspend p)⟩
  | wait sem => obtain ⟨-, rfl, -⟩ := returns; exact Or.inr ⟨id, Or.inl (section_wait sem)⟩
  | signal sem => obtain ⟨-, rfl, -⟩ := returns; exact Or.inr ⟨id, Or.inl (section_signal sem)⟩
  | signaln sem count => obtain ⟨-, rfl, -⟩ := returns; exact Or.inr ⟨id, Or.inl (section_signaln sem count)⟩
  | semcreate count => obtain ⟨-, rfl, -⟩ := returns; exact Or.inr ⟨id, Or.inl (section_semcreate count)⟩
  | semreset sem count => obtain ⟨-, rfl, -⟩ := returns; exact Or.inr ⟨id, Or.inl (section_semreset sem count)⟩
  | semdelete sem => obtain ⟨-, rfl, -⟩ := returns; exact Or.inr ⟨id, Or.inl (section_semdelete sem)⟩
  | semcount sem => obtain ⟨-, rfl, -⟩ := returns; exact Or.inr ⟨id, Or.inl (section_semcount sem)⟩
  | sleepms delay => obtain ⟨-, rfl, -⟩ := returns; exact Or.inr ⟨id, section_sleepms delay⟩
  | yield => obtain ⟨-, rfl, -⟩ := returns; exact Or.inr ⟨id, Or.inl section_yield⟩
  | recvtime maxwait => obtain ⟨-, rfl, -⟩ := returns; exact Or.inr ⟨id, section_recvtime maxwait⟩
  | recvclr => obtain ⟨-, rfl, -⟩ := returns; exact Or.inr ⟨id, Or.inl section_recvclr⟩
  | chprio p newprio => obtain ⟨-, rfl, -⟩ := returns; exact Or.inr ⟨id, Or.inl (section_chprio p newprio)⟩

/-! ## A character that arrives -/

/-- A path that is entered with interrupts masked leaves them masked throughout. -/
def KeepsMask (s s' : Kernel) : Prop := ∃ trace, s'.cpu.accesses = trace ++ s.cpu.accesses ∧ Unbroken trace

theorem Unmasks.not_keepsMask (unmasks : Unmasks s s') : ¬ KeepsMask s s' := by
  obtain ⟨trace, accesses, access, member, opens⟩ := unmasks
  rintro ⟨trace', same, unbroken, -⟩
  rw [accesses] at same
  rw [← List.append_cancel_right same] at unbroken
  cases opens.symm.trans (unbroken access member)

theorem onward_of_cpu (same : s'.cpu = s.cpu) : Onward s s' := (Inside.of_cpu same).onward

theorem onward_eputc (c : UInt8) : Onward s (eputc c s) := by
  have path : Section s (eputc c s) := .leave _ (.of_cpu rfl)
  exact path.unmasks.onward

theorem onward_echoch (c : UInt8) : Onward s (echoch c s) := by
  simp only [echoch]
  split
  · exact (onward_eputc _).trans (onward_eputc _)
  · split
    · exact (onward_eputc _).trans (onward_eputc _)
    · exact onward_eputc _

theorem onward_eraseColumn : Onward s (eraseColumn s) := by
  simp only [eraseColumn]
  split
  · exact ((onward_eputc _).trans (onward_eputc _)).trans (onward_eputc _)
  · exact onward_eputc _

theorem onward_erase1 : Onward s (erase1 s) := by
  simp only [erase1]
  generalize (if s.tty.tyitail - 1 < 0 then s.tty.tyitail - 1 + TY_IBUFLEN
    else s.tty.tyitail - 1) = tail
  have moved : Onward s { s with tty := { s.tty with tyitail := tail } } := onward_of_cpu rfl
  split
  · split
    · refine moved.trans (.trans ?_ onward_eraseColumn)
      split
      · exact onward_eraseColumn
      · exact .refl _
    · exact moved.trans onward_eraseColumn
  · exact moved

theorem onward_echo (echo : Bool) (c : UInt8) : Onward s (if echo = true then echoch c s else s) := by
  split
  · exact onward_echoch c
  · exact .refl s

theorem onward_tty (tty : Ttycblk) : Onward s { s with tty := tty } := onward_of_cpu rfl

theorem onward_storeChar (c : UInt8) : Onward s (storeChar c s) := onward_tty _

theorem onward_wrapTail : Onward s (wrapTail s) := by
  simp only [wrapTail]
  split
  · exact onward_tty _
  · exact .refl s

theorem onward_signal (sem : Int) : Onward s (signal sem s).2 := (section_signal sem).unmasks.onward

theorem availChars_unmasks : Unmasks s (availChars s).2 := (section_semcount _).unmasks

theorem onward_ttyhandleInCooked (c : UInt8) : Onward s (ttyhandleInCooked c s) := by
  simp only [ttyhandleInCooked]
  split
  · exact ((onward_tty _).trans (onward_eputc _)).trans (onward_eputc _)
  split
  · split
    · exact (onward_tty _).trans onward_erase1
    · exact .refl s
  split
  · have stored : Onward s (wrapTail (storeChar c (if s.tty.tyiecho = true then echoch c s else s))) :=
      ((onward_echo s.tty.tyiecho c).trans (onward_storeChar c)).trans onward_wrapTail
    generalize wrapTail (storeChar c (if s.tty.tyiecho = true then echoch c s else s)) = stored'
      at stored ⊢
    exact (stored.trans (section_signaln _ _).unmasks.onward).trans (onward_tty _)
  have available := (availChars_unmasks (s := s)).onward
  generalize availChars s = counted at available ⊢
  split
  · exact available.trans (onward_eputc _)
  have echoed := available.trans (onward_echo counted.2.tty.tyiecho c)
  generalize (if counted.2.tty.tyiecho = true then echoch c counted.2 else counted.2) = echo
    at echoed ⊢
  split
  · split
    · exact echoed
    · exact (echoed.trans (onward_storeChar c)).trans (onward_signal _)
  · exact ((echoed.trans (onward_tty _)).trans (onward_storeChar c)).trans onward_wrapTail

/-- `ttyhandle_in`, which is meant to run with interrupts disabled, calls `semcount` first. -/
theorem ttyhandleIn_unmasks (c : UInt8) : Unmasks s (ttyhandleIn c s) := by
  have available := availChars_unmasks (s := s)
  simp only [ttyhandleIn]
  generalize availChars s = counted at available ⊢
  split
  · split
    · exact available
    · exact ((available.then (onward_storeChar c)).then onward_wrapTail).then (onward_signal _)
  generalize (if c = TY_RETURN ∧ counted.2.tty.tyicrlf = true then TY_NEWLINE else c) = ch
  have held : Unmasks s { counted.2 with tty := { counted.2.tty with tyoheld := false } } :=
    available.then (onward_tty _)
  split
  · split
    · exact held.then (onward_eputc _)
    · exact (((held.then (onward_storeChar ch)).then onward_wrapTail).then (onward_echo _ ch)).then (onward_signal _)
  · exact held.then (onward_ttyhandleInCooked ch)

end XinuStm32
