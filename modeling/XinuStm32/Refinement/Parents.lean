import XinuStm32.Refinement.Mailbox

/-!
# Parents

Who the parent of a process is, `create` writes down, and nothing changes it as long as the process lives.
-/

namespace XinuStm32

open View

/-- The slot of the process that `kill` tells. -/
def Kernel.parent (s : Kernel) (p : Int) : Int := (s.proctab p).prparent

/-- The parents after a step: those before it, and the caller for a process that it created. -/
def recordParent (post : Option Post) (caller : Int) (parents : Int → Int) : Int → Int :=
  match post with
  | some (.created p) => Function.update parents p caller
  | _ => parents

variable {s s' : Kernel}

theorem Frame.parent (frame : Frame s s') : s'.parent = s.parent := funext frame.prparent

theorem parent_setProc {p : Int} {entry : Procent} (same : entry.prparent = s.parent p) :
    (s.setProc p entry).parent = s.parent := by
  funext q
  simp only [Kernel.parent, Kernel.setProc, Function.update_apply]
  split
  · next here => rw [here]; exact same
  · rfl

theorem parent_send (p : Int) (msg : UInt32) : (send p msg s).2.parent = s.parent := by
  obtain ⟨-, -, frame⟩ | ⟨-, -, -, frame⟩ := send_cases (s := s) p msg
  · exact frame.parent
  · rw [frame.parent]
    exact parent_setProc (s := (disable s).2) rfl

theorem parent_kill (p : Int) {status : Int} (returns : kill p s = some (status, s')) : s'.parent = s.parent := by
  obtain ⟨-, frame⟩ | ⟨-, -, s₀, before, -, after⟩ := kill_cases p returns
  · exact frame.parent
  · rw [after.parent, parent_send, before.parent]

theorem parent_receiveTake (s : Kernel) : (receiveTake s).2.parent = s.parent := parent_setProc rfl

theorem parent_recvclr (s : Kernel) : (recvclr s).2.parent = s.parent := by
  simp only [recvclr]
  split
  · exact parent_receiveTake (disable s).2
  · rfl

theorem parent_recvtime (maxwait : Int32) (s : Kernel) : (recvtime maxwait s).2.parent = s.parent := by
  have blocked := (recvtimeBlock_frame (s := (disable s).2) maxwait).1.parent
  simp only [recvtime]
  split
  · rfl
  · split
    · exact blocked
    · rw [← show (disable s).2.parent = s.parent from rfl, ← blocked]
      simp only [recvtimeCheck]
      split
      · exact parent_receiveTake _
      · rfl

theorem currpid_newpidLoop (fuel : Nat) : (newpidLoop fuel s).2.currpid = s.currpid := by
  induction fuel generalizing s with
  | zero => rfl
  | succ fuel inductionHypothesis =>
    simp only [newpidLoop]
    split
    · rfl
    · exact inductionHypothesis

theorem currpid_getstk (nbytes : Nat) : (getstk nbytes s).2.currpid = s.currpid := by
  simp only [getstk]
  split <;> rfl

/-- `create` makes the caller the parent of the process it creates. -/
theorem parent_create (procaddr ssize : UInt32) (priority : Int16) (name : List UInt8) (args : List UInt32) :
    (create procaddr ssize priority name args s).2.parent =
      if (create procaddr ssize priority name args s).1 = SYSERR then s.parent
      else Function.update s.parent (create procaddr ssize priority name args s).1 s.currpid := by
  simp only [create]
  generalize roundew (if ssize.toNat < MINSTK then MINSTK else ssize.toNat) = size
  have got : (getstk size (disable s).2).2.parent = s.parent :=
    ((frame_disable (s := s)).trans (frame_getstk size)).parent
  have current : (getstk size (disable s).2).2.currpid = s.currpid := currpid_getstk size
  generalize (getstk size (disable s).2).1 = saddr, (getstk size (disable s).2).2 = t at got current ⊢
  split
  · exact got
  · have searched : (newpid t).2.parent = t.parent := (frame_newpidLoop _).parent
    have current' : (newpid t).2.currpid = t.currpid := currpid_newpidLoop _
    split
    · rw [if_pos rfl]
      exact searched.trans got
    · next found =>
      rw [not_or] at found
      rw [if_neg found.1, ← got, ← searched, ← current, ← current']
      funext q
      simp only [Kernel.parent, fillEntry, restore, Kernel.setProc, Kernel.touch, Function.update_apply, getpid]
      split <;> rfl

section Steps

variable {s s' : System} {a : View} {ret : Ret}

theorem Good.call_parents (good : Good s a) {call : Call} {kernel : Kernel} {pc : Pc}
    (returns : execCall call s.kernel = some (ret, kernel, pc)) :
    kernel.parent = recordParent (s.post (.call call) ret) s.kernel.currpid s.kernel.parent := by
  cases messaging : call.messaging with
  | false =>
    have same := (frame_execCall good.shallow messaging returns).parent
    cases call with
    | create | kill | receive | recvtime | recvclr | send => cases messaging
    | _ => exact same
  | true =>
    cases call with
    | create procaddr ssize priority name args =>
      obtain ⟨rfl, rfl, -⟩ := returns
      rw [parent_create]
      simp only [System.post]
      by_cases failed : (create procaddr ssize priority name args s.kernel).1 = SYSERR
      · rw [if_pos failed, if_neg (not_not_intro failed)]
        rfl
      · rw [if_neg failed, if_pos failed]
        rfl
    | kill p =>
      simp only [execCall, Option.bind_eq_some_iff, Option.some.injEq, Prod.mk.injEq] at returns
      obtain ⟨⟨status, kernel'⟩, killed, rfl, rfl, -⟩ := returns
      rw [parent_kill p killed]
      simp only [System.post]
      split <;> rfl
    | receive =>
      simp only [execCall] at returns
      split at returns
      · obtain ⟨rfl, rfl, -⟩ := returns
        exact parent_setProc rfl
      · obtain ⟨rfl, rfl, -⟩ := returns
        exact parent_receiveTake _
    | recvtime maxwait =>
      obtain ⟨rfl, rfl, -⟩ := returns
      rw [parent_recvtime]
      simp only [System.post]
      split <;> rfl
    | recvclr =>
      obtain ⟨rfl, rfl, -⟩ := returns
      rw [parent_recvclr]
      simp only [System.post]
      split <;> rfl
    | send p msg =>
      obtain ⟨rfl, rfl, -⟩ := returns
      rw [parent_send]
      simp only [System.post]
      split <;> rfl
    | _ => cases messaging

/-- Every step does to the parents what its result says. -/
theorem Good.step_parents (good : Good s a) {label : Label} (h : s.step label = some (ret, s')) :
    s'.kernel.parent = recordParent (s.post label ret) s.kernel.currpid s.kernel.parent := by
  rcases System.step_cases h with ⟨call, pc, rfl, -, -, -, returns, -⟩ |
    ⟨rfl, -, -, rfl, kernel, -⟩ | ⟨rx, rfl, rfl, kernel, -⟩ | ⟨psp, rfl, -, rfl, kernel, -⟩
  · exact good.call_parents returns
  · rw [kernel]
    exact parent_receiveTake _
  · rw [kernel]
    exact (frame_tim2Handler rx good.shallow).parent
  · rw [kernel]
    exact (frame_pendSVHandler psp).parent

end Steps

end XinuStm32
