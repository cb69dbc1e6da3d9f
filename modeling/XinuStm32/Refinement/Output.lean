import XinuStm32.Kernel.Output
import XinuStm32.Refinement.Line

/-!
# What a kick does to the output ring

The semaphore operations hand nothing to the transmitter. A kick of a ring that is neither held nor idle hands it the
byte at the head, with a FIFO of one byte.
-/

namespace XinuStm32

open Ring

variable {s : Kernel}

/-! ## What leaves the transmitter alone -/

@[simp] theorem output_enqueue (pid q : Int) : (enqueue pid q s).2.output = s.output := by
  simp only [enqueue]
  split <;> rfl

@[simp] theorem output_dequeue (q : Int) : (dequeue q s).2.output = s.output := by
  simp only [dequeue, getfirst]
  split
  · rfl
  · split <;> rfl

@[simp] theorem output_ready (pid : Int) : (ready pid s).2.output = s.output := by
  simp only [ready, insert]
  split
  · rfl
  · split <;> rfl

@[simp] theorem output_waitBlock (sem : Int) : (waitBlock sem s).output = s.output :=
  output_enqueue ..

@[simp] theorem output_wait (sem : Int) : (wait sem s).2.output = s.output := by
  simp only [wait]
  split
  · rfl
  · split
    · rfl
    · split
      · exact output_waitBlock _
      · rfl

@[simp] theorem output_signalOnce (sem : Int) : (signalOnce sem s).output = s.output := by
  simp only [signalOnce]
  split
  · rw [output_ready, output_dequeue]
    rfl
  · rfl

@[simp] theorem output_signalnLoop (sem : Int) (count : Nat) : (signalnLoop sem count s).output = s.output := by
  induction count generalizing s with
  | zero => rfl
  | succ count inductionHypothesis => rw [signalnLoop, inductionHypothesis, output_signalOnce]

@[simp] theorem output_reschedCntl (request : Deferral) : (reschedCntl request s).2.output = s.output := by
  cases request with
  | start => rfl
  | stop =>
    simp only [reschedCntl]
    split
    · rfl
    · split <;> rfl

@[simp] theorem output_signaln (sem : Int) (count : Int32) : (signaln sem count s).2.output = s.output := by
  simp only [signaln]
  split
  · rfl
  · split
    · rfl
    · change (reschedCntl .stop _).2.output = _
      rw [output_reschedCntl, output_signalnLoop, output_reschedCntl]
      rfl

@[simp] theorem output_semcount (sem : Int) : (semcount sem s).2.output = s.output := by
  simp only [semcount]
  split <;> rfl

namespace Terminal

variable {t : Terminal}

/-- The count of the output semaphore. -/
def count (t : Terminal) : Int := (t.kernel.semtab t.kernel.tty.tyosem).scount

/-- What `ttyinit` sets up and nothing changes: the output is not held, no echo is queued, and there is a
semaphore. -/
structure Ready (t : Terminal) : Prop where
  notHeld : t.kernel.tty.tyoheld = false
  noEcho : t.out.tyehead = t.out.tyetail
  valid : ¬ isbadsem t.kernel.tty.tyosem
  used : (t.kernel.semtab t.kernel.tty.tyosem).sstate ≠ .free
  machine : t.kernel.counting = int32

/-- Nothing but the semaphore's count changed. -/
structure Posts (change : Int) (t t' : Terminal) : Prop where
  out : t'.out = t.out
  output : t'.kernel.output = t.kernel.output
  counts : Counts t.kernel.tty.tyosem change t.kernel t'.kernel

theorem Ready.posts {change : Int} {t' : Terminal} (ready : t.Ready) (posts : Posts change t t') :
    t'.Ready ∧ t'.count = t.count + change := by
  have tty := posts.counts.tty
  have entry := posts.counts.entry
  refine ⟨⟨by rw [tty]; exact ready.notHeld, by rw [posts.out]; exact ready.noEcho, by rw [tty]; exact ready.valid,
    ?_, posts.counts.counting.trans ready.machine⟩, ?_⟩
  · rw [tty, entry]
    exact ready.used
  · rw [count, tty, entry]
    rfl

/-! ## `ttyhandle_out` -/

theorem semcount_posts (t : Terminal) : Posts 0 t t.semcount.2 :=
  ⟨rfl, output_semcount _, .none (.semcount _)⟩

theorem semcount_count (ready : t.Ready) : t.semcount.1 = t.count := semcount_value ready.valid ready.used

theorem idle_eq (ready : t.Ready) : t.idle = (decide (t.count ≥ TY_OBUFLEN.toInt), t.semcount.2) := by
  rw [idle, if_pos ready.noEcho, ← semcount_count ready]

/-- A ring that is not idle hands its first byte on and posts one slot. -/
structure Sends (t t' : Terminal) : Prop where
  out : t'.out = { t.out with tyohead := next 32 t.out.tyohead }
  output : t'.kernel.output = t.kernel.output ++ [t.out.tyobuff t.out.tyohead]
  counts : Counts t.kernel.tty.tyosem 1 t.kernel t'.kernel

theorem Sends.posts {t' t'' : Terminal} (sends : Sends t t') (posts : Posts 0 t' t'') : Sends t t'' where
  out := posts.out.trans sends.out
  output := posts.output.trans sends.output
  counts := by
    have both := sends.counts.trans (sends.counts.tty ▸ posts.counts)
    rwa [Int.add_zero] at both

theorem Posts.sends {t' t'' : Terminal} (posts : Posts 0 t t') (sends : Sends t' t'') : Sends t t'' where
  out := by rw [sends.out, posts.out]
  output := by rw [sends.output, posts.output, posts.out]
  counts := by
    have both := posts.counts.trans (posts.counts.tty ▸ sends.counts)
    rwa [Int.zero_add] at both

/-- One byte goes out, because there is room for one and the ring is not empty. -/
theorem outLoop_one {avail : Int} (some : 0 < avail) (t : Terminal) :
    (t.outLoop UART_FIFO_SIZE avail 0).1 = 1 ∧
      (t.outLoop UART_FIFO_SIZE avail 0).2 =
        ⟨t.sendHead.kernel, { t.out with tyohead := next 32 t.out.tyohead }⟩ := by
  have size : TY_OBUFLEN.toInt = 32 := by decide
  simp only [outLoop, if_pos some, size, next, sendHead]
  refine ⟨rfl, ?_⟩
  split <;> rfl

/-- The byte at the head goes to the transmitter and its slot to the semaphore. -/
theorem sendHead_posts (ready : t.Ready) (low : -2147483648 < t.count) (some : t.count < 32) :
    Sends t ⟨(signaln t.kernel.tty.tyosem 1 t.sendHead.kernel).2, { t.out with tyohead := next 32 t.out.tyohead }⟩ := by
  refine ⟨rfl, (output_signaln ..).trans rfl, ?_⟩
  have sent : SameConsole t.kernel t.sendHead.kernel := ⟨rfl, rfl, rfl⟩
  have posted : Counts t.kernel.tty.tyosem (1 : Nat) t.sendHead.kernel
      (signaln t.kernel.tty.tyosem 1 t.sendHead.kernel).2 := by
    apply signaln_counts (s := t.sendHead.kernel) ready.machine low ready.valid ready.used 1 (by decide)
    change t.count + ((1 : Nat) : Int) < 2147483648
    omega
  exact .before sent posted

theorem idle_posts (t : Terminal) : Posts 0 t t.idle.2 := by
  rw [idle]
  split
  · exact semcount_posts t
  · exact ⟨rfl, rfl, .none (.refl _)⟩

theorem ttyhandleOut_sends (ready : t.Ready) (low : -2147483648 < t.count) (some : t.count < 32) :
    Sends t t.ttyhandleOut := by
  have size : TY_OBUFLEN.toInt = 32 := by decide
  have first := semcount_posts t
  obtain ⟨ready₁, count₁⟩ := ready.posts first
  have second := semcount_posts t.semcount.2
  obtain ⟨ready₂, count₂⟩ := ready₁.posts second
  have value : t.semcount.2.semcount.1 = t.count := by
    rw [semcount_count ready₁, count₁, Int.add_zero]
  have counted : t.semcount.2.semcount.2.count = t.count := by
    rw [count₂, count₁, Int.add_zero, Int.add_zero]
  rw [ttyhandleOut, if_neg (by rw [ready.notHeld]; decide), idle_eq ready]
  simp only
  rw [if_neg (by rw [size]; simpa using some)]
  -- the echo queue is empty, so that the byte of space is left
  have echo : t.semcount.2.echoLoop UART_FIFO_SIZE = (UART_FIFO_SIZE, t.semcount.2) := by
    rw [UART_FIFO_SIZE, echoLoop, if_neg (not_not_intro ready₁.noEcho)]
  rw [echo]
  simp only
  rw [value, size]
  obtain ⟨ochars, sent⟩ := outLoop_one (show 0 < 32 - t.count by omega) t.semcount.2.semcount.2
  rw [ochars, sent, if_pos (by decide : (1 : Int32) > 0)]
  have sends := sendHead_posts ready₂ (by rw [counted]; exact low) (by rw [counted]; exact some)
  exact first.sends (second.sends (sends.posts (idle_posts _)))

/-! ## The parts of `ttyputc` -/

theorem ttykickout_sends (ready : t.Ready) (low : -2147483648 < t.count) (some : t.count < 32) :
    Sends t t.ttykickout := by
  have masked : Posts 0 t { t with kernel := (disable t.kernel).2 } := ⟨rfl, rfl, .none .disable⟩
  have sends : Sends { t with kernel := (disable t.kernel).2 } _ :=
    ttyhandleOut_sends ⟨ready.notHeld, ready.noEcho, ready.valid, ready.used, ready.machine⟩ low some
  have yielded (u : Terminal) : Posts 0 u ⟨enable (yield u.kernel).2, u.out⟩ :=
    ⟨rfl, rfl, .none ⟨rfl, rfl, rfl⟩⟩
  exact masked.sends (sends.posts (yielded _))

theorem ttyputcWait_posts (ready : t.Ready) (low : -2147483648 < t.count) (high : t.count < 2147483648) :
    Posts (-1) t t.ttyputcWait :=
  ⟨rfl, output_wait _, wait_counts ready.machine low ready.valid ready.used high⟩

theorem ttyputcStore_out (ch : UInt8) (t : Terminal) : (t.ttyputcStore ch).out = { t.out with
    tyobuff := Function.update t.out.tyobuff t.out.tyotail ch
    tyotail := next 32 t.out.tyotail } := by
  have size : TY_OBUFLEN.toInt = 32 := by decide
  simp only [ttyputcStore, size, next]
  split <;> rfl

/-! ## Initialization -/

/-- `ttyinit` that finds its second semaphore leaves an empty ring and all slots free. -/
theorem init_ready (machine : s.counting = int32) (low : 0 ≤ s.nextsem) (high : s.nextsem < NSEM)
    (created : (XinuStm32.semcreate TY_OBUFLEN (XinuStm32.semcreate 0 s).2).1 ≠ SYSERR) (tyobuff : Int → UInt8) :
    (init s tyobuff).Ready ∧ (init s tyobuff).count = 32 := by
  obtain ⟨first, low', high'⟩ := @semcreate_created s low high 0 (by decide)
  have counting : (XinuStm32.semcreate 0 s).2.counting = int32 := by
    cases first with
    | inl failed => exact failed.2.counting.trans machine
    | inr found =>
      obtain ⟨sem, -, -, -, same⟩ := found
      exact same.counting.trans machine
  obtain ⟨second, -⟩ := @semcreate_created _ low' high' TY_OBUFLEN (by decide)
  cases second with
  | inl failed => exact absurd failed.1 created
  | inr found =>
    obtain ⟨sem, returned, valid, -, same⟩ := found
    have osem : (init s tyobuff).kernel.tty.tyosem = sem := returned
    have entry : (init s tyobuff).kernel.semtab sem =
        { (XinuStm32.semcreate 0 s).2.semtab sem with sstate := .used, scount := TY_OBUFLEN.toInt } := by
      change (XinuStm32.semcreate TY_OBUFLEN (XinuStm32.semcreate 0 s).2).2.semtab sem = _
      rw [same.semtab]
      simp only [Kernel.setSem, Function.update_self]
    refine ⟨⟨rfl, rfl, ?_, ?_, same.counting.trans counting⟩, ?_⟩
    · rwa [osem]
    · rw [osem, entry]
      simp
    · rw [Terminal.count, osem, entry]
      change TY_OBUFLEN.toInt = 32
      decide

end Terminal

end XinuStm32
