import XinuStm32.Kernel.ShellCommands
import XinuStm32.Properties.Consistency

/-!
# The process that `xsh_kill` kills

The number is computed in 32 bits, so that a long enough string of digits stands for another process than the one it
denotes.
-/

namespace XinuStm32

variable {arg : List UInt8} {s : Kernel}

/-- A string of decimal digits. -/
def Digits (arg : List UInt8) : Prop := ∀ ch ∈ arg, 0x30 ≤ ch ∧ ch ≤ 0x39

instance (arg : List UInt8) : Decidable (Digits arg) := inferInstanceAs (Decidable (∀ _ ∈ _, _))

/-- The number that it denotes. -/
def denoted (arg : List UInt8) : Nat := Nat.ofDigits 10 (arg.map fun ch => ch.toNat - 0x30).reverse

theorem denoted_cons (ch : UInt8) (rest : List UInt8) :
    denoted (ch :: rest) = (ch.toNat - 0x30) * 10 ^ rest.length + denoted rest := by
  rw [denoted, List.map_cons, List.reverse_cons, Nat.ofDigits_append, Nat.ofDigits_singleton, List.length_reverse,
    List.length_map, ← denoted]
  ring

/-- Each step of the loop is right modulo `2 ^ 32`, whatever was lost before. -/
theorem int32_step (value digit : Int) : int32 (10 * int32 value + digit) = int32 (10 * value + digit) := by
  have lost : value.bmod (2 ^ 32) = value - ((2 ^ 32 : Nat) : Int) * value.bdiv (2 ^ 32) :=
    Int.bmod_eq_self_sub_mul_bdiv value (2 ^ 32)
  rw [int32, int32, int32, lost]
  have moved : 10 * (value - ((2 ^ 32 : Nat) : Int) * value.bdiv (2 ^ 32)) + digit =
      10 * value + digit - ((2 ^ 32 : Nat) : Int) * (10 * value.bdiv (2 ^ 32)) := by ring
  rw [moved, Int.sub_mul_bmod_self_left]

theorem scanPid_digits (digits : Digits arg) (value : Int) :
    scanPid arg (int32 value) = some (int32 (value * 10 ^ arg.length + denoted arg)) := by
  induction arg generalizing value with
  | nil => simp [scanPid, denoted]
  | cons ch rest inductionHypothesis =>
    obtain ⟨digit, digits'⟩ := List.forall_mem_cons.mp digits
    have low : 0x30 ≤ ch.toNat := UInt8.le_iff_toNat_le.mp digit.1
    rw [scanPid, if_neg (by simpa using digit), int32_step, inductionHypothesis digits', denoted_cons, List.length_cons]
    congr 2
    push_cast [Nat.cast_sub low]
    ring

/-- The number is the one that is denoted when it is in range, and zero when its lowest 32 bits are. -/
theorem int32_natCast_eq_iff (value : Nat) : int32 value = value ↔ value < 2 ^ 31 := by
  rw [int32, Int.bmod_def]
  omega

theorem int32_natCast_eq_zero_iff (value : Nat) : int32 value = 0 ↔ 2 ^ 32 ∣ value := by
  rw [int32, Int.bmod_def]
  omega

/-- `xsh_kill` behind the loop over the digits. -/
def killNumber (pid : Int) (s : Kernel) : KillCommand :=
  if pid = 0 then ⟨[.nullProcess], [], some (1, s)⟩
  else
    match kill pid s with
    | none => ⟨[], [pid], none⟩
    | some (retval, s) =>
      if retval = SYSERR then ⟨[.cannotKill pid], [pid], some (1, s)⟩ else ⟨[], [pid], some (0, s)⟩

theorem xshKill_digits (name : List UInt8) (digits : Digits arg) (s : Kernel) :
    xshKill [name, arg] s = killNumber (int32 (denoted arg)) s := by
  have other : arg ≠ helpOption := by
    rintro rfl
    exact absurd digits (by decide)
  have start : int32 0 = 0 := by decide
  have scanned := scanPid_digits digits 0
  rw [start, Int.zero_mul, Int.zero_add] at scanned
  rw [xshKill, if_neg other, scanned]
  generalize int32 (denoted arg) = pid
  exact (killNumber.eq_def pid s).symm

/-- What `xsh_kill` promises: it kills only the process that is denoted, and no process where there is no such one. -/
def KillsDenoted (name arg : List UInt8) (s : Kernel) : Prop :=
  (∀ pid ∈ (xshKill [name, arg] s).calls, pid = denoted arg) ∧
    (isbadpid (denoted arg : Int) s.toSched ∨ denoted arg = 0 →
      ∃ status s', (xshKill [name, arg] s).result = some (status, s') ∧ ∀ p, s'.proctab p = s.proctab p)

theorem kill_refused {pid : Int} (bad : isbadpid pid s.toSched) :
    kill pid s = some (SYSERR, restore (disable s).1 (disable s).2) := by
  have bad' : isbadpid pid (disable s).2.toSched ∨ pid = NULLPROC ∨ ((disable s).2.proctab pid).prstate = .free :=
    Or.inl bad
  rw [kill]
  exact if_pos bad'

/-- `xsh_kill` does so exactly for a number that an `int32` holds, and for one whose lowest 32 bits are zero. -/
theorem kills_denoted_iff (name : List UInt8) (digits : Digits arg) (s : Kernel) :
    KillsDenoted name arg s ↔ denoted arg < 2 ^ 31 ∨ 2 ^ 32 ∣ denoted arg := by
  rw [KillsDenoted, xshKill_digits name digits s, killNumber, ← int32_natCast_eq_iff, ← int32_natCast_eq_zero_iff]
  generalize denoted arg = value
  by_cases zero : int32 value = 0
  · rw [if_pos zero]
    apply iff_of_true _ (Or.inr zero)
    exact ⟨by simp, fun _ => ⟨1, s, rfl, fun _ => rfl⟩⟩
  rw [if_neg zero]
  constructor
  · intro kills
    left
    apply kills.1
    split
    · simp
    · split <;> simp
  · intro range
    have same : int32 value = value := range.resolve_right zero
    rw [same]
    constructor
    · intro pid member
      split at member
      · simpa using member
      · split at member <;> simpa using member
    · intro invalid
      have bad : isbadpid (value : Int) s.toSched := by
        cases invalid with
        | inl bad => exact bad
        | inr null =>
          rw [null] at zero
          exact absurd (by decide) zero
      rw [kill_refused bad]
      exact ⟨1, _, rfl, fun _ => rfl⟩

/-- The kernel before start-up. -/
def smallKernel : Kernel := zeroed smallImage.toImage int32 fun _ => 0

/-- `"2"`, where there is such a process, and `"12"`, where there is none. -/
theorem kills_denoted_two :
    (xshKill [[], [0x32]] (smallKernel.setState 2 .susp)).calls = [2] ∧
      KillsDenoted [] [0x32] (smallKernel.setState 2 .susp) ∧ KillsDenoted [] [0x31, 0x32] smallKernel :=
  ⟨by decide +kernel, (kills_denoted_iff [] (by simp [Digits]) _).mpr (Or.inl (by decide)),
    (kills_denoted_iff [] (by simp [Digits]) smallKernel).mpr (Or.inl (by decide))⟩

/-- `"4294967299"`, which is `2 ^ 32 + 3`. -/
def longNumber : List UInt8 := [0x34, 0x32, 0x39, 0x34, 0x39, 0x36, 0x37, 0x32, 0x39, 0x39]

theorem kills_another : ¬∀ (name arg : List UInt8) (s : Kernel), Digits arg → KillsDenoted name arg s := by
  intro all
  have digits : Digits longNumber := by simp [Digits, longNumber]
  have three : int32 (denoted longNumber) = 3 := by decide
  have calls := (all [] longNumber smallKernel digits).1
  rw [xshKill_digits [] digits, three, killNumber] at calls
  have same : (3 : Int) = denoted longNumber := by
    apply calls
    rw [if_neg (by decide)]
    split
    · simp
    · split <;> simp
  exact absurd same (by decide)

end XinuStm32
