import XinuStm32.Refinement.Msc
import XinuStm32.Lib.Transition

/-!
# The data phase of a mass-storage command

A command that is not READ(10) or WRITE(10) is answered with data that is sent from `bot_data`, or with the status at
once. What follows a wrapper, up to the next one, is given by the stages of its data phase.
-/

namespace XinuStm32.Msc

open Transition

/-! ## What is asked of a command -/

def Output.size : Output → Nat
  | .sent bytes => bytes.length
  | _ => 0

/-- The number of data bytes sent. -/
def sentBytes (log : List Output) : Nat := (log.map Output.size).sum

/-- What the driver does between a wrapper and the next one: no more bytes than the host expects, the right residue in
the status, and no empty data phase. -/
structure DataPhaseOk (length : UInt32) (log : List Output) : Prop where
  bounded : sentBytes log ≤ length.toNat
  residue : ∀ front csw back, log = front ++ .status csw :: back →
    (csw.dDataResidue.toNat : Int) = length.toNat - sentBytes front
  entered : ∀ fpos, .dataPhase fpos ∈ log → 0 < fpos.toNat

/-- When the host takes what is left, the status comes. -/
def StatusFollows (s : Device) : Prop :=
  ∃ count s' more csw, exec step (List.replicate count (.tx (some MSC_DATA_SZ))) s = some s' ∧
    s'.log = s.log ++ more ∧ .status csw ∈ more

/-- Whatever happens behind the wrapper, its data phase is as it should be. -/
def Serves (bytes : List UInt8) (s : Device) : Prop :=
  ∀ reply events s' log, exec step (.rx (some bytes) reply :: events) s = some s' →
    s'.log = s.log ++ .command (wrapper bytes) :: log → (∀ cbw, .command cbw ∉ log) →
      DataPhaseOk (wrapper bytes).dDataTransferLength log ∧ (s'.bot.state = .data → StatusFollows s')

/-- The answer is not empty and not longer than the host expects; without an answer, the host expects none. -/
structure Fitting (cbw : Cbw) : Prop where
  answered : ∀ count, answerLength cbw = some count → 0 < count ∧ count ≤ cbw.dDataTransferLength.toNat
  unanswered : answerLength cbw = none → cbw.dDataTransferLength = 0

/-! ## Stages -/

def Sends (log : List Output) : Prop := ∀ output ∈ log, ∃ bytes, output = .sent bytes

def Stalls (log : List Output) : Prop := ∀ output ∈ log, output = .stalled

/-- Where the driver is behind a command, with the log since then. -/
inductive Stage (total : Nat) (residue : UInt32) (log : List Output) (bot : Bot) : Prop where
  | sending (state : bot.state = .data) (left : bot.fpos ≠ 0) (sum : sentBytes log + bot.fpos.toNat = total)
      (csw : bot.csw.dDataResidue = residue) (sends : Sends log)
  | sent (state : bot.state = .csw) (sum : sentBytes log = total) (csw : bot.csw.dDataResidue = residue)
      (sends : Sends log)
  | reported (state : bot.state = .idle) {front back : List Output} {csw : Csw}
      (shape : log = front ++ .status csw :: back) (sum : sentBytes front = total) (same : csw.dDataResidue = residue)
      (sends : Sends front) (stalls : Stalls back)
  | broken (state : bot.state = .idle) {front back : List Output} (shape : log = front ++ back)
      (sum : sentBytes front ≤ total) (sends : Sends front) (stalls : Stalls back)

theorem sentBytes_append (first second : List Output) :
    sentBytes (first ++ second) = sentBytes first + sentBytes second := by
  rw [sentBytes, List.map_append, List.sum_append]
  rfl

theorem sentBytes_stalls {log : List Output} (stalls : Stalls log) : sentBytes log = 0 := by
  induction log with
  | nil => rfl
  | cons output log inductionHypothesis =>
    have rest := inductionHypothesis fun other member => stalls other (List.mem_cons_of_mem _ member)
    have first := stalls output List.mem_cons_self
    rw [sentBytes, List.map_cons, List.sum_cons, first]
    exact (Nat.zero_add _).trans rest

theorem Sends.snoc {log : List Output} (sends : Sends log) (bytes : List UInt8) : Sends (log ++ [.sent bytes]) := by
  intro output member
  cases List.mem_append.mp member with
  | inl earlier => exact sends output earlier
  | inr last => exact ⟨bytes, List.mem_singleton.mp last⟩

theorem Stalls.snoc {log : List Output} (stalls : Stalls log) : Stalls (log ++ [.stalled]) := by
  intro output member
  cases List.mem_append.mp member with
  | inl earlier => exact stalls output earlier
  | inr last => exact List.mem_singleton.mp last

theorem Sends.not_status {log : List Output} (sends : Sends log) (csw : Csw) : .status csw ∉ log := by
  intro member
  obtain ⟨bytes, same⟩ := sends _ member
  cases same

theorem Stalls.not_status {log : List Output} (stalls : Stalls log) (csw : Csw) : .status csw ∉ log := by
  intro member
  cases stalls _ member

/-- What the stages have in common. -/
structure Phase (total : Nat) (residue : UInt32) (log : List Output) : Prop where
  bounded : sentBytes log ≤ total
  residue : ∀ front csw back, log = front ++ .status csw :: back → csw.dDataResidue = residue ∧ sentBytes front = total
  entered : ∀ fpos, .dataPhase fpos ∉ log

/-- The status is where it is the only one. -/
theorem status_unique {front back front' back' : List Output} {csw csw' : Csw} (sends : Sends front)
    (stalls : Stalls back)
    (same : front ++ .status csw :: back = front' ++ .status csw' :: back') : front' = front ∧ csw' = csw := by
  cases List.append_eq_append_iff.mp same with
  | inl later =>
    obtain ⟨between, longer, rest⟩ := later
    cases between with
    | nil =>
      rw [List.nil_append] at rest
      rw [List.append_nil] at longer
      exact ⟨longer, (Output.status.inj (List.cons.inj rest).1).symm⟩
    | cons output between =>
      have member : .status csw' ∈ back := by
        rw [(List.cons.inj rest).2]
        exact List.mem_append_right _ List.mem_cons_self
      exact absurd member (stalls.not_status csw')
  | inr earlier =>
    obtain ⟨between, shorter, rest⟩ := earlier
    cases between with
    | nil =>
      rw [List.nil_append] at rest
      rw [List.append_nil] at shorter
      exact ⟨shorter.symm, Output.status.inj (List.cons.inj rest).1⟩
    | cons output between =>
      have member : .status csw' ∈ front := by
        rw [shorter, (List.cons.inj rest).1]
        exact List.mem_append_right _ List.mem_cons_self
      exact absurd member (sends.not_status csw')

theorem Sends.not_dataPhase {log : List Output} (sends : Sends log) (fpos : UInt32) : .dataPhase fpos ∉ log := by
  intro member
  obtain ⟨bytes, same⟩ := sends _ member
  cases same

theorem Stalls.not_dataPhase {log : List Output} (stalls : Stalls log) (fpos : UInt32) : .dataPhase fpos ∉ log := by
  intro member
  cases stalls _ member

theorem Phase.of_sends {total : Nat} {residue : UInt32} {log : List Output} (sends : Sends log)
    (bounded : sentBytes log ≤ total) : Phase total residue log := by
  constructor
  · exact bounded
  · intro front csw back shape
    have member : .status csw ∈ log := by
      rw [shape]
      exact List.mem_append_right _ List.mem_cons_self
    exact absurd member (sends.not_status csw)
  · exact sends.not_dataPhase

theorem Stage.phase {total : Nat} {residue : UInt32} {log : List Output} {bot : Bot}
    (stage : Stage total residue log bot) : Phase total residue log := by
  cases stage with
  | sending _ _ sum _ sends => exact .of_sends sends (by omega)
  | sent _ sum _ sends => exact .of_sends sends (Nat.le_of_eq sum)
  | @reported _ front back csw shape sum same sends stalls =>
    constructor
    · have nothing : sentBytes (.status csw :: back) = 0 := (Nat.zero_add _).trans (sentBytes_stalls stalls)
      rw [shape, sentBytes_append, nothing, sum]
      exact Nat.le_refl total
    · intro front' csw' back' shape'
      obtain ⟨rfl, rfl⟩ := status_unique sends stalls (shape.symm.trans shape')
      exact ⟨same, sum⟩
    · intro fpos member
      rw [shape] at member
      cases List.mem_append.mp member with
      | inl earlier => exact sends.not_dataPhase fpos earlier
      | inr later =>
        cases List.mem_cons.mp later with
        | inl same => cases same
        | inr behind => exact stalls.not_dataPhase fpos behind
  | @broken _ front back shape sum sends stalls =>
    constructor
    · rw [shape, sentBytes_append, sentBytes_stalls stalls]
      exact sum
    · intro front' csw back' shape'
      have member : .status csw ∈ front ++ back := by
        rw [← shape, shape']
        exact List.mem_append_right _ List.mem_cons_self
      cases List.mem_append.mp member with
      | inl earlier => exact absurd earlier (sends.not_status csw)
      | inr later => exact absurd later (stalls.not_status csw)
    · intro fpos member
      rw [shape] at member
      cases List.mem_append.mp member with
      | inl earlier => exact sends.not_dataPhase fpos earlier
      | inr later => exact stalls.not_dataPhase fpos later

/-! ## The steps -/

/-- The log since a command, and the stage it has come to unless there is another command. -/
def InPhase (base : List Output) (total : Nat) (residue : UInt32) (s : Device) : Prop :=
  ∃ log, s.log = base ++ log ∧ ((∀ cbw, .command cbw ∉ log) → Stage total residue log s.bot)

/-- An idle driver stalls the endpoint or takes the next command. -/
theorem rxIdle_cases (packet : Option (List UInt8)) (reply : Reply) (s : Device) :
    ((rxIdle packet reply s).log = s.log ++ [.stalled] ∧ (rxIdle packet reply s).bot.state = s.bot.state) ∨
      ∃ cbw, s.log ++ [.command cbw] <+: (rxIdle packet reply s).log := by
  rw [rxIdle]
  dsimp only
  split
  · exact Or.inl ⟨rfl, rfl⟩
  · rw [accept]
    split
    · exact Or.inr ⟨_, lasts_dispatch (lasts_log _) reply List.prefix_rfl⟩
    · exact Or.inl ⟨rfl, rfl⟩

/-- One call of `bot_tx`. -/
theorem Stage.tx {total : Nat} {residue : UInt32} {log base : List Output} {s : Device} (reply : Reply)
    (same : s.log = base ++ log) (stage : Stage total residue log s.bot) :
    ∃ log', (botTx reply s).log = base ++ log' ∧ Stage total residue log' (botTx reply s).bot := by
  cases stage with
  | sending state left sum csw sends =>
    have result : botTx reply s = endData (transmit reply s).1 (transmit reply s).2 := by
      rw [botTx, state]
    rw [result, endData]
    cases transmit_cases reply s with
    | inl none =>
      rw [none.2, if_neg fun both => absurd both.1 (Int.not_lt.mpr none.1)]
      exact ⟨log, same, .sending state left sum csw sends⟩
    | inr some =>
      obtain ⟨bytes, buff, fpos, positive, _, content, sent⟩ := some
      have count := sent_length content
      have total' : sentBytes (log ++ [.sent bytes]) = sentBytes log + bytes.length := sentBytes_append _ _
      rw [sent]
      by_cases all : fpos = 0
      · rw [if_pos ⟨positive, all⟩]
        refine ⟨log ++ [.sent bytes], ?_, .sent rfl ?_ csw (sends.snoc bytes)⟩
        · change s.log ++ _ = _
          rw [same, List.append_assoc]
        · have zero : fpos.toNat = 0 := congrArg UInt32.toNat all
          omega
      · rw [if_neg fun both => all both.2]
        refine ⟨log ++ [.sent bytes], ?_, .sending state all ?_ csw (sends.snoc bytes)⟩
        · change s.log ++ _ = _
          rw [same, List.append_assoc]
        · change sentBytes (log ++ [.sent bytes]) + fpos.toNat = total
          omega
  | sent state sum csw sends =>
    have result : botTx reply s = { s.emit (.status s.bot.csw) with bot := { s.bot with state := .idle } } := by
      rw [botTx, state]
    rw [result]
    refine ⟨log ++ [.status s.bot.csw], ?_, .reported rfl rfl sum csw sends ?_⟩
    · change s.log ++ _ = _
      rw [same, List.append_assoc]
    · intro output member
      cases member
  | reported state shape sum same' sends stalls =>
    have result : botTx reply s = s := by
      rw [botTx, state]
    rw [result]
    exact ⟨log, same, .reported state shape sum same' sends stalls⟩
  | broken state shape sum sends stalls =>
    have result : botTx reply s = s := by
      rw [botTx, state]
    rw [result]
    exact ⟨log, same, .broken state shape sum sends stalls⟩

/-- A refused packet. -/
theorem Stage.stall {total : Nat} {residue : UInt32} {log : List Output} {bot bot' : Bot}
    (stage : Stage total residue log bot) (state : bot.state = .idle) (state' : bot'.state = .idle) :
    Stage total residue (log ++ [.stalled]) bot' := by
  cases stage with
  | sending other => rw [state] at other; cases other
  | sent other => rw [state] at other; cases other
  | @reported _ front back csw shape sum same sends stalls =>
    have longer : log ++ [.stalled] = front ++ .status csw :: (back ++ [.stalled]) := by
      rw [shape, List.append_assoc, List.cons_append]
    exact .reported state' longer sum same sends stalls.snoc
  | @broken _ front back shape sum sends stalls =>
    have longer : log ++ [.stalled] = front ++ (back ++ [.stalled]) := by
      rw [shape, List.append_assoc]
    exact .broken state' longer sum sends stalls.snoc

/-- The reset ends the phase. -/
theorem Stage.reset {total : Nat} {residue : UInt32} {log : List Output} {bot bot' : Bot}
    (stage : Stage total residue log bot) (state' : bot'.state = .idle) : Stage total residue log bot' := by
  have nothing : Stalls [] := fun output member => absurd member List.not_mem_nil
  cases stage with
  | sending _ _ sum _ sends => exact .broken state' (List.append_nil log).symm (by omega) sends nothing
  | sent _ sum _ sends => exact .broken state' (List.append_nil log).symm (Nat.le_of_eq sum) sends nothing
  | reported _ shape sum same sends stalls => exact .reported state' shape sum same sends stalls
  | broken _ shape sum sends stalls => exact .broken state' shape sum sends stalls

/-- A packet: only an idle driver looks at it. -/
theorem Stage.rx {total : Nat} {residue : UInt32} {log base : List Output} {s s' : Device}
    {packet : Option (List UInt8)} {reply : Reply} (returns : botRx packet reply s = some s')
    (same : s.log = base ++ log) (stage : Stage total residue log s.bot) :
    ∃ log', s'.log = base ++ log' ∧ ((∀ cbw, .command cbw ∉ log') → Stage total residue log' s'.bot) := by
  have idle : s.bot.state = .idle → ∃ log', s'.log = base ++ log' ∧
      ((∀ cbw, .command cbw ∉ log') → Stage total residue log' s'.bot) := by
    intro state
    rw [botRx, state] at returns
    rw [← Option.some.inj returns]
    cases rxIdle_cases packet reply s with
    | inl refused =>
      refine ⟨log ++ [.stalled], ?_, fun _ => stage.stall state (refused.2.trans state)⟩
      rw [refused.1, same, List.append_assoc]
    | inr accepted =>
      obtain ⟨cbw, more, grown⟩ := accepted
      refine ⟨log ++ [.command cbw] ++ more, ?_, ?_⟩
      · rw [← grown, same]
        simp only [List.append_assoc]
      · intro none
        exact absurd (List.mem_append_left more (List.mem_append_right log List.mem_cons_self)) (none cbw)
  cases stage with
  | sending state left sum csw sends =>
    rw [botRx, state] at returns
    rw [← Option.some.inj returns]
    exact ⟨log, same, fun _ => .sending state left sum csw sends⟩
  | sent state sum csw sends =>
    rw [botRx, state] at returns
    rw [← Option.some.inj returns]
    exact ⟨log, same, fun _ => .sent state sum csw sends⟩
  | reported state => exact idle state
  | broken state => exact idle state

/-- Every step keeps to the stages. -/
theorem InPhase.step {base : List Output} {total : Nat} {residue : UInt32} {event : Event} {s s' : Device}
    (taken : step event s = some s') (phase : InPhase base total residue s) : InPhase base total residue s' := by
  obtain ⟨log, same, stage⟩ := phase
  by_cases command : ∃ cbw, .command cbw ∈ log
  · -- The next command has come: the log only grows.
    obtain ⟨cbw, member⟩ := command
    obtain ⟨more, grown⟩ := grows_step taken
    refine ⟨log ++ more, ?_, fun none => absurd (List.mem_append_left more member) (none cbw)⟩
    rw [← grown, same, List.append_assoc]
  · have current := stage fun cbw member => command ⟨cbw, member⟩
    cases event with
    | tx reply =>
      rw [← Option.some.inj taken]
      obtain ⟨log', same', stage'⟩ := current.tx reply same
      exact ⟨log', same', fun _ => stage'⟩
    | rx packet reply => exact current.rx taken same
    | reset =>
      rw [← Option.some.inj taken]
      exact ⟨log, same, fun _ => current.reset rfl⟩

theorem InPhase.run {base : List Output} {total : Nat} {residue : UInt32} {events : List Event} {s s' : Device}
    (run : exec Msc.step events s = some s') (phase : InPhase base total residue s) : InPhase base total residue s' :=
  have steps : Run (fun event s s' => Msc.step event s = some s') events s s' := run_exec (fun _ _ _ taken => taken) run
  steps.invariant _ (fun _ _ _ taken phase => phase.step taken) phase

/-! ## The end of the data phase -/

/-- What is left fits in a packet: it is sent. -/
theorem sends_all {s : Device} (state : s.bot.state = .data) (left : s.bot.fpos ≠ 0)
    (small : s.bot.fpos.toNat ≤ MSC_DATA_SZ) :
    ∃ bytes, bytes.length = s.bot.fpos.toNat ∧ (botTx (some MSC_DATA_SZ) s).log = s.log ++ [.sent bytes] ∧
      (botTx (some MSC_DATA_SZ) s).bot.state = .csw := by
  have some' : 0 < s.bot.fpos.toNat := Nat.pos_of_ne_zero fun zero => left (UInt32.toNat_inj.mp zero)
  have all := transmit_all small
  rw [botTx, state]
  dsimp only
  cases transmit_cases (some MSC_DATA_SZ) s with
  | inl none => omega
  | inr some =>
    obtain ⟨bytes, buff, fpos, positive, length, content, sent⟩ := some
    have count := sent_length content
    have empty : fpos = 0 := by
      apply UInt32.toNat_inj.mp
      change fpos.toNat = 0
      omega
    rw [sent, endData, if_pos ⟨positive, empty⟩]
    exact ⟨bytes, by omega, rfl, rfl⟩

/-- And the status behind it. -/
theorem status_follows {s : Device} (state : s.bot.state = .data) (left : s.bot.fpos ≠ 0)
    (small : s.bot.fpos.toNat ≤ MSC_DATA_SZ) : StatusFollows s := by
  obtain ⟨bytes, _, sent, state'⟩ := sends_all state left small
  generalize reached : botTx (some MSC_DATA_SZ) s = s' at sent state'
  have last : botTx (some MSC_DATA_SZ) s' = { s'.emit (.status s'.bot.csw) with bot :=
    { s'.bot with state := .idle } } := by
    rw [botTx, state']
  have run : exec step (List.replicate 2 (.tx (some MSC_DATA_SZ))) s = some (botTx (some MSC_DATA_SZ) s') := by
    rw [← reached]
    rfl
  refine ⟨2, _, [.sent bytes, .status s'.bot.csw], s'.bot.csw, run, ?_, List.mem_cons_of_mem _ List.mem_cons_self⟩
  rw [last]
  change s'.log ++ _ = _
  rw [sent, List.append_assoc]
  rfl

/-! ## The wrapper -/

/-- The device behind the checks of a wrapper, before the command is looked at. -/
def taken (bytes : List UInt8) (s : Device) : Device :=
  { s with
    bot :=
      { s.bot with
        buff := store 0 bytes s.bot.buff
        cbw := wrapper bytes
        csw := { s.bot.csw with dSignature := USB_MSC_BOT_CSW_SIGNATURE, dTag := (wrapper bytes).dTag } }
    log := s.log ++ [.command (wrapper bytes)] }

theorem rx_wrapper {bytes : List UInt8} (length : bytes.length = 31) (valid : (wrapper bytes).Valid) {s : Device}
    (idle : s.bot.state = .idle) (reply : Reply) :
    botRx (some bytes) reply s = some (dispatch reply (taken bytes s)) := by
  have whole : (delivered (some bytes)).getD [] = bytes :=
    List.take_of_length_le (length.trans_le (by decide))
  rw [botRx, idle]
  dsimp only
  rw [rxIdle, whole]
  dsimp only
  rw [cbwOf_store length, if_neg (not_not_intro length), accept, if_pos valid]
  rfl

/-! ## The data phase of every command -/

/-- The device when `bot_tx` is called for a command that is neither of the block commands. -/
inductive Begins (cbw : Cbw) (before : List Output) (s : Device) : Prop where
  | answer {count : Nat} (length : answerLength cbw = some count) (few : count ≤ 36) (state : s.bot.state = .data)
      (fpos : s.bot.fpos = UInt32.ofNat count)
      (residue : s.bot.csw.dDataResidue = cbw.dDataTransferLength - UInt32.ofNat count)
      (log : s.log = before ++ [.dataPhase (UInt32.ofNat count)])
  | status (length : answerLength cbw = none) (state : s.bot.state = .csw) (residue : s.bot.csw.dDataResidue = 0)
      (log : s.log = before)

theorem dispatch_begins (reply : Reply) {s : Device} (other : s.bot.cbw.CB 0 ≠ 0x28 ∧ s.bot.cbw.CB 0 ≠ 0x2A) :
    ∃ s', dispatch reply s = botTx reply s' ∧ Begins s.bot.cbw s.log s' := by
  cases dispatch_cases reply s with
  | reads opCode => exact absurd opCode other.1
  | writes opCode => exact absurd opCode other.2
  | answers length few result =>
    rw [result, answer]
    exact ⟨_, rfl, .answer length few rfl rfl rfl rfl⟩
  | ends bot none state residue fpos result => exact ⟨_, result, .status none state residue rfl⟩

/-- The event of the wrapper is a call of `bot_tx` there. -/
theorem rx_begins {bytes : List UInt8} (length : bytes.length = 31) (valid : (wrapper bytes).Valid)
    (other : (wrapper bytes).CB 0 ≠ 0x28 ∧ (wrapper bytes).CB 0 ≠ 0x2A) {s : Device} (idle : s.bot.state = .idle)
    (reply : Reply) :
    ∃ s', step (.rx (some bytes) reply) s = step (.tx reply) s' ∧
      Begins (wrapper bytes) (s.log ++ [.command (wrapper bytes)]) s' := by
  obtain ⟨s', result, begins⟩ := @dispatch_begins reply (taken bytes s) other
  refine ⟨s', ?_, begins⟩
  change botRx (some bytes) reply s = some (botTx reply s')
  rw [rx_wrapper length valid idle, result]

/-- The answer fits: the phase keeps to its stages. -/
theorem serves_of_fitting {bytes : List UInt8} (length : bytes.length = 31) (valid : (wrapper bytes).Valid)
    (other : (wrapper bytes).CB 0 ≠ 0x28 ∧ (wrapper bytes).CB 0 ≠ 0x2A) {s : Device} (idle : s.bot.state = .idle)
    (fitting : Fitting (wrapper bytes)) : Serves bytes s := by
  intro reply events s' log run logged none
  obtain ⟨first, same, begins⟩ := rx_begins length valid other idle reply
  have run' : exec step (.tx reply :: events) first = some s' := by
    rw [exec, ← same]
    exact run
  cases begins with
  | @answer count known few state fpos residue before =>
    obtain ⟨positive, inside⟩ := fitting.answered count known
    have small : (UInt32.ofNat count).toNat = count := UInt32.toNat_ofNat_of_lt' (few.trans_lt (by decide))
    have phase : InPhase first.log count first.bot.csw.dDataResidue first := by
      refine ⟨[], (List.append_nil _).symm, fun _ => .sending state ?_ ?_ rfl ?_⟩
      · intro zero
        rw [← small, ← fpos, zero] at positive
        exact absurd positive (by decide)
      · rw [fpos, small]
        exact Nat.zero_add count
      · exact fun output member => absurd member List.not_mem_nil
    obtain ⟨rest, logged', stage⟩ := phase.run run'
    rw [before, logged, List.append_assoc, List.append_assoc, List.append_cancel_left_eq] at logged'
    have shape : log = .dataPhase (UInt32.ofNat count) :: rest := (List.cons.inj logged').2
    have stage := stage fun cbw member => none cbw (by rw [shape]; exact List.mem_cons_of_mem _ member)
    have kept := stage.phase
    have entering : sentBytes (.dataPhase (UInt32.ofNat count) :: rest) = sentBytes rest := Nat.zero_add _
    constructor
    · constructor
      · rw [shape, entering]
        exact kept.bounded.trans inside
      · intro front csw back split
        rw [shape] at split
        cases front with
        | nil => cases (List.cons.inj split).1
        | cons output front =>
          obtain ⟨rfl, behind⟩ := List.cons.inj split
          obtain ⟨same', all⟩ := kept.residue front csw back behind
          have sum : sentBytes (.dataPhase (UInt32.ofNat count) :: front) = count := (Nat.zero_add _).trans all
          have less : UInt32.ofNat count ≤ (wrapper bytes).dDataTransferLength := by
            rw [UInt32.le_iff_toNat_le, small]
            exact inside
          rw [same', residue, UInt32.toNat_sub_of_le _ _ less, small, sum]
          omega
      · intro fpos' member
        rw [shape] at member
        cases List.mem_cons.mp member with
        | inl same' =>
          rw [Output.dataPhase.inj same', small]
          exact positive
        | inr later => exact absurd later (kept.entered fpos')
    · intro state'
      cases stage with
      | sending _ left sum => exact status_follows state' left (by change _ ≤ 64; omega)
      | sent other => rw [state'] at other; cases other
      | reported other => rw [state'] at other; cases other
      | broken other => rw [state'] at other; cases other
  | status known state residue before =>
    have expects := fitting.unanswered known
    have phase : InPhase first.log 0 0 first :=
      ⟨[], (List.append_nil _).symm, fun _ => .sent state rfl residue fun output member =>
        absurd member List.not_mem_nil⟩
    obtain ⟨rest, logged', stage⟩ := phase.run run'
    rw [before, logged, List.append_assoc, List.append_cancel_left_eq] at logged'
    have shape : log = rest := (List.cons.inj logged').2
    have stage := stage fun cbw member => none cbw (by rw [shape]; exact member)
    have kept := stage.phase
    rw [shape, expects]
    constructor
    · constructor
      · exact kept.bounded
      · intro front csw back split
        obtain ⟨same', all⟩ := kept.residue front csw back split
        rw [same', all]
        rfl
      · intro fpos' member
        exact absurd member (kept.entered fpos')
    · intro state'
      cases stage with
      | sending _ left sum => 
        have zero : s'.bot.fpos.toNat = 0 := by omega
        exact absurd (UInt32.toNat_inj.mp zero) left
      | sent other => rw [state'] at other; cases other
      | reported other => rw [state'] at other; cases other
      | broken other => rw [state'] at other; cases other

/-- A failing endpoint sends nothing. -/
theorem botTx_fails {s : Device} (state : s.bot.state = .data) : botTx none s = s := by
  rw [botTx, state]
  dsimp only
  cases transmit_cases none s with
  | inl nothing => rw [nothing.2, endData, if_neg fun both => absurd both.1 (Int.not_lt.mpr nothing.1)]
  | inr some =>
    obtain ⟨_, _, _, positive, _⟩ := some
    exact absurd positive (by rw [transmit]; exact Int.not_lt.mpr (by decide : (-1 : Int) ≤ 0))

/-- The run that shows what is wrong: the wrapper, with an endpoint that fails or takes all. -/
theorem fitting_of_serves {bytes : List UInt8} (length : bytes.length = 31) (valid : (wrapper bytes).Valid)
    (other : (wrapper bytes).CB 0 ≠ 0x28 ∧ (wrapper bytes).CB 0 ≠ 0x2A) {s : Device} (idle : s.bot.state = .idle)
    (serves : Serves bytes s) : Fitting (wrapper bytes) := by
  have alone : ∀ reply s', step (.rx (some bytes) reply) s = some s' →
      exec step [.rx (some bytes) reply] s = some s' := by
    intro reply s' taken
    rw [exec, taken]
    rfl
  constructor
  · intro count known
    have nonempty : 0 < count := by
      obtain ⟨first, same, begins⟩ := rx_begins length valid other idle none
      cases begins with
      | @answer count' known' few state fpos residue before =>
        obtain rfl := Option.some.inj (known.symm.trans known')
        change step _ s = some (botTx none first) at same
        rw [botTx_fails state] at same
        have log : first.log = s.log ++ .command (wrapper bytes) :: [.dataPhase (UInt32.ofNat count)] := by
          rw [before, List.append_assoc]
          rfl
        have entered := (serves none [] first _ (alone none first same) log (by simp)).1.entered _ List.mem_cons_self
        rwa [UInt32.toNat_ofNat_of_lt' (few.trans_lt (by decide))] at entered
      | status known' => rw [known] at known'; cases known'
    refine ⟨nonempty, ?_⟩
    obtain ⟨first, same, begins⟩ := rx_begins length valid other idle (some MSC_DATA_SZ)
    cases begins with
    | @answer count' known' few state fpos residue before =>
      obtain rfl := Option.some.inj (known.symm.trans known')
      have small : (UInt32.ofNat count).toNat = count := UInt32.toNat_ofNat_of_lt' (few.trans_lt (by decide))
      have left : first.bot.fpos ≠ 0 := by
        intro zero
        rw [← small, ← fpos, zero] at nonempty
        exact absurd nonempty (by decide)
      obtain ⟨sent, size, log, _⟩ := sends_all state left (by rw [fpos, small]; exact few.trans (by decide))
      rw [before, List.append_assoc, List.append_assoc] at log
      have bounded := (serves (some MSC_DATA_SZ) [] _ _ (alone _ _ same) log (by simp)).1.bounded
      have total : sentBytes [.dataPhase (UInt32.ofNat count), .sent sent] = count := by
        rw [fpos, small] at size
        simp [sentBytes, Output.size, size]
      change sentBytes [.dataPhase (UInt32.ofNat count), .sent sent] ≤ _ at bounded
      rwa [total] at bounded
    | status known' => rw [known] at known'; cases known'
  · intro known
    obtain ⟨first, same, begins⟩ := rx_begins length valid other idle none
    cases begins with
    | answer known' => rw [known] at known'; cases known'
    | status known' state residue before =>
      have last : botTx none first = { first.emit (.status first.bot.csw) with bot :=
        { first.bot with state := .idle } } := by
        rw [botTx, state]
      have log : (botTx none first).log = s.log ++ .command (wrapper bytes) :: [.status first.bot.csw] := by
        rw [last]
        change first.log ++ _ = _
        rw [before, List.append_assoc]
        rfl
      have reported := (serves none [] _ _ (alone none _ same) log (by simp)).1.residue [] _ [] rfl
      rw [residue] at reported
      apply UInt32.toNat_inj.mp
      have nothing : sentBytes [] = 0 := rfl
      rw [nothing] at reported
      change ((0 : Nat) : Int) = _ at reported
      change _ = 0
      omega

/-- The data phase of a command is as it should be, whatever the host and the endpoints do, if and only if the host
expects an answer that is not empty and not shorter than what the driver sends, or no answer where there is none. -/
theorem serves_iff {bytes : List UInt8} (length : bytes.length = 31) (valid : (wrapper bytes).Valid)
    (other : (wrapper bytes).CB 0 ≠ 0x28 ∧ (wrapper bytes).CB 0 ≠ 0x2A) {s : Device} (idle : s.bot.state = .idle) :
    Serves bytes s ↔ Fitting (wrapper bytes) :=
  ⟨fitting_of_serves length valid other idle, serves_of_fitting length valid other idle⟩

/-- A wrapper with a command of six bytes for so many data bytes, below 256. -/
def packet (dataLength : UInt8) (command : List UInt8) : List UInt8 :=
  [0x55, 0x53, 0x42, 0x43, 1, 0, 0, 0, dataLength, 0, 0, 0, 0x80, 0, 6] ++ command ++ List.replicate 10 0

/-- INQUIRY for 36 bytes. -/
theorem serves_inquiry : Serves (packet 36 [0x12, 0, 0, 0, 36, 0]) (start ⟨fun _ => 0, fun _ => 0⟩) :=
  (serves_iff rfl (by decide) (by decide) rfl).mpr
    { answered := fun count known => by
        have same : answerLength (wrapper (packet 36 [0x12, 0, 0, 0, 36, 0])) = some 36 := by decide
        rw [same] at known
        rw [← Option.some.inj known]
        decide
      unanswered := fun none => absurd none (by decide) }

/-- INQUIRY for no bytes: `bot_data` is entered with nothing to send. -/
theorem inquiry_stuck :
    ¬∀ (bytes : List UInt8) (s : Device), bytes.length = 31 → (wrapper bytes).Valid →
      (wrapper bytes).CB 0 ≠ 0x28 ∧ (wrapper bytes).CB 0 ≠ 0x2A → s.bot.state = .idle → Serves bytes s := by
  intro always
  have serves := always (packet 0 [0x12, 0, 0, 0, 0, 0]) (start ⟨fun _ => 0, fun _ => 0⟩) rfl (by decide)
    (by decide) rfl
  have fitting := fitting_of_serves rfl (by decide) (by decide) rfl serves
  have empty : answerLength (wrapper (packet 0 [0x12, 0, 0, 0, 0, 0])) = some 0 := by decide
  exact absurd (fitting.answered 0 empty).1 (by decide)

end XinuStm32.Msc
