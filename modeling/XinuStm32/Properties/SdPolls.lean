import XinuStm32.Drivers.SdSpi

/-!
# Polling the card

The loops that poll the card stop with the first answer they wait for. Their counter does not tell an answer on the
last attempt from none: both leave no attempt.
-/

namespace XinuStm32

namespace SdSpi

variable {s : SdSpi}

/-! ## What one loop does -/

/-- The state after a number of exchanges in which the driver only waits. -/
def skip (count : Nat) (s : SdSpi) : SdSpi :=
  { s with pos := s.pos + count, tx := List.replicate count 0xFF ++ s.tx }

theorem skip_skip (first second : Nat) : (s.skip first).skip second = s.skip (first + second) := by
  simp only [skip, Nat.add_assoc, ← List.append_assoc, List.replicate_append_replicate, Nat.add_comm first second]

@[simp]
theorem skip_rx (count : Nat) : (s.skip count).rx = s.rx := rfl

@[simp]
theorem skip_pos (count : Nat) : (s.skip count).pos = s.pos + count := rfl

@[simp]
theorem skip_events (count : Nat) : (s.skip count).events = s.events := rfl

theorem txrx_wait : s.txrx 0xFF = (s.rx s.pos, s.skip 1) := rfl

variable {awaited : UInt8 → Bool} {left k : Nat} {resp : UInt8}

theorem pollLoop_more (waits : awaited resp = false) :
    pollLoop awaited (left + 1) resp s = pollLoop awaited left (s.rx s.pos) (s.skip 1) := by
  rw [pollLoop, waits, txrx_wait]
  rfl

/-- The first answer that is awaited ends the loop. -/
theorem pollLoop_answered (waits : awaited resp = false) (fewer : k < left)
    (before : ∀ i < k, awaited (s.rx (s.pos + i)) = false) (here : awaited (s.rx (s.pos + k)) = true) :
    pollLoop awaited left resp s = (left - (k + 1), s.rx (s.pos + k), s.skip (k + 1)) := by
  induction left generalizing resp s k with
  | zero => exact absurd fewer (Nat.not_lt_zero k)
  | succ left inductionHypothesis =>
    rw [pollLoop_more waits]
    cases k with
    | zero =>
      -- the loop ends at its test, or has no attempt left
      cases left with
      | zero => rfl
      | succ left =>
        rw [Nat.add_zero] at here
        rw [pollLoop, if_pos here]
        rfl
    | succ k =>
      have next := before 0 (Nat.succ_pos k)
      have later := @inductionHypothesis (s.skip 1) k (s.rx s.pos) next (Nat.lt_of_succ_lt_succ fewer)
        (fun i less => by
          have kept := before (i + 1) (Nat.succ_lt_succ less)
          rwa [Nat.add_comm i 1, ← Nat.add_assoc] at kept)
        (by rwa [skip_pos, skip_rx, Nat.add_assoc, Nat.add_comm 1 k])
      rw [later, skip_skip, skip_pos, skip_rx, Nat.add_assoc, Nat.add_comm 1 k, Nat.add_comm 1 (k + 1),
        Nat.add_sub_add_right]

/-- Without one, no attempt is left. -/
theorem pollLoop_unanswered (waits : awaited resp = false) (none : ∀ i < left, awaited (s.rx (s.pos + i)) = false) :
    (pollLoop awaited left resp s).1 = 0 ∧ (pollLoop awaited left resp s).2.2 = s.skip left := by
  induction left generalizing resp s with
  | zero => exact ⟨rfl, rfl⟩
  | succ left inductionHypothesis =>
    rw [pollLoop_more waits]
    have later := @inductionHypothesis (s.skip 1) (s.rx s.pos) (none 0 (Nat.succ_pos left)) (fun i less => by
      have kept := none (i + 1) (Nat.succ_lt_succ less)
      rwa [Nat.add_comm i 1, ← Nat.add_assoc] at kept)
    rw [skip_skip, Nat.add_comm 1 left] at later
    exact later

/-! ## The phases -/

namespace Poll

variable {phase : Poll}

theorem initial_waits (phase : Poll) : phase.awaited phase.initial = false := by
  cases phase <;> decide

theorem attempts_pos (phase : Poll) : 0 < phase.attempts := by
  cases phase <;> decide

/-- None of the bytes that may be polled is awaited. -/
def Unanswered (phase : Poll) (s : SdSpi) : Prop :=
  ∀ i < phase.attempts, phase.awaited (s.rx (s.pos + i)) = false

/-- The first awaited byte comes on the attempt with this number, the first one being zero. -/
structure AnsweredOn (phase : Poll) (k : Nat) (s : SdSpi) : Prop where
  attempt : k < phase.attempts
  awaited : phase.awaited (s.rx (s.pos + k)) = true
  first : ∀ i < k, phase.awaited (s.rx (s.pos + i)) = false

/-- The first awaited byte comes on the last attempt. -/
def Late (phase : Poll) (s : SdSpi) : Prop := phase.AnsweredOn (phase.attempts - 1) s

/-- The phase times out exactly when no byte is awaited, and goes on with the first one that is. -/
structure Reports (phase : Poll) (s : SdSpi) : Prop where
  timeout : (s.poll phase).1 = none ↔ phase.Unanswered s
  accepts : ∀ k, phase.AnsweredOn k s → s.poll phase = (some (s.rx (s.pos + k)), s.skip (k + 1))

theorem answered_or (phase : Poll) (s : SdSpi) : phase.Unanswered s ∨ ∃ k, phase.AnsweredOn k s := by
  by_cases some : ∃ k < phase.attempts, phase.awaited (s.rx (s.pos + k)) = true
  · right
    obtain ⟨attempt, here⟩ := Nat.find_spec some
    refine ⟨Nat.find some, attempt, here, ?_⟩
    intro i less
    have before := Nat.find_min some less
    exact Bool.eq_false_iff.mpr fun early => before ⟨Nat.lt_trans less attempt, early⟩
  · left
    intro i less
    exact Bool.eq_false_iff.mpr fun here => some ⟨i, less, here⟩

theorem AnsweredOn.not_unanswered {k : Nat} (answered : phase.AnsweredOn k s) : ¬phase.Unanswered s := by
  intro unanswered
  have never := unanswered k answered.attempt
  rw [answered.awaited] at never
  cases never

theorem AnsweredOn.unique {j k : Nat} (first : phase.AnsweredOn j s) (second : phase.AnsweredOn k s) : j = k := by
  by_contra other
  cases Nat.lt_or_gt_of_ne other with
  | inl less =>
    have never := second.first j less
    rw [first.awaited] at never
    cases never
  | inr less =>
    have never := first.first k less
    rw [second.awaited] at never
    cases never

end Poll

variable {phase : Poll}

theorem poll_eq (phase : Poll) (s : SdSpi) :
    s.poll phase =
      (if (pollLoop phase.awaited phase.attempts phase.initial s).1 = 0 then none
        else some (pollLoop phase.awaited phase.attempts phase.initial s).2.1,
        (pollLoop phase.awaited phase.attempts phase.initial s).2.2) := rfl

/-- What a phase does that is answered. -/
theorem poll_answered (answered : phase.AnsweredOn k s) :
    s.poll phase = (if k + 1 = phase.attempts then none else some (s.rx (s.pos + k)), s.skip (k + 1)) := by
  rw [poll_eq, pollLoop_answered phase.initial_waits answered.attempt answered.first answered.awaited]
  have attempt := answered.attempt
  simp only [Prod.mk.injEq, and_true]
  by_cases last : k + 1 = phase.attempts
  · rw [if_pos (by omega), if_pos last]
  · rw [if_neg (by omega), if_neg last]

theorem poll_unanswered (unanswered : phase.Unanswered s) : s.poll phase = (none, s.skip phase.attempts) := by
  obtain ⟨left, skipped⟩ := pollLoop_unanswered phase.initial_waits unanswered
  rw [poll_eq, left, skipped]
  rfl

/-- A phase goes on exactly with an answer before the last attempt. -/
theorem poll_some_iff {t : SdSpi} :
    s.poll phase = (some resp, t) ↔
      ∃ k, phase.AnsweredOn k s ∧ k + 1 < phase.attempts ∧ resp = s.rx (s.pos + k) ∧ t = s.skip (k + 1) := by
  constructor
  · intro polled
    cases phase.answered_or s with
    | inl unanswered =>
      rw [poll_unanswered unanswered] at polled
      cases polled
    | inr answered =>
      obtain ⟨k, answered⟩ := answered
      have attempt := answered.attempt
      rw [poll_answered answered, Prod.mk.injEq] at polled
      split at polled
      · cases polled.1
      · exact ⟨k, answered, by omega, (Option.some.inj polled.1).symm, polled.2.symm⟩
  · rintro ⟨k, answered, early, rfl, rfl⟩
    rw [poll_answered answered, if_neg (by omega)]

/-! ## The calls -/

/-- The functions of the driver that poll. -/
inductive PollingCall where
  | sendCommand (cmd arg : UInt32) (resp : SdResp)
  | readData (len : UInt16)
  | writeDataToken (token : UInt8)
  | writeData (buf : List UInt8)

/-- The card has taken the block. -/
def Taken (resp : UInt8) : Prop :=
  resp &&& SPI_WRITE_STATUS_MASK ≠ SPI_WRITE_STATUS_CRC_ERR ∧
    resp &&& SPI_WRITE_STATUS_MASK ≠ SPI_WRITE_STATUS_WRITE_ERR

instance (resp : UInt8) : Decidable (Taken resp) := inferInstanceAs (Decidable (_ ∧ _))

namespace PollingCall

/-- The phases of a call, with the state in which each begins. -/
inductive Polls : PollingCall → SdSpi → Poll → SdSpi → Prop where
  | response {cmd arg : UInt32} {resp : SdResp} {len : Nat} {s : SdSpi} (known : respLen resp = some len) :
      Polls (.sendCommand cmd arg resp) s .response (s.ask cmd arg)
  | startToken {len : UInt16} {s : SdSpi} : Polls (.readData len) s .startToken s
  | stop {s : SdSpi} :
      Polls (.writeDataToken SPI_STOP_MULTI_BLOCK_WRITE) s .ready
        ((s.record (.token SPI_STOP_MULTI_BLOCK_WRITE)).txrx SPI_STOP_MULTI_BLOCK_WRITE).2
  | dataResponse {buf : List UInt8} {s : SdSpi} : Polls (.writeData buf) s .dataResponse (s.transmit buf)
  | ready {buf : List UInt8} {resp : UInt8} {s t : SdSpi}
      (answered : (s.transmit buf).poll .dataResponse = (some resp, t)) (taken : Taken resp) :
      Polls (.writeData buf) s .ready t

/-- The call reports a timeout. -/
def TimesOut : PollingCall → SdSpi → Prop
  | .sendCommand cmd arg resp, s => (s.sendCommand cmd arg resp).1 = .ctimeout
  | .readData len, s => (s.readData len).1 = .dtimeout
  | .writeDataToken token, s => (s.writeDataToken token).1 = .dtimeout
  | .writeData buf, s => (s.writeData buf).1 = .dtimeout

end PollingCall

/-- A call reports a timeout exactly when one of its phases does. -/
theorem timesOut_iff (call : PollingCall) (s : SdSpi) :
    call.TimesOut s ↔ ∃ phase t, call.Polls s phase t ∧ (t.poll phase).1 = none := by
  cases call with
  | sendCommand cmd arg resp =>
    cases known : respLen resp with
    | none =>
      rw [PollingCall.TimesOut, sendCommand, known]
      constructor
      · intro timeout
        cases timeout
      · rintro ⟨phase, t, polls, -⟩
        cases polls with
        | response known' =>
          rw [known] at known'
          cases known'
    | some len =>
      have only : (∃ phase t, (PollingCall.sendCommand cmd arg resp).Polls s phase t ∧ (t.poll phase).1 = none) ↔
          ((s.ask cmd arg).poll .response).1 = none := by
        constructor
        · rintro ⟨phase, t, polls, none⟩
          cases polls
          exact none
        · exact fun none => ⟨_, _, .response known, none⟩
      rw [PollingCall.TimesOut, sendCommand, known, only]
      simp only
      cases (s.ask cmd arg).poll .response with
      | mk answer t =>
        cases answer with
        | none => exact iff_of_true rfl rfl
        | some r1 =>
          simp only [reduceCtorEq, iff_false]
          split
          · simp
          split <;> simp
  | readData len =>
    have only : (∃ phase t, (PollingCall.readData len).Polls s phase t ∧ (t.poll phase).1 = none) ↔
        (s.poll .startToken).1 = none := by
      constructor
      · rintro ⟨phase, t, polls, none⟩
        cases polls
        exact none
      · exact fun none => ⟨_, _, .startToken, none⟩
    rw [PollingCall.TimesOut, only, readData]
    cases s.poll .startToken with
    | mk answer t =>
      cases answer with
      | none => exact iff_of_true rfl rfl
      | some resp =>
        simp only [reduceCtorEq, iff_false]
        split <;> simp
  | writeDataToken token =>
    by_cases stop : token = SPI_STOP_MULTI_BLOCK_WRITE
    · subst stop
      have only : (∃ phase t, (PollingCall.writeDataToken SPI_STOP_MULTI_BLOCK_WRITE).Polls s phase t ∧
          (t.poll phase).1 = none) ↔ ((((s.record (.token SPI_STOP_MULTI_BLOCK_WRITE)).txrx
            SPI_STOP_MULTI_BLOCK_WRITE).2).poll .ready).1 = none := by
        constructor
        · rintro ⟨phase, t, polls, none⟩
          cases polls
          exact none
        · exact fun none => ⟨_, _, .stop, none⟩
      rw [PollingCall.TimesOut, only, writeDataToken, if_pos rfl]
      cases (((s.record (.token SPI_STOP_MULTI_BLOCK_WRITE)).txrx SPI_STOP_MULTI_BLOCK_WRITE).2).poll .ready with
      | mk answer t => cases answer <;> simp
    · rw [PollingCall.TimesOut, writeDataToken, if_neg stop]
      constructor
      · intro timeout
        cases timeout
      · rintro ⟨phase, t, polls, -⟩
        cases polls
        exact absurd rfl stop
  | writeData buf =>
    rw [PollingCall.TimesOut, writeData]
    cases response : (s.transmit buf).poll .dataResponse with
    | mk answer t =>
      cases answer with
      | none => exact iff_of_true rfl ⟨_, _, .dataResponse, by rw [response]⟩
      | some resp =>
        by_cases taken : Taken resp
        · simp only [if_neg taken.1, if_neg taken.2]
          have only : (∃ phase u, (PollingCall.writeData buf).Polls s phase u ∧ (u.poll phase).1 = none) ↔
              (t.poll .ready).1 = none := by
            constructor
            · rintro ⟨phase, u, polls, none⟩
              cases polls with
              | dataResponse =>
                rw [response] at none
                cases none
              | ready answered _ =>
                rw [response] at answered
                cases answered
                exact none
            · exact fun none => ⟨_, _, .ready response taken, none⟩
          rw [only]
          cases t.poll .ready with
          | mk answer u => cases answer <;> simp
        · apply iff_of_false
          · rw [Taken, not_and_or, not_not, not_not] at taken
            simp only
            split
            · simp
            · next accepted => rw [if_pos (taken.resolve_left accepted)]; simp
          · rintro ⟨phase, u, polls, none⟩
            cases polls with
            | dataResponse =>
              rw [response] at none
              cases none
            | ready answered taken' =>
              rw [response] at answered
              cases answered
              exact taken taken'

/-! ## The last attempt -/

/-- A phase reports as it should exactly when it is not answered on its last attempt. -/
theorem reports_iff (phase : Poll) (s : SdSpi) : phase.Reports s ↔ ¬phase.Late s := by
  have some := phase.attempts_pos
  constructor
  · intro reports late
    have accepted := reports.accepts _ late
    rw [poll_answered late, if_pos (by omega)] at accepted
    cases accepted
  · intro early
    cases phase.answered_or s with
    | inl unanswered =>
      refine ⟨iff_of_true ?_ unanswered, fun k answered => absurd unanswered answered.not_unanswered⟩
      rw [poll_unanswered unanswered]
    | inr answered =>
      obtain ⟨k, answered⟩ := answered
      have notLast : k + 1 ≠ phase.attempts := by
        intro last
        apply early
        rw [Poll.Late, ← last, Nat.add_sub_cancel]
        exact answered
      have polled := poll_answered answered
      rw [if_neg notLast] at polled
      refine ⟨iff_of_false ?_ answered.not_unanswered, ?_⟩
      · rw [polled]
        simp
      · intro j other
        rw [other.unique answered, polled]

/-- A call reports a timeout exactly when one of its phases does, and its phases all report as they should exactly when
none of them is answered on its last attempt. -/
theorem polls_report_iff (call : PollingCall) (s : SdSpi) :
    (call.TimesOut s ↔ ∃ phase t, call.Polls s phase t ∧ (t.poll phase).1 = none) ∧
      ((∀ phase t, call.Polls s phase t → phase.Reports t) ↔ ∀ phase t, call.Polls s phase t → ¬phase.Late t) := by
  refine ⟨timesOut_iff call s, ?_⟩
  constructor
  · exact fun all phase t polls => (reports_iff phase t).mp (all phase t polls)
  · exact fun all phase t polls => (reports_iff phase t).mpr (all phase t polls)

/-- A card that answers the command in the thousandth byte only. -/
def lateCard : SdSpi where
  type := .sdhc
  rx := fun pos => if pos = 1007 then 0 else 0xFF
  pos := 0
  tx := []
  selected := true
  events := []

/-- The answer to `CMD13` on the last of the thousand attempts is taken for none. -/
theorem late_answer_lost :
    ¬∀ (call : PollingCall) (s : SdSpi), ∀ phase t, call.Polls s phase t → phase.Reports t := by
  intro all
  have reports := all (.sendCommand CMD13 0 .r2) lateCard _ _ (.response rfl)
  apply (reports_iff _ _).mp reports
  refine ⟨by decide, by decide, ?_⟩
  intro i less
  have other : 8 + i ≠ 1007 := by
    change i < 999 at less
    omega
  change Poll.awaited .response (if 8 + i = 1007 then 0 else 0xFF) = false
  rw [if_neg other]
  decide

end SdSpi

end XinuStm32
