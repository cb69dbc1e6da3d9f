import XinuStm32.Properties.SdCrc

/-!
# What the card answers

Commands are accepted, blocks delivered and blocks taken by what the card's answers are; the driver's functions succeed
on these answers and on no others. The trace of a call grows by what it begins.
-/

namespace XinuStm32

namespace SdSpi

variable {s t : SdSpi} {cmd arg : UInt32} {resp : SdResp} {buf : List UInt8} {left cnt : Nat} {token : UInt8}
  {txbuf : Nat → UInt8}

/-! ## What the card has to answer -/

/-- The answer to a command comes before the last attempt and has neither error. -/
inductive Accepts (cmd arg : UInt32) (resp : SdResp) (s : SdSpi) : List UInt8 → SdSpi → Prop where
  | intro {len k : Nat} (known : respLen resp = some len) (answered : Poll.response.AnsweredOn k (s.ask cmd arg))
      (early : k + 1 < Poll.response.attempts)
      (legal : (s.ask cmd arg).rx ((s.ask cmd arg).pos + k) &&& SPI_RESP_R1_ILLG_CMD = 0)
      (intact : (s.ask cmd arg).rx ((s.ask cmd arg).pos + k) &&& SPI_RESP_R1_CRC_ERR = 0) :
      Accepts cmd arg resp s
        ((s.ask cmd arg).rx ((s.ask cmd arg).pos + k) :: ((s.ask cmd arg).skip (k + 1)).answers (len - 1))
        ((((s.ask cmd arg).skip (k + 1)).skip (len - 1)).record (.accepted cmd))

/-- The card sends so many blocks, each before the last attempt and with its own checksum. -/
inductive Delivers : Nat → SdSpi → Prop where
  | nothing {s : SdSpi} : Delivers 0 s
  | block {left k : Nat} {data : List UInt8} {high low : UInt8} {s : SdSpi} (answered : Poll.startToken.AnsweredOn k s)
      (early : k + 1 < Poll.startToken.attempts) (length : data.length = 512)
      (bytes : (s.skip (k + 1)).answers 514 = data ++ [high, low]) (intact : checksum high low = crc16 data)
      (rest : Delivers left (s.skip (k + 515))) : Delivers (left + 1) s

/-- The card takes so many blocks, from the `cnt`th on: each is answered before the last attempt, without an error, and
programmed before the last attempt. -/
inductive Takes (token : UInt8) (txbuf : Nat → UInt8) : Nat → Nat → SdSpi → Prop where
  | nothing {cnt : Nat} {s : SdSpi} : Takes token txbuf 0 cnt s
  | block {left cnt j k : Nat} {s t : SdSpi}
      (sent : t = (s.writeDataToken token).2.transmit (nthBlock txbuf cnt))
      (answered : Poll.dataResponse.AnsweredOn j t) (early : j + 1 < Poll.dataResponse.attempts)
      (taken : Taken (t.rx (t.pos + j))) (programmed : Poll.ready.AnsweredOn k (t.skip (j + 1)))
      (soon : k + 1 < Poll.ready.attempts) (rest : Takes token txbuf left (cnt + 1) ((t.skip (j + 1)).skip (k + 1))) :
      Takes token txbuf (left + 1) cnt s

theorem sendCommand_ok_iff : s.sendCommand cmd arg resp = (.ok, buf, t) ↔ s.Accepts cmd arg resp buf t := by
  constructor
  · intro accepted
    rw [sendCommand] at accepted
    split at accepted
    · cases accepted
    next len known =>
      split at accepted
      · cases accepted
      next r1 u polled =>
        split at accepted
        · cases accepted
        next legal =>
          split at accepted
          · cases accepted
          next intact =>
            obtain ⟨k, answered, early, rfl, rfl⟩ := poll_some_iff.mp polled
            rw [receive_eq] at accepted
            cases accepted
            exact .intro known answered early (not_not.mp legal) (not_not.mp intact)
  · intro accepts
    cases accepts with
    | intro known answered early legal intact =>
      have polled := poll_some_iff.mpr ⟨_, answered, early, rfl, rfl⟩
      rw [sendCommand, known]
      simp only [polled]
      rw [if_neg (not_not.mpr legal), if_neg (not_not.mpr intact), receive_eq]

theorem answers_checksum (s : SdSpi) (count : Nat) :
    s.answers (count + 2) = s.answers count ++
      [(s.skip count).rx (s.skip count).pos, ((s.skip count).skip 1).rx ((s.skip count).skip 1).pos] := by
  rw [answers_add, answers_succ, answers_succ]
  rfl

theorem readData_ok_iff {data : List UInt8} :
    s.readData 512 = (.ok, data, t) ↔ ∃ k high low, Poll.startToken.AnsweredOn k s ∧
      k + 1 < Poll.startToken.attempts ∧ data.length = 512 ∧ (s.skip (k + 1)).answers 514 = data ++ [high, low] ∧
      checksum high low = crc16 data ∧ t = s.skip (k + 515) := by
  have length : (512 : UInt16).toNat = 512 := rfl
  have bytes (u : SdSpi) := answers_checksum u 512
  have joined (high low : UInt8) : high.toUInt16 <<< 8 ||| low.toUInt16 = checksum high low := rfl
  constructor
  · intro read
    rw [readData] at read
    split at read
    · cases read
    next resp u polled =>
      obtain ⟨k, answered, early, rfl, rfl⟩ := poll_some_iff.mp polled
      simp only [receive_eq, txrx_wait, length, joined] at read
      split at read
      · cases read
      next intact =>
        rw [Prod.mk.injEq, Prod.mk.injEq] at read
        obtain ⟨-, rfl, rfl⟩ := read
        refine ⟨k, _, _, answered, early, by simp, bytes _, not_not.mp intact, ?_⟩
        rw [skip_skip, skip_skip, skip_skip]
  · rintro ⟨k, high, low, answered, early, inside, sent, intact, rfl⟩
    have polled := poll_some_iff.mpr ⟨_, answered, early, rfl, rfl⟩
    rw [bytes] at sent
    obtain ⟨stored, behind⟩ := List.append_inj sent (by simp [inside])
    simp only [List.cons.injEq] at behind
    obtain ⟨isHigh, isLow, -⟩ := behind
    simp only [readData, polled, receive_eq, txrx_wait, length, stored, isHigh, isLow, joined]
    rw [if_neg (not_not.mpr intact), skip_skip, skip_skip, skip_skip]

theorem readBlocks_ok_iff : (s.readBlocks left).1 = .ok ↔ Delivers left s := by
  induction left generalizing s with
  | zero => exact iff_of_true rfl .nothing
  | succ left inductionHypothesis =>
    rw [readBlocks]
    constructor
    · intro read
      split at read
      next data u block =>
        obtain ⟨k, high, low, answered, early, length, bytes, intact, rfl⟩ := readData_ok_iff.mp block
        exact .block answered early length bytes intact (inductionHypothesis.mp read)
      next err data u failed _ => exact absurd read failed
    · intro delivers
      cases delivers with
      | block answered early length bytes intact rest =>
        rw [readData_ok_iff.mpr ⟨_, _, _, answered, early, length, bytes, intact, rfl⟩]
        exact inductionHypothesis.mpr rest

theorem writeData_ok_iff :
    s.writeData buf = (.ok, t) ↔ ∃ j k, Poll.dataResponse.AnsweredOn j (s.transmit buf) ∧
      j + 1 < Poll.dataResponse.attempts ∧ Taken ((s.transmit buf).rx ((s.transmit buf).pos + j)) ∧
      Poll.ready.AnsweredOn k ((s.transmit buf).skip (j + 1)) ∧ k + 1 < Poll.ready.attempts ∧
      t = ((s.transmit buf).skip (j + 1)).skip (k + 1) := by
  constructor
  · intro written
    rw [writeData] at written
    split at written
    · cases written
    next resp u polled =>
      obtain ⟨j, answered, early, rfl, rfl⟩ := poll_some_iff.mp polled
      simp only at written
      split at written
      · cases written
      next intact =>
        split at written
        · cases written
        next accepted =>
          split at written
          · cases written
          next ready v polled' =>
            obtain ⟨k, programmed, soon, -, rfl⟩ := poll_some_iff.mp polled'
            rw [Prod.mk.injEq] at written
            exact ⟨j, k, answered, early, ⟨intact, accepted⟩, programmed, soon, written.2.symm⟩
  · rintro ⟨j, k, answered, early, ⟨intact, accepted⟩, programmed, soon, rfl⟩
    have response := poll_some_iff.mpr ⟨_, answered, early, rfl, rfl⟩
    have ready := poll_some_iff.mpr ⟨_, programmed, soon, rfl, rfl⟩
    rw [writeData]
    simp only [response]
    rw [if_neg intact, if_neg accepted]
    simp only [ready]

theorem writeBlocks_ok_iff : (s.writeBlocks token txbuf left cnt).1 = .ok ↔ Takes token txbuf left cnt s := by
  induction left generalizing s cnt with
  | zero => exact iff_of_true rfl .nothing
  | succ left inductionHypothesis =>
    simp only [writeBlocks]
    constructor
    · intro written
      split at written
      next u block =>
        obtain ⟨j, k, answered, early, taken, programmed, soon, rfl⟩ := writeData_ok_iff.mp block
        exact .block rfl answered early taken programmed soon (inductionHypothesis.mp written)
      next err u failed _ => exact absurd written failed
    · intro takes
      cases takes with
      | block sent answered early taken programmed soon rest =>
        subst sent
        rw [writeData_ok_iff.mpr ⟨_, _, answered, early, taken, programmed, soon, rfl⟩]
        exact inductionHypothesis.mpr rest

/-! ## What is begun -/

@[simp] theorem send_events (bytes : List UInt8) : (s.send bytes).events = s.events := by
  induction bytes generalizing s with
  | nil => rfl
  | cons byte bytes inductionHypothesis => exact inductionHypothesis

@[simp] theorem poll_events (phase : Poll) : (s.poll phase).2.events = s.events := by
  cases phase.answered_or s with
  | inl unanswered => rw [poll_unanswered unanswered, skip_events]
  | inr answered =>
    obtain ⟨k, answered⟩ := answered
    rw [poll_answered answered, skip_events]

theorem ask_events (cmd arg : UInt32) : (s.ask cmd arg).events = s.events ++ [.command cmd] := by
  rw [ask]
  split <;> simp [record, txrx]

/-- A command is in the trace, and behind it whether it was accepted. -/
theorem sendCommand_events (cmd arg : UInt32) (s : SdSpi) {len : Nat} (known : respLen resp = some len) :
    (s.sendCommand cmd arg resp).2.2.events = s.events ++ .command cmd ::
      (if (s.sendCommand cmd arg resp).1 = .ok then [.accepted cmd] else []) := by
  have asked := poll_events (s := s.ask cmd arg) .response
  rw [ask_events] at asked
  rw [sendCommand, known]
  simp only
  split
  next u polled =>
    rw [polled] at asked
    simpa using asked
  next r1 u polled =>
    rw [polled] at asked
    change u.events = _ at asked
    split
    · simp [asked]
    split
    · simp [asked]
    · simp [record, receive_eq, asked]

theorem readData_events (len : UInt16) : (s.readData len).2.2.events = s.events := by
  have polled := poll_events (s := s) .startToken
  rw [readData]
  split
  next u none =>
    rw [none] at polled
    exact polled
  next resp u some =>
    rw [some] at polled
    simp only [receive_eq, txrx_wait]
    split <;> exact polled

theorem readBlocks_events (left : Nat) : (s.readBlocks left).2.2.events = s.events := by
  induction left generalizing s with
  | zero => rfl
  | succ left inductionHypothesis =>
    have block := readData_events (s := s) 512
    rw [readBlocks]
    split
    next data u read =>
      rw [read] at block
      exact inductionHypothesis.trans block
    next err data u failed read =>
      rw [read] at block
      exact block

theorem writeDataToken_events (token : UInt8) : (s.writeDataToken token).2.events = s.events ++ [.token token] := by
  rw [writeDataToken]
  split
  · have polled := poll_events (s := ((s.record (.token token)).txrx token).2) .ready
    split
    next u none =>
      rw [none] at polled
      exact polled
    next resp u some =>
      rw [some] at polled
      exact polled
  · rfl

theorem writeData_events (buf : List UInt8) : (s.writeData buf).2.events = s.events := by
  have polled := poll_events (s := s.transmit buf) .dataResponse
  have sent : (s.transmit buf).events = s.events := send_events _
  rw [sent] at polled
  rw [writeData]
  split
  next u none =>
    rw [none] at polled
    exact polled
  next resp u some =>
    rw [some] at polled
    have ready := poll_events (s := u) .ready
    simp only
    split
    · exact polled
    split
    · exact polled
    split
    next v none' =>
      rw [none'] at ready
      exact ready.trans polled
    next resp v some' =>
      rw [some'] at ready
      exact ready.trans polled

/-- Each block that is begun is announced by its token. -/
theorem writeBlocks_events (token : UInt8) (txbuf : Nat → UInt8) (s : SdSpi) (left cnt : Nat) :
    ∃ count, (s.writeBlocks token txbuf left cnt).2.events = s.events ++ List.replicate count (.token token) := by
  induction left generalizing s cnt with
  | zero => exact ⟨0, (List.append_nil _).symm⟩
  | succ left inductionHypothesis =>
    have block := writeData_events (s := (s.writeDataToken token).2) (nthBlock txbuf cnt)
    rw [writeDataToken_events] at block
    simp only [writeBlocks]
    split
    next u written =>
      rw [written] at block
      obtain ⟨count, later⟩ := inductionHypothesis u (cnt + 1)
      refine ⟨count + 1, ?_⟩
      rw [later, block, List.replicate_succ, List.append_assoc, List.singleton_append]
    next err u failed written =>
      rw [written] at block
      exact ⟨1, block⟩

end SdSpi

end XinuStm32
