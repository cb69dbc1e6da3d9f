import XinuStm32.Properties.SdAnswers

/-!
# What the events are on the bus

The trace of the driver is read off the bus: a command is the six bytes of its frame, accepted or not as the card's
answer has it, a token is its byte, with the block and its checksum behind it, and between these the driver sends
nothing but the bytes of its waiting.
-/

namespace XinuStm32

namespace SdSpi

/-! ## The grammar of the bus -/

/-- The answer that ends the polls behind a command, with the number of polls and whether it accepts the command. -/
inductive Response (answer : Nat → UInt8) : Nat → Bool → Prop where
  | timeout (none : ∀ i, i + 1 < Poll.response.attempts → Poll.response.awaited (answer i) = false) :
      Response answer Poll.response.attempts false
  | answered {k : Nat} (early : k + 1 < Poll.response.attempts) (awaited : Poll.response.awaited (answer k) = true)
      (first : ∀ i < k, Poll.response.awaited (answer i) = false) :
      Response answer (k + 1)
        (decide (answer k &&& SPI_RESP_R1_ILLG_CMD = 0 ∧ answer k &&& SPI_RESP_R1_CRC_ERR = 0))

/-- The bytes between a command and its answer. -/
def garbage (cmd : UInt32) : Nat := if cmd = CMD12 then 1 else 0

/-- What the driver sends at once, with the card's answers from there on: the events, and the bytes. -/
inductive Segment (answer : Nat → UInt8) : List SdEvent → List UInt8 → Prop where
  | idle : Segment answer [] [0xFF]
  | command {cmd arg : UInt32} {count : Nat} {accepted : Bool} (short : cmd < 64)
      (response : Response (fun i => answer (6 + garbage cmd + i)) count accepted) :
      Segment answer (.command cmd :: if accepted then [.accepted cmd] else [])
        (frame cmd arg ++ List.replicate (garbage cmd + count) 0xFF)
  | block {token : UInt8} {data : List UInt8}
      (start : token = SPI_START_SINGLE_BLOCK_WRITE ∨ token = SPI_START_MULTI_BLOCK_WRITE)
        (length : data.length = 512) :
      Segment answer [.token token] (token :: protect data)
  | stop : Segment answer [.token SPI_STOP_MULTI_BLOCK_WRITE] [SPI_STOP_MULTI_BLOCK_WRITE]

/-- Segment after segment. -/
inductive Traffic : (Nat → UInt8) → List SdEvent → List UInt8 → Prop where
  | silence {answer : Nat → UInt8} : Traffic answer [] []
  | next {answer : Nat → UInt8} {events later : List SdEvent} {bytes behind : List UInt8}
      (segment : Segment answer events bytes) (rest : Traffic (fun i => answer (bytes.length + i)) later behind) :
      Traffic answer (events ++ later) (bytes ++ behind)

variable {heard : Nat → UInt8} {events later : List SdEvent} {bytes behind data : List UInt8} {cmd arg : UInt32}

theorem Segment.traffic (segment : Segment heard events bytes) : Traffic heard events bytes := by
  have whole := Traffic.next segment .silence
  rwa [List.append_nil, List.append_nil] at whole

theorem Traffic.append (front : Traffic heard events bytes)
    (back : Traffic (fun i => heard (bytes.length + i)) later behind) :
    Traffic heard (events ++ later) (bytes ++ behind) := by
  induction front with
  | silence => simpa using back
  | @next heard events events' bytes bytes' segment rest inductionHypothesis =>
    rw [List.append_assoc, List.append_assoc]
    apply Traffic.next segment
    apply inductionHypothesis
    simpa only [List.length_append, Nat.add_assoc] using back

theorem Traffic.idle (count : Nat) : Traffic heard [] (List.replicate count 0xFF) := by
  induction count generalizing heard with
  | zero => exact .silence
  | succ count inductionHypothesis => exact .next .idle inductionHypothesis

@[simp]
theorem frame_length (cmd arg : UInt32) : (frame cmd arg).length = 6 := rfl

/-! ### Reading the bus -/

theorem Segment.ne_nil (segment : Segment heard events bytes) : bytes ≠ [] := by
  cases segment <;> simp [frame]

/-- The first byte of a frame is its command, with the bit that no token has. -/
theorem frame_start {cmd : UInt32} (short : cmd < 64) : (cmd ||| 0x40).toUInt8.toNat = 64 + cmd.toNat := by
  have small : cmd.toNat < 64 := short
  have joined := Nat.two_pow_add_eq_or_of_lt (i := 6) small 1
  rw [UInt32.toNat_toUInt8, UInt32.toNat_or, Nat.or_comm]
  change (64 ||| cmd.toNat) % 256 = _
  rw [show 64 ||| cmd.toNat = 64 + cmd.toNat from joined.symm]
  exact Nat.mod_eq_of_lt (by omega)

theorem Response.unique {count count' : Nat} {accepted accepted' : Bool} (first : Response heard count accepted)
    (second : Response heard count' accepted') : count = count' ∧ accepted = accepted' := by
  cases first with
  | timeout none =>
    cases second with
    | timeout none' => exact ⟨rfl, rfl⟩
    | answered early awaited first =>
      rw [none _ early] at awaited
      cases awaited
  | @answered k early awaited first =>
    cases second with
    | timeout none =>
      rw [none _ early] at awaited
      cases awaited
    | @answered k' early' awaited' first' =>
      have same : k = k' := by
        by_contra other
        cases Nat.lt_or_gt_of_ne other with
        | inl less =>
          rw [first' k less] at awaited
          cases awaited
        | inr less =>
          rw [first k' less] at awaited'
          cases awaited'
      subst same
      exact ⟨rfl, rfl⟩

/-- The first byte of a frame is none of the others. -/
theorem frame_start_ne {cmd : UInt32} (short : cmd < 64) {byte : UInt8} (high : 0x80 ≤ byte) :
    (cmd ||| 0x40).toUInt8 ≠ byte := by
  intro same
  have start := frame_start short
  have small : cmd.toNat < 64 := short
  have large : 128 ≤ byte.toNat := high
  rw [same] at start
  omega

/-- The bytes tell a segment from all others. -/
theorem Segment.unique {front front' : List UInt8} (first : Segment heard events bytes)
    (second : Segment heard later behind) (same : bytes ++ front = behind ++ front') :
    events = later ∧ bytes = behind := by
  cases first with
  | idle =>
    cases second with
    | idle => exact ⟨rfl, rfl⟩
    | command short response => exact absurd (List.cons.inj same).1.symm (frame_start_ne short (by decide))
    | block start length => obtain rfl | rfl := start <;> simp at same
    | stop => simp at same
  | @command cmd arg count accepted short response =>
    cases second with
    | idle => exact absurd (List.cons.inj same).1 (frame_start_ne short (by decide))
    | @command cmd' arg' count' accepted' short' response' =>
      have starts := congrArg UInt8.toNat (List.cons.inj same).1
      rw [frame_start short, frame_start short'] at starts
      obtain rfl : cmd = cmd' := UInt32.toNat_inj.mp (by omega)
      obtain ⟨rfl, rfl⟩ := response.unique response'
      obtain ⟨framed, -⟩ := List.append_inj same (by simp)
      exact ⟨rfl, framed⟩
    | block start length =>
      obtain rfl | rfl := start
      · exact absurd (List.cons.inj same).1 (frame_start_ne short (by decide))
      · exact absurd (List.cons.inj same).1 (frame_start_ne short (by decide))
    | stop => exact absurd (List.cons.inj same).1 (frame_start_ne short (by decide))
  | block start length =>
    cases second with
    | idle => obtain rfl | rfl := start <;> simp at same
    | command short response =>
      obtain rfl | rfl := start
      · exact absurd (List.cons.inj same).1.symm (frame_start_ne short (by decide))
      · exact absurd (List.cons.inj same).1.symm (frame_start_ne short (by decide))
    | block start' length' =>
      obtain ⟨framed, -⟩ := List.append_inj same (by simp [protect, length, length'])
      obtain ⟨rfl, rest⟩ := List.cons.inj framed
      exact ⟨rfl, framed⟩
    | stop => obtain rfl | rfl := start <;> simp at same
  | stop =>
    cases second with
    | idle => simp at same
    | command short response => exact absurd (List.cons.inj same).1.symm (frame_start_ne short (by decide))
    | block start length => obtain rfl | rfl := start <;> simp at same
    | stop => exact ⟨rfl, rfl⟩

/-- A trace is read off the bus in one way only. -/
theorem Traffic.unique (first : Traffic heard events bytes) (second : Traffic heard later behind)
    (same : bytes = behind) : events = later := by
  induction first generalizing later behind with
  | silence =>
    cases second with
    | silence => rfl
    | next segment rest => exact absurd (List.append_eq_nil_iff.mp same.symm).1 segment.ne_nil
  | next segment rest inductionHypothesis =>
    cases second with
    | silence => exact absurd (List.append_eq_nil_iff.mp same).1 segment.ne_nil
    | next segment' rest' =>
      obtain ⟨rfl, rfl⟩ := segment.unique segment' same
      rw [inductionHypothesis rest' (List.append_cancel_left same)]

/-! ## The trace and the bus -/

variable {s t u : SdSpi} {left cnt : Nat} {token : UInt8} {txbuf : Nat → UInt8} {resp : SdResp} {phase : Poll}

/-- The card's answers from now on. -/
def answer (s : SdSpi) (i : Nat) : UInt8 := s.rx (s.pos + i)

/-- These bytes are exchanged. -/
structure Exchanges (bytes : List UInt8) (s t : SdSpi) : Prop where
  rx : t.rx = s.rx
  pos : t.pos = s.pos + bytes.length
  tx : t.tx = bytes.reverse ++ s.tx

/-- These events are recorded, and these bytes exchanged in which they are read off. -/
structure Carries (events : List SdEvent) (bytes : List UInt8) (s t : SdSpi) : Prop extends Exchanges bytes s t where
  grown : t.events = s.events ++ events
  traffic : Traffic s.answer events bytes

theorem Exchanges.refl (s : SdSpi) : Exchanges [] s s := ⟨rfl, rfl, rfl⟩

theorem Exchanges.trans (first : Exchanges bytes s t) (second : Exchanges behind t u) :
    Exchanges (bytes ++ behind) s u where
  rx := second.rx.trans first.rx
  pos := by rw [second.pos, first.pos, List.length_append, Nat.add_assoc]
  tx := by rw [second.tx, first.tx, List.reverse_append, List.append_assoc]

theorem Exchanges.answer (exchanges : Exchanges bytes s t) : t.answer = fun i => s.answer (bytes.length + i) := by
  funext i
  simp only [SdSpi.answer, exchanges.rx, exchanges.pos, Nat.add_assoc]

theorem Exchanges.record (exchanges : Exchanges bytes s t) (event : SdEvent) : Exchanges bytes s (t.record event) :=
  ⟨exchanges.rx, exchanges.pos, exchanges.tx⟩

theorem exchanges_send (bytes : List UInt8) : Exchanges bytes s (s.send bytes) := by
  induction bytes generalizing s with
  | nil => exact .refl s
  | cons byte bytes inductionHypothesis =>
    have first : Exchanges [byte] s (s.txrx byte).2 := ⟨rfl, rfl, rfl⟩
    exact first.trans inductionHypothesis

theorem exchanges_skip (count : Nat) : Exchanges (List.replicate count 0xFF) s (s.skip count) :=
  ⟨rfl, by simp, by simp [skip]⟩

/-- What the driver has done since is on the bus. -/
def Shows (s t : SdSpi) : Prop := ∃ events bytes, Carries events bytes s t

theorem Shows.refl (s : SdSpi) : s.Shows s := ⟨[], [], .refl s, (List.append_nil _).symm, .silence⟩

theorem Shows.trans (first : s.Shows t) (second : t.Shows u) : s.Shows u := by
  obtain ⟨events, bytes, first⟩ := first
  obtain ⟨later, behind, second⟩ := second
  have traffic := second.traffic
  rw [first.answer] at traffic
  refine ⟨events ++ later, bytes ++ behind, first.toExchanges.trans second.toExchanges, ?_,
    first.traffic.append traffic⟩
  rw [second.grown, first.grown, List.append_assoc]

theorem shows_skip (count : Nat) : s.Shows (s.skip count) :=
  ⟨[], List.replicate count 0xFF, exchanges_skip count, (List.append_nil _).symm, .idle count⟩

theorem shows_poll (phase : Poll) : s.Shows (s.poll phase).2 := by
  cases phase.answered_or s with
  | inl unanswered =>
    rw [poll_unanswered unanswered]
    exact shows_skip _
  | inr answered =>
    obtain ⟨k, answered⟩ := answered
    rw [poll_answered answered]
    exact shows_skip _

/-! ### Commands -/

/-- The frame of a command, and the garbage byte behind a stop. -/
theorem exchanges_ask (cmd arg : UInt32) :
    Exchanges (frame cmd arg ++ List.replicate (garbage cmd) 0xFF) (s.skip 2) (s.ask cmd arg) := by
  have sent : Exchanges (frame cmd arg) ((s.skip 2).record (.command cmd))
      (((s.skip 2).record (.command cmd)).send (frame cmd arg)) := exchanges_send (frame cmd arg)
  have asked : s.ask cmd arg = (((s.skip 2).record (.command cmd)).send (frame cmd arg)).skip (garbage cmd) := by
    rw [ask, garbage]
    split <;> rfl
  rw [asked]
  exact Exchanges.trans ⟨sent.rx, sent.pos, sent.tx⟩ (exchanges_skip _)

/-- The polls behind a command end with a response. -/
theorem poll_response (s : SdSpi) :
    ∃ count accepted, Response s.answer count accepted ∧ (s.poll .response).2 = s.skip count ∧
      (accepted = true ↔ ∃ r1, (s.poll .response).1 = some r1 ∧ r1 &&& SPI_RESP_R1_ILLG_CMD = 0 ∧
        r1 &&& SPI_RESP_R1_CRC_ERR = 0) := by
  cases Poll.response.answered_or s with
  | inl unanswered =>
    refine ⟨_, false, .timeout fun i less => unanswered i (Nat.lt_of_succ_lt less), ?_, ?_⟩ <;>
      simp [poll_unanswered unanswered]
  | inr answered =>
    obtain ⟨k, answered⟩ := answered
    by_cases last : k + 1 = Poll.response.attempts
    · refine ⟨_, false, .timeout fun i less => answered.first i (by omega), ?_, ?_⟩ <;>
        simp [poll_answered answered, last]
    · have early : k + 1 < Poll.response.attempts := Nat.lt_of_le_of_ne answered.attempt last
      refine ⟨_, _, .answered early answered.awaited answered.first, ?_, ?_⟩
      · simp [poll_answered answered]
      · rw [poll_answered answered, if_neg last, decide_eq_true_iff]
        simp [answer]

/-- A command shows, whatever the card answers. -/
theorem shows_sendCommand (cmd : UInt32) (short : cmd < 64) (arg : UInt32) (resp : SdResp) (s : SdSpi) :
    s.Shows (s.sendCommand cmd arg resp).2.2 := by
  rw [sendCommand]
  cases respLen resp with
  | none => exact shows_skip 2
  | some len =>
    apply (shows_skip 2).trans
    have asked := exchanges_ask (s := s) cmd arg
    have begun := ask_events (s := s) cmd arg
    obtain ⟨count, accepted, response, skipped, accepts⟩ := poll_response (s.ask cmd arg)
    rw [asked.answer] at response
    generalize s.ask cmd arg = t at asked begun response skipped accepts ⊢
    have segment : Segment (s.skip 2).answer
        (.command cmd :: if accepted then [.accepted cmd] else [])
        (frame cmd arg ++ List.replicate (garbage cmd + count) 0xFF) := .command short (by simpa using response)
    have traffic := segment.traffic
    have exchanged := asked.trans (exchanges_skip count)
    rw [List.append_assoc, List.replicate_append_replicate] at exchanged
    have refused (no : accepted = false) : (s.skip 2).Shows (t.skip count) := by
      subst no
      exact ⟨_, _, exchanged, begun, traffic⟩
    simp only
    split
    next u polled =>
      rw [polled] at skipped accepts
      obtain rfl : u = t.skip count := skipped
      exact refused (by simpa using accepts)
    next r1 u polled =>
      rw [polled] at skipped accepts
      obtain rfl : u = t.skip count := skipped
      split
      next illegal => exact refused (by simpa [illegal] using accepts)
      next legal =>
      split
      next broken => exact refused (by simpa [broken] using accepts)
      next intact =>
        obtain rfl : accepted = true := accepts.mpr ⟨r1, rfl, not_not.mp legal, not_not.mp intact⟩
        have shown : (s.skip 2).Shows ((t.skip count).record (.accepted cmd)) := by
          refine ⟨_, _, exchanged.record _, ?_, traffic⟩
          simp [record, begun]
        simp only [receive_eq]
        exact shown.trans (shows_skip (len - 1))

/-! ### Blocks -/

theorem shows_readData (len : UInt16) (s : SdSpi) : s.Shows (s.readData len).2.2 := by
  have polled := shows_poll (s := s) .startToken
  rw [readData]
  split
  next u none =>
    rw [none] at polled
    exact polled
  next resp u some =>
    rw [some] at polled
    simp only [receive_eq, txrx_wait, skip_skip]
    split <;> exact polled.trans (shows_skip _)

theorem shows_readBlocks (left : Nat) (s : SdSpi) : s.Shows (s.readBlocks left).2.2 := by
  induction left generalizing s with
  | zero => exact .refl s
  | succ left inductionHypothesis =>
    have block := shows_readData 512 s
    rw [readBlocks]
    split
    next data u read =>
      rw [read] at block
      exact block.trans (inductionHypothesis u)
    next err data u failed read =>
      rw [read] at block
      exact block

/-- A start token with its block. -/
theorem shows_transmit (start : token = SPI_START_SINGLE_BLOCK_WRITE ∨ token = SPI_START_MULTI_BLOCK_WRITE)
    (length : data.length = 512) (s : SdSpi) : s.Shows ((s.writeDataToken token).2.transmit data) := by
  have other : token ≠ SPI_STOP_MULTI_BLOCK_WRITE := by
    obtain rfl | rfl := start <;> decide
  have tokened : (s.writeDataToken token).2 = ((s.record (.token token)).txrx token).2 := by
    rw [writeDataToken, if_neg other]
  have sent : Exchanges (token :: protect data) (s.record (.token token))
    ((s.writeDataToken token).2.transmit data) := by
    rw [tokened]
    exact exchanges_send (token :: protect data)
  refine ⟨[.token token], token :: protect data, ⟨sent.rx, sent.pos, sent.tx⟩, ?_, ?_⟩
  · rw [transmit, send_events, writeDataToken_events]
  · exact (Segment.block start length).traffic

theorem shows_stop (s : SdSpi) : s.Shows (s.writeDataToken SPI_STOP_MULTI_BLOCK_WRITE).2 := by
  have sent : s.Shows ((s.record (.token SPI_STOP_MULTI_BLOCK_WRITE)).txrx SPI_STOP_MULTI_BLOCK_WRITE).2 :=
    ⟨_, _, ⟨rfl, rfl, rfl⟩, rfl, Segment.stop.traffic⟩
  have polled := sent.trans (shows_poll .ready)
  rw [writeDataToken, if_pos rfl]
  split
  next u none =>
    rw [none] at polled
    exact polled
  next resp u some =>
    rw [some] at polled
    exact polled

/-- The answers to a block are waited for. -/
theorem shows_writeData (data : List UInt8) (s : SdSpi) : (s.transmit data).Shows (s.writeData data).2 := by
  have polled := shows_poll (s := s.transmit data) .dataResponse
  rw [writeData]
  split
  next u none =>
    rw [none] at polled
    exact polled
  next resp u some =>
    rw [some] at polled
    have ready := polled.trans (shows_poll (s := u) .ready)
    simp only
    split
    · exact polled
    split
    · exact polled
    split
    next v none' =>
      rw [none'] at ready
      exact ready
    next resp v some' =>
      rw [some'] at ready
      exact ready

theorem nthBlock_length (txbuf : Nat → UInt8) (cnt : Nat) : (nthBlock txbuf cnt).length = 512 := by
  have every (count : Nat) (byte : Nat → UInt8) : ((List.range count).map byte).length = count := by simp
  unfold nthBlock
  exact every 512 _

theorem shows_writeBlocks (start : token = SPI_START_SINGLE_BLOCK_WRITE ∨ token = SPI_START_MULTI_BLOCK_WRITE)
    (txbuf : Nat → UInt8) (left cnt : Nat) (s : SdSpi) : s.Shows (s.writeBlocks token txbuf left cnt).2 := by
  induction left generalizing s cnt with
  | zero => exact .refl s
  | succ left inductionHypothesis =>
    have sent := shows_transmit start (nthBlock_length txbuf cnt) s
    have block := sent.trans (shows_writeData (nthBlock txbuf cnt) (s.writeDataToken token).2)
    simp only [writeBlocks]
    split
    next u written =>
      rw [written] at block
      exact block.trans (inductionHypothesis (cnt + 1) u)
    next err u failed written =>
      rw [written] at block
      exact block

/-! ### Calls -/

theorem shows_read (sector count : UInt32) (s : SdSpi) : s.Shows (s.read sector count).2.2 := by
  have status := shows_sendCommand CMD13 (by decide) 0 .r2 s
  rw [read]
  split
  next buf t ok =>
    rw [ok] at status
    split
    · exact status
    have begun := status.trans (shows_sendCommand (if count = 1 then CMD17 else CMD18)
      (by split <;> decide) (t.blockAddress sector) .r1 t)
    split
    next buf u ok =>
      rw [ok] at begun
      have blocks := begun.trans (shows_readBlocks count.toNat u)
      split
      next rxbuf v read =>
        rw [read] at blocks
        split
        · exact blocks.trans (shows_sendCommand CMD12 (by decide) 0 .r1b v)
        · exact blocks
      next err rxbuf v failed read =>
        rw [read] at blocks
        exact blocks
    next err buf u failed refused =>
      rw [refused] at begun
      exact begun
  next err buf t failed refused =>
    rw [refused] at status
    exact status

theorem shows_announce (sector count : UInt32) (s : SdSpi) : s.Shows (s.announce sector count).2.2 := by
  rw [announce]
  split
  · exact shows_sendCommand CMD24 (by decide) _ .r1 s
  · have application := shows_sendCommand CMD55 (by decide) 0 .r1 s
    split
    next buf t ok =>
      rw [ok] at application
      have erase := application.trans (shows_sendCommand ACMD23 (by decide) count .r1 t)
      split
      next buf u ok =>
        rw [ok] at erase
        exact erase.trans (shows_sendCommand CMD25 (by decide) _ .r1 u)
      next err buf u failed refused =>
        rw [refused] at erase
        exact erase
    next err buf t failed refused =>
      rw [refused] at application
      exact application

theorem shows_write (txbuf : Nat → UInt8) (sector count : UInt32) (s : SdSpi) :
    s.Shows (s.write txbuf sector count).2 := by
  have status := shows_sendCommand CMD13 (by decide) 0 .r2 s
  rw [write]
  split
  next buf t ok =>
    rw [ok] at status
    split
    · exact status
    have announced := status.trans (shows_announce sector count t)
    split
    next buf u ok =>
      rw [ok] at announced
      have start : (if count = 1 then SPI_START_SINGLE_BLOCK_WRITE else SPI_START_MULTI_BLOCK_WRITE) =
          SPI_START_SINGLE_BLOCK_WRITE ∨
            (if count = 1 then SPI_START_SINGLE_BLOCK_WRITE else SPI_START_MULTI_BLOCK_WRITE) =
              SPI_START_MULTI_BLOCK_WRITE := by
        split
        · exact Or.inl rfl
        · exact Or.inr rfl
      have blocks := announced.trans (shows_writeBlocks start txbuf count.toNat 0 u)
      simp only
      split
      next v written =>
        rw [written] at blocks
        split
        · exact blocks.trans (shows_stop v)
        · exact blocks
      next err v failed written =>
        rw [written] at blocks
        exact blocks
    next err buf u failed refused =>
      rw [refused] at announced
      exact announced
  next err buf t failed refused =>
    rw [refused] at status
    exact status

end SdSpi

end XinuStm32
