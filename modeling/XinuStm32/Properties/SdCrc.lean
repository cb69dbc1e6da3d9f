import XinuStm32.Lib.Crc
import XinuStm32.Properties.SdPolls

/-!
# The checksums of the SD card

The loops of `crc7` and `crc16` divide by their polynomials, a byte at a time. A block behind a start token passes
`read_data` with its own checksum, and no short burst of errors in it goes unnoticed, unless the token comes with the
last poll of the driver.
-/

namespace XinuStm32

open Polynomial Crc

/-- The bits of a buffer, in the order in which they are sent. -/
def bitsOfBuffer (buf : List UInt8) : List Bool := bitsOfBytes (buf.map UInt8.toBitVec)

theorem bitsOfBuffer_append (left right : List UInt8) :
    bitsOfBuffer (left ++ right) = bitsOfBuffer left ++ bitsOfBuffer right := by
  rw [bitsOfBuffer, List.map_append, bitsOfBytes, List.flatMap_append, ← bitsOfBytes, ← bitsOfBytes, ← bitsOfBuffer,
    ← bitsOfBuffer]

/-! ## The bytes as table entries -/

/-- What a byte leaves in the register of `crc16_one`. -/
def crc16Table (byte : BitVec 8) : BitVec 16 := (crc16One 0 (UInt8.ofBitVec byte)).toBitVec

/-- What a byte leaves in the register of `crc7_one`. -/
def crc7Table (byte : BitVec 8) : BitVec 8 := (crc7One 0 (UInt8.ofBitVec byte)).toBitVec

theorem crc16Table_isTable : IsTable 0x1021#16 crc16Table := by
  unfold IsTable
  decide +kernel

/-- The register of `crc7_one` keeps its seven bits one place too high. -/
theorem crc7Table_isTable : IsTable 0x12#8 crc7Table := by
  unfold IsTable
  decide +kernel

/-- A narrowing cast keeps the low byte. -/
theorem mod_256 (word : BitVec 16) : word % 256#16 = word &&& 255#16 := by
  apply BitVec.eq_of_toNat_eq
  rw [BitVec.toNat_umod, BitVec.toNat_and]
  exact (Nat.and_two_pow_sub_one_eq_mod word.toNat 8).symm

theorem crc16One_eq (crc : UInt16) (data : UInt8) :
    (crc16One crc data).toBitVec = byteStep crc16Table crc.toBitVec data.toBitVec := by
  obtain ⟨crc⟩ := crc
  obtain ⟨data⟩ := data
  apply BitVec.eq_of_getLsbD_eq
  intro power inside
  interval_cases power <;>
    simp [byteStep, crc16Table, crc16One, mod_256]


theorem crc7One_eq (crc data : UInt8) :
    (crc7One crc data).toBitVec = byteStep crc7Table crc.toBitVec data.toBitVec := by
  have gone : crc.toBitVec <<< 8 = 0#8 := BitVec.shiftLeft_eq_zero (Nat.le_refl 8)
  have highest : (crc.toBitVec >>> (8 - 8)).setWidth 8 ^^^ data.toBitVec = (crc ^^^ data).toBitVec := by simp
  rw [byteStep, gone, highest, crc7Table, crc7One, crc7One, BitVec.zero_xor]
  simp


/-! ## The remainders -/

theorem ofBitVec_crc16 : generator 0x1021#16 = X ^ 16 + X ^ 12 + X ^ 5 + 1 := by
  have low : ofBitVec 0x1021#16 = X ^ 12 + X ^ 5 + 1 := by
    simp [ofBitVec, ofBits, bitsOf, coefficient, List.range_succ]
    ring
  rw [generator, low]
  ring

theorem ofBitVec_crc7 : generator 0x12#8 = X * (X ^ 7 + X ^ 3 + 1) := by
  have low : ofBitVec 0x12#8 = X ^ 4 + X := by
    simp [ofBitVec, ofBits, bitsOf, coefficient, List.range_succ]
  rw [generator, low]
  ring

theorem crc16_fold (buf : List UInt8) :
    (crc16 buf).toBitVec = (buf.map UInt8.toBitVec).foldl (byteStep crc16Table) 0#16 := by
  rw [List.foldl_map, crc16]
  exact (List.foldl_hom UInt16.toBitVec fun crc data => (crc16One_eq crc data).symm).symm

theorem crc7_fold (buf : List UInt8) :
    (buf.foldl crc7One 0).toBitVec = (buf.map UInt8.toBitVec).foldl (byteStep crc7Table) 0#8 := by
  rw [List.foldl_map]
  exact (List.foldl_hom UInt8.toBitVec fun crc data => (crc7One_eq crc data).symm).symm

theorem crc16_divides (buf : List UInt8) :
    ofBitVec (crc16 buf).toBitVec = ofBits (bitsOfBuffer buf) * X ^ 16 %ₘ generator 0x1021#16 := by
  apply eq_modByMonic
  obtain ⟨quotient, divided⟩ := ofBitVec_byteSteps crc16Table_isTable (by decide) 0#16 (buf.map UInt8.toBitVec)
  rw [ofBitVec_zero, zero_mul, zero_add, ← crc16_fold, ← bitsOfBuffer] at divided
  exact ⟨quotient, divided⟩

/-- The register of `crc7_one` is a multiple of `X`. -/
theorem ofBitVec_crc7_register {register : BitVec 8} {bits : List Bool} {quotient : (ZMod 2)[X]}
    (divided : ofBits bits * X ^ 8 = ofBitVec register + X * (X ^ 7 + X ^ 3 + 1) * quotient) :
    ofBitVec register = X * ofBitVec (register >>> 1) := by
  have lowest : coefficient (register.getLsbD 0) = 0 := by
    have coefficients := congrArg (fun poly => poly.coeff 0) divided
    simpa using coefficients.symm
  ext power
  cases power with
  | zero => rw [coeff_X_mul_zero, coeff_ofBitVec, lowest]
  | succ power => rw [coeff_X_mul, coeff_ofBitVec, coeff_ofBitVec, BitVec.getLsbD_ushiftRight, Nat.add_comm]

theorem crc7_divides (buf : List UInt8) :
    ofBitVec (crc7 buf).toBitVec = ofBits (bitsOfBuffer buf) * X ^ 7 %ₘ (X ^ 7 + X ^ 3 + 1) := by
  obtain ⟨quotient, divided⟩ := ofBitVec_byteSteps crc7Table_isTable (by decide) 0#8 (buf.map UInt8.toBitVec)
  rw [ofBitVec_zero, zero_mul, zero_add, ← crc7_fold, ← bitsOfBuffer, ofBitVec_crc7] at divided
  have shifted := ofBitVec_crc7_register divided
  rw [shifted, mul_assoc] at divided
  have cancelled : ofBits (bitsOfBuffer buf) * X ^ 7 =
      ofBitVec ((buf.foldl crc7One 0).toBitVec >>> 1) + (X ^ 7 + X ^ 3 + 1) * quotient := by
    apply mul_left_cancel₀ (X_ne_zero (R := ZMod 2))
    linear_combination divided
  have degree : (X ^ 7 + X ^ 3 + 1 : (ZMod 2)[X]).degree = (7 : Nat) := by compute_degree!
  symm
  apply (div_modByMonic_unique quotient _ (by monicity!) ⟨cancelled.symm, ?_⟩).2
  rw [degree, degree_lt_iff_coeff_zero]
  intro power above
  rw [coeff_ofBitVec, BitVec.getLsbD_ushiftRight, BitVec.getLsbD_of_ge _ _ (by omega)]
  rfl

/-! ## Blocks with their checksum -/

namespace SdSpi

variable {s : SdSpi} {len : UInt16} {data block : List UInt8} {k : Nat}

/-- What the card answers to the next exchanges. -/
def answers (count : Nat) (s : SdSpi) : List UInt8 := (List.range count).map fun i => s.rx (s.pos + i)

@[simp] theorem length_answers (count : Nat) : (s.answers count).length = count := by simp [answers]

theorem answers_succ (count : Nat) : s.answers (count + 1) = s.rx s.pos :: (s.skip 1).answers count := by
  simp only [answers, List.range_succ_eq_map, List.map_cons, List.map_map, Nat.add_zero]
  congr 1
  apply List.map_congr_left
  intro i _
  simp only [Function.comp, skip_rx, skip_pos]
  congr 1
  omega

theorem receive_eq (count : Nat) : s.receive count = (s.answers count, s.skip count) := by
  induction count generalizing s with
  | zero => rfl
  | succ count inductionHypothesis =>
    rw [receive, txrx_wait, answers_succ]
    simp only [inductionHypothesis, skip_skip, Nat.add_comm 1 count]

theorem answers_add (first second : Nat) :
    s.answers (first + second) = s.answers first ++ (s.skip first).answers second := by
  induction first generalizing s with
  | zero => rw [Nat.zero_add]; rfl
  | succ first inductionHypothesis =>
    rw [Nat.add_right_comm, answers_succ, inductionHypothesis, answers_succ, skip_skip, Nat.add_comm 1 first]
    rfl

/-- A buffer with its checksum, as both sides send it. -/
def protect (data : List UInt8) : List UInt8 := data ++ [(crc16 data >>> 8).toUInt8, (crc16 data).toUInt8]

/-- The card sends its start token when it is polled for the `k`th time, the first time being zero, and then these
bytes. -/
structure Sends (k : Nat) (block : List UInt8) (s : SdSpi) : Prop where
  token : Poll.startToken.AnsweredOn k s
  bytes : (s.skip (k + 1)).answers block.length = block

/-- The two bytes that `read_data` compares with `crc16`. -/
def checksum (high low : UInt8) : UInt16 := high.toUInt16 <<< 8 ||| low.toUInt16

theorem bitsOfBuffer_checksum (high low : UInt8) : bitsOfBuffer [high, low] = bitsOf (checksum high low).toBitVec := by
  obtain ⟨high⟩ := high
  obtain ⟨low⟩ := low
  simp [bitsOfBuffer, bitsOfBytes, bitsOf, List.range_succ, checksum]

theorem checksum_split (crc : UInt16) : checksum (crc >>> 8).toUInt8 crc.toUInt8 = crc := by
  obtain ⟨crc⟩ := crc
  apply UInt16.eq_of_toBitVec_eq
  apply BitVec.eq_of_getLsbD_eq
  intro power inside
  interval_cases power <;> simp [checksum, mod_256]

theorem read_data_block (high low : UInt8) (length : data.length = len.toNat)
    (sends : s.Sends k (data ++ [high, low])) (early : k + 1 < Poll.startToken.attempts) :
    (s.readData len).1 = (if checksum high low ≠ crc16 data then .dcrcfail else .ok) ∧ (s.readData len).2.1 = data := by
  obtain ⟨answered, bytes⟩ := sends
  rw [List.length_append, answers_add] at bytes
  obtain ⟨stored, behind⟩ := List.append_inj bytes (by simp)
  rw [length] at stored behind
  simp only [List.length_cons, answers_succ, List.cons.injEq] at behind
  obtain ⟨isHigh, isLow, _⟩ := behind
  have polled := poll_answered answered
  rw [if_neg (by omega)] at polled
  have joined : high.toUInt16 <<< 8 ||| low.toUInt16 = checksum high low := rfl
  simp only [readData, polled, receive_eq, stored, txrx_wait, isHigh, isLow, joined]
  by_cases same : checksum high low = crc16 data
  · rw [if_neg (not_not.mpr same), if_neg (not_not.mpr same)]
    exact ⟨rfl, rfl⟩
  · rw [if_pos same, if_pos same]
    exact ⟨rfl, rfl⟩

/-- A block is accepted exactly when it is, with its checksum, a multiple of the generator. -/
theorem read_data_dvd (high low : UInt8) (length : data.length = len.toNat)
    (sends : s.Sends k (data ++ [high, low])) (early : k + 1 < Poll.startToken.attempts) :
    (s.readData len).1 = .ok ∧ generator 0x1021#16 ∣ ofBits (bitsOfBuffer (data ++ [high, low])) ∨
      (s.readData len).1 = .dcrcfail ∧ ¬generator 0x1021#16 ∣ ofBits (bitsOfBuffer (data ++ [high, low])) := by
  have read := (read_data_block high low length sends early).1
  rw [bitsOfBuffer_append, bitsOfBuffer_checksum, dvd_append_iff (crc16_divides data), UInt16.toBitVec_inj]
  by_cases same : checksum high low = crc16 data
  · rw [if_neg (not_not.mpr same)] at read
    exact Or.inl ⟨read, same⟩
  · rw [if_pos same] at read
    exact Or.inr ⟨read, same⟩

theorem protect_dvd (data : List UInt8) : generator 0x1021#16 ∣ ofBits (bitsOfBuffer (protect data)) := by
  rw [protect, bitsOfBuffer_append, bitsOfBuffer_checksum, dvd_append_iff (crc16_divides data), checksum_split]

/-- A block that a burst has reached has the length of what was sent. -/
theorem burst_block {span : Nat} (burst : Burst span (bitsOfBuffer (protect data)) (bitsOfBuffer block)) :
    ∃ data' high low, block = data' ++ [high, low] ∧ data'.length = data.length := by
  obtain ⟨front, wrong, wrong', back, sent, received, same, _, _⟩ := burst
  have lengths : (bitsOfBuffer (protect data)).length = (bitsOfBuffer block).length := by
    rw [sent, received]
    simp [same]
  rw [bitsOfBuffer, bitsOfBuffer, length_bitsOfBytes, length_bitsOfBytes, List.length_map, List.length_map, protect,
    List.length_append] at lengths
  simp only [List.length_cons, List.length_nil] at lengths
  obtain ⟨high, low, ending⟩ := List.length_eq_two.mp (show (block.drop data.length).length = 2 by simp; omega)
  refine ⟨block.take data.length, high, low, ?_, by simp; omega⟩
  rw [← ending, List.take_append_drop]

/-! ## What `read_data` makes of a block -/

/-- `read_data` accepts the block if it has the checksum of the data, and rejects it if a burst of no more than sixteen
bits has reached it. -/
structure Judges (s : SdSpi) (len : UInt16) (data block : List UInt8) : Prop where
  accepts : block = protect data → (s.readData len).1 = .ok ∧ (s.readData len).2.1 = data
  rejects : Burst 16 (bitsOfBuffer (protect data)) (bitsOfBuffer block) → (s.readData len).1 = .dcrcfail

theorem judges_of_early (length : data.length = len.toNat) (sends : s.Sends k block)
    (early : k + 1 < Poll.startToken.attempts) : s.Judges len data block := by
  constructor
  · rintro rfl
    have read := read_data_block _ _ length sends early
    rw [checksum_split, if_neg (not_not.mpr rfl)] at read
    exact read
  · intro burst
    obtain ⟨data', high, low, rfl, length'⟩ := burst_block burst
    have reached := burst.not_dvd (by decide) (protect_dvd data)
    cases read_data_dvd high low (length'.trans length) sends early with
    | inl accepted => exact absurd accepted.2 reached
    | inr rejected => exact rejected.1

/-- A token on the last attempt is taken for none, whatever follows it. -/
theorem read_data_late (late : Poll.startToken.Late s) : (s.readData len).1 = .dtimeout := by
  have attempts := Poll.startToken.attempts_pos
  have polled := poll_answered late
  rw [if_pos (by omega)] at polled
  rw [readData, polled]

/-- The checksums are the remainders of the message, shifted by their width, by their polynomials. A block that is sent
with its own checksum is accepted, and one that a burst of no more than sixteen bits has reached is not, exactly when
its start token does not come on the last attempt. -/
theorem checksums_divide_and_detect_iff (s : SdSpi) {len : UInt16} {data block : List UInt8} {k : Nat}
    (length : data.length = len.toNat) (sends : s.Sends k block)
    (sent : block = protect data ∨ Burst 16 (bitsOfBuffer (protect data)) (bitsOfBuffer block)) :
    (∀ buf, ofBitVec (crc16 buf).toBitVec = ofBits (bitsOfBuffer buf) * X ^ 16 %ₘ (X ^ 16 + X ^ 12 + X ^ 5 + 1)) ∧
      (∀ buf, ofBitVec (crc7 buf).toBitVec = ofBits (bitsOfBuffer buf) * X ^ 7 %ₘ (X ^ 7 + X ^ 3 + 1)) ∧
      (s.Judges len data block ↔ ¬Poll.startToken.Late s) := by
  refine ⟨?_, crc7_divides, ?_⟩
  · intro buf
    rw [← ofBitVec_crc16]
    exact crc16_divides buf
  · have attempt := sends.token.attempt
    constructor
    · intro judges late
      have timeout := @read_data_late s len late
      cases sent with
      | inl whole =>
        have accepted := (judges.accepts whole).1
        rw [timeout] at accepted
        cases accepted
      | inr burst =>
        have rejected := judges.rejects burst
        rw [timeout] at rejected
        cases rejected
    · intro early
      apply judges_of_early length sends
      by_contra last
      apply early
      rw [Poll.Late, show Poll.startToken.attempts - 1 = k by omega]
      exact sends.token

/-- A card that keeps the driver waiting for a while, and then sends its start token and a block. -/
def blockCard (wait : Nat) (block : List UInt8) : SdSpi where
  type := .sdhc
  rx := fun pos => if pos < wait then 0xFF else (SPI_START_BLOCK_READ :: block).getD (pos - wait) 0xFF
  pos := 0
  tx := []
  selected := true
  events := []

theorem blockCard_sends (wait : Nat) (attempt : wait < Poll.startToken.attempts) (block : List UInt8) :
    (blockCard wait block).Sends wait block := by
  constructor
  · refine ⟨attempt, ?_, fun i less => ?_⟩
    · simp [blockCard, Poll.awaited]
    · simp [blockCard, Poll.awaited, less]
  · apply List.ext_getElem (by simp)
    intro i _ inside
    have behind : ¬wait + 1 + i < wait := by omega
    have place : wait + 1 + i - wait = i + 1 := by omega
    simp only [answers, blockCard, skip, List.getElem_map, List.getElem_range, Nat.zero_add, if_neg behind, place,
      List.getD_cons_succ]
    exact List.getD_eq_getElem _ _ inside

/-- A block of one byte with its checksum is accepted, and the same one with all bits of the byte inverted is not. -/
theorem checksums_divide_and_detect_byte :
    ((blockCard 3 (protect [0x5A])).readData 1).1 = .ok ∧
      ((blockCard 3 (0xA5 :: (protect [0x5A]).tail)).readData 1).1 = .dcrcfail := by
  have burst : Burst 16 (bitsOfBuffer (protect [0x5A])) (bitsOfBuffer (0xA5 :: (protect [0x5A]).tail)) :=
    ⟨[], bitsOf 0x5A#8, bitsOf 0xA5#8, bitsOfBuffer (protect [0x5A]).tail, by decide, by decide, by decide, by decide,
      by decide⟩
  have early (block : List UInt8) : ¬Poll.startToken.Late (blockCard 3 block) := by
    intro late
    have same := late.unique (blockCard_sends 3 (by decide) block).token
    exact absurd same (by decide)
  have length : ([0x5A] : List UInt8).length = (1 : UInt16).toNat := rfl
  have accepts := (checksums_divide_and_detect_iff _ length (blockCard_sends 3 (by decide) _) (Or.inl rfl)).2.2.mpr
    (early _)
  have rejects := (checksums_divide_and_detect_iff _ length (blockCard_sends 3 (by decide) _) (Or.inr burst)).2.2.mpr
    (early _)
  exact ⟨(accepts.accepts rfl).1, rejects.rejects burst⟩

/-- A card that sends the token on the last attempt has its block refused. -/
theorem late_block_refused :
    ¬∀ (s : SdSpi) (len : UInt16) (data block : List UInt8) (k : Nat), data.length = len.toNat → s.Sends k block →
      s.Judges len data block := by
  intro all
  have sends := blockCard_sends 99999 (by decide) (protect [0x5A])
  have judges := all (blockCard 99999 (protect [0x5A])) 1 [0x5A] _ _ rfl sends
  have accepted := (judges.accepts rfl).1
  rw [read_data_late sends.token] at accepted
  cases accepted

end SdSpi

end XinuStm32
