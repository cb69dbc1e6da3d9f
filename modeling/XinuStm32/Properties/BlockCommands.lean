import XinuStm32.Abstract.BlockTransfer
import XinuStm32.Refinement.Msc
import XinuStm32.Lib.Transition

/-!
# The block commands of the mass-storage device

In a run whose block commands ask for sectors of the card, at least one, and whose packets of data fit in the buffer,
the driver carries out every transfer as it is told: the flash is what the wrappers and the data make of it, and what is
sent is read from it. The driver itself checks neither.
-/

namespace XinuStm32.Msc

open Patch Transition

/-- What the driver relies on in an event: a block command that it accepts is about one or more sectors of the card, and
a packet of data ends within the buffer. -/
def Sound : Event → Device → Prop
  | .rx packet _, s =>
    (s.bot.state = .idle → ∀ bytes, delivered packet = some bytes → bytes.length = 31 → (wrapper bytes).Valid →
      BlockCommand (wrapper bytes) → 0 < (be16 (wrapper bytes).CB 7).toNat ∧
        (be32 (wrapper bytes).CB 2).toNat + (be16 (wrapper bytes).CB 7).toNat ≤ card_size.toNat) ∧
    (s.bot.state = .dataWrite →
      0 ≤ behindPacket packet s.bot.fpos ∧ behindPacket packet s.bot.fpos ≤ (SECTOR_SIZE : Int))
  | _, _ => True

/-- The bytes in the buffer. -/
def Bot.held (bot : Bot) : List UInt8 := (List.range bot.fpos.toNat).map bot.buff

theorem Bot.length_held (bot : Bot) : bot.held.length = bot.fpos.toNat := by
  rw [held, List.length_map, List.length_range]

theorem Bot.getD_held (bot : Bot) {i : Nat} (inside : i < bot.fpos.toNat) : bot.held.getD i 0 = bot.buff i := by
  rw [held, List.getD_eq_getElem _ _ (by simpa using inside), List.getElem_map, List.getElem_range]

theorem Bot.held_empty {bot : Bot} (fpos : bot.fpos = 0) : bot.held = [] := by
  rw [held, fpos]
  rfl

/-! ## The driver within a transfer -/

/-- A block command, so many of whose sectors have been moved. -/
structure Moving (s : Device) (earlier : List Output) (cbw : Cbw) (moves : List Output) (done : Nat) : Prop where
  since : Since s.log earlier cbw moves
  inside : cbw.address + cbw.count ≤ 31250
  sectors : sectors moves = List.range' cbw.address done
  lba : s.bot.lba.toNat = cbw.address + done
  lbn : s.bot.lbn.toNat + done = cbw.count

/-- In `bot_data_read`, what has been sent and what is in the buffer are the sectors so far. -/
structure Reading (cells : Nat → UInt8) (s : Device) (earlier : List Output) (cbw : Cbw) (moves : List Output)
    (done : Nat) : Prop extends Moving s earlier cbw moves done where
  opCode : cbw.CB 0 = 0x28
  state : s.bot.state = .dataRead
  before : image cells earlier = s.flash.cells
  disk : image cells s.log = s.flash.cells
  sent : sentData moves ++ s.bot.held =
    (List.range (done * SECTOR_SIZE)).map fun i => s.flash.cells (cbw.address * SECTOR_SIZE + i)
  fpos : s.bot.fpos.toNat ≤ SECTOR_SIZE
  more : s.bot.fpos = 0 → done < cbw.count

/-- In `bot_data_write`, the sectors so far are in the flash, and what has come since is in the buffer. -/
structure Writing (cells : Nat → UInt8) (s : Device) (earlier : List Output) (cbw : Cbw) (moves : List Output)
    (done : Nat) : Prop extends Moving s earlier cbw moves done where
  opCode : cbw.CB 0 = 0x2A
  state : s.bot.state = .dataWrite
  disk : Disk.replay ⟨cells, 0, []⟩ s.log = ⟨s.flash.cells, (cbw.address + done) * SECTOR_SIZE, s.bot.held⟩
  received : ∃ stored, receivedData moves = stored ++ s.bot.held ∧ stored.length = done * SECTOR_SIZE
  patched : s.flash.cells = patch (cbw.address * SECTOR_SIZE) (done * SECTOR_SIZE)
    (fun i => (receivedData moves).getD i 0) (image cells earlier)
  fpos : s.bot.fpos.toNat < SECTOR_SIZE
  more : done < cbw.count

/-- Where the driver is, with the command that it carries out. -/
inductive Stands (cells : Nat → UInt8) (s : Device) : Prop where
  | idle (state : s.bot.state = .idle) (fpos : s.bot.fpos = 0)
  | answered (state : s.bot.state = .csw) (fpos : s.bot.fpos = 0) (complete : Complete cells s.log)
  | data (state : s.bot.state = .data) (fpos : s.bot.fpos.toNat ≤ SECTOR_SIZE)
      (other : ∃ earlier cbw moves, Since s.log earlier cbw moves ∧ ¬BlockCommand cbw)
  | read {earlier moves : List Output} {cbw : Cbw} {done : Nat} (reading : Reading cells s earlier cbw moves done)
  | write {earlier moves : List Output} {cbw : Cbw} {done : Nat} (writing : Writing cells s earlier cbw moves done)

/-- The flash is the disk of the log, and the log is as it should be. -/
structure Linked (cells : Nat → UInt8) (s : Device) : Prop where
  ok : BlockCommandsOk cells s.log
  disk : image cells s.log = s.flash.cells
  stands : Stands cells s

variable {cells : Nat → UInt8} {log earlier moves : List Output} {cbw : Cbw} {done : Nat} {s : Device}

/-- An answer without sectors or data, behind the status of a command or a wrapper. -/
theorem image_plain {output : Output} (plain : ∀ disk : Disk, disk.take output = disk) :
    image cells (log ++ [output]) = image cells log := by
  rw [image, Disk.replay_append]
  exact congrArg Disk.cells (plain _)

theorem BlockCommandsOk.plain {output : Output} (ok : BlockCommandsOk cells log)
    (sector : ∀ lba lbn, output ≠ .sector lba lbn) (status : ∀ csw, output ≠ .status csw) :
    BlockCommandsOk cells (log ++ [output]) :=
  ok.snoc (fun lba lbn same => absurd same (sector lba lbn)) fun csw same => absurd same (status csw)

/-- A command that is no block command has nothing to move. -/
theorem complete_of_other (since : Since log earlier cbw moves) (other : ¬BlockCommand cbw) : Complete cells log := by
  intro earlier' cbw' moves' since' command
  obtain ⟨-, rfl, -⟩ := since.unique since'
  exact absurd command other

theorem complete_of_exact (since : Since log earlier cbw moves) (exact : Exact cells earlier cbw moves) :
    Complete cells log := by
  intro earlier' cbw' moves' since' _
  obtain ⟨rfl, rfl, rfl⟩ := since.unique since'
  exact exact

theorem toNat_succ {lba : UInt32} (small : lba.toNat < 31250) : (lba + 1).toNat = lba.toNat + 1 := by
  rw [UInt32.toNat_add]
  change (lba.toNat + 1) % 2 ^ 32 = _
  omega

theorem toNat_pred {lbn : UInt32} (some : 0 < lbn.toNat) : (lbn - 1).toNat = lbn.toNat - 1 := by
  have one : (1 : UInt32) ≤ lbn := by
    rw [UInt32.le_iff_toNat_le]
    exact some
  rw [UInt32.toNat_sub_of_le _ _ one]
  rfl

theorem toNat_ne_zero {word : UInt32} (some : word ≠ 0) : 0 < word.toNat :=
  Nat.pos_of_ne_zero fun zero => some (UInt32.toNat_inj.mp zero)

/-- A sector of the card is moved. -/
theorem Moving.sector (moving : Moving s earlier cbw moves done) (more : done < cbw.count)
    (ok : BlockCommandsOk cells s.log) :
    BlockCommandsOk cells (s.log ++ [.sector s.bot.lba s.bot.lbn]) := by
  have inside := moving.inside
  have lba := moving.lba
  have lbn := moving.lbn
  apply ok.snoc
  · intro lba' lbn' same
    obtain ⟨rfl, rfl⟩ := Output.sector.inj same
    constructor
    · rw [UInt32.lt_iff_toNat_lt]
      change s.bot.lba.toNat < 31250
      omega
    · intro zero
      rw [zero] at lbn
      change 0 + done = _ at lbn
      omega
  · intro csw same
    cases same

/-- And the counters go on. -/
theorem Moving.next (moving : Moving s earlier cbw moves done) (more : done < cbw.count) (bot : Bot) (flash : W25q)
    (lba : bot.lba = s.bot.lba + 1) (lbn : bot.lbn = s.bot.lbn - 1) :
    Moving ⟨bot, flash, s.log ++ [.sector s.bot.lba s.bot.lbn]⟩ earlier cbw (moves ++ [.sector s.bot.lba s.bot.lbn])
      (done + 1) := by
  have inside := moving.inside
  have lba' := moving.lba
  have lbn' := moving.lbn
  constructor
  · exact moving.since.snoc _ fun other same => by cases same
  · exact inside
  · rw [sectors_snoc, moving.sectors, List.range'_concat, Nat.one_mul, ← lba']
    rfl
  · change bot.lba.toNat = _
    rw [lba, toNat_succ (by omega), lba', Nat.add_assoc]
  · change bot.lbn.toNat + _ = _
    rw [lbn, toNat_pred (by omega)]
    omega

/-! ## `bot_tx` -/

/-- A sector is fetched when the last one has been sent. -/
theorem Reading.fetch (reading : Reading cells s earlier cbw moves done) (empty : s.bot.fpos = 0) :
    Reading cells (fetch s) earlier cbw (moves ++ [.sector s.bot.lba s.bot.lbn]) (done + 1) := by
  have more := reading.more empty
  have inside := reading.inside
  have lba := reading.lba
  have one : s.bot.lba.toNat + 1 ≤ 32768 := by omega
  have fetched : s.flash.diskRead s.bot.lba 1 =
      (List.range SECTOR_SIZE).map fun i => s.flash.cells (s.bot.lba.toNat * 512 + i) := by
    have loop := W25q.diskReadLoop_inside (s := s.flash) one
    rwa [Nat.one_mul] at loop
  have flash : (Msc.fetch s).flash = s.flash := by simp only [Msc.fetch, Device.emit]
  have buff : (Msc.fetch s).bot.buff = store 0 (s.flash.diskRead s.bot.lba 1) s.bot.buff := by
    simp only [Msc.fetch, Device.emit]
  constructor
  · exact reading.toMoving.next more _ _ rfl rfl
  · exact reading.opCode
  · rw [Msc.fetch]
    exact reading.state
  · exact reading.before.trans (congrArg W25q.cells flash.symm)
  · have shown : image cells (Msc.fetch s).log = image cells s.log := image_plain fun _ => rfl
    exact (shown.trans reading.disk).trans (congrArg W25q.cells flash.symm)
  · have sent := reading.sent
    rw [Bot.held_empty empty, List.append_nil] at sent
    have held : (Msc.fetch s).bot.held =
        (List.range SECTOR_SIZE).map fun i => s.flash.cells (cbw.address * SECTOR_SIZE + (done * SECTOR_SIZE + i)) := by
      apply List.map_congr_left
      intro i member
      have within : i < 512 := List.mem_range.mp member
      rw [buff, fetched, store, if_pos ⟨Nat.zero_le i, by simpa using within⟩]
      have place : s.bot.lba.toNat * 512 + i = cbw.address * SECTOR_SIZE + (done * SECTOR_SIZE + i) := by
        rw [lba]
        change _ = cbw.address * 512 + (done * 512 + i)
        omega
      rw [List.getD_eq_getElem _ _ (by simpa using within), List.getElem_map, List.getElem_range, Nat.sub_zero, place]
    have silent : sentData [.sector s.bot.lba s.bot.lbn] = [] := rfl
    rw [flash]
    rw [sentData_snoc, held, sent, silent, List.append_nil, Nat.succ_mul, List.range_add, List.map_append,
      List.map_map]
    rfl
  · exact Nat.le_refl 512
  · intro zero
    cases zero

/-- `bot_data_read` with something to send. -/
theorem Linked.sendRead (reply : Reply) (ok : BlockCommandsOk cells s.log)
    (reading : Reading cells s earlier cbw moves done)
    (left : s.bot.fpos ≠ 0) : Linked cells (endRead (transmit reply s).2) := by
  cases transmit_cases reply s with
  | inl none =>
    rw [none.2, endRead, if_neg fun both => left both.2]
    exact ⟨ok, reading.disk, .read reading⟩
  | inr some =>
    obtain ⟨bytes, buff, fpos', _, _, content, sent⟩ := some
    have count := sent_length content
    have ok' : BlockCommandsOk cells (s.log ++ [.sent bytes]) := by
      apply ok.plain
      · exact fun lba lbn same => by cases same
      · exact fun csw same => by cases same
    have disk : image cells (s.log ++ [.sent bytes]) = s.flash.cells := by
      rw [← reading.disk]
      exact image_plain fun _ => rfl
    have since := reading.since.snoc (.sent bytes) fun other same => by cases same
    have whole : sentData (moves ++ [.sent bytes]) ++ (List.range fpos'.toNat).map buff =
        (List.range (done * SECTOR_SIZE)).map fun i => s.flash.cells (cbw.address * SECTOR_SIZE + i) := by
      rw [← reading.sent, sentData_snoc, Bot.held, ← content, List.append_assoc]
      simp [sentData]
    have moved : sectors (moves ++ [.sent bytes]) = List.range' cbw.address done := by
      rw [sectors_snoc, reading.sectors]
      exact List.append_nil _
    have lbn := reading.lbn
    rw [sent, endRead]
    by_cases last : s.bot.lbn = 0 ∧ fpos' = 0
    · rw [if_pos last]
      have all : done = cbw.count := by
        rw [last.1] at lbn
        exact (Nat.zero_add done).symm.trans lbn
      refine ⟨ok', disk, .answered rfl last.2 (complete_of_exact since ?_)⟩
      constructor
      · rw [moved, all]
      · intro _
        rw [last.2] at whole
        rw [reading.before, ← all, ← whole]
        exact (List.append_nil _).symm
      · intro writes
        rw [reading.opCode] at writes
        cases writes
    · rw [if_neg last]
      refine ⟨ok', disk, .read ⟨⟨since, reading.inside, moved, reading.lba, lbn⟩, reading.opCode, reading.state,
        reading.before, disk, whole, ?_, ?_⟩⟩
      · exact (Nat.le_of_add_right_le (Nat.le_of_eq count)).trans reading.fpos
      · intro empty
        have some := toNat_ne_zero fun zero => last ⟨zero, empty⟩
        change done < cbw.count
        omega

theorem Linked.tx (reply : Reply) (linked : Linked cells s) : Linked cells (botTx reply s) := by
  obtain ⟨ok, disk, stands⟩ := linked
  cases stands with
  | idle state fpos =>
    have result : botTx reply s = s := by rw [botTx, state]
    rw [result]
    exact ⟨ok, disk, .idle state fpos⟩
  | answered state fpos complete =>
    have result : botTx reply s = { s.emit (.status s.bot.csw) with bot := { s.bot with state := .idle } } := by
      rw [botTx, state]
    rw [result]
    refine ⟨?_, ?_, .idle rfl fpos⟩
    · apply ok.snoc
      · exact fun lba lbn same => by cases same
      · exact fun csw _ => complete
    · change image cells (s.log ++ [.status s.bot.csw]) = s.flash.cells
      rw [← disk]
      exact image_plain fun _ => rfl
  | data state fpos other =>
    have result : botTx reply s = endData (transmit reply s).1 (transmit reply s).2 := by rw [botTx, state]
    rw [result, endData]
    cases transmit_cases reply s with
    | inl none =>
      rw [none.2, if_neg fun both => absurd both.1 (Int.not_lt.mpr none.1)]
      exact ⟨ok, disk, .data state fpos other⟩
    | inr some =>
      obtain ⟨bytes, buff, fpos', positive, _, content, sent⟩ := some
      obtain ⟨earlier, cbw, moves, since, other⟩ := other
      have since' := since.snoc (.sent bytes) fun other same => by cases same
      have ok' : BlockCommandsOk cells (s.log ++ [.sent bytes]) := by
        apply ok.plain
        · exact fun lba lbn same => by cases same
        · exact fun csw same => by cases same
      have disk' : image cells (s.log ++ [.sent bytes]) = s.flash.cells := by
        rw [← disk]
        exact image_plain fun _ => rfl
      rw [sent]
      by_cases all : fpos' = 0
      · rw [if_pos ⟨positive, all⟩]
        exact ⟨ok', disk', .answered rfl all (complete_of_other since' other)⟩
      · rw [if_neg fun both => all both.2]
        exact ⟨ok', disk', .data state ((Nat.le_of_add_right_le (Nat.le_of_eq (sent_length content))).trans fpos)
          ⟨_, _, _, since', other⟩⟩
  | read reading =>
    have result : botTx reply s = endRead (transmit reply (if s.bot.fpos = 0 then Msc.fetch s else s)).2 := by
      rw [botTx, reading.state]
    rw [result]
    by_cases empty : s.bot.fpos = 0
    · rw [if_pos empty]
      apply sendRead reply _ (reading.fetch empty)
      · intro zero
        cases zero
      · exact reading.toMoving.sector (reading.more empty) ok
    · rw [if_neg empty]
      exact sendRead reply ok reading empty
  | write writing =>
    have result : botTx reply s = s := by rw [botTx, writing.state]
    rw [result]
    exact ⟨ok, disk, .write writing⟩

/-! ## The commands -/

/-- A command that ends at once. -/
theorem Linked.status (reply : Reply) {bot : Bot} (ok : BlockCommandsOk cells s.log)
    (disk : image cells s.log = s.flash.cells) (state : bot.state = .csw) (fpos : bot.fpos = 0)
    (complete : Complete cells s.log) : Linked cells (botTx reply { s with bot := bot }) := by
  have linked : Linked cells { s with bot := bot } := ⟨ok, disk, .answered state fpos complete⟩
  exact linked.tx reply

theorem Linked.answer (reply : Reply) {bytes : List UInt8} (few : bytes.length ≤ 36) (ok : BlockCommandsOk cells s.log)
    (disk : image cells s.log = s.flash.cells) (since : Since s.log earlier cbw moves) (other : ¬BlockCommand cbw) :
    Linked cells (answer bytes reply s) := by
  rw [Msc.answer]
  have small : (UInt32.ofNat bytes.length).toNat = bytes.length := UInt32.toNat_ofNat_of_lt' (few.trans_lt (by decide))
  have since' := since.snoc (.dataPhase (UInt32.ofNat bytes.length)) fun other same => by cases same
  apply Linked.tx
  refine ⟨?_, ?_, .data rfl (show (UInt32.ofNat bytes.length).toNat ≤ 512 by omega) ⟨_, _, _, since', other⟩⟩
  · apply ok.plain
    · exact fun lba lbn same => by cases same
    · exact fun csw same => by cases same
  · change image cells (s.log ++ [.dataPhase (UInt32.ofNat bytes.length)]) = s.flash.cells
    rw [← disk]
    exact image_plain fun _ => rfl

/-- READ(10) and WRITE(10): one that does not pass the checks ends at once. -/
theorem Linked.blockCommand {start : Device → Device} (reply : Reply) (ok : BlockCommandsOk cells s.log)
    (disk : image cells s.log = s.flash.cells) (since : Since s.log earlier s.bot.cbw []) (fpos : s.bot.fpos = 0)
    (opCode : s.bot.cbw.CB 0 = 0x28 ∨ s.bot.cbw.CB 0 = 0x2A)
    (starts : BlockCommand s.bot.cbw →
      Linked cells (start { s with bot := { s.bot with lba := be32 s.bot.cbw.CB 2, lbn := be16 s.bot.cbw.CB 7 } })) :
    Linked cells (blockCommand start reply s) := by
  rw [Msc.blockCommand]
  dsimp only
  split
  next address =>
    exact Linked.status reply ok disk rfl fpos (complete_of_other since fun command => command.address address)
  next address =>
    split
    next fields =>
      exact Linked.status reply ok disk rfl fpos (complete_of_other since fun command => command.fields fields)
    next fields =>
      split
      next length =>
        exact Linked.status reply ok disk rfl fpos (complete_of_other since fun command => command.length length)
      next length => exact starts ⟨opCode, address, fields, length⟩

theorem Linked.dispatch (reply : Reply) (ok : BlockCommandsOk cells s.log) (fpos : s.bot.fpos = 0)
    (since : Since s.log earlier s.bot.cbw []) (before : image cells earlier = s.flash.cells)
    (sound : BlockCommand s.bot.cbw → 0 < s.bot.cbw.count ∧ s.bot.cbw.address + s.bot.cbw.count ≤ 31250) :
    Linked cells (dispatch reply s) := by
  have disk : image cells s.log = s.flash.cells := by
    rw [since.shape, image_command]
    exact before
  have first {bot : Bot} (lba : bot.lba = be32 s.bot.cbw.CB 2) (lbn : bot.lbn = be16 s.bot.cbw.CB 7)
      (inside : s.bot.cbw.address + s.bot.cbw.count ≤ 31250) :
      Moving { s with bot := bot } earlier s.bot.cbw [] 0 :=
    ⟨since, inside, rfl, congrArg UInt32.toNat lba, congrArg UInt32.toNat lbn⟩
  by_cases reads : s.bot.cbw.CB 0 = 0x28
  · have result : Msc.dispatch reply s = read10 reply s := by simp [Msc.dispatch, reads]
    rw [result, read10]
    apply Linked.blockCommand reply ok disk since fpos (Or.inl reads)
    intro command
    obtain ⟨some, inside⟩ := sound command
    apply Linked.tx
    have nothing : s.bot.fpos.toNat ≤ SECTOR_SIZE := by
      rw [fpos]
      exact Nat.zero_le 512
    refine ⟨ok, disk, .read ⟨first rfl rfl inside, reads, rfl, before, disk, ?_, nothing, fun _ => some⟩⟩
    rw [Nat.zero_mul]
    exact Bot.held_empty fpos
  by_cases writes : s.bot.cbw.CB 0 = 0x2A
  · have result : Msc.dispatch reply s = write10 reply s := by simp [Msc.dispatch, writes]
    rw [result, write10]
    apply Linked.blockCommand reply ok disk since fpos (Or.inr writes)
    intro command
    obtain ⟨some, inside⟩ := sound command
    refine ⟨ok, disk, .write ⟨first rfl rfl inside, writes, rfl, ?_, ⟨[], rfl, rfl⟩, ?_, ?_, some⟩⟩
    · change Disk.replay ⟨cells, 0, []⟩ s.log = ⟨s.flash.cells, _, []⟩
      rw [since.shape, Disk.replay_append, ← before]
      rfl
    · rw [Nat.zero_mul, patch_zero]
      exact before.symm
    · change (0 : UInt32).toNat < 512
      decide
  have other : ¬BlockCommand s.bot.cbw := fun command => command.opCode.elim reads writes
  cases dispatch_cases reply s with
  | reads opCode => exact absurd opCode reads
  | writes opCode => exact absurd opCode writes
  | answers _ few result =>
    rw [result]
    exact Linked.answer reply few ok disk since other
  | ends bot _ state _ same result =>
    rw [result]
    exact Linked.status reply ok disk state (same.trans fpos) (complete_of_other since other)

/-! ## `bot_rx` -/

theorem Linked.stall (ok : BlockCommandsOk cells s.log) (disk : image cells s.log = s.flash.cells) {bot : Bot}
    (state : bot.state = .idle) (fpos : bot.fpos = 0) : Linked cells ⟨bot, s.flash, s.log ++ [.stalled]⟩ := by
  refine ⟨?_, ?_, .idle state fpos⟩
  · apply ok.plain
    · exact fun lba lbn same => by cases same
    · exact fun csw same => by cases same
  · change image cells (s.log ++ [.stalled]) = s.flash.cells
    rw [← disk]
    exact image_plain fun _ => rfl

theorem Linked.rxIdle (packet : Option (List UInt8)) (reply : Reply) (ok : BlockCommandsOk cells s.log)
    (disk : image cells s.log = s.flash.cells) (state : s.bot.state = .idle) (fpos : s.bot.fpos = 0)
    (sound : ∀ bytes, delivered packet = some bytes → bytes.length = 31 → (wrapper bytes).Valid →
      BlockCommand (wrapper bytes) → 0 < (wrapper bytes).count ∧
        (wrapper bytes).address + (wrapper bytes).count ≤ 31250) : Linked cells (rxIdle packet reply s) := by
  rw [Msc.rxIdle]
  by_cases length : ((delivered packet).getD []).length = 31
  · have some : delivered packet = some ((delivered packet).getD []) := by
      cases known : delivered packet with
      | none =>
        rw [known] at length
        cases length
      | some bytes => rfl
    generalize (delivered packet).getD [] = bytes at length some
    rw [if_neg (not_not_intro length), cbwOf_store length, accept]
    by_cases valid : (wrapper bytes).Valid
    · rw [if_pos valid]
      have ok' : BlockCommandsOk cells (s.log ++ [.command (wrapper bytes)]) := by
        apply ok.plain
        · exact fun lba lbn same => by cases same
        · exact fun csw same => by cases same
      exact Linked.dispatch reply ok' fpos (.begin s.log (wrapper bytes)) disk (sound bytes some length valid)
    · rw [if_neg valid]
      exact Linked.stall ok disk state fpos
  · rw [if_pos length]
    exact Linked.stall ok disk state fpos

/-! ### Data -/

/-- The driver behind `usbd_ep_read` in `bot_data_write`. -/
def filled (packet : Option (List UInt8)) (s : Device) : Device :=
  let bot : Bot :=
    { s.bot with
      buff := store s.bot.fpos.toNat ((delivered packet).getD []) s.bot.buff
      fpos := UInt32.ofInt (behindPacket packet s.bot.fpos) }
  ⟨bot, s.flash, s.log ++ [.received (delivered packet)]⟩

theorem filled_fpos {packet : Option (List UInt8)}
    (sound : 0 ≤ behindPacket packet s.bot.fpos ∧ behindPacket packet s.bot.fpos ≤ (SECTOR_SIZE : Int)) :
    ((filled packet s).bot.fpos.toNat : Int) = behindPacket packet s.bot.fpos := by
  have small : behindPacket packet s.bot.fpos ≤ 512 := sound.2
  change ((UInt32.ofInt (behindPacket packet s.bot.fpos)).toNat : Int) = _
  rw [UInt32.ofInt, UInt32.toNat_ofNat_of_lt']
  · omega
  · change _ < 2 ^ 32
    omega

/-- What comes is behind what is held; a failure takes the last byte back. -/
theorem filled_held {packet : Option (List UInt8)}
    (sound : 0 ≤ behindPacket packet s.bot.fpos ∧ behindPacket packet s.bot.fpos ≤ (SECTOR_SIZE : Int)) :
    (filled packet s).bot.held = join s.bot.held (delivered packet) := by
  have fpos := filled_fpos sound
  rw [behindPacket] at fpos
  have buff : (filled packet s).bot.buff = store s.bot.fpos.toNat ((delivered packet).getD []) s.bot.buff := rfl
  rw [Bot.held, buff]
  generalize (filled packet s).bot.fpos.toNat = count at fpos
  have before (bytes : List UInt8) {i : Nat} (less : i < s.bot.fpos.toNat) :
      store s.bot.fpos.toNat bytes s.bot.buff i = s.bot.buff i := if_neg fun both => absurd both.1 (Nat.not_le.mpr less)
  cases known : delivered packet with
  | none =>
    rw [known] at fpos
    change (count : Int) = s.bot.fpos.toNat + -1 at fpos
    have one : s.bot.fpos.toNat = count + 1 := by omega
    have kept : s.bot.held = (List.range count).map s.bot.buff ++ [s.bot.buff count] := by
      rw [Bot.held, one, List.range_succ, List.map_append]
      rfl
    rw [kept, join, List.dropLast_concat]
    apply List.map_congr_left
    intro i member
    exact before [] (by have less := List.mem_range.mp member; omega)
  | some bytes =>
    rw [known] at fpos
    change (count : Int) = s.bot.fpos.toNat + bytes.length at fpos
    have all : count = s.bot.fpos.toNat + bytes.length := by omega
    rw [all, join, Bot.held, List.range_add, List.map_append, List.map_map]
    congr 1
    · apply List.map_congr_left
      intro i member
      exact before bytes (List.mem_range.mp member)
    · apply List.ext_getElem
      · simp
      · intro i inside inside'
        rw [List.getElem_map, List.getElem_range]
        change store _ bytes _ (s.bot.fpos.toNat + i) = _
        rw [store, if_pos ⟨by omega, by omega⟩, Nat.add_sub_cancel_left, List.getD_eq_getElem _ _ inside']

/-- Data behind the first part of it does not change what was stored. -/
theorem getD_stored {stored back back' : List UInt8} {i : Nat} (inside : i < stored.length) :
    (stored ++ back).getD i 0 = (stored ++ back').getD i 0 := by
  rw [List.getD_append _ _ _ _ inside, List.getD_append _ _ _ _ inside]

/-- A full buffer is written to the flash. -/
theorem Linked.program (reply : Reply) (ok : BlockCommandsOk cells s.log) (moving : Moving s earlier cbw moves done)
    (opCode : cbw.CB 0 = 0x2A) (state : s.bot.state = .dataWrite) (full : s.bot.fpos.toNat = SECTOR_SIZE)
    (more : done < cbw.count) {stored : List UInt8} (received : receivedData moves = stored ++ s.bot.held)
    (length : stored.length = done * SECTOR_SIZE)
    (disk : Disk.replay ⟨cells, 0, []⟩ s.log =
      ⟨patch ((cbw.address + done) * SECTOR_SIZE) SECTOR_SIZE (fun i => s.bot.held.getD i 0) s.flash.cells,
        (cbw.address + done) * SECTOR_SIZE + SECTOR_SIZE, []⟩)
    (patched : s.flash.cells = patch (cbw.address * SECTOR_SIZE) (done * SECTOR_SIZE)
      (fun i => (receivedData moves).getD i 0) (image cells earlier)) :
    ∃ s', program reply s = some s' ∧ Linked cells s' := by
  have inside := moving.inside
  have lba := moving.lba
  have one : s.bot.lba.toNat + 1 ≤ 32768 := by omega
  obtain ⟨buf, written⟩ := W25q.diskWriteLoop_patches one s.bot.buff s.flash
  have writes : s.flash.diskWrite s.bot.buff s.bot.lba 1 = some ⟨_, buf⟩ := written
  have silent : receivedData (moves ++ [.sector s.bot.lba s.bot.lbn]) = receivedData moves := List.foldl_append
  have place : (cbw.address + done) * SECTOR_SIZE = cbw.address * SECTOR_SIZE + done * SECTOR_SIZE := Nat.add_mul ..
  -- the buffer is the sector that is pending
  have sector : patch (s.bot.lba.toNat * 512) (1 * 512) s.bot.buff s.flash.cells =
      patch ((cbw.address + done) * SECTOR_SIZE) SECTOR_SIZE (fun i => s.bot.held.getD i 0) s.flash.cells := by
    rw [lba, Nat.one_mul]
    apply patch_congr
    intro i less
    exact (s.bot.getD_held (by rw [full]; exact less)).symm
  -- and the stretch that has been written is one sector longer
  have longer : patch ((cbw.address + done) * SECTOR_SIZE) SECTOR_SIZE (fun i => s.bot.held.getD i 0) s.flash.cells =
      patch (cbw.address * SECTOR_SIZE) ((done + 1) * SECTOR_SIZE) (fun i => (receivedData moves).getD i 0)
        (image cells earlier) := by
    rw [patched, place, Nat.succ_mul, ← patch_append]
    apply patch_congr
    intro i less
    rw [received, List.getD_append_right _ _ _ _ (by omega), length, Nat.add_sub_cancel_left]
  have ok' := moving.sector more ok
  rw [Msc.program, writes, Option.map_some, sector]
  have shown : Disk.replay ⟨cells, 0, []⟩ (s.log ++ [.sector s.bot.lba s.bot.lbn]) =
      ⟨patch ((cbw.address + done) * SECTOR_SIZE) SECTOR_SIZE (fun i => s.bot.held.getD i 0) s.flash.cells,
        (cbw.address + done) * SECTOR_SIZE + SECTOR_SIZE, []⟩ := by
    rw [Disk.replay_append, disk]
    rfl
  have shown' := congrArg Disk.cells shown
  refine ⟨_, rfl, ?_⟩
  dsimp only
  split
  next last =>
    change s.bot.lbn - 1 = 0 at last
    have next := moving.next more { s.bot with lba := s.bot.lba + 1, lbn := s.bot.lbn - 1 } s.flash rfl rfl
    have all : done + 1 = cbw.count := by
      have lbn := next.lbn
      change (s.bot.lbn - 1).toNat + _ = _ at lbn
      rw [last] at lbn
      exact (Nat.zero_add _).symm.trans lbn
    refine Linked.tx reply ⟨ok', shown', .answered rfl rfl (complete_of_exact next.since ⟨?_, ?_, ?_⟩)⟩
    · rw [next.sectors, all]
    · intro reads
      rw [opCode] at reads
      cases reads
    · intro _
      have shape := next.since.shape
      change s.log ++ _ = _ at shape
      rw [← shape, silent]
      constructor
      · rw [received, List.length_append, length, Bot.length_held, full, ← all, Nat.succ_mul]
      · rw [image, shown', longer, all]
  next left =>
    change ¬s.bot.lbn - 1 = 0 at left
    have some : 0 < (s.bot.lbn - 1).toNat := toNat_ne_zero left
    have next := moving.next more { s.bot with fpos := 0, lba := s.bot.lba + 1, lbn := s.bot.lbn - 1 }
      ⟨patch ((cbw.address + done) * SECTOR_SIZE) SECTOR_SIZE (fun i => s.bot.held.getD i 0) s.flash.cells, buf⟩ rfl rfl
    have lbn := next.lbn
    refine ⟨ok', shown', .write ⟨next, opCode, state, ?_, ⟨receivedData moves, ?_, ?_⟩, ?_, ?_, ?_⟩⟩
    · apply shown.trans
      rw [← Nat.add_assoc, Nat.succ_mul]
      rfl
    · rw [silent]
      exact (List.append_nil _).symm
    · rw [received, List.length_append, length, Bot.length_held, full, Nat.succ_mul]
    · rw [silent]
      exact longer
    · change (0 : UInt32).toNat < 512
      decide
    · change (s.bot.lbn - 1).toNat + _ = _ at lbn
      omega

/-- A packet of data. -/
theorem Linked.rxWrite (packet : Option (List UInt8)) (reply : Reply) (ok : BlockCommandsOk cells s.log)
    (writing : Writing cells s earlier cbw moves done)
    (sound : 0 ≤ behindPacket packet s.bot.fpos ∧ behindPacket packet s.bot.fpos ≤ (SECTOR_SIZE : Int)) :
    ∃ s', rxWrite packet reply s = some s' ∧ Linked cells s' := by
  have inside : ¬((delivered packet).getD [] ≠ [] ∧ SECTOR_SIZE < s.bot.fpos.toNat +
    ((delivered packet).getD []).length) := by
    intro outside
    obtain ⟨some, far⟩ := outside
    rw [behindPacket] at sound
    cases known : delivered packet with
    | none =>
      rw [known] at some
      exact some rfl
    | some bytes =>
      rw [known] at far sound
      change SECTOR_SIZE < s.bot.fpos.toNat + bytes.length at far
      have far' : (SECTOR_SIZE : Int) < s.bot.fpos.toNat + bytes.length := by exact_mod_cast far
      exact absurd sound.2 (Int.not_le.mpr far')
  have result : Msc.rxWrite packet reply s =
      if (filled packet s).bot.fpos = UInt32.ofNat SECTOR_SIZE then Msc.program reply (filled packet s)
      else some (filled packet s) := by
    rw [Msc.rxWrite, if_neg inside]
    rfl
  have held := filled_held sound
  have fpos := filled_fpos sound
  have since := writing.since.snoc (.received (delivered packet)) fun other same => by cases same
  have ok' : BlockCommandsOk cells (s.log ++ [.received (delivered packet)]) := by
    apply ok.plain
    · exact fun lba lbn same => by cases same
    · exact fun csw same => by cases same
  obtain ⟨stored, received, length⟩ := writing.received
  have received' : receivedData (moves ++ [.received (delivered packet)]) = stored ++ (filled packet s).bot.held := by
    rw [receivedData_snoc, received, held]
    cases known : delivered packet with
    | none =>
      have some : s.bot.held ≠ [] := by
        intro nothing
        have empty := s.bot.length_held
        rw [nothing] at empty
        rw [behindPacket, known, ← empty] at sound
        exact absurd sound.1 (by decide)
      exact List.dropLast_append_of_ne_nil some
    | some bytes => exact List.append_assoc ..
  have patched : s.flash.cells = patch (cbw.address * SECTOR_SIZE) (done * SECTOR_SIZE)
      (fun i => (receivedData (moves ++ [.received (delivered packet)])).getD i 0) (image cells earlier) := by
    rw [writing.patched, received, received']
    apply patch_congr
    intro i less
    exact getD_stored (by omega)
  have moving : Moving (filled packet s) earlier cbw (moves ++ [.received (delivered packet)]) done := by
    refine ⟨since, writing.inside, ?_, writing.lba, writing.lbn⟩
    rw [sectors_snoc, writing.sectors]
    exact List.append_nil _
  have disk : Disk.replay ⟨cells, 0, []⟩ (s.log ++ [.received (delivered packet)]) =
      Disk.take ⟨s.flash.cells, (cbw.address + done) * SECTOR_SIZE, s.bot.held⟩ (.received (delivered packet)) := by
    rw [Disk.replay_append, writing.disk]
    rfl
  rw [Disk.take, ← held, Bot.length_held] at disk
  rw [result]
  by_cases full : (filled packet s).bot.fpos = UInt32.ofNat SECTOR_SIZE
  · have size : (filled packet s).bot.fpos.toNat = SECTOR_SIZE := congrArg UInt32.toNat full
    rw [if_pos full]
    rw [if_pos size] at disk
    exact Linked.program reply ok' moving writing.opCode writing.state size writing.more received' length disk patched
  · have size : (filled packet s).bot.fpos.toNat ≠ SECTOR_SIZE := by
      intro size
      exact full (UInt32.toNat_inj.mp size)
    have small : (filled packet s).bot.fpos.toNat < SECTOR_SIZE := by
      have most : behindPacket packet s.bot.fpos ≤ 512 := sound.2
      change _ < 512
      change _ ≠ 512 at size
      omega
    rw [if_neg full]
    rw [if_neg size] at disk
    refine ⟨_, rfl, ok', congrArg Disk.cells disk, .write ⟨moving, writing.opCode, writing.state, disk,
      ⟨stored, received',
      length⟩, patched, small, writing.more⟩⟩

/-- Every sound step carries the transfer on. -/
theorem Linked.step {event : Event} (linked : Linked cells s) (sound : Sound event s) :
    ∃ s', step event s = some s' ∧ Linked cells s' := by
  cases event with
  | tx reply => exact ⟨_, rfl, linked.tx reply⟩
  | reset => exact ⟨_, rfl, linked.ok, linked.disk, .idle rfl rfl⟩
  | rx packet reply =>
    have ignored : s.bot.state ≠ .idle → s.bot.state ≠ .dataWrite → ∃ s', Msc.step (.rx packet reply) s = some s' ∧
        Linked cells s' := by
      intro notIdle notWrite
      refine ⟨s, ?_, linked⟩
      change botRx packet reply s = some s
      rw [botRx]
      split
      next idle => exact absurd idle notIdle
      next write => exact absurd write notWrite
      next => rfl
    obtain ⟨ok, disk, stands⟩ := id linked
    cases stands with
    | idle state fpos =>
      refine ⟨Msc.rxIdle packet reply s, ?_, Linked.rxIdle packet reply ok disk state fpos (sound.1 state)⟩
      change botRx packet reply s = _
      rw [botRx, state]
    | answered state =>
      rw [state] at ignored
      exact ignored (by decide) (by decide)
    | data state =>
      rw [state] at ignored
      exact ignored (by decide) (by decide)
    | read reading =>
      rw [reading.state] at ignored
      exact ignored (by decide) (by decide)
    | write writing =>
      obtain ⟨s', returns, linked⟩ := Linked.rxWrite packet reply ok writing (sound.2 writing.state)
      refine ⟨s', ?_, linked⟩
      change botRx packet reply s = _
      rw [botRx, writing.state]
      exact returns

/-! ## What the host has sent -/

def Output.packet : Output → Option (Option (List UInt8))
  | .received packet => some packet
  | _ => none

def Event.packet : Event → Option (Option (List UInt8))
  | .rx packet _ => some (delivered packet)
  | _ => none

/-- Each command of the log is a wrapper that has come, and its data are packets that have come, in their order. -/
structure Heard (events : List Event) (log : List Output) : Prop where
  commands : ∀ cbw, .command cbw ∈ log →
    ∃ packet reply bytes, .rx packet reply ∈ events ∧ delivered packet = some bytes ∧ cbw = wrapper bytes
  data : (log.filterMap Output.packet).Sublist (events.filterMap Event.packet)

variable {events : List Event} {event : Event} {s' : Device}

theorem Heard.later (heard : Heard events log) (event : Event) : Heard (events ++ [event]) log := by
  constructor
  · intro cbw member
    obtain ⟨packet, reply, bytes, came, whole, same⟩ := heard.commands cbw member
    exact ⟨packet, reply, bytes, List.mem_append_left _ came, whole, same⟩
  · rw [List.filterMap_append]
    exact heard.data.trans (List.sublist_append_left _ _)

theorem Heard.lasts (events : List Event) : Lasts (Heard events) := by
  intro log output spoken heard
  constructor
  · intro cbw member
    cases List.mem_append.mp member with
    | inl before => exact heard.commands cbw before
    | inr last =>
      rw [← List.mem_singleton.mp last] at spoken
      exact spoken.elim
  · have silent : [output].filterMap Output.packet = [] := by
      cases output with
      | command => exact spoken.elim
      | received => exact spoken.elim
      | _ => rfl
    rw [List.filterMap_append, silent, List.append_nil]
    exact heard.data

theorem Heard.step (heard : Heard events s.log) (taken : step event s = some s') : Heard
    (events ++ [event]) s'.log := by
  have later := heard.later event
  have lasts := Heard.lasts (events ++ [event])
  cases event with
  | tx reply =>
    rw [← Option.some.inj taken]
    exact lasts_botTx lasts reply later
  | reset =>
    rw [← Option.some.inj taken]
    exact later
  | rx packet reply =>
    cases botRx_took taken with
    | ignored log =>
      rw [log]
      exact later
    | refused log =>
      rw [log]
      exact lasts s.log .stalled trivial later
    | @command bytes whole log =>
      apply log _ lasts
      constructor
      · intro cbw member
        cases List.mem_append.mp member with
        | inl before => exact later.commands cbw before
        | inr last =>
          exact ⟨packet, reply, bytes, by simp, whole, Output.command.inj (List.mem_singleton.mp last)⟩
      · rw [List.filterMap_append]
        exact (List.append_nil _).symm ▸ later.data
    | data log =>
      apply log _ lasts
      constructor
      · intro cbw member
        cases List.mem_append.mp member with
        | inl before => exact later.commands cbw before
        | inr last => cases List.mem_singleton.mp last
      · rw [List.filterMap_append, List.filterMap_append]
        exact heard.data.append (.refl _)

theorem Heard.run {later : List Event} (heard : Heard events s.log)
    (run : Run (fun event s s' => Msc.step event s = some s' ∧ Sound event s) later s s') :
    Heard (events ++ later) s'.log := by
  induction run generalizing events with
  | nil =>
    rw [List.append_nil]
    exact heard
  | cons taken _ inductionHypothesis =>
    rw [List.append_cons]
    exact inductionHypothesis (heard.step taken.1)

/-! ## Runs -/

theorem Linked.fpos_le (linked : Linked cells s) : s.bot.fpos.toNat ≤ SECTOR_SIZE := by
  cases linked.stands with
  | idle _ fpos =>
    rw [fpos]
    exact Nat.zero_le 512
  | answered _ fpos =>
    rw [fpos]
    exact Nat.zero_le 512
  | data _ fpos => exact fpos
  | read reading => exact reading.fpos
  | write writing => exact Nat.le_of_lt writing.fpos

/-- In `bot_csw`, a block command has moved all it was told to. -/
theorem Linked.complete (linked : Linked cells s) (state : s.bot.state = .csw) : Complete cells s.log := by
  cases linked.stands with
  | idle other => rw [state] at other; cases other
  | answered _ _ complete => exact complete
  | data other => rw [state] at other; cases other
  | read reading =>
    have other := reading.state
    rw [state] at other
    cases other
  | write writing =>
    have other := writing.state
    rw [state] at other
    cases other

/-- In every run whose events are sound, the flash is what the wrappers and the data that came make of it; only sectors
of the card are moved, and `bot.lbn` is counted down only from above zero; when `bot_csw` is entered for a block
command, it has moved its sectors and no others; `bot.fpos` stays in the buffer, and no event makes the driver store
outside it. -/
theorem block_commands_sound (flash : W25q) {events : List Event} {s : Device}
    (run : Run (fun event s s' => step event s = some s' ∧ Sound event s) events (start flash) s) :
    Heard events s.log ∧ s.flash.cells = image flash.cells s.log ∧ BlockCommandsOk flash.cells s.log ∧
      (s.bot.state = .csw → Complete flash.cells s.log) ∧ s.bot.fpos.toNat ≤ SECTOR_SIZE ∧
        ∀ event, Sound event s → ∃ s', step event s = some s' := by
  have linked : Linked flash.cells s := by
    apply run.invariant (Linked flash.cells)
    · intro event before after taken linked
      obtain ⟨after', same, linked'⟩ := linked.step taken.2
      rw [Option.some.inj (taken.1.symm.trans same)]
      exact linked'
    · exact ⟨.nil, rfl, .idle rfl rfl⟩
  have heard : Heard ([] ++ events) s.log :=
    Heard.run ⟨fun _ member => absurd member List.not_mem_nil, .refl _⟩ run
  refine ⟨heard, linked.disk.symm, linked.ok, linked.complete, linked.fpos_le, ?_⟩
  intro event sound
  obtain ⟨s', taken, _⟩ := linked.step sound
  exact ⟨s', taken⟩

/-- A wrapper with READ(10) for so many sectors from sector 5 on, below 128. -/
def readPacket (count : UInt8) : List UInt8 :=
  [0x55, 0x53, 0x42, 0x43, 1, 0, 0, 0, 0, 2 * count, 0, 0, 0x80, 0, 10, 0x28, 0, 0, 0, 0, 5, 0, 0, count] ++
    List.replicate 7 0

/-- The chip before anything is written. -/
def erased : W25q := ⟨fun _ => 0xFF, fun _ => 0⟩

/-- Two sectors are asked for, and so many packets of them are sent behind the first. -/
def reading (count : Nat) : Device :=
  (botTx (some MSC_DATA_SZ))^[count] (rxIdle (some (readPacket 2)) (some MSC_DATA_SZ) (start erased))

def Output.isCommand : Output → Bool
  | .command _ => true
  | _ => false

theorem run_tx (reply : Reply) (count : Nat) (s : Device) :
    Run (fun event s s' => step event s = some s' ∧ Sound event s) (List.replicate count (.tx reply)) s
      ((botTx reply)^[count] s) := by
  induction count generalizing s with
  | zero => exact .nil s
  | succ count inductionHypothesis => exact .cons ⟨rfl, trivial⟩ (inductionHypothesis (botTx reply s))

/-- When the sixteen packets have been sent, the status is next: sectors 5 and 6 have been moved, and their bytes sent.
-/
theorem block_commands_read :
    ∃ moves, (reading 15).bot.state = .csw ∧ (reading 15).log = .command (wrapper (readPacket 2)) :: moves ∧
      sectors moves = [5, 6] ∧ sentData moves = List.replicate 1024 0xFF := by
  have sound : Sound (.rx (some (readPacket 2)) (some MSC_DATA_SZ)) (start erased) := by
    constructor
    · intro _ bytes same _ _ _
      rw [← Option.some.inj same]
      decide
    · intro other
      cases other
  have run : Run (fun event s s' => step event s = some s' ∧ Sound event s) (_ :: List.replicate 15 _) (start erased)
      (reading 15) := .cons ⟨rfl, sound⟩ (run_tx (some MSC_DATA_SZ) 15 _)
  have csw : (reading 15).bot.state = .csw := by decide +kernel
  obtain ⟨heard, -, -, complete, -⟩ := block_commands_sound erased run
  have shape : (reading 15).log = .command (wrapper (readPacket 2)) :: (reading 15).log.tail := by
    have first : (reading 15).log.head? = some (.command _) := rfl
    have shape := List.eq_cons_of_mem_head? first
    have member := List.mem_of_mem_head? first
    obtain ⟨packet, reply, bytes, came, whole, same⟩ := heard.commands _ member
    obtain only | tx := List.mem_cons.mp came
    · obtain ⟨rfl, -⟩ := Event.rx.inj only
      rw [shape, same, ← Option.some.inj whole]
      rfl
    · cases List.eq_of_mem_replicate tx
  have silent : ((reading 15).log.tail.any Output.isCommand) = false := by decide +kernel
  have since : Since (reading 15).log [] (wrapper (readPacket 2)) (reading 15).log.tail := by
    refine ⟨shape, ?_⟩
    intro other member
    exact absurd (List.any_of_mem member rfl) (by rw [silent]; decide)
  have moved := complete csw _ _ _ since ⟨by decide, by decide, by decide, by decide⟩
  refine ⟨_, csw, shape, moved.sectors, ?_⟩
  rw [moved.reads (by decide)]
  change (List.range 1024).map (fun _ => (0xFF : UInt8)) = _
  rw [List.map_const', List.length_range]

/-- No sectors are asked for: one is read, and `bot.lbn` is counted down from zero. -/
theorem zero_blocks_underflow :
    ¬∀ (flash : W25q) (events : List Event) (s : Device),
      Run (fun event s s' => step event s = some s') events (start flash) s →
        BlockCommandsOk flash.cells s.log ∧ s.bot.fpos.toNat ≤ SECTOR_SIZE := by
  intro always
  have taken : step (.rx (some (readPacket 0)) none) (start erased) =
      some (rxIdle (some (readPacket 0)) none (start erased)) := rfl
  have ok := (always erased _ _ (.single taken)).1
  have behind : (rxIdle (some (readPacket 0)) none (start erased)).log.tail = [.sector 5 0] := rfl
  have member : .sector 5 0 ∈ (rxIdle (some (readPacket 0)) none (start erased)).log := by
    apply List.mem_of_mem_tail
    rw [behind]
    exact List.mem_cons_self
  exact ok.positive 5 0 member rfl

end XinuStm32.Msc
