import XinuStm32.Drivers.Msc
import XinuStm32.Lib.Patch

/-!
# Block transfers

What a disk does that carries out block commands as it is told. What its cells are follows from the wrappers and the
data that have come: a command names its first sector, and each full sector of data is stored behind the one before. A
command that reads is answered with the cells of its sectors.
-/

namespace XinuStm32.Msc

open Patch

/-! ## The disk -/

/-- The cells, the place for the next sector, and the bytes of it that have come. -/
structure Disk where
  cells : Nat → UInt8
  place : Nat
  pending : List UInt8

/-- A packet of data comes to the bytes before it; a failure counts `bot.fpos` down by one. -/
def join (pending : List UInt8) : Option (List UInt8) → List UInt8
  | some bytes => pending ++ bytes
  | none => pending.dropLast

def Disk.take (disk : Disk) : Output → Disk
  | .command cbw => { disk with place := (be32 cbw.CB 2).toNat * SECTOR_SIZE, pending := [] }
  | .received packet =>
    let pending := join disk.pending packet
    if pending.length = SECTOR_SIZE then
      { disk with
        cells := patch disk.place SECTOR_SIZE (fun i => pending.getD i 0) disk.cells
        place := disk.place + SECTOR_SIZE
        pending := [] }
    else { disk with pending := pending }
  | _ => disk

/-- The disk behind what has happened. -/
def Disk.replay (disk : Disk) (log : List Output) : Disk := log.foldl Disk.take disk

/-- The cells behind what has happened, which were the given ones before. -/
def image (cells : Nat → UInt8) (log : List Output) : Nat → UInt8 := (Disk.replay ⟨cells, 0, []⟩ log).cells

theorem Disk.replay_append (disk : Disk) (front back : List Output) :
    disk.replay (front ++ back) = (disk.replay front).replay back := List.foldl_append

theorem image_command (cells : Nat → UInt8) (log : List Output) (cbw : Cbw) :
    image cells (log ++ [.command cbw]) = image cells log := by
  rw [image, Disk.replay_append]
  rfl

/-! ## Transfers -/

/-- READ(10) or WRITE(10) that passes the checks of the driver. -/
structure BlockCommand (cbw : Cbw) : Prop where
  opCode : cbw.CB 0 = 0x28 ∨ cbw.CB 0 = 0x2A
  address : ¬be32 cbw.CB 2 > card_size - 1
  fields : ¬cbw.CB 1 &&& 0xE0 ≠ 0
  length : ¬cbw.dDataTransferLength ≠ be16 cbw.CB 7 * sect_size

/-- The logical block address of a block command. -/
def Cbw.address (cbw : Cbw) : Nat := (be32 cbw.CB 2).toNat

/-- Its transfer length. -/
def Cbw.count (cbw : Cbw) : Nat := (be16 cbw.CB 7).toNat

/-- The sectors that are moved. -/
def sectors (log : List Output) : List Nat :=
  log.filterMap fun output =>
    match output with
    | .sector lba _ => some lba.toNat
    | _ => none

/-- The bytes that are sent. -/
def sentData (log : List Output) : List UInt8 :=
  log.flatMap fun output =>
    match output with
    | .sent bytes => bytes
    | _ => []

/-- The bytes that are received. -/
def receivedData (log : List Output) : List UInt8 :=
  log.foldl (fun data output =>
    match output with
    | .received packet => join data packet
    | _ => data) []

theorem sectors_snoc (log : List Output) (output : Output) : sectors (log ++ [output]) =
    sectors log ++ sectors [output] :=
  List.filterMap_append

theorem sentData_snoc (log : List Output) (output : Output) :
    sentData (log ++ [output]) = sentData log ++ sentData [output] := List.flatMap_append

theorem receivedData_snoc (log : List Output) (packet : Option (List UInt8)) :
    receivedData (log ++ [.received packet]) = join (receivedData log) packet := List.foldl_append

/-- The last command, and what has happened since. -/
structure Since (log earlier : List Output) (cbw : Cbw) (moves : List Output) : Prop where
  shape : log = earlier ++ .command cbw :: moves
  last : ∀ other, .command other ∉ moves

/-- A block command has moved its sectors, each once and in order, and no others: one that reads has sent their cells,
and one that writes has stored in them the bytes received, and changed nothing else. -/
structure Exact (cells : Nat → UInt8) (earlier : List Output) (cbw : Cbw) (moves : List Output) : Prop where
  sectors : sectors moves = List.range' cbw.address cbw.count
  reads : cbw.CB 0 = 0x28 →
    sentData moves = (List.range (cbw.count * SECTOR_SIZE)).map fun i => image cells earlier
      (cbw.address * SECTOR_SIZE + i)
  writes : cbw.CB 0 = 0x2A → (receivedData moves).length = cbw.count * SECTOR_SIZE ∧
    image cells (earlier ++ .command cbw :: moves) =
      patch (cbw.address * SECTOR_SIZE) (cbw.count * SECTOR_SIZE) (fun i => (receivedData moves).getD i 0)
        (image cells earlier)

/-- If the last command is a block command, it has done all of that. -/
def Complete (cells : Nat → UInt8) (log : List Output) : Prop :=
  ∀ earlier cbw moves, Since log earlier cbw moves → BlockCommand cbw → Exact cells earlier cbw moves

/-- Only sectors of the card are moved, `bot.lbn` is counted down only from above zero, and the status of a block
command comes when its sectors have been moved. -/
structure BlockCommandsOk (cells : Nat → UInt8) (log : List Output) : Prop where
  inside : ∀ lba lbn, .sector lba lbn ∈ log → lba < card_size
  positive : ∀ lba lbn, .sector lba lbn ∈ log → lbn ≠ 0
  complete : ∀ front csw back, log = front ++ .status csw :: back → Complete cells front

variable {cells : Nat → UInt8} {log earlier moves : List Output} {cbw : Cbw} {output : Output}

theorem BlockCommandsOk.nil : BlockCommandsOk cells [] := by
  constructor
  · exact fun _ _ member => absurd member List.not_mem_nil
  · exact fun _ _ member => absurd member List.not_mem_nil
  · intro front csw back shape
    cases front <;> cases shape

/-- The last output is the one looked for, or it is behind it. -/
theorem snoc_eq_append {log front back : List Output} {last output : Output}
    (same : log ++ [last] = front ++ output :: back) :
    (log = front ∧ last = output) ∨ ∃ back', log = front ++ output :: back' := by
  cases List.eq_nil_or_concat back with
  | inl empty =>
    rw [empty] at same
    obtain ⟨init, final⟩ := List.append_inj' same rfl
    exact Or.inl ⟨init, (List.cons.inj final).1⟩
  | inr some =>
    obtain ⟨back', last', shape⟩ := some
    rw [shape, List.concat_eq_append, ← List.cons_append, ← List.append_assoc] at same
    exact Or.inr ⟨back', (List.append_inj' same rfl).1⟩

theorem BlockCommandsOk.snoc (ok : BlockCommandsOk cells log)
    (sector : ∀ lba lbn, output = .sector lba lbn → lba < card_size ∧ lbn ≠ 0)
    (status : ∀ csw, output = .status csw → Complete cells log) : BlockCommandsOk cells (log ++ [output]) := by
  constructor
  · intro lba lbn member
    cases List.mem_append.mp member with
    | inl earlier => exact ok.inside lba lbn earlier
    | inr last => exact (sector lba lbn (List.mem_singleton.mp last).symm).1
  · intro lba lbn member
    cases List.mem_append.mp member with
    | inl earlier => exact ok.positive lba lbn earlier
    | inr last => exact (sector lba lbn (List.mem_singleton.mp last).symm).2
  · intro front csw back shape
    cases snoc_eq_append shape with
    | inl final =>
      rw [← final.1]
      exact status csw final.2
    | inr earlier =>
      obtain ⟨back', shape'⟩ := earlier
      exact ok.complete front csw back' shape'

/-- There is one last command. -/
theorem Since.unique {earlier' moves' : List Output} {cbw' : Cbw} (first : Since log earlier cbw moves)
    (second : Since log earlier' cbw' moves') : earlier = earlier' ∧ cbw = cbw' ∧ moves = moves' := by
  have same := first.shape.symm.trans second.shape
  obtain ⟨between, longer, rest⟩ | ⟨between, longer, rest⟩ := List.append_eq_append_iff.mp same
  · cases between with
    | nil =>
      obtain ⟨command, behind⟩ := List.cons.inj rest
      exact ⟨(longer.trans (List.append_nil _)).symm, Output.command.inj command, behind⟩
    | cons output between =>
      have member : .command cbw' ∈ moves := by
        rw [(List.cons.inj rest).2]
        exact List.mem_append_right _ List.mem_cons_self
      exact absurd member (first.last cbw')
  · cases between with
    | nil =>
      obtain ⟨command, behind⟩ := List.cons.inj rest
      exact ⟨longer.trans (List.append_nil _), (Output.command.inj command).symm, behind.symm⟩
    | cons output between =>
      have member : .command cbw ∈ moves' := by
        rw [(List.cons.inj rest).2]
        exact List.mem_append_right _ List.mem_cons_self
      exact absurd member (second.last cbw)

theorem Since.begin (log : List Output) (cbw : Cbw) : Since (log ++ [.command cbw]) log cbw [] :=
  ⟨rfl, fun _ => List.not_mem_nil⟩

theorem Since.snoc (since : Since log earlier cbw moves) (output : Output) (silent : ∀ other, output ≠ .command other) :
    Since (log ++ [output]) earlier cbw (moves ++ [output]) := by
  constructor
  · rw [since.shape, List.append_assoc, List.cons_append]
  · intro other member
    cases List.mem_append.mp member with
    | inl before => exact since.last other before
    | inr last => exact silent other (List.mem_singleton.mp last).symm

end XinuStm32.Msc
