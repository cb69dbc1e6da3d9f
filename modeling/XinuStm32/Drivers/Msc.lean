import XinuStm32.Drivers.Flash

/-!
# The mass-storage device, `msc.c`

`bot_callback` is called for the events of the two endpoints, and a class request may reset the transport. An event
comes with what `usbd_ep_read` and `usbd_ep_write` do when they are called for it: they move bytes and return their
number, or return -1. What the driver does towards the host and the flash is kept in `log`; `none` stands for an access
outside `bot.buff`. Both functions of `w25qxxx_drv` always return 0, so that their loops have one round.
-/

namespace XinuStm32.Msc

@[simp] abbrev MSC_DATA_SZ : Nat := 64

@[simp] abbrev SECTOR_SIZE : Nat := 512

@[simp] abbrev USB_MSC_BOT_CBW_SIGNATURE : UInt32 := 0x43425355

@[simp] abbrev USB_MSC_BOT_CSW_SIGNATURE : UInt32 := 0x53425355

@[simp] abbrev USB_MSC_BOT_CSW_CMD_PASSED : UInt8 := 0

@[simp] abbrev USB_MSC_BOT_CSW_CMD_FAILED : UInt8 := 1

@[simp] abbrev ILLEGAL_REQUEST : UInt8 := 5

@[simp] abbrev INVALID_COMMAND_OPERATION_CODE : UInt8 := 0x20

@[simp] abbrev LOGICAL_BLOCK_ADDRESS_OUT_OF_RANGE : UInt8 := 0x21

@[simp] abbrev INVALID_FIELD_IN_CDB : UInt8 := 0x24

/-- What `SPI_Flash_Init` stores in `flashinfo`. -/
@[simp] abbrev card_size : UInt32 := 31250

@[simp] abbrev sect_size : UInt32 := 512

inductive BotState where
  | idle | data | dataRead | dataWrite | csw
  deriving DecidableEq

/-- `usb_msc_bot_cbw`. -/
structure Cbw where
  dSignature : UInt32
  dTag : UInt32
  dDataTransferLength : UInt32
  bmFlags : UInt8
  bLUN : UInt8
  bCBLength : UInt8
  CB : Nat → UInt8

/-- `usb_msc_bot_csw`. -/
structure Csw where
  dSignature : UInt32
  dTag : UInt32
  dDataResidue : UInt32
  bStatus : UInt8
  deriving DecidableEq

/-- `bot_t`; `buff` is its bytes. -/
structure Bot where
  state : BotState
  cbw : Cbw
  csw : Csw
  buff : Nat → UInt8
  fpos : UInt32
  lba : UInt32
  lbn : UInt32
  sence_key : UInt8
  asc : UInt8

/-- `memset(&bot, 0, sizeof(bot))`. -/
def Bot.zero : Bot where
  state := .idle
  cbw := ⟨0, 0, 0, 0, 0, 0, fun _ => 0⟩
  csw := ⟨0, 0, 0, 0⟩
  buff := fun _ => 0
  fpos := 0
  lba := 0
  lbn := 0
  sence_key := 0
  asc := 0

/-- What is seen of the driver. -/
inductive Output where
  /-- A wrapper that has passed the checks. -/
  | command (cbw : Cbw)
  | stalled
  /-- `bot_data` is entered. -/
  | dataPhase (fpos : UInt32)
  /-- Bytes of `bot.buff` that `usbd_ep_write` has moved. -/
  | sent (bytes : List UInt8)
  | status (csw : Csw)
  /-- What `usbd_ep_read` has moved to `bot.buff` in `bot_data_write`; `none` is its -1. -/
  | received (packet : Option (List UInt8))
  /-- A sector is read or written, and `bot.lbn` is counted down from the value given. -/
  | sector (lba lbn : UInt32)

structure Device where
  bot : Bot
  flash : W25q
  log : List Output

/-- How many bytes `usbd_ep_write` moves at most, or that it fails. -/
abbrev Reply := Option Nat

inductive Event where
  | tx (reply : Reply)
  /-- `packet` is what `usbd_ep_read` moves, if it does not fail. -/
  | rx (packet : Option (List UInt8)) (reply : Reply)
  /-- `USB_MSC_BOT_RESET`. -/
  | reset

def Device.emit (output : Output) (s : Device) : Device := { s with log := s.log ++ [output] }

/-- The value of `usbd_ep_write` for so many bytes. -/
def moved (reply : Reply) (blen : Nat) : Int := reply.elim (-1) fun most => min most blen

/-- The buffer with bytes stored from a place on. -/
def store (place : Nat) (bytes : List UInt8) (buff : Nat → UInt8) : Nat → UInt8 := fun i =>
  if place ≤ i ∧ i < place + bytes.length then bytes.getD (i - place) 0 else buff i

/-! ## `bot_tx` -/

/-- `usbd_ep_write` from the start of `bot.buff`, and the `memmove` of what is left. -/
def transmit (reply : Reply) (s : Device) : Int × Device :=
  let len := moved reply (min s.bot.fpos.toNat MSC_DATA_SZ)
  if len > 0 then
    let s := s.emit (.sent ((List.range len.toNat).map s.bot.buff))
    let fpos := s.bot.fpos - UInt32.ofNat len.toNat
    let buff := fun i => if i < fpos.toNat then s.bot.buff (i + len.toNat) else s.bot.buff i
    (len, { s with bot := { s.bot with buff := buff, fpos := fpos } })
  else (len, s)

/-- `w25qxxx_drv.read` and the lines behind it. -/
def fetch (s : Device) : Device :=
  let s := s.emit (.sector s.bot.lba s.bot.lbn)
  { s with
    bot :=
      { s.bot with
        buff := store 0 (s.flash.diskRead s.bot.lba 1) s.bot.buff
        lba := s.bot.lba + 1
        lbn := s.bot.lbn - 1
        fpos := UInt32.ofNat SECTOR_SIZE } }

/-- `bot.csw.dDataResidue = 0`, the status and `bot_csw`. -/
def Bot.finished (bStatus : UInt8) (bot : Bot) : Bot :=
  { bot with csw := { bot.csw with dDataResidue := 0, bStatus := bStatus }, state := .csw }

/-- The case `bot_data` behind its call of `usbd_ep_write`, which has returned `len`. -/
def endData (len : Int) (s : Device) : Device :=
  if len > 0 ∧ s.bot.fpos = 0 then { s with bot := { s.bot with state := .csw } } else s

/-- The end of the case `bot_data_read`. -/
def endRead (s : Device) : Device :=
  if s.bot.lbn = 0 ∧ s.bot.fpos = 0 then
    { s with bot := s.bot.finished USB_MSC_BOT_CSW_CMD_PASSED }
  else s

def botTx (reply : Reply) (s : Device) : Device :=
  match s.bot.state with
  | .data => endData (transmit reply s).1 (transmit reply s).2
  | .dataRead => endRead (transmit reply (if s.bot.fpos = 0 then fetch s else s)).2
  | .csw => { s.emit (.status s.bot.csw) with bot := { s.bot with state := .idle } }
  | _ => s

def botError (sence_key asc : UInt8) (reply : Reply) (s : Device) : Device :=
  botTx reply
    { s with bot := { s.bot with sence_key := sence_key, asc := asc }.finished USB_MSC_BOT_CSW_CMD_FAILED }

/-! ## The commands -/

/-- A command without data that succeeds. -/
def passed (reply : Reply) (s : Device) : Device :=
  botTx reply { s with bot := s.bot.finished USB_MSC_BOT_CSW_CMD_PASSED }

/-- A command that answers with data: the lines from `bot.fpos = ` to `bot_tx`. -/
def answer (bytes : List UInt8) (reply : Reply) (s : Device) : Device :=
  let fpos := UInt32.ofNat bytes.length
  let s := s.emit (.dataPhase fpos)
  botTx reply
    { s with
      bot :=
        { s.bot with
          fpos := fpos
          buff := store 0 bytes s.bot.buff
          state := .data
          csw :=
            { s.bot.csw with
              dDataResidue := s.bot.cbw.dDataTransferLength - fpos
              bStatus := USB_MSC_BOT_CSW_CMD_PASSED } } }

/-- Two bytes of a command, the first one the highest. -/
def be16 (bytes : Nat → UInt8) (place : Nat) : UInt32 := (bytes place).toUInt32 <<< 8 ||| (bytes (place + 1)).toUInt32

def be32 (bytes : Nat → UInt8) (place : Nat) : UInt32 :=
  (bytes place).toUInt32 <<< 24 ||| (bytes (place + 1)).toUInt32 <<< 16 ||| (bytes (place + 2)).toUInt32 <<< 8 |||
    (bytes (place + 3)).toUInt32

/-- The bytes of a word from the given one down. -/
def bytesOf (word : UInt32) : Nat → List UInt8
  | 0 => []
  | count + 1 => (word >>> UInt32.ofNat (8 * count)).toUInt8 :: bytesOf word count

def dbInquiry : List UInt8 :=
  [0x00, 0x80, 0x04, 0x02, 0x1F, 0x00, 0x00, 0x00] ++
    ("STM     " ++ "Mass Storage    " ++ "0001").toList.map fun c => UInt8.ofNat c.toNat

def inquiry (reply : Reply) (s : Device) : Device :=
  let CB := s.bot.cbw.CB
  if CB 1 &&& 1 = 0 then
    if CB 2 = 0 then answer (dbInquiry.take (be16 CB 3).toNat) reply s
    else botError ILLEGAL_REQUEST INVALID_FIELD_IN_CDB reply s
  else botError ILLEGAL_REQUEST INVALID_FIELD_IN_CDB reply s

def dbRequestSence (sence_key asc : UInt8) : List UInt8 :=
  [0x70, 0, sence_key, 0, 0, 0, 0, 10, 0, 0, 0, 0, asc, 0, 0, 0, 0, 0]

def requestSense (reply : Reply) (s : Device) : Device :=
  answer ((dbRequestSence s.bot.sence_key s.bot.asc).take (s.bot.cbw.CB 4).toNat) reply s

def dbModeSence6 : List UInt8 := [0x03, 0x00, 0x00, 0x00]

def dbModeSence10 : List UInt8 := [0x00, 0x06, 0x00, 0x00, 0x00, 0x00, 0x00, 0x00]

def dbReadCapacity10 : List UInt8 := bytesOf (card_size - 1) 4 ++ bytesOf sect_size 4

def readCapacity10 (reply : Reply) (s : Device) : Device :=
  let CB := s.bot.cbw.CB
  let s := { s with bot := { s.bot with lba := be32 CB 2 } }
  if s.bot.lba > card_size - 1 then botError ILLEGAL_REQUEST LOGICAL_BLOCK_ADDRESS_OUT_OF_RANGE reply s
  else if CB 8 &&& 1 ≠ 0 ∧ s.bot.lba = 0 then botError ILLEGAL_REQUEST INVALID_FIELD_IN_CDB reply s
  else answer dbReadCapacity10 reply s

/-- What READ(10) and WRITE(10) begin with; `start` is what they do when their checks have passed. -/
def blockCommand (start : Device → Device) (reply : Reply) (s : Device) : Device :=
  let CB := s.bot.cbw.CB
  let s := { s with bot := { s.bot with lba := be32 CB 2, lbn := be16 CB 7 } }
  if s.bot.lba > card_size - 1 then botError ILLEGAL_REQUEST LOGICAL_BLOCK_ADDRESS_OUT_OF_RANGE reply s
  else if CB 1 &&& 0xE0 ≠ 0 then botError ILLEGAL_REQUEST INVALID_FIELD_IN_CDB reply s
  else if s.bot.cbw.dDataTransferLength ≠ s.bot.lbn * sect_size then
    botError ILLEGAL_REQUEST INVALID_COMMAND_OPERATION_CODE reply s
  else start s

def read10 (reply : Reply) (s : Device) : Device :=
  blockCommand (fun s => botTx reply { s with bot := { s.bot with state := .dataRead } }) reply s

def write10 (reply : Reply) (s : Device) : Device :=
  blockCommand (fun s => { s with bot := { s.bot with fpos := 0, state := .dataWrite } }) reply s

def verify10 (reply : Reply) (s : Device) : Device :=
  let CB := s.bot.cbw.CB
  let s := { s with bot := { s.bot with lba := be32 CB 2 } }
  if s.bot.lba > card_size - 1 then botError ILLEGAL_REQUEST LOGICAL_BLOCK_ADDRESS_OUT_OF_RANGE reply s
  else if CB 1 &&& 0x02 ≠ 0 then botError ILLEGAL_REQUEST INVALID_FIELD_IN_CDB reply s
  else passed reply s

def dbReadFormatCapacities : List UInt8 := [0, 0, 0, 8] ++ bytesOf card_size 4 ++ [0x02] ++ bytesOf sect_size 3

def readFormatCapacities (reply : Reply) (s : Device) : Device :=
  answer (dbReadFormatCapacities.take (be16 s.bot.cbw.CB 7).toNat) reply s

/-- `switch (bot.cbw.CB[0])`. -/
def dispatch (reply : Reply) (s : Device) : Device :=
  let opCode := s.bot.cbw.CB 0
  if opCode = 0x12 then inquiry reply s
  else if opCode = 0x03 then requestSense reply s
  else if opCode = 0x1A then answer dbModeSence6 reply s
  else if opCode = 0x5A then answer dbModeSence10 reply s
  else if opCode = 0x00 then passed reply s
  else if opCode = 0x25 then readCapacity10 reply s
  else if opCode = 0x28 then read10 reply s
  else if opCode = 0x2A then write10 reply s
  else if opCode = 0x2F then verify10 reply s
  else if opCode = 0x23 then readFormatCapacities reply s
  else if opCode = 0x1E then passed reply s
  else if opCode = 0x1B then passed reply s
  else botError ILLEGAL_REQUEST INVALID_COMMAND_OPERATION_CODE reply s

/-! ## `bot_rx` -/

/-- Four bytes of a buffer as a word, the first one the lowest. -/
def le32 (buff : Nat → UInt8) (place : Nat) : UInt32 :=
  (buff place).toUInt32 ||| (buff (place + 1)).toUInt32 <<< 8 ||| (buff (place + 2)).toUInt32 <<< 16 |||
    (buff (place + 3)).toUInt32 <<< 24

/-- `memcpy(&bot.cbw, bot.buff, sizeof(struct usb_msc_bot_cbw))`. -/
def cbwOf (buff : Nat → UInt8) : Cbw where
  dSignature := le32 buff 0
  dTag := le32 buff 4
  dDataTransferLength := le32 buff 8
  bmFlags := buff 12
  bLUN := buff 13
  bCBLength := buff 14
  CB := fun i => if i < 16 then buff (15 + i) else 0

/-- The checks of a wrapper. -/
def Cbw.Valid (cbw : Cbw) : Prop :=
  cbw.dSignature = USB_MSC_BOT_CBW_SIGNATURE ∧ 1 ≤ cbw.bCBLength ∧ cbw.bCBLength ≤ 16

instance (cbw : Cbw) : Decidable cbw.Valid := inferInstanceAs (Decidable (_ ∧ _ ∧ _))

/-- What `usbd_ep_read` moves. -/
def delivered (packet : Option (List UInt8)) : Option (List UInt8) := packet.map (List.take MSC_DATA_SZ)

def refuse (s : Device) : Device :=
  { s with bot := { s.bot with sence_key := ILLEGAL_REQUEST, asc := INVALID_COMMAND_OPERATION_CODE } }.emit .stalled

/-- A wrapper has been copied to `bot.cbw`. -/
def accept (reply : Reply) (s : Device) : Device :=
  if s.bot.cbw.Valid then
    let csw := { s.bot.csw with dSignature := USB_MSC_BOT_CSW_SIGNATURE, dTag := s.bot.cbw.dTag }
    dispatch reply ({ s with bot := { s.bot with csw := csw } }.emit (.command s.bot.cbw))
  else refuse s

def rxIdle (packet : Option (List UInt8)) (reply : Reply) (s : Device) : Device :=
  let bytes := (delivered packet).getD []
  let buff := store 0 bytes s.bot.buff
  let s := { s with bot := { s.bot with buff := buff } }
  if bytes.length ≠ 31 then refuse s else accept reply { s with bot := { s.bot with cbw := cbwOf buff } }

/-- `w25qxxx_drv.write` and the lines behind it. -/
def program (reply : Reply) (s : Device) : Option Device :=
  (s.flash.diskWrite s.bot.buff s.bot.lba 1).map fun flash =>
    let s := { s with flash := flash }.emit (.sector s.bot.lba s.bot.lbn)
    let bot : Bot := { s.bot with fpos := 0, lba := s.bot.lba + 1, lbn := s.bot.lbn - 1 }
    if bot.lbn = 0 then
      botTx reply { s with bot := bot.finished USB_MSC_BOT_CSW_CMD_PASSED }
    else { s with bot := bot }

/-- The place behind the bytes that have been read, as an integer. -/
def behindPacket (packet : Option (List UInt8)) (fpos : UInt32) : Int :=
  fpos.toNat + ((delivered packet).map fun bytes => (bytes.length : Int)).getD (-1)

def rxWrite (packet : Option (List UInt8)) (reply : Reply) (s : Device) : Option Device :=
  let bytes := (delivered packet).getD []
  if bytes ≠ [] ∧ SECTOR_SIZE < s.bot.fpos.toNat + bytes.length then none
  else
    let s := s.emit (.received (delivered packet))
    let buff := store s.bot.fpos.toNat bytes s.bot.buff
    let s := { s with bot := { s.bot with buff := buff, fpos := UInt32.ofInt (behindPacket packet s.bot.fpos) } }
    if s.bot.fpos = UInt32.ofNat SECTOR_SIZE then program reply s else some s

def botRx (packet : Option (List UInt8)) (reply : Reply) (s : Device) : Option Device :=
  match s.bot.state with
  | .idle => some (rxIdle packet reply s)
  | .dataWrite => rxWrite packet reply s
  | _ => some s

/-! ## Runs -/

/-- `bot_callback` and the reset in `msc_control`. -/
def step : Event → Device → Option Device
  | .tx reply, s => some (botTx reply s)
  | .rx packet reply, s => botRx packet reply s
  | .reset, s => some { s with bot := .zero }

/-- `bot` before the first event. -/
def start (flash : W25q) : Device := ⟨.zero, flash, []⟩

end XinuStm32.Msc
