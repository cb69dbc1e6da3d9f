import Mathlib

/-!
# The SD card, `sd-spi.c`

The card answers each byte that the driver sends with one of its own: its answers are a stream, and what the card does
is in them. Beside the bytes, the state records in order what the driver has begun, in the units of the protocol.
-/

namespace XinuStm32

inductive SdError where
  | ok
  | ctimeout
  | ccrcfail
  | dtimeout
  | dcrcfail
  | rxoverr
  | txunderr
  | stbiterr
  | writefail
  | unexpectedCommand
  | notSupported
  | wrongStatus
  deriving DecidableEq, Repr

inductive SdType where
  | sdsc
  | sdhc
  | sdxc
  deriving DecidableEq

inductive SdResp where
  | none
  | r1
  | r1b
  | r2
  | r3
  | r6
  | r7
  deriving DecidableEq

/-- What the driver does on the bus. A command is accepted when its answer came without an error. -/
inductive SdEvent where
  | command (cmd : UInt32)
  | accepted (cmd : UInt32)
  | token (token : UInt8)
  deriving DecidableEq

@[simp] abbrev CMD12 : UInt32 := 12
@[simp] abbrev CMD13 : UInt32 := 13
@[simp] abbrev CMD17 : UInt32 := 17
@[simp] abbrev CMD18 : UInt32 := 18
@[simp] abbrev CMD24 : UInt32 := 24
@[simp] abbrev CMD25 : UInt32 := 25
@[simp] abbrev CMD55 : UInt32 := 55
@[simp] abbrev ACMD23 : UInt32 := 23

@[simp] abbrev SPI_RESP_R1_ATTR : UInt8 := 0x80
@[simp] abbrev SPI_RESP_R1_ILLG_CMD : UInt8 := 0x04
@[simp] abbrev SPI_RESP_R1_CRC_ERR : UInt8 := 0x08
@[simp] abbrev SPI_WRITE_STATUS_MASK : UInt8 := 0x1F
@[simp] abbrev SPI_WRITE_STATUS_CRC_ERR : UInt8 := 0x0B
@[simp] abbrev SPI_WRITE_STATUS_WRITE_ERR : UInt8 := 0x0D
@[simp] abbrev SPI_START_BLOCK_READ : UInt8 := 0xFE
@[simp] abbrev SPI_START_SINGLE_BLOCK_WRITE : UInt8 := 0xFE
@[simp] abbrev SPI_START_MULTI_BLOCK_WRITE : UInt8 := 0xFC
@[simp] abbrev SPI_STOP_MULTI_BLOCK_WRITE : UInt8 := 0xFD

/-! ## Checksums -/

/-- The loop of `crc7_one`. -/
def crc7Loop : Nat → UInt8 → UInt8
  | 0, crc => crc
  | left + 1, crc => crc7Loop left ((if crc &&& 0x80 ≠ 0 then crc ^^^ 0x89 else crc) <<< 1)

/-- `crc7_one`. -/
def crc7One (crc data : UInt8) : UInt8 := crc7Loop 8 (crc ^^^ data)

def crc7 (buf : List UInt8) : UInt8 := buf.foldl crc7One 0 >>> 1

/-- `crc16_one`. -/
def crc16One (crc : UInt16) (data : UInt8) : UInt16 :=
  let crc := (crc >>> 8).toUInt8.toUInt16 ||| crc <<< 8
  let crc := crc ^^^ data.toUInt16
  let crc := crc ^^^ ((crc &&& 0xFF).toUInt8 >>> 4).toUInt16
  let crc := crc ^^^ (crc <<< 8) <<< 4
  crc ^^^ ((crc &&& 0xFF) <<< 4) <<< 1

def crc16 (buf : List UInt8) : UInt16 := buf.foldl crc16One 0

/-! ## The bus -/

/-- The type of the card, the answers of the card by number of exchange, how many exchanges there were, what was sent
in them, last first, whether the card is selected, and what the driver has begun. -/
structure SdSpi where
  type : SdType
  rx : Nat → UInt8
  pos : Nat
  tx : List UInt8
  selected : Bool
  events : List SdEvent

namespace SdSpi

def record (event : SdEvent) (s : SdSpi) : SdSpi := { s with events := s.events ++ [event] }

/-- `hal_sd_spi_txrx`. -/
def txrx (data : UInt8) (s : SdSpi) : UInt8 × SdSpi := (s.rx s.pos, { s with pos := s.pos + 1, tx := data :: s.tx })

/-- Bytes that are sent without a look at the answers. -/
def send : List UInt8 → SdSpi → SdSpi
  | [], s => s
  | byte :: bytes, s => send bytes (s.txrx byte).2

/-- Answers that are taken one by one. -/
def receive : Nat → SdSpi → List UInt8 × SdSpi
  | 0, s => ([], s)
  | count + 1, s =>
    let (byte, s) := s.txrx 0xFF
    let (bytes, s) := receive count s
    (byte :: bytes, s)

/-! ## Polling -/

/-- A loop that polls the card: what it waits for, how often it asks and the value it starts with. -/
inductive Poll where
  | response
  | startToken
  | dataResponse
  | ready
  deriving DecidableEq

namespace Poll

/-- `RESP_ATTEMPTS_COUNT`, `DRESP_ATTEMPTS_COUNT` and `READY_ATTEMPTS_COUNT`. -/
def attempts : Poll → Nat
  | response => 1000
  | startToken => 100000
  | dataResponse => 100000
  | ready => 100000

def awaited : Poll → UInt8 → Bool
  | response, resp => resp &&& SPI_RESP_R1_ATTR = 0
  | startToken, resp => resp = SPI_START_BLOCK_READ
  | dataResponse, resp => resp ≠ 0xFF
  | ready, resp => resp = 0xFF

def initial : Poll → UInt8
  | response => 0xFF
  | startToken => 0xFF
  | dataResponse => 0xFF
  | ready => 0x00

end Poll

/-- The loop that all of them share, with the attempts that are left. -/
def pollLoop (awaited : UInt8 → Bool) : Nat → UInt8 → SdSpi → Nat × UInt8 × SdSpi
  | 0, resp, s => (0, resp, s)
  | left + 1, resp, s =>
    if awaited resp then (left + 1, resp, s)
    else
      let (resp, s) := s.txrx 0xFF
      pollLoop awaited left resp s

/-- The loop and the test of its counter; `none` is a timeout. -/
def poll (phase : Poll) (s : SdSpi) : Option UInt8 × SdSpi :=
  let (left, resp, s) := pollLoop phase.awaited phase.attempts phase.initial s
  (if left = 0 then none else some resp, s)

/-! ## Commands and blocks -/

def respLen : SdResp → Option Nat
  | .r1 | .r1b => some 1
  | .r2 => some 2
  | .r3 | .r7 => some 5
  | _ => none

theorem respLen_r1 : respLen .r1 = some 1 := rfl

theorem respLen_r1b : respLen .r1b = some 1 := rfl

theorem respLen_r2 : respLen .r2 = some 2 := rfl

/-- The six bytes of a command. -/
def frame (cmd arg : UInt32) : List UInt8 :=
  let bytes := [(cmd ||| 0x40).toUInt8, (arg >>> 24).toUInt8, (arg >>> 16).toUInt8, (arg >>> 8).toUInt8, arg.toUInt8]
  bytes ++ [crc7 bytes <<< 1 ||| 0x01]

/-- The part of `send_command` before the answer: behind a stop comes a garbage byte. -/
def ask (cmd arg : UInt32) (s : SdSpi) : SdSpi :=
  let s := ((s.send [0xFF, 0xFF]).record (.command cmd)).send (frame cmd arg)
  if cmd = CMD12 then (s.txrx 0xFF).2 else s

/-- `send_command`, with what it stores in `buf`. -/
def sendCommand (cmd arg : UInt32) (resp : SdResp) (s : SdSpi) : SdError × List UInt8 × SdSpi :=
  match respLen resp with
  | none => (.notSupported, [], s.send [0xFF, 0xFF])
  | some len =>
    match (s.ask cmd arg).poll .response with
    | (none, s) => (.ctimeout, [], s)
    | (some r1, s) =>
      if r1 &&& SPI_RESP_R1_ILLG_CMD ≠ 0 then (.unexpectedCommand, [], s)
      else if r1 &&& SPI_RESP_R1_CRC_ERR ≠ 0 then (.ccrcfail, [], s)
      else
        let (rest, s) := s.receive (len - 1)
        (.ok, r1 :: rest, s.record (.accepted cmd))

/-- `read_data`, with what it stores in `buf`. -/
def readData (len : UInt16) (s : SdSpi) : SdError × List UInt8 × SdSpi :=
  match s.poll .startToken with
  | (none, s) => (.dtimeout, [], s)
  | (some _, s) =>
    let (buf, s) := s.receive len.toNat
    let (high, s) := s.txrx 0xFF
    let (low, s) := s.txrx 0xFF
    let crc := high.toUInt16 <<< 8 ||| low.toUInt16
    if crc ≠ crc16 buf then (.dcrcfail, buf, s) else (.ok, buf, s)

/-- `write_data_token`. -/
def writeDataToken (token : UInt8) (s : SdSpi) : SdError × SdSpi :=
  let s := ((s.record (.token token)).txrx token).2
  if token = SPI_STOP_MULTI_BLOCK_WRITE then
    match s.poll .ready with
    | (none, s) => (.dtimeout, s)
    | (some _, s) => (.ok, s)
  else (.ok, s)

/-- The part of `write_data` before the answer: the block and its checksum. -/
def transmit (buf : List UInt8) (s : SdSpi) : SdSpi :=
  let crc := crc16 buf
  s.send (buf ++ [(crc >>> 8).toUInt8, crc.toUInt8])

/-- `write_data`. -/
def writeData (buf : List UInt8) (s : SdSpi) : SdError × SdSpi :=
  match (s.transmit buf).poll .dataResponse with
  | (none, s) => (.dtimeout, s)
  | (some resp, s) =>
    let resp := resp &&& SPI_WRITE_STATUS_MASK
    if resp = SPI_WRITE_STATUS_CRC_ERR then (.dcrcfail, s)
    else if resp = SPI_WRITE_STATUS_WRITE_ERR then (.writefail, s)
    else
      match s.poll .ready with
      | (none, s) => (.dtimeout, s)
      | (some _, s) => (.ok, s)

/-! ## `read` and `write` -/

/-- The loop of `read` over the blocks that are left, with what it stores in `rxbuf`. -/
def readBlocks : Nat → SdSpi → SdError × List UInt8 × SdSpi
  | 0, s => (.ok, [], s)
  | left + 1, s =>
    match s.readData 512 with
    | (.ok, buf, s) =>
      let (err, bufs, s) := readBlocks left s
      (err, buf ++ bufs, s)
    | (err, buf, s) => (err, buf, s)

/-- The argument of a command that moves blocks: SDSC cards count bytes. -/
def blockAddress (sector : UInt32) (s : SdSpi) : UInt32 := if s.type = .sdsc then sector * 512 else sector

/-- `read`. -/
def read (sector count : UInt32) (s : SdSpi) : SdError × List UInt8 × SdSpi :=
  match s.sendCommand CMD13 0 .r2 with
  | (.ok, status, s) =>
    if status ≠ [0, 0] then (.wrongStatus, [], s)
    else
      match s.sendCommand (if count = 1 then CMD17 else CMD18) (s.blockAddress sector) .r1 with
      | (.ok, _, s) =>
        match s.readBlocks count.toNat with
        | (.ok, rxbuf, s) =>
          if count > 1 then
            let (err, _, s) := s.sendCommand CMD12 0 .r1b
            (err, rxbuf, s)
          else (.ok, rxbuf, s)
        | (err, rxbuf, s) => (err, rxbuf, s)
      | (err, _, s) => (err, [], s)
  | (err, _, s) => (err, [], s)

/-- The block of `txbuf` with this number. -/
@[irreducible] def nthBlock (txbuf : Nat → UInt8) (cnt : Nat) : List UInt8 := (List.range 512).map fun i => txbuf
  (512 * cnt + i)

/-- The loop of `write` over the blocks that are left, from the `cnt`th on. -/
def writeBlocks (token : UInt8) (txbuf : Nat → UInt8) : Nat → Nat → SdSpi → SdError × SdSpi
  | 0, _, s => (.ok, s)
  | left + 1, cnt, s =>
    let s := (s.writeDataToken token).2
    match s.writeData (nthBlock txbuf cnt) with
    | (.ok, s) => writeBlocks token txbuf left (cnt + 1) s
    | (err, s) => (err, s)

/-- The commands that announce the blocks of `write`. -/
def announce (sector count : UInt32) (s : SdSpi) : SdError × List UInt8 × SdSpi :=
  if count = 1 then s.sendCommand CMD24 (s.blockAddress sector) .r1
  else
    match s.sendCommand CMD55 0 .r1 with
    | (.ok, _, s) =>
      match s.sendCommand ACMD23 count .r1 with
      | (.ok, _, s) => s.sendCommand CMD25 (s.blockAddress sector) .r1
      | (err, buf, s) => (err, buf, s)
    | (err, buf, s) => (err, buf, s)

/-- `write`. -/
def write (txbuf : Nat → UInt8) (sector count : UInt32) (s : SdSpi) : SdError × SdSpi :=
  match s.sendCommand CMD13 0 .r2 with
  | (.ok, status, s) =>
    if status ≠ [0, 0] then (.wrongStatus, s)
    else
      match s.announce sector count with
      | (.ok, _, s) =>
        let token := if count = 1 then SPI_START_SINGLE_BLOCK_WRITE else SPI_START_MULTI_BLOCK_WRITE
        match s.writeBlocks token txbuf count.toNat 0 with
        | (.ok, s) =>
          if count > 1 then (.ok, (s.writeDataToken SPI_STOP_MULTI_BLOCK_WRITE).2) else (.ok, s)
        | (err, s) => (err, s)
      | (err, _, s) => (err, s)
  | (err, _, s) => (err, s)

/-- `sd_spi_read`. -/
def sdSpiRead (sector count : UInt32) (s : SdSpi) : SdError × List UInt8 × SdSpi :=
  let (err, rxbuf, s) := { s with selected := true }.read sector count
  (err, rxbuf, { s with selected := false })

/-- `sd_spi_write`. -/
def sdSpiWrite (txbuf : Nat → UInt8) (sector count : UInt32) (s : SdSpi) : SdError × SdSpi :=
  let (err, s) := { s with selected := true }.write txbuf sector count
  (err, { s with selected := false })

end SdSpi

end XinuStm32
