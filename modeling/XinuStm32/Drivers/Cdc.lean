import Mathlib

/-!
# The receive ring of the USB line, `usb_cdc_api.c`

`usb_getc` stores its new tail before it reads the slot there, and the interrupt of a packet may come between the
two, so it is given by these parts. The interrupt runs `cdc_loopback` with interrupts masked.
-/

namespace XinuStm32

@[simp] abbrev UART_CDC_RX0_BUFFER_SIZE : UInt16 := 64
@[simp] abbrev UART_CDC_RX0_BUFFER_MASK : UInt16 := UART_CDC_RX0_BUFFER_SIZE - 1
@[simp] abbrev UART_CDC_BUFFER_OVERFLOW : UInt16 := 0x0200
@[simp] abbrev UART_CDC_NO_DATA : UInt16 := 0x0100

/-- `UART_CDC_RxBuf` and the variables beside it that the receive side uses. -/
structure Cdc where
  rxBuf : Int → UInt8
  rxHead : UInt8
  rxTail : UInt8
  lastRxError : UInt8

/-- The index after one of the ring, as both sides compute it. -/
def nextIndex (index : UInt8) : UInt16 := (index.toUInt16 + 1) &&& UART_CDC_RX0_BUFFER_MASK

namespace Cdc

/-- `usb_available`. -/
def usbAvailable (u : Cdc) : UInt16 :=
  (UART_CDC_RX0_BUFFER_SIZE + u.rxHead.toUInt16 - u.rxTail.toUInt16) &&& UART_CDC_RX0_BUFFER_MASK

/-- `usb_getc` up to the store of the new tail: the value of `tmptail`, or `none` where it returns
`UART_CDC_NO_DATA`. -/
def getcAdvance (u : Cdc) : Option (UInt16 × Cdc) :=
  if u.rxHead = u.rxTail then none
  else
    let tmptail := nextIndex u.rxTail
    some (tmptail, { u with rxTail := tmptail.toUInt8 })

/-- The rest of `usb_getc`: the slot, with the error flags above it. -/
def getcRead (tmptail : UInt16) (u : Cdc) : UInt16 :=
  (u.lastRxError.toUInt16 <<< 8) + (u.rxBuf tmptail.toNat).toUInt16

/-- `usb_getc` that is not interrupted. -/
def usbGetc (u : Cdc) : UInt16 × Cdc :=
  match u.getcAdvance with
  | none => (UART_CDC_NO_DATA, u)
  | some (tmptail, u) => (getcRead tmptail u, u)

/-- The loop of `readBytes`: the pointer into the buffer, the bytes counted, and the memory the buffer is in. `count`
has 256 values, so there are no more rounds. -/
def readBytesLoop (length : UInt8) : Nat → Nat → UInt8 → (Nat → UInt8) → Cdc → UInt8 × (Nat → UInt8) × Cdc
  | 0, _, count, ram, u => (count, ram, u)
  | fuel + 1, buffer, count, ram, u =>
    if count < length then
      let (word, u) := u.usbGetc
      let c : Int := word.toNat
      if c < 0 then (count, ram, u)
      else readBytesLoop length fuel (buffer + 1) (count + 1) (Function.update ram buffer word.toUInt8) u
    else (count, ram, u)

/-- `readBytes`, with no packet during its delays. -/
def readBytes (buffer : Nat) (length : UInt8) (ram : Nat → UInt8) (u : Cdc) : UInt8 × (Nat → UInt8) × Cdc :=
  readBytesLoop length 256 buffer 0 ram u

/-- The next slot is the one the reader took last, so the ring counts as full. -/
def Overflows (u : Cdc) : Prop := nextIndex u.rxHead = u.rxTail.toUInt16

instance (u : Cdc) : Decidable u.Overflows := inferInstanceAs (Decidable (_ = _))

/-- The body of the loop of `cdc_loopback`; `lastRxError` is the local variable, which is not initialized. -/
def storeByte (data lastRxError : UInt8) (u : Cdc) : UInt8 × Cdc :=
  let tmphead := nextIndex u.rxHead
  if u.Overflows then
    let lastRxError := (UART_CDC_BUFFER_OVERFLOW >>> 8).toUInt8
    (lastRxError, { u with lastRxError := lastRxError })
  else
    (lastRxError,
      { u with
        rxHead := tmphead.toUInt8
        rxBuf := Function.update u.rxBuf tmphead.toNat data
        lastRxError := lastRxError })

/-- `cdc_loopback`, for the packet that `usbd_ep_read` puts in `fifo`. -/
def cdcLoopback : List UInt8 → UInt8 → Cdc → Cdc
  | [], _, u => u
  | data :: fifo, lastRxError, u =>
    let (lastRxError, u) := storeByte data lastRxError u
    cdcLoopback fifo lastRxError u

/-- The bytes of a packet that `cdc_loopback` stores. -/
def accepted : List UInt8 → UInt8 → Cdc → List UInt8
  | [], _, _ => []
  | data :: fifo, lastRxError, u =>
    let (lastRxError', u') := storeByte data lastRxError u
    (if u.Overflows then [] else [data]) ++ accepted fifo lastRxError' u'

end Cdc

end XinuStm32
