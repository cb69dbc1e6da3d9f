import XinuStm32.Drivers.Cdc
import XinuStm32.Lib.Ring
import XinuStm32.Lib.Transition

/-!
# The USB line loses nothing it accepts

A reader that is interrupted inside `usb_getc` has given its slot up already, and what keeps the slot from being
stored over is that the ring keeps one slot free: the one the tail points at.
-/

namespace XinuStm32

/-- The ring, the reader, and what was accepted and returned since the start. -/
structure UsbLine where
  cdc : Cdc
  /-- `tmptail` of a call of `usb_getc` that has not read its slot. -/
  reading : Option UInt16
  accepted : List UInt8
  returned : List UInt8

namespace UsbLine

inductive Label where
  | packet (fifo : List UInt8)
  | getc
  | read

/-- A packet arrives, a call of `usb_getc` looks for a byte, or it reads the slot and returns. -/
inductive Step : Label → UsbLine → UsbLine → Prop where
  | packet (fifo : List UInt8) (lastRxError : UInt8) (s : UsbLine) :
      Step (.packet fifo) s
        { s with
          cdc := s.cdc.cdcLoopback fifo lastRxError
          accepted := s.accepted ++ s.cdc.accepted fifo lastRxError }
  | noData {s : UsbLine} : s.reading = none → s.cdc.getcAdvance = none → Step .getc s s
  | advance {s : UsbLine} {tmptail : UInt16} {cdc : Cdc} :
      s.reading = none → s.cdc.getcAdvance = some (tmptail, cdc) →
        Step .getc s { s with cdc := cdc, reading := some tmptail }
  | read {s : UsbLine} {tmptail : UInt16} :
      s.reading = some tmptail →
        Step .read s { s with reading := none, returned := s.returned ++ [(Cdc.getcRead tmptail s.cdc).toUInt8] }

abbrev Run : List Label → UsbLine → UsbLine → Prop := Transition.Run Step

/-- The start-up code leaves the indices zero. -/
def start (rxBuf : Int → UInt8) : UsbLine := ⟨⟨rxBuf, 0, 0, 0⟩, none, [], []⟩

/-- The accepted bytes that no call of `usb_getc` has taken. -/
def unread (s : UsbLine) : Nat := s.accepted.length - s.returned.length - s.reading.toList.length

/-! ## Indices -/

theorem toNat_nextIndex {index : UInt8} (inside : index.toNat < 64) :
    ((nextIndex index).toNat : Int) = Ring.next 64 index.toNat := by
  have masked : (nextIndex index).toNat = (index.toNat + 1) % 64 := by
    rw [nextIndex, UInt16.toNat_and, UInt16.toNat_add, UInt8.toNat_toUInt16]
    change (index.toNat + 1) % 2 ^ 16 &&& 2 ^ 6 - 1 = _
    rw [Nat.and_two_pow_sub_one_eq_mod]
    omega
  rw [masked, Ring.next]
  split <;> omega

/-- An index that is computed fits the variable it is stored in. -/
theorem nextIndex_toUInt8 {index : UInt8} (inside : index.toNat < 64) :
    (nextIndex index).toUInt8.toNat = (nextIndex index).toNat := by
  have next := toNat_nextIndex inside
  have small : (nextIndex index).toNat < 64 := by
    rw [Ring.next] at next
    split at next <;> omega
  rw [UInt16.toNat_toUInt8]
  omega

/-! ## What the ring holds -/

/-- The bytes from behind the tail up to the head, at most one less than there are slots. -/
structure Content (u : Cdc) (items : List UInt8) : Prop where
  head : u.rxHead.toNat < 64
  tail : u.rxTail.toNat < 64
  holds : Ring.Holds 64 u.rxBuf (Ring.next 64 u.rxTail.toNat) (Ring.next 64 u.rxHead.toNat) items
  room : items.length < 64

variable {u : Cdc} {items : List UInt8}

theorem Content.distance (content : Content u items) :
    (u.rxHead.toNat : Int) = Ring.slot 64 u.rxTail.toNat items.length := by
  have tail := content.holds.tail_slot
  have room := content.room
  have low : 0 ≤ (u.rxTail.toNat : Int) := Int.natCast_nonneg _
  have high : (u.rxTail.toNat : Int) < 64 := by exact_mod_cast content.tail
  have head := content.head
  rw [Ring.slot_next low high (by omega), Ring.slot_eq low high (by omega), Ring.next] at tail
  rw [Ring.slot_eq low high (by omega)]
  split at tail <;> split at tail <;> split <;> omega

theorem Content.usbAvailable (content : Content u items) : u.usbAvailable.toNat = items.length := by
  have distance := content.distance
  have head := content.head
  have tail := content.tail
  have room := content.room
  rw [Ring.slot_eq (Int.natCast_nonneg _) (by omega) (by omega)] at distance
  rw [Cdc.usbAvailable, UInt16.toNat_and, UInt16.toNat_sub, UInt16.toNat_add, UInt8.toNat_toUInt16,
    UInt8.toNat_toUInt16]
  change _ &&& 2 ^ 6 - 1 = _
  rw [Nat.and_two_pow_sub_one_eq_mod]
  change (2 ^ 16 - u.rxTail.toNat + (64 + u.rxHead.toNat) % 2 ^ 16) % 2 ^ 16 % 2 ^ 6 = _
  split at distance <;> omega

theorem Content.overflows_iff (content : Content u items) : u.Overflows ↔ items.length = 63 := by
  have distance := content.distance
  have next := toNat_nextIndex content.head
  have head := content.head
  have tail := content.tail
  have room := content.room
  rw [Ring.slot_eq (Int.natCast_nonneg _) (by omega) (by omega)] at distance
  rw [Cdc.Overflows, ← UInt16.toNat_inj, UInt8.toNat_toUInt16]
  rw [Ring.next] at next
  split at distance <;> split at next <;> omega

theorem Content.empty_iff (content : Content u items) : u.rxHead = u.rxTail ↔ items = [] := by
  have distance := content.distance
  have head := content.head
  have tail := content.tail
  have room := content.room
  rw [Ring.slot_eq (Int.natCast_nonneg _) (by omega) (by omega)] at distance
  rw [← UInt8.toNat_inj, ← List.length_eq_zero_iff]
  split at distance <;> omega

/-! ## What the operations do to it -/

/-- A byte that is stored goes behind the others, and not into the slot at the tail. -/
theorem Content.store (content : Content u items) (free : ¬ u.Overflows) (data lastRxError : UInt8) :
    Content (u.storeByte data lastRxError).2 (items ++ [data]) ∧
      (u.storeByte data lastRxError).2.rxTail = u.rxTail ∧
        (u.storeByte data lastRxError).2.rxBuf u.rxTail.toNat = u.rxBuf u.rxTail.toNat := by
  have room := content.room
  have length : items.length ≠ 63 := fun full => free (content.overflows_iff.mpr full)
  have next := toNat_nextIndex content.head
  have stored := nextIndex_toUInt8 content.head
  have range := content.holds.tail_range
  have put := content.holds.put (by omega) data
  rw [← next] at put range
  simp only [Cdc.storeByte]
  rw [if_neg free]
  refine ⟨⟨?_, content.tail, ?_, ?_⟩, rfl, ?_⟩
  · change (nextIndex u.rxHead).toUInt8.toNat < 64
    omega
  · change Ring.Holds 64 _ _ (Ring.next 64 (nextIndex u.rxHead).toUInt8.toNat) _
    rw [stored]
    exact put
  · rw [List.length_append, List.length_singleton]
    omega
  · -- the slot at the tail is where the ring would overflow
    apply Function.update_of_ne
    intro same
    apply free
    rw [Cdc.Overflows, ← UInt16.toNat_inj, UInt8.toNat_toUInt16]
    omega

theorem Content.overflow (content : Content u items) (full : u.Overflows) (data lastRxError : UInt8) :
    Content (u.storeByte data lastRxError).2 items ∧ (u.storeByte data lastRxError).2.rxTail = u.rxTail ∧
      (u.storeByte data lastRxError).2.rxBuf = u.rxBuf := by
  simp only [Cdc.storeByte]
  rw [if_pos full]
  exact ⟨⟨content.head, content.tail, content.holds, content.room⟩, rfl, rfl⟩

/-- A packet is stored until the ring is full, and the rest of it is dropped. -/
theorem Content.packet (content : Content u items) (fifo : List UInt8) (lastRxError : UInt8) :
    u.accepted fifo lastRxError = fifo.take (63 - items.length) ∧
      Content (u.cdcLoopback fifo lastRxError) (items ++ u.accepted fifo lastRxError) ∧
        (u.cdcLoopback fifo lastRxError).rxTail = u.rxTail ∧
          (u.cdcLoopback fifo lastRxError).rxBuf u.rxTail.toNat = u.rxBuf u.rxTail.toNat := by
  induction fifo generalizing u items lastRxError with
  | nil => exact ⟨by simp [Cdc.accepted], by simpa [Cdc.accepted, Cdc.cdcLoopback] using content, rfl, rfl⟩
  | cons data fifo inductionHypothesis =>
    simp only [Cdc.accepted, Cdc.cdcLoopback]
    by_cases full : u.Overflows
    · obtain ⟨content', tail, buf⟩ := content.overflow full data lastRxError
      obtain ⟨taken, after, tail', buf'⟩ := inductionHypothesis content' (u.storeByte data lastRxError).1
      have none : 63 - items.length = 0 := by
        have := content.overflows_iff.mp full
        omega
      rw [if_pos full, List.nil_append]
      refine ⟨?_, after, tail'.trans tail, ?_⟩
      · rw [taken, none, List.take_zero, List.take_zero]
      · rw [← tail, buf', tail, buf]
    · obtain ⟨content', tail, buf⟩ := content.store full data lastRxError
      obtain ⟨taken, after, tail', buf'⟩ := inductionHypothesis content' (u.storeByte data lastRxError).1
      have more : 63 - items.length = (63 - (items ++ [data]).length) + 1 := by
        have := content'.room
        rw [List.length_append, List.length_singleton] at this ⊢
        omega
      rw [if_neg full, List.singleton_append]
      refine ⟨?_, ?_, tail'.trans tail, ?_⟩
      · rw [taken, more, List.take_succ_cons]
      · rwa [List.append_assoc, List.singleton_append] at after
      · rw [← tail, buf', tail, buf]

/-- `usb_getc` gives the first byte's slot up before it reads it: it is the slot at the tail now. -/
theorem Content.advance (content : Content u items) {tmptail : UInt16} {u' : Cdc}
    (advances : u.getcAdvance = some (tmptail, u')) :
    ∃ byte rest, items = byte :: rest ∧ Content u' rest ∧ tmptail.toNat = u'.rxTail.toNat ∧
      u'.rxBuf tmptail.toNat = byte := by
  have next := toNat_nextIndex content.tail
  have stored := nextIndex_toUInt8 content.tail
  simp only [Cdc.getcAdvance, Option.ite_none_left_eq_some, Option.some.injEq, Prod.mk.injEq] at advances
  obtain ⟨some, rfl, rfl⟩ := advances
  cases items with
  | nil => exact absurd (content.empty_iff.mpr rfl) some
  | cons byte rest =>
    have inside : (nextIndex u.rxTail).toNat < 64 := by
      have := content.holds.head_high
      omega
    obtain ⟨first, after⟩ := content.holds.take
    rw [← next] at first after
    refine ⟨byte, rest, rfl, ⟨content.head, ?_, ?_, ?_⟩, stored.symm, first⟩
    · change (nextIndex u.rxTail).toUInt8.toNat < 64
      omega
    · change Ring.Holds 64 _ (Ring.next 64 (nextIndex u.rxTail).toUInt8.toNat) _ _
      rw [stored]
      exact after
    · exact Nat.lt_of_succ_lt content.room

/-- The low byte of what `usb_getc` returns is the byte in the slot. -/
theorem getcRead_low (tmptail : UInt16) (u : Cdc) : (Cdc.getcRead tmptail u).toUInt8 = u.rxBuf tmptail.toNat := by
  rw [← UInt8.toNat_inj, UInt16.toNat_toUInt8, Cdc.getcRead, UInt16.toNat_add, UInt16.toNat_shiftLeft,
    UInt8.toNat_toUInt16, UInt8.toNat_toUInt16]
  change (u.lastRxError.toNat <<< 8 % 2 ^ 16 + _) % 2 ^ 16 % 2 ^ 8 = _
  have byte := (u.rxBuf tmptail.toNat).toNat_lt
  rw [Nat.shiftLeft_eq]
  omega

/-! ## Runs -/

variable {s s' : UsbLine} {label : Label}

/-- The byte that a call of `usb_getc` has taken is still in the slot at the tail. -/
inductive Claims (s : UsbLine) : List UInt8 → Prop where
  | none : s.reading = .none → Claims s []
  | slot {tmptail : UInt16} {byte : UInt8} :
      s.reading = some tmptail → tmptail.toNat = s.cdc.rxTail.toNat → s.cdc.rxBuf tmptail.toNat = byte →
        Claims s [byte]

/-- What was accepted is what was returned, what is being read and what the ring holds. -/
structure Sound (s : UsbLine) (claimed items : List UInt8) : Prop where
  content : Content s.cdc items
  claims : s.Claims claimed
  history : s.accepted = s.returned ++ (claimed ++ items)

theorem Claims.length {claimed : List UInt8} (claims : s.Claims claimed) :
    claimed.length = s.reading.toList.length := by
  cases claims with
  | none idle => rw [idle]; rfl
  | slot reading => rw [reading]; rfl

theorem Sound.unread {claimed items : List UInt8} (sound : s.Sound claimed items) : s.unread = items.length := by
  rw [UsbLine.unread, sound.history, ← sound.claims.length, List.length_append, List.length_append]
  omega

theorem Sound.step {claimed items : List UInt8} (sound : s.Sound claimed items) (h : Step label s s') :
    ∃ claimed' items', s'.Sound claimed' items' := by
  cases h with
  | packet fifo lastRxError =>
    obtain ⟨-, content, tail, buf⟩ := sound.content.packet fifo lastRxError
    refine ⟨claimed, _, content, ?_, ?_⟩
    · cases sound.claims with
      | none idle => exact .none idle
      | slot reading place found =>
        refine .slot reading (by rw [place, tail]) ?_
        rw [place] at found ⊢
        rw [buf, found]
    · simp only [sound.history, List.append_assoc]
  | noData => exact ⟨claimed, items, sound⟩
  | advance idle advances =>
    obtain ⟨byte, rest, rfl, content, place, found⟩ := sound.content.advance advances
    refine ⟨[byte], rest, content, .slot rfl place found, ?_⟩
    cases sound.claims with
    | none => exact sound.history
    | slot reading => rw [idle] at reading; cases reading
  | @read _ tmptail reading =>
    refine ⟨[], items, sound.content, .none rfl, ?_⟩
    cases sound.claims with
    | none idle => rw [idle] at reading; cases reading
    | slot reading' place found =>
      rw [reading] at reading'
      cases reading'
      simp only [getcRead_low, found, sound.history, List.append_assoc, List.nil_append]

theorem sound_start (rxBuf : Int → UInt8) : (start rxBuf).Sound [] [] where
  content := ⟨Nat.zero_lt_succ _, Nat.zero_lt_succ _,
    Ring.Holds.empty (show 0 ≤ Ring.next 64 0 by decide) (show Ring.next 64 0 < 64 by decide), Nat.zero_lt_succ _⟩
  claims := .none rfl
  history := rfl

/-- What the calls of `usb_getc` returned is a prefix of what was accepted. A byte is dropped exactly if 63 accepted
bytes are unread, so of a packet all behind the first that are. And `usb_available` counts the unread bytes. -/
theorem usbRing_sound (rxBuf : Int → UInt8) {labels : List Label} (run : Run labels (start rxBuf) s) :
    s.returned <+: s.accepted ∧ (s.cdc.Overflows ↔ s.unread = 63) ∧
      (∀ fifo lastRxError, s.cdc.accepted fifo lastRxError = fifo.take (63 - s.unread)) ∧
        s.cdc.usbAvailable.toNat = s.unread := by
  have sound : ∃ claimed items, s.Sound claimed items := by
    refine run.invariant (fun s => ∃ claimed items, s.Sound claimed items) ?_ ⟨[], [], sound_start rxBuf⟩
    intro _ _ _ step sound
    obtain ⟨_, _, sound⟩ := sound
    exact sound.step step
  obtain ⟨claimed, items, sound⟩ := sound
  rw [sound.unread]
  refine ⟨?_, sound.content.overflows_iff, fun fifo lastRxError => (sound.content.packet fifo lastRxError).1,
    sound.content.usbAvailable⟩
  rw [sound.history]
  exact List.prefix_append _ _

/-- A packet of two bytes, the first of which is being read when the next packet arrives. -/
def interruptedRead : UsbLine where
  cdc := ((⟨fun _ => 0, 0, 0, 0⟩ : Cdc).cdcLoopback [104, 105] 0 |>.getcAdvance.get rfl).2.cdcLoopback [33] 0
  reading := some 1
  accepted := [104, 105, 33]
  returned := []

theorem interruptedRead_sound : interruptedRead.returned <+: interruptedRead.accepted ∧
    (interruptedRead.cdc.Overflows ↔ interruptedRead.unread = 63) ∧
      (∀ fifo lastRxError,
        interruptedRead.cdc.accepted fifo lastRxError = fifo.take (63 - interruptedRead.unread)) ∧
        interruptedRead.cdc.usbAvailable.toNat = interruptedRead.unread :=
  usbRing_sound (fun _ => 0)
    (.cons (.packet [104, 105] 0 _) (.cons (.advance rfl rfl) (.single (.packet [33] 0 _))))

end UsbLine

end XinuStm32
