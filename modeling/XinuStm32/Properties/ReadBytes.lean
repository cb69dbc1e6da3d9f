import XinuStm32.Properties.UsbRing
import XinuStm32.Lib.Patch

/-!
# Reading a number of bytes from the USB line

`readBytes` stops at a negative value, and `usb_getc` returns none: without data it returns 0x0100. So the loop goes
on to the length it was given, and it is right exactly when that many bytes are there.
-/

namespace XinuStm32

namespace UsbLine

open Patch

variable {u : Cdc} {items : List UInt8} {length count : UInt8} {buffer : Nat} {ram : Nat → UInt8}

/-- As many of the unread bytes as there are, and no more than the length, go to the buffer; nothing else changes. -/
structure ReadsAvailable (buffer : Nat) (length : UInt8) (ram : Nat → UInt8) (u : Cdc) (items : List UInt8) : Prop where
  returned : (u.readBytes buffer length ram).1.toNat = min length.toNat items.length
  stored : (u.readBytes buffer length ram).2.1 = patch buffer (min length.toNat items.length) (items.getD · 0) ram
  removed : Content (u.readBytes buffer length ram).2.2 (items.drop (min length.toNat items.length))
  kept : (u.readBytes buffer length ram).2.2 = { u with rxTail := (u.readBytes buffer length ram).2.2.rxTail }

/-- The unread bytes: from behind the tail up to the head. -/
def unreadBytes (u : Cdc) : List UInt8 :=
  (List.range ((u.rxHead.toNat + 64 - u.rxTail.toNat) % 64)).map fun offset =>
    u.rxBuf (Ring.slot 64 (Ring.next 64 u.rxTail.toNat) offset)

/-- Between indices of the ring they are what it holds. -/
theorem content_unreadBytes (head : u.rxHead.toNat < 64) (tail : u.rxTail.toNat < 64) : Content u (unreadBytes u) := by
  have low : 0 ≤ Ring.next 64 u.rxTail.toNat ∧ Ring.next 64 u.rxTail.toNat < 64 := by
    rw [Ring.next]
    split <;> omega
  have length : (unreadBytes u).length = (u.rxHead.toNat + 64 - u.rxTail.toNat) % 64 := by
    rw [unreadBytes, List.length_map, List.length_range]
  refine ⟨head, tail, ⟨low.1, low.2, ?_, ?_, ?_⟩, ?_⟩
  · omega
  · rw [length, Ring.slot_eq low.1 low.2 (by omega)]
    simp only [Ring.next]
    split <;> split <;> split <;> omega
  · intro offset item present
    rw [unreadBytes, List.getElem?_map, Option.map_eq_some_iff] at present
    obtain ⟨place, found, same⟩ := present
    obtain ⟨_, rfl⟩ := List.getElem?_eq_some_iff.mp found
    rwa [List.getElem_range] at same
  · omega

/-- A byte that is there is returned and removed. -/
theorem Content.usbGetc {byte : UInt8} {rest : List UInt8} (content : Content u (byte :: rest)) :
    u.usbGetc.1.toUInt8 = byte ∧ Content u.usbGetc.2 rest ∧ u.usbGetc.2 = { u with rxTail := u.usbGetc.2.rxTail } := by
  cases advances : u.getcAdvance with
  | none =>
    have empty : u.rxHead = u.rxTail := by
      by_contra some
      simp [Cdc.getcAdvance, some] at advances
    cases content.empty_iff.mp empty
  | some advanced =>
    obtain ⟨tmptail, u'⟩ := advanced
    obtain ⟨byte', rest', same, content', -, found⟩ := content.advance advances
    cases same
    have kept : u' = { u with rxTail := u'.rxTail } := by
      simp only [Cdc.getcAdvance, Option.ite_none_left_eq_some, Option.some.injEq, Prod.mk.injEq] at advances
      obtain ⟨-, -, rfl⟩ := advances
      rfl
    simp only [Cdc.usbGetc, advances]
    exact ⟨(getcRead_low tmptail u').trans found, content', kept⟩

/-! ## The loop -/

theorem readBytesLoop_more {fuel : Nat} (more : count < length) :
    Cdc.readBytesLoop length (fuel + 1) buffer count ram u =
      Cdc.readBytesLoop length fuel (buffer + 1) (count + 1) (Function.update ram buffer u.usbGetc.1.toUInt8)
        u.usbGetc.2 := by
  rw [Cdc.readBytesLoop, if_pos more]
  -- no value of `usb_getc` is negative
  exact if_neg (Int.not_lt.mpr (Int.natCast_nonneg _))

theorem toNat_count (more : count < length) : (count + 1).toNat = count.toNat + 1 := by
  have below := UInt8.lt_iff_toNat_lt.mp more
  have small := length.toNat_lt
  rw [UInt8.toNat_add]
  change (count.toNat + 1) % 2 ^ 8 = _
  omega

/-- The loop counts to the length, whatever there is to read. -/
theorem readBytesLoop_returns {fuel : Nat} (below : count ≤ length) (enough : length.toNat ≤ count.toNat + fuel) :
    (Cdc.readBytesLoop length fuel buffer count ram u).1 = length := by
  induction fuel generalizing buffer count ram u with
  | zero =>
    have low := UInt8.le_iff_toNat_le.mp below
    exact UInt8.toNat_inj.mp (by change count.toNat = _; omega)
  | succ fuel inductionHypothesis =>
    by_cases more : count < length
    · have next := toNat_count more
      have less := UInt8.lt_iff_toNat_lt.mp more
      rw [readBytesLoop_more more]
      exact inductionHypothesis (UInt8.le_iff_toNat_le.mpr (by omega)) (by omega)
    · rw [Cdc.readBytesLoop, if_neg more]
      exact UInt8.le_antisymm below (UInt8.not_lt.mp more)

/-- While there are bytes, each round takes the first one to the next place of the buffer. -/
theorem readBytesLoop_reads {fuel : Nat} (buffer : Nat) (count : UInt8) (ram : Nat → UInt8) (content : Content u items)
    (below : count ≤ length) (enough : length.toNat ≤ count.toNat + fuel)
      (there : length.toNat ≤ count.toNat + items.length) :
    (Cdc.readBytesLoop length fuel buffer count ram u).2.1 =
        patch buffer (length.toNat - count.toNat) (items.getD · 0) ram ∧
      Content (Cdc.readBytesLoop length fuel buffer count ram u).2.2 (items.drop (length.toNat - count.toNat)) ∧
        (Cdc.readBytesLoop length fuel buffer count ram u).2.2 =
          { u with rxTail := (Cdc.readBytesLoop length fuel buffer count ram u).2.2.rxTail } := by
  induction fuel generalizing buffer count ram u items with
  | zero =>
    have none : length.toNat - count.toNat = 0 := by omega
    rw [none, patch_zero]
    exact ⟨rfl, content, rfl⟩
  | succ fuel inductionHypothesis =>
    by_cases more : count < length
    · have next := toNat_count more
      have less := UInt8.lt_iff_toNat_lt.mp more
      cases items with
      | nil => exact absurd there (by rw [List.length_nil]; omega)
      | cons byte rest =>
        obtain ⟨read, content', kept⟩ := content.usbGetc
        rw [List.length_cons] at there
        obtain ⟨stored, removed, kept'⟩ := inductionHypothesis (buffer + 1) (count + 1)
          (Function.update ram buffer u.usbGetc.1.toUInt8) content' (UInt8.le_iff_toNat_le.mpr (by omega))
          (by omega) (by omega)
        have left : length.toNat - count.toNat = length.toNat - (count + 1).toNat + 1 := by omega
        rw [readBytesLoop_more more, left]
        refine ⟨?_, removed, ?_⟩
        · rw [stored, read]
          exact patch_cons buffer _ ((byte :: rest).getD · 0) ram
        · rw [kept', kept]
    · have same := UInt8.le_antisymm below (UInt8.not_lt.mp more)
      rw [Cdc.readBytesLoop, if_neg more, same, Nat.sub_self, patch_zero]
      exact ⟨rfl, content, rfl⟩

/-! ## `readBytes` -/

theorem readBytes_returns (buffer : Nat) (length : UInt8) (ram : Nat → UInt8) (u : Cdc) :
    (u.readBytes buffer length ram).1 = length :=
  readBytesLoop_returns (UInt8.le_iff_toNat_le.mpr (Nat.zero_le _)) (by have := length.toNat_lt; omega)

/-- `readBytes` reads what is available exactly when no more is asked for. -/
theorem readBytes_reads_iff (buffer : Nat) (length : UInt8) (ram : Nat → UInt8) (head : u.rxHead.toNat < 64)
    (tail : u.rxTail.toNat < 64) :
    ReadsAvailable buffer length ram u (unreadBytes u) ↔ length.toNat ≤ (unreadBytes u).length := by
  have content := content_unreadBytes head tail
  generalize unreadBytes u = items at content
  constructor
  · intro reads
    have returned := reads.returned
    rw [readBytes_returns] at returned
    exact (Nat.le_min.mp (Nat.le_of_eq returned)).2
  · intro there
    have least : min length.toNat items.length = length.toNat := Nat.min_eq_left there
    obtain ⟨stored, removed, kept⟩ := @readBytesLoop_reads u items length 256 buffer 0 ram content
      (UInt8.le_iff_toNat_le.mpr (Nat.zero_le length.toNat)) (by have := length.toNat_lt; omega)
      (Nat.le_add_left_of_le there)
    refine ⟨?_, ?_, ?_, kept⟩
    · rw [readBytes_returns, least]
    · rw [least]
      exact stored
    · rw [least]
      exact removed

/-- A ring with one byte in it. -/
def oneByte : Cdc := (⟨fun _ => 0, 0, 0, 0⟩ : Cdc).cdcLoopback [104] 0

theorem oneByte_read : unreadBytes oneByte = [104] ∧ ReadsAvailable 0x20001000 1 (fun _ => 0) oneByte
    (unreadBytes oneByte) :=
  ⟨by decide +kernel, (readBytes_reads_iff 0x20001000 1 (fun _ => 0) (by decide) (by decide)).mpr (by decide)⟩

/-- Asked for two bytes where there is one, it returns two and stores a zero behind the one. -/
theorem oneByte_overread : unreadBytes oneByte = [104] ∧
    ¬ ReadsAvailable 0x20001000 2 (fun _ => 0xff) oneByte (unreadBytes oneByte) ∧
      (oneByte.readBytes 0x20001000 2 fun _ => 0xff).1 = 2 ∧
        (oneByte.readBytes 0x20001000 2 fun _ => 0xff).2.1 0x20001001 = 0 := by
  refine ⟨by decide +kernel, ?_, readBytes_returns .., by decide +kernel⟩
  intro reads
  have returned := reads.returned
  rw [readBytes_returns] at returned
  exact absurd returned (by decide)

end UsbLine

end XinuStm32
