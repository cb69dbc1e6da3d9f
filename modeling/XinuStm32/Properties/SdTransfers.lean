import XinuStm32.Lib.Brackets
import XinuStm32.Properties.SdTraffic

/-!
# Transfers of more than one block

An accepted `CMD18` begins a transfer that `CMD12` ends, an accepted `CMD25` one that the stop token ends. `read` and
`write` end it only behind their last block: a block that fails, or a count of zero, leaves the card within it.
-/

namespace XinuStm32

open Brackets

/-- What ends a transfer that has begun. -/
inductive SdEvent.Ends : SdEvent → SdEvent → Prop where
  | read : Ends (.accepted CMD18) (.command CMD12)
  | write : Ends (.accepted CMD25) (.token SPI_STOP_MULTI_BLOCK_WRITE)

theorem SdEvent.ends_iff {start stop : SdEvent} :
    start.Ends stop ↔ start = .accepted CMD18 ∧ stop = .command CMD12 ∨
      start = .accepted CMD25 ∧ stop = .token SPI_STOP_MULTI_BLOCK_WRITE := by
  constructor
  · intro ends
    cases ends with
    | read => exact Or.inl ⟨rfl, rfl⟩
    | write => exact Or.inr ⟨rfl, rfl⟩
  · rintro (⟨rfl, rfl⟩ | ⟨rfl, rfl⟩)
    · exact .read
    · exact .write

/-- Every command but the one that stops a transfer. -/
def SdEvent.Fresh (event : SdEvent) : Prop := ∃ cmd, event = .command cmd ∧ cmd ≠ CMD12

namespace SdSpi

variable {s t u : SdSpi} {cmd arg : UInt32} {resp : SdResp} {buf : List UInt8}

/-! ## The calls -/

/-- The calls of the driver that move blocks. -/
inductive Transfer where
  | read (sector count : UInt32)
  | write (txbuf : Nat → UInt8) (sector count : UInt32)

namespace Transfer

def count : Transfer → UInt32
  | .read _ count => count
  | .write _ _ count => count

def run : Transfer → SdSpi → SdSpi
  | .read sector count, s => (s.sdSpiRead sector count).2.2
  | .write txbuf sector count, s => (s.sdSpiWrite txbuf sector count).2

/-- The state after a run of calls. -/
def runs (calls : List Transfer) (s : SdSpi) : SdSpi := calls.foldl (fun s call => call.run s) s

/-- What a run of calls adds to the trace. -/
def trace (calls : List Transfer) (s : SdSpi) : List SdEvent := (runs calls s).events.drop s.events.length

/-- The bytes that a run of calls sends, in order. -/
def sent (calls : List Transfer) (s : SdSpi) : List UInt8 :=
  ((runs calls s).tx.take ((runs calls s).tx.length - s.tx.length)).reverse

/-- The card accepts the commands of the call, the last of which begins a transfer of more than one block. -/
inductive Begins : Transfer → SdSpi → SdSpi → Prop where
  | read {sector count : UInt32} {buf : List UInt8} {s t u : SdSpi} (several : count ≠ 1)
      (status : { s with selected := true }.Accepts CMD13 0 .r2 [0, 0] t)
      (begun : t.Accepts CMD18 (t.blockAddress sector) .r1 buf u) : Begins (.read sector count) s u
  | write {txbuf : Nat → UInt8} {sector count : UInt32} {app erased buf : List UInt8} {s t u v w : SdSpi}
      (several : count ≠ 1) (status : { s with selected := true }.Accepts CMD13 0 .r2 [0, 0] t)
      (application : t.Accepts CMD55 0 .r1 app u) (erase : u.Accepts ACMD23 count .r1 erased v)
      (begun : v.Accepts CMD25 (v.blockAddress sector) .r1 buf w) : Begins (.write txbuf sector count) s w

/-- Every block of the call goes through. -/
def Succeeds : Transfer → SdSpi → Prop
  | .read _ count, s => s.Delivers count.toNat
  | .write txbuf _ count, s => s.Takes SPI_START_MULTI_BLOCK_WRITE txbuf count.toNat 0

/-- When the card begins a transfer, there is more than one block, and all of them go through. -/
def Completes (call : Transfer) (s : SdSpi) : Prop := ∀ t, call.Begins s t → 1 < call.count ∧ call.Succeeds t

end Transfer

/-! ## Commands within a call -/

theorem Accepts.unique {buf' : List UInt8} (first : s.Accepts cmd arg resp buf t)
    (second : s.Accepts cmd arg resp buf' u) : buf = buf' ∧ t = u := by
  have same := (sendCommand_ok_iff.mpr first).symm.trans (sendCommand_ok_iff.mpr second)
  rw [Prod.mk.injEq, Prod.mk.injEq] at same
  exact same.2

/-- A call begins at most one transfer. -/
theorem Transfer.Begins.unique {call : Transfer} (first : call.Begins s t) (second : call.Begins s u) : t = u := by
  cases first with
  | read several status begun =>
    cases second with
    | read several' status' begun' =>
      obtain ⟨-, rfl⟩ := status.unique status'
      exact (begun.unique begun').2
  | write several status application erase begun =>
    cases second with
    | write several' status' application' erase' begun' =>
      obtain ⟨-, rfl⟩ := status.unique status'
      obtain ⟨-, rfl⟩ := application.unique application'
      obtain ⟨-, rfl⟩ := erase.unique erase'
      exact (begun.unique begun').2

/-- A command that is not accepted, with the error it is not accepted for. -/
def Refuses (cmd arg : UInt32) (resp : SdResp) (s : SdSpi) (err : SdError) (t : SdSpi) : Prop :=
  err ≠ .ok ∧ (∃ buf, s.sendCommand cmd arg resp = (err, buf, t)) ∧ t.events = s.events ++ [.command cmd]

theorem Refuses.not_accepts {err : SdError} (refuses : s.Refuses cmd arg resp err t) :
    ¬s.Accepts cmd arg resp buf u := by
  intro accepts
  obtain ⟨failed, ⟨buf', sent⟩, -⟩ := refuses
  rw [sendCommand_ok_iff.mpr accepts] at sent
  exact failed (Prod.mk.inj sent).1.symm

theorem sendCommand_cases (cmd arg : UInt32) (s : SdSpi) {len : Nat} (known : respLen resp = some len) :
    (∃ buf t, s.Accepts cmd arg resp buf t ∧ t.events = s.events ++ [.command cmd, .accepted cmd]) ∨
      ∃ err t, s.Refuses cmd arg resp err t := by
  have events := sendCommand_events cmd arg s known
  cases sent : s.sendCommand cmd arg resp with
  | mk err answer =>
    obtain ⟨buf, t⟩ := answer
    rw [sent] at events
    by_cases accepted : err = .ok
    · subst accepted
      exact Or.inl ⟨buf, t, sendCommand_ok_iff.mp sent, events⟩
    · rw [if_neg accepted] at events
      exact Or.inr ⟨err, t, accepted, ⟨buf, sent⟩, events⟩

/-! ## The trace of a call -/

/-- A call that begins no transfer, and one that begins one and goes on with the blocks. -/
inductive Traced (call : Transfer) (s : SdSpi) : List SdEvent → Prop where
  | none {events : List SdEvent} (never : ∀ t, ¬call.Begins s t) (calm : ∀ event ∈ events, ∀ stop, ¬event.Ends stop) :
      Traced call s events
  | some {front back : List SdEvent} {t : SdSpi} (begins : call.Begins s t)
      (calm : ∀ event ∈ front, ∀ stop, ¬event.Ends stop) (stale : ∀ event ∈ back, ¬event.Fresh)
      (closed : Closed SdEvent.Ends back ↔ 1 < call.count ∧ call.Succeeds t) : Traced call s (front ++ back)

/-- Without a transfer there is nothing to end. -/
theorem calm_of_forall {events : List SdEvent}
    (calm : ∀ event ∈ events, event ≠ .accepted CMD18 ∧ event ≠ .accepted CMD25) :
    ∀ event ∈ events, ∀ stop, ¬event.Ends stop := by
  intro event mem stop ends
  cases SdEvent.ends_iff.mp ends with
  | inl read => exact (calm event mem).1 read.1
  | inr write => exact (calm event mem).2 write.1

theorem read_refused {err : SdError} (sector count : UInt32) (refuses : s.Refuses CMD13 0 .r2 err t) :
    (s.read sector count).2.2 = t := by
  obtain ⟨failed, ⟨buf, sent⟩, -⟩ := refuses
  rw [read, sent]
  split
  next status u ok => exact absurd (Prod.mk.inj ok).1 failed
  next err' status u _ other => exact (Prod.mk.inj (Prod.mk.inj other).2).2.symm

theorem read_wrong_status (sector count : UInt32) (accepts : s.Accepts CMD13 0 .r2 buf t) (wrong : buf ≠ [0, 0]) :
    (s.read sector count).2.2 = t := by
  rw [read, sendCommand_ok_iff.mpr accepts]
  simp only
  rw [if_pos wrong]

theorem read_not_begun {err : SdError} {sector count : UInt32} (status : s.Accepts CMD13 0 .r2 [0, 0] t)
    (refuses : t.Refuses (if count = 1 then CMD17 else CMD18) (t.blockAddress sector) .r1 err u) :
    (s.read sector count).2.2 = u := by
  obtain ⟨failed, ⟨buf, sent⟩, -⟩ := refuses
  rw [read, sendCommand_ok_iff.mpr status]
  simp only [ne_eq, not_true_eq_false, if_false]
  rw [sent]
  split
  next buf v ok => exact absurd (Prod.mk.inj ok).1 failed
  next err' buf v _ other => exact (Prod.mk.inj (Prod.mk.inj other).2).2.symm

/-- The end of `read`, behind an accepted command. -/
theorem read_begun {sector count : UInt32} (status : s.Accepts CMD13 0 .r2 [0, 0] t)
    (accepts : t.Accepts (if count = 1 then CMD17 else CMD18) (t.blockAddress sector) .r1 buf u) :
    (s.read sector count).2.2 =
      if (u.readBlocks count.toNat).1 = .ok ∧ 1 < count then
        ((u.readBlocks count.toNat).2.2.sendCommand CMD12 0 .r1b).2.2
      else (u.readBlocks count.toNat).2.2 := by
  rw [read, sendCommand_ok_iff.mpr status]
  simp only [ne_eq, not_true_eq_false, if_false]
  rw [sendCommand_ok_iff.mpr accepts]
  simp only
  split
  next rxbuf v ok =>
    rw [ok]
    by_cases several : 1 < count
    · rw [if_pos several, if_pos ⟨rfl, several⟩]
    · rw [if_neg several, if_neg fun both => several both.2]
  next err rxbuf v failed other =>
    rw [other, if_neg fun both => failed both.1]

theorem read_traced (sector count : UInt32) (s : SdSpi) :
    ∃ events, ({ s with selected := true }.read sector count).2.2.events = s.events ++ events ∧
      Traced (.read sector count) s events := by
  cases sendCommand_cases CMD13 0 { s with selected := true } respLen_r2 with
  | inr refused =>
    obtain ⟨err, t, refuses⟩ := refused
    refine ⟨[.command CMD13], ?_, .none ?_ (calm_of_forall (by simp))⟩
    · rw [read_refused sector count refuses, refuses.2.2]
    · intro t' begins
      cases begins with
      | read several status begun => exact refuses.not_accepts status
  | inl accepted =>
    obtain ⟨status, t, accepts, grown⟩ := accepted
    by_cases wrong : status ≠ [0, 0]
    · refine ⟨[.command CMD13, .accepted CMD13], ?_, .none ?_ (calm_of_forall (by simp))⟩
      · rw [read_wrong_status sector count accepts wrong, grown]
      · intro t' begins
        cases begins with
        | read several status' begun => exact wrong (accepts.unique status').1
    rw [not_not] at wrong
    subst wrong
    cases sendCommand_cases (if count = 1 then CMD17 else CMD18) (t.blockAddress sector) t respLen_r1 with
    | inr refused =>
      obtain ⟨err, u, refuses⟩ := refused
      refine ⟨[.command CMD13, .accepted CMD13, .command (if count = 1 then CMD17 else CMD18)], ?_,
        .none ?_ (calm_of_forall (by simp))⟩
      · rw [read_not_begun accepts refuses, refuses.2.2, grown]
        simp
      · intro t' begins
        cases begins with
        | read several status' begun =>
          obtain ⟨-, rfl⟩ := accepts.unique status'
          rw [if_neg several] at refuses
          exact refuses.not_accepts begun
    | inl accepted =>
      obtain ⟨buf, u, accepts', grown'⟩ := accepted
      have blocks := readBlocks_events (s := u) count.toNat
      have ended := read_begun accepts accepts'
      by_cases single : count = 1
      · subst single
        refine ⟨[.command CMD13, .accepted CMD13, .command CMD17, .accepted CMD17], ?_,
          .none ?_ (calm_of_forall (by simp))⟩
        · rw [ended, if_neg fun both => absurd both.2 (by decide), blocks, grown', grown]
          simp
        · intro t' begins
          cases begins with
          | read several status' begun => exact several rfl
      · rw [if_neg single] at accepts' grown'
        have stopped := sendCommand_events CMD12 0 (u.readBlocks count.toNat).2.2 respLen_r1b
        by_cases both : (u.readBlocks count.toNat).1 = .ok ∧ 1 < count
        · rw [if_pos both] at ended
          refine ⟨[.command CMD13, .accepted CMD13, .command CMD18] ++ .accepted CMD18 :: .command CMD12 ::
            (if ((u.readBlocks count.toNat).2.2.sendCommand CMD12 0 .r1b).1 = .ok then [.accepted CMD12] else []), ?_,
            .some (.read single accepts accepts') (calm_of_forall (by simp)) ?_ ?_⟩
          · rw [ended, stopped, blocks, grown', grown]
            simp
          · intro event mem fresh
            obtain ⟨cmd, rfl, other⟩ := fresh
            split at mem <;> simp [other] at mem
          · apply iff_of_true
            · split <;> simp [closed_cons_iff, closed_nil, SdEvent.ends_iff]
            · exact ⟨both.2, readBlocks_ok_iff.mp both.1⟩
        · rw [if_neg both] at ended
          refine ⟨[.command CMD13, .accepted CMD13, .command CMD18] ++ [.accepted CMD18], ?_,
            .some (.read single accepts accepts') (calm_of_forall (by simp)) ?_ ?_⟩
          · rw [ended, blocks, grown', grown]
            simp
          · rintro event mem ⟨cmd, rfl, other⟩
            simp at mem
          · apply iff_of_false
            · simp [closed_cons_iff, closed_nil, SdEvent.ends_iff]
            · exact fun completes => both ⟨readBlocks_ok_iff.mpr completes.2, completes.1⟩

theorem write_refused {err : SdError} (txbuf : Nat → UInt8) (sector count : UInt32)
    (refuses : s.Refuses CMD13 0 .r2 err t) : (s.write txbuf sector count).2 = t := by
  obtain ⟨failed, ⟨buf, sent⟩, -⟩ := refuses
  rw [write, sent]
  split
  next status u ok => exact absurd (Prod.mk.inj ok).1 failed
  next err' status u _ other => exact (Prod.mk.inj (Prod.mk.inj other).2).2.symm

theorem write_wrong_status (txbuf : Nat → UInt8) (sector count : UInt32) (accepts : s.Accepts CMD13 0 .r2 buf t)
    (wrong : buf ≠ [0, 0]) : (s.write txbuf sector count).2 = t := by
  rw [write, sendCommand_ok_iff.mpr accepts]
  simp only
  rw [if_pos wrong]

theorem write_not_begun {err : SdError} {txbuf : Nat → UInt8} {sector count : UInt32}
    (status : s.Accepts CMD13 0 .r2 [0, 0] t) (failed : err ≠ .ok)
      (announced : t.announce sector count = (err, buf, u)) :
    (s.write txbuf sector count).2 = u := by
  rw [write, sendCommand_ok_iff.mpr status]
  simp only [ne_eq, not_true_eq_false, if_false]
  rw [announced]
  split
  next buf v ok => exact absurd (Prod.mk.inj ok).1 failed
  next err' buf v _ other => exact (Prod.mk.inj (Prod.mk.inj other).2).2.symm

/-- The end of `write`, behind accepted commands. -/
theorem write_begun (txbuf : Nat → UInt8) {sector count : UInt32} {token : UInt8}
    (status : s.Accepts CMD13 0 .r2 [0, 0] t) (announced : t.announce sector count = (.ok, buf, u))
    (announces : token = if count = 1 then SPI_START_SINGLE_BLOCK_WRITE else SPI_START_MULTI_BLOCK_WRITE) :
    (s.write txbuf sector count).2 =
      if (u.writeBlocks token txbuf count.toNat 0).1 = .ok ∧ 1 < count then
        ((u.writeBlocks token txbuf count.toNat 0).2.writeDataToken SPI_STOP_MULTI_BLOCK_WRITE).2
      else (u.writeBlocks token txbuf count.toNat 0).2 := by
  subst announces
  rw [write, sendCommand_ok_iff.mpr status]
  simp only [ne_eq, not_true_eq_false, if_false]
  rw [announced]
  simp only
  split
  next v ok =>
    rw [ok]
    by_cases several : 1 < count
    · rw [if_pos several, if_pos ⟨rfl, several⟩]
    · rw [if_neg several, if_neg fun both => several both.2]
  next err v failed other =>
    rw [other, if_neg fun both => failed both.1]

/-- One block is announced without a transfer. -/
theorem announce_single (sector : UInt32) (s : SdSpi) :
    ∃ events, (s.announce sector 1).2.2.events = s.events ++ events ∧
      ∀ event ∈ events, ∀ stop, ¬event.Ends stop := by
  have sent := sendCommand_events CMD24 (s.blockAddress sector) s respLen_r1
  refine ⟨_, sent, calm_of_forall ?_⟩
  split <;> simp

/-- Several blocks are announced by three commands, each of which has to be accepted. -/
theorem announce_several (sector : UInt32) {count : UInt32} (several : count ≠ 1) (s : SdSpi) :
    (∃ app erased buf u v w, s.Accepts CMD55 0 .r1 app u ∧ u.Accepts ACMD23 count .r1 erased v ∧
        v.Accepts CMD25 (v.blockAddress sector) .r1 buf w ∧ s.announce sector count = (.ok, buf, w) ∧
        w.events = s.events ++ [.command CMD55, .accepted CMD55, .command ACMD23, .accepted ACMD23, .command CMD25,
          .accepted CMD25]) ∨
      ∃ err buf w events, err ≠ .ok ∧ s.announce sector count = (err, buf, w) ∧ w.events = s.events ++ events ∧
        (∀ event ∈ events, ∀ stop, ¬event.Ends stop) ∧
        ∀ app erased buf u v w, s.Accepts CMD55 0 .r1 app u → u.Accepts ACMD23 count .r1 erased v →
          ¬v.Accepts CMD25 (v.blockAddress sector) .r1 buf w := by
  rw [announce, if_neg several]
  cases sendCommand_cases CMD55 0 s respLen_r1 with
  | inr refused =>
    obtain ⟨err, t, refuses⟩ := refused
    obtain ⟨failed, ⟨buf, sent⟩, grown⟩ := id refuses
    refine Or.inr ⟨err, buf, t, [.command CMD55], failed, ?_, grown, calm_of_forall (by simp), ?_⟩
    · rw [sent]
      split
      next ok => exact absurd (Prod.mk.inj ok).1 failed
      next other => exact other.symm
    · exact fun _ _ _ _ _ _ application _ => absurd application refuses.not_accepts
  | inl accepted =>
    obtain ⟨app, u, application, grown⟩ := accepted
    rw [sendCommand_ok_iff.mpr application]
    simp only
    cases sendCommand_cases ACMD23 count u respLen_r1 with
    | inr refused =>
      obtain ⟨err, t, refuses⟩ := refused
      obtain ⟨failed, ⟨buf, sent⟩, grown'⟩ := id refuses
      refine Or.inr ⟨err, buf, t, [.command CMD55, .accepted CMD55, .command ACMD23], failed, ?_, ?_,
        calm_of_forall (by simp), ?_⟩
      · rw [sent]
        split
        next ok => exact absurd (Prod.mk.inj ok).1 failed
        next other => exact other.symm
      · rw [grown', grown]
        simp
      · intro _ _ _ u' _ _ application' erase
        obtain ⟨-, rfl⟩ := application.unique application'
        exact absurd erase refuses.not_accepts
    | inl accepted =>
      obtain ⟨erased, v, erase, grown'⟩ := accepted
      rw [sendCommand_ok_iff.mpr erase]
      simp only
      cases sendCommand_cases CMD25 (v.blockAddress sector) v respLen_r1 with
      | inr refused =>
        obtain ⟨err, t, refuses⟩ := refused
        obtain ⟨failed, ⟨buf, sent⟩, grown''⟩ := id refuses
        refine Or.inr ⟨err, buf, t, [.command CMD55, .accepted CMD55, .command ACMD23, .accepted ACMD23,
          .command CMD25],
          failed, sent, ?_, calm_of_forall (by simp), ?_⟩
        · rw [grown'', grown', grown]
          simp
        · intro _ _ _ u' v' _ application' erase'
          obtain ⟨-, rfl⟩ := application.unique application'
          obtain ⟨-, rfl⟩ := erase.unique erase'
          exact refuses.not_accepts
      | inl accepted =>
        obtain ⟨buf, w, begun, grown''⟩ := accepted
        refine Or.inl ⟨app, erased, buf, u, v, w, application, erase, begun, sendCommand_ok_iff.mpr begun, ?_⟩
        rw [grown'', grown', grown]
        simp

theorem write_traced (txbuf : Nat → UInt8) (sector count : UInt32) (s : SdSpi) :
    ∃ events, ({ s with selected := true }.write txbuf sector count).2.events = s.events ++ events ∧
      Traced (.write txbuf sector count) s events := by
  cases sendCommand_cases CMD13 0 { s with selected := true } respLen_r2 with
  | inr refused =>
    obtain ⟨err, t, refuses⟩ := refused
    refine ⟨[.command CMD13], ?_, .none ?_ (calm_of_forall (by simp))⟩
    · rw [write_refused txbuf sector count refuses, refuses.2.2]
    · intro t' begins
      cases begins with
      | write several status application erase begun => exact refuses.not_accepts status
  | inl accepted =>
    obtain ⟨status, t, accepts, grown⟩ := accepted
    by_cases wrong : status ≠ [0, 0]
    · refine ⟨[.command CMD13, .accepted CMD13], ?_, .none ?_ (calm_of_forall (by simp))⟩
      · rw [write_wrong_status txbuf sector count accepts wrong, grown]
      · intro t' begins
        cases begins with
        | write several status' application erase begun => exact wrong (accepts.unique status').1
    rw [not_not] at wrong
    subst wrong
    by_cases single : count = 1
    · subst single
      obtain ⟨events, announcing, calm⟩ := announce_single sector t
      cases announced : t.announce sector 1 with
      | mk err answer =>
        obtain ⟨buf, w⟩ := answer
        rw [announced] at announcing
        have never : ∀ t', ¬(Transfer.write txbuf sector 1).Begins s t' := by
          intro t' begins
          cases begins with
          | write several status' application erase begun => exact several rfl
        by_cases accepted : err = .ok
        · subst accepted
          have ended := write_begun txbuf accepts announced rfl
          obtain ⟨written, grown'⟩ := writeBlocks_events SPI_START_SINGLE_BLOCK_WRITE txbuf w (1 : UInt32).toNat 0
          refine ⟨[.command CMD13, .accepted CMD13] ++ events ++
            List.replicate written (.token SPI_START_SINGLE_BLOCK_WRITE), ?_, .none never ?_⟩
          · rw [ended, if_neg fun both => absurd both.2 (by decide), if_pos rfl, grown', announcing, grown]
            simp
          · intro event mem
            rw [List.mem_append, List.mem_append] at mem
            obtain (front | announced) | token := mem
            · exact calm_of_forall (by simp) event front
            · exact calm event announced
            · rw [List.eq_of_mem_replicate token]
              simp [SdEvent.ends_iff]
        · refine ⟨[.command CMD13, .accepted CMD13] ++ events, ?_, .none never ?_⟩
          · rw [write_not_begun accepts accepted announced, announcing, grown, List.append_assoc]
          · intro event mem
            cases List.mem_append.mp mem with
            | inl front => exact calm_of_forall (by simp) event front
            | inr back => exact calm event back
    cases announce_several sector single t with
    | inr refused =>
      obtain ⟨err, buf, w, events, failed, announced, grown', calm, never⟩ := refused
      refine ⟨[.command CMD13, .accepted CMD13] ++ events, ?_, .none ?_ ?_⟩
      · rw [write_not_begun accepts failed announced, grown', grown, List.append_assoc]
      · intro t' begins
        cases begins with
        | write several status' application erase begun =>
          obtain ⟨-, rfl⟩ := accepts.unique status'
          exact never _ _ _ _ _ _ application erase begun
      · intro event mem
        cases List.mem_append.mp mem with
        | inl front => exact calm_of_forall (by simp) event front
        | inr back => exact calm event back
    | inl accepted =>
      obtain ⟨app, erased, buf, u, v, w, application, erase, begun, announced, grown'⟩ := accepted
      have ended := write_begun txbuf accepts announced rfl
      rw [if_neg single] at ended
      obtain ⟨written, blocks⟩ := writeBlocks_events SPI_START_MULTI_BLOCK_WRITE txbuf w count.toNat 0
      have begins : (Transfer.write txbuf sector count).Begins s w := .write single accepts application erase begun
      have calm : ∀ event ∈ List.replicate written (SdEvent.token SPI_START_MULTI_BLOCK_WRITE), ∀ stop,
          ¬event.Ends stop := by
        intro event mem
        rw [List.eq_of_mem_replicate mem]
        simp [SdEvent.ends_iff]
      by_cases both : (w.writeBlocks SPI_START_MULTI_BLOCK_WRITE txbuf count.toNat 0).1 = .ok ∧ 1 < count
      · rw [if_pos both] at ended
        refine ⟨[.command CMD13, .accepted CMD13, .command CMD55, .accepted CMD55, .command ACMD23, .accepted ACMD23,
          .command CMD25] ++ .accepted CMD25 :: (List.replicate written (.token SPI_START_MULTI_BLOCK_WRITE) ++
            [.token SPI_STOP_MULTI_BLOCK_WRITE]), ?_, .some begins (calm_of_forall (by simp)) ?_ ?_⟩
        · rw [ended, writeDataToken_events, blocks, grown', grown]
          simp
        · rintro event mem ⟨cmd, rfl, -⟩
          simp at mem
        · apply iff_of_true
          · apply closed_cons_iff.mpr
            refine ⟨by simp [SdEvent.ends_iff], (closed_of_forall calm).append ?_⟩
            exact closed_of_forall (by simp [SdEvent.ends_iff])
          · exact ⟨both.2, writeBlocks_ok_iff.mp both.1⟩
      · rw [if_neg both] at ended
        refine ⟨[.command CMD13, .accepted CMD13, .command CMD55, .accepted CMD55, .command ACMD23, .accepted ACMD23,
          .command CMD25] ++ .accepted CMD25 :: List.replicate written (.token SPI_START_MULTI_BLOCK_WRITE), ?_,
          .some begins (calm_of_forall (by simp)) ?_ ?_⟩
        · rw [ended, blocks, grown', grown]
          simp
        · rintro event mem ⟨cmd, rfl, -⟩
          simp at mem
        · apply iff_of_false
          · intro closed
            have stop := (closed_cons_iff.mp closed).1 _ .write
            simp at stop
          · exact fun completes => both ⟨writeBlocks_ok_iff.mpr completes.2, completes.1⟩

/-! ## Runs of calls -/

namespace Transfer

/-- What the calls do is on the bus, and nothing else. -/
theorem shows_runs (calls : List Transfer) (s : SdSpi) : s.Shows (runs calls s) := by
  induction calls generalizing s with
  | nil => exact .refl s
  | cons call calls inductionHypothesis =>
    have selects (selected : Bool) (s : SdSpi) : s.Shows { s with selected } :=
      ⟨[], [], ⟨rfl, rfl, rfl⟩, (List.append_nil _).symm, .silence⟩
    apply Shows.trans ?_ (inductionHypothesis (call.run s))
    cases call with
    | read sector count => exact (selects true s).trans ((shows_read sector count _).trans (selects false _))
    | write txbuf sector count =>
      exact (selects true s).trans ((shows_write txbuf sector count _).trans (selects false _))

/-- The trace of a run is the one that is read off the bytes sent. -/
theorem traffic_iff {calls : List Transfer} {s : SdSpi} {events : List SdEvent} :
    Traffic s.answer events (sent calls s) ↔ events = trace calls s := by
  obtain ⟨shown, bytes, carries⟩ := shows_runs calls s
  have traced : trace calls s = shown := by rw [trace, carries.grown, List.drop_left]
  have told : sent calls s = bytes := by simp [sent, carries.tx]
  rw [traced, told]
  constructor
  · intro traffic
    exact traffic.unique carries.traffic rfl
  · rintro rfl
    exact carries.traffic

theorem run_events (call : Transfer) (s : SdSpi) :
    (call.run s).events = s.events ++ trace [call] s ∧ Traced call s (trace [call] s) := by
  have traced : ∃ events, (call.run s).events = s.events ++ events ∧ Traced call s events := by
    cases call with
    | read sector count => exact read_traced sector count s
    | write txbuf sector count => exact write_traced txbuf sector count s
  obtain ⟨events, grown, traced⟩ := traced
  have same : trace [call] s = events := by
    change (call.run s).events.drop s.events.length = events
    rw [grown, List.drop_left]
  rw [same]
  exact ⟨grown, traced⟩

theorem trace_cons (call : Transfer) (calls : List Transfer) (s : SdSpi) :
    trace (call :: calls) s = trace [call] s ++ trace calls (call.run s) := by
  obtain ⟨later, bytes, carries⟩ := shows_runs calls (call.run s)
  have back : trace calls (call.run s) = later := by rw [trace, carries.grown, List.drop_left]
  have grown := carries.grown
  rw [(call.run_events s).1, List.append_assoc] at grown
  change (runs calls (call.run s)).events.drop s.events.length = _
  rw [grown, List.drop_left, back]

/-- A call ends the transfer that it begins exactly when it begins none or all its blocks go through. -/
theorem closed_iff (call : Transfer) (s : SdSpi) : Closed SdEvent.Ends (trace [call] s) ↔ call.Completes s := by
  have traced := (call.run_events s).2
  generalize trace [call] s = events at traced
  cases traced with
  | none never calm => exact iff_of_true (closed_of_forall calm) fun t begins => absurd begins (never t)
  | @some front back t begins calm stale closed =>
    constructor
    · intro all u begins'
      obtain rfl := begins.unique begins'
      apply closed.mp
      intro before start after split
      exact all (front ++ before) start after (by rw [split, List.append_assoc])
    · intro completes
      exact (closed_of_forall calm).append (closed.mpr (completes t begins))

/-- Within a call, no command follows one that begins a transfer, but the one that ends it. -/
theorem quiet (call : Transfer) (s : SdSpi) : Quiet SdEvent.Ends SdEvent.Fresh (trace [call] s) := by
  have traced := (call.run_events s).2
  generalize trace [call] s = events at traced
  cases traced with
  | none never calm => exact quiet_of_forall calm
  | some begins calm stale closed => exact quiet_append_of_forall (quiet_of_forall calm) stale

/-- In a run, every call completes. -/
def AllComplete : List Transfer → SdSpi → Prop
  | [], _ => True
  | call :: calls, s => call.Completes s ∧ AllComplete calls (call.run s)

theorem runs_quiet {calls : List Transfer} (complete : AllComplete calls s) :
    Closed SdEvent.Ends (trace calls s) ∧ Quiet SdEvent.Ends SdEvent.Fresh (trace calls s) := by
  induction calls generalizing s with
  | nil =>
    have nothing : trace [] s = [] := List.drop_length
    rw [nothing]
    exact ⟨closed_nil, quiet_nil⟩
  | cons call calls inductionHypothesis =>
    obtain ⟨completes, rest⟩ := complete
    obtain ⟨closed, quiet⟩ := inductionHypothesis rest
    have first := (call.closed_iff s).mpr completes
    rw [trace_cons]
    exact ⟨first.append closed, (call.quiet s).append first quiet⟩

end Transfer

/-- The trace of a run is what the bytes sent and the card's answers say. In it a call stops the transfer that it has
begun exactly when every block of it, and more than one, goes through; and where all calls do, no command but the one
that stops a transfer is sent within one, and none is left open. -/
theorem transfers_stopped_iff (s : SdSpi) :
    (∀ calls events, Traffic s.answer events (Transfer.sent calls s) ↔ events = Transfer.trace calls s) ∧
      (∀ call, Closed SdEvent.Ends (Transfer.trace [call] s) ↔ call.Completes s) ∧
      ∀ calls, Transfer.AllComplete calls s →
        Closed SdEvent.Ends (Transfer.trace calls s) ∧ Quiet SdEvent.Ends SdEvent.Fresh (Transfer.trace calls s) :=
  ⟨fun _ _ => Transfer.traffic_iff, fun call => call.closed_iff s, fun _ complete => Transfer.runs_quiet complete⟩

/-- A card that accepts every command at once, delivers two blocks of zeros and takes two blocks. -/
def steadyCard : SdSpi where
  type := .sdhc
  rx := fun pos => if pos = 19 ∨ pos = 534 then 0xFE else if pos = 1612 ∨ 2129 ≤ pos then 0xFF else 0
  pos := 0
  tx := []
  selected := false
  events := []

/-- Two blocks are read and two are written there, and both transfers are stopped. -/
theorem transfers_stopped_several :
    Transfer.trace [.read 3 2, .write (fun _ => 7) 8 2] steadyCard =
        [.command CMD13, .accepted CMD13, .command CMD18, .accepted CMD18, .command CMD12, .accepted CMD12,
          .command CMD13, .accepted CMD13, .command CMD55, .accepted CMD55, .command ACMD23, .accepted ACMD23,
          .command CMD25, .accepted CMD25, .token SPI_START_MULTI_BLOCK_WRITE, .token SPI_START_MULTI_BLOCK_WRITE,
          .token SPI_STOP_MULTI_BLOCK_WRITE] ∧
      Closed SdEvent.Ends (Transfer.trace [.read 3 2, .write (fun _ => 7) 8 2] steadyCard) ∧
      Quiet SdEvent.Ends SdEvent.Fresh (Transfer.trace [.read 3 2, .write (fun _ => 7) 8 2] steadyCard) := by
  have read : Transfer.trace [.read 3 2] steadyCard = [.command CMD13, .accepted CMD13, .command CMD18,
      .accepted CMD18, .command CMD12, .accepted CMD12] := by decide +kernel
  have written : Transfer.trace [.write (fun _ => 7) 8 2] ((Transfer.read 3 2).run steadyCard) =
      [.command CMD13, .accepted CMD13, .command CMD55, .accepted CMD55, .command ACMD23, .accepted ACMD23,
        .command CMD25, .accepted CMD25, .token SPI_START_MULTI_BLOCK_WRITE, .token SPI_START_MULTI_BLOCK_WRITE,
        .token SPI_STOP_MULTI_BLOCK_WRITE] := by decide +kernel
  constructor
  · rw [Transfer.trace_cons, read, written]
    rfl
  · apply (transfers_stopped_iff steadyCard).2.2
    refine ⟨(Transfer.closed_iff _ _).mp ?_, (Transfer.closed_iff _ _).mp ?_, trivial⟩
    · rw [read]
      simp [closed_cons_iff, closed_nil, SdEvent.ends_iff]
    · rw [written]
      simp [closed_cons_iff, closed_nil, SdEvent.ends_iff]

/-- A card that accepts every command at once. -/
def willingCard : SdSpi where
  type := .sdhc
  rx := fun _ => 0
  pos := 0
  tx := []
  selected := false
  events := []

/-- `CMD18` is accepted for no block at all, and `CMD12` is not sent. -/
theorem read_of_none_not_stopped :
    Transfer.trace [.read 0 0] willingCard = [.command CMD13, .accepted CMD13, .command CMD18, .accepted CMD18] ∧
      ¬Closed SdEvent.Ends (Transfer.trace [.read 0 0] willingCard) := by
  have read : Transfer.trace [.read 0 0] willingCard = [.command CMD13, .accepted CMD13, .command CMD18,
      .accepted CMD18] := by decide +kernel
  refine ⟨read, ?_⟩
  rw [read]
  simp [closed_cons_iff, SdEvent.ends_iff]

end SdSpi

end XinuStm32
