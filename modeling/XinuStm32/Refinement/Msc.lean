import XinuStm32.Drivers.Msc
import XinuStm32.Properties.Flash

/-!
# What the functions of the mass-storage device do

One lemma for each function that the callbacks are made of. The log only grows.
-/

namespace XinuStm32.Msc

/-! ## The wrapper -/

/-- The wrapper that is read from a packet. -/
def wrapper (bytes : List UInt8) : Cbw := cbwOf fun i => bytes.getD i 0

theorem cbwOf_store {bytes : List UInt8} (length : bytes.length = 31) (buff : Nat → UInt8) :
    cbwOf (store 0 bytes buff) = wrapper bytes := by
  have stored : ∀ i < 31, store 0 bytes buff i = bytes.getD i 0 := by
    intro i inside
    rw [store, if_pos ⟨Nat.zero_le i, by omega⟩]
    rfl
  have command : (fun i => if i < 16 then store 0 bytes buff (15 + i) else 0) =
      fun i => if i < 16 then bytes.getD (15 + i) 0 else 0 := by
    funext i
    split
    · exact stored _ (by omega)
    · rfl
  rw [wrapper, cbwOf, cbwOf, command]
  simp (disch := omega) only [le32, stored]

/-! ## Sending -/

theorem moved_le (reply : Reply) (blen : Nat) : moved reply blen ≤ blen := by
  cases reply with
  | none => exact Int.le_trans (by decide : (-1 : Int) ≤ 0) (Int.natCast_nonneg blen)
  | some most => exact Int.min_le_right _ _

/-- Either nothing is sent, or some of the bytes in the buffer are, and `bot.fpos` counts what is left of them. -/
theorem transmit_cases (reply : Reply) (s : Device) :
    ((transmit reply s).1 ≤ 0 ∧ (transmit reply s).2 = s) ∨
      ∃ bytes buff fpos, 0 < (transmit reply s).1 ∧ bytes.length = (transmit reply s).1.toNat ∧
        bytes ++ (List.range fpos.toNat).map buff = (List.range s.bot.fpos.toNat).map s.bot.buff ∧
        (transmit reply s).2 =
          { s with bot := { s.bot with buff := buff, fpos := fpos }, log := s.log ++ [.sent bytes] } := by
  have most : moved reply (min s.bot.fpos.toNat MSC_DATA_SZ) ≤ s.bot.fpos.toNat :=
    (moved_le reply _).trans (Int.ofNat_le.mpr (Nat.min_le_left _ _))
  have word : s.bot.fpos.toNat < 2 ^ 32 := s.bot.fpos.toNat_lt
  rw [transmit]
  generalize moved reply (min s.bot.fpos.toNat MSC_DATA_SZ) = len at most
  by_cases some : len > 0
  · rw [if_pos some]
    have small : len.toNat < 2 ^ 32 := by omega
    have fits : (UInt32.ofNat len.toNat).toNat = len.toNat := UInt32.toNat_ofNat_of_lt' small
    have less : UInt32.ofNat len.toNat ≤ s.bot.fpos := by
      rw [UInt32.le_iff_toNat_le, fits]
      omega
    have left : (s.bot.fpos - UInt32.ofNat len.toNat).toNat = s.bot.fpos.toNat - len.toNat := by
      rw [UInt32.toNat_sub_of_le _ _ less, fits]
    refine Or.inr ⟨_, _, _, some, ?_, ?_, rfl⟩
    · rw [List.length_map, List.length_range]
    · -- the bytes sent are the first ones, and `memmove` brings the others to the start
      have whole : s.bot.fpos.toNat = len.toNat + (s.bot.fpos.toNat - len.toNat) := by omega
      rw [whole, List.range_add, List.map_append, List.map_map]
      change _ ++ (List.range (s.bot.fpos - UInt32.ofNat len.toNat).toNat).map _ = _
      rw [left]
      congr 1
      apply List.map_congr_left
      intro i member
      change (if i < (s.bot.fpos - UInt32.ofNat len.toNat).toNat then s.bot.buff (i + len.toNat) else s.bot.buff i) =
        s.bot.buff (len.toNat + i)
      rw [left, if_pos (List.mem_range.mp member), Nat.add_comm]
  · rw [if_neg some]
    exact Or.inl ⟨by omega, rfl⟩

theorem sent_length {bytes : List UInt8} {buff buff' : Nat → UInt8} {left total : Nat}
    (content : bytes ++ (List.range left).map buff = (List.range total).map buff') : left + bytes.length = total := by
  have length := congrArg List.length content
  simp only [List.length_append, List.length_map, List.length_range] at length
  omega

/-- All bytes are sent when they fit in a packet and the endpoint takes it. -/
theorem transmit_all {s : Device} (small : s.bot.fpos.toNat ≤ MSC_DATA_SZ) :
    (transmit (some MSC_DATA_SZ) s).1 = s.bot.fpos.toNat := by
  have all : moved (some MSC_DATA_SZ) (min s.bot.fpos.toNat MSC_DATA_SZ) = s.bot.fpos.toNat := by
    rw [Nat.min_eq_left small]
    exact Int.min_eq_right (Int.ofNat_le.mpr small)
  rw [transmit, all]
  split <;> rfl

/-! ## The commands -/

/-- How many bytes a command is answered with, when it is answered with data. -/
def answerLength (cbw : Cbw) : Option Nat :=
  let CB := cbw.CB
  if CB 0 = 0x12 then if CB 1 &&& 1 = 0 ∧ CB 2 = 0 then some (min (be16 CB 3).toNat 36) else none
  else if CB 0 = 0x03 then some (min (CB 4).toNat 18)
  else if CB 0 = 0x1A then some 4
  else if CB 0 = 0x5A then some 8
  else if CB 0 = 0x25 then
    if be32 CB 2 ≤ card_size - 1 ∧ ¬(CB 8 &&& 1 ≠ 0 ∧ be32 CB 2 = 0) then some 8 else none
  else if CB 0 = 0x23 then some (min (be16 CB 7).toNat 12)
  else none

/-- What the `switch` comes to: the two block commands, an answer with data, or the status at once. -/
inductive Dispatched (reply : Reply) (s s' : Device) : Prop where
  | reads (opCode : s.bot.cbw.CB 0 = 0x28) (result : s' = read10 reply s)
  | writes (opCode : s.bot.cbw.CB 0 = 0x2A) (result : s' = write10 reply s)
  | answers {bytes : List UInt8} {lba : UInt32} (length : answerLength s.bot.cbw = some bytes.length)
      (few : bytes.length ≤ 36) (result : s' = answer bytes reply { s with bot := { s.bot with lba := lba } })
  | ends (bot : Bot) (none : answerLength s.bot.cbw = none) (state : bot.state = .csw)
      (residue : bot.csw.dDataResidue = 0) (fpos : bot.fpos = s.bot.fpos)
        (result : s' = botTx reply { s with bot := bot })

theorem Dispatched.error {reply : Reply} {s : Device} (sence_key asc : UInt8) (lba : UInt32)
    (none : answerLength s.bot.cbw = none) :
    Dispatched reply s (botError sence_key asc reply { s with bot := { s.bot with lba := lba } }) :=
  .ends ({ s.bot with lba := lba, sence_key := sence_key, asc := asc }.finished _) none rfl rfl rfl rfl

theorem Dispatched.pass {reply : Reply} {s : Device} (lba : UInt32) (none : answerLength s.bot.cbw = none) :
    Dispatched reply s (passed reply { s with bot := { s.bot with lba := lba } }) :=
  .ends ({ s.bot with lba := lba }.finished _) none rfl rfl rfl rfl

theorem Dispatched.data {reply : Reply} {s : Device} (bytes : List UInt8) (lba : UInt32)
    (length : answerLength s.bot.cbw = some bytes.length) (few : bytes.length ≤ 36) :
    Dispatched reply s (answer bytes reply { s with bot := { s.bot with lba := lba } }) :=
  .answers length few rfl

theorem dispatch_cases (reply : Reply) (s : Device) : Dispatched reply s (dispatch reply s) := by
  have answered : answerLength s.bot.cbw = answerLength s.bot.cbw := rfl
  conv at answered => rhs; rw [answerLength]
  rw [dispatch]
  by_cases inquires : s.bot.cbw.CB 0 = 0x12
  · rw [if_pos inquires] at answered ⊢
    rw [inquiry]
    by_cases vital : s.bot.cbw.CB 1 &&& 1 = 0
    · rw [if_pos vital]
      by_cases page : s.bot.cbw.CB 2 = 0
      · rw [if_pos page]
        rw [if_pos ⟨vital, page⟩] at answered
        apply Dispatched.data _ s.bot.lba
        · rw [answered, List.length_take]
          rfl
        · rw [List.length_take]
          exact Nat.min_le_right _ _
      · rw [if_neg page]
        rw [if_neg fun both => page both.2] at answered
        exact .error _ _ s.bot.lba answered
    · rw [if_neg vital]
      rw [if_neg fun both => vital both.1] at answered
      exact .error _ _ s.bot.lba answered
  rw [if_neg inquires] at answered ⊢
  by_cases senses : s.bot.cbw.CB 0 = 0x03
  · rw [if_pos senses] at answered ⊢
    apply Dispatched.data _ s.bot.lba
    · rw [answered, List.length_take]
      rfl
    · rw [List.length_take]
      exact (Nat.min_le_right _ _).trans (show 18 ≤ 36 by decide)
  rw [if_neg senses] at answered ⊢
  by_cases mode : s.bot.cbw.CB 0 = 0x1A
  · rw [if_pos mode] at answered ⊢
    exact .data dbModeSence6 s.bot.lba answered (by decide)
  rw [if_neg mode] at answered ⊢
  by_cases mode : s.bot.cbw.CB 0 = 0x5A
  · rw [if_pos mode] at answered ⊢
    exact .data dbModeSence10 s.bot.lba answered (by decide)
  rw [if_neg mode] at answered ⊢
  by_cases ready : s.bot.cbw.CB 0 = 0x00
  · rw [if_pos ready]
    rw [if_neg (by rw [ready]; decide), if_neg (by rw [ready]; decide)] at answered
    exact .pass s.bot.lba answered
  rw [if_neg ready]
  by_cases capacity : s.bot.cbw.CB 0 = 0x25
  · rw [if_pos capacity] at answered ⊢
    rw [readCapacity10]
    by_cases outside : be32 s.bot.cbw.CB 2 > card_size - 1
    · rw [if_pos outside]
      rw [if_neg fun both => absurd outside (UInt32.not_lt.mpr both.1)] at answered
      exact .error _ _ (be32 s.bot.cbw.CB 2) answered
    rw [if_neg outside]
    by_cases medium : s.bot.cbw.CB 8 &&& 1 ≠ 0 ∧ be32 s.bot.cbw.CB 2 = 0
    · rw [if_pos medium]
      rw [if_neg fun both => both.2 medium] at answered
      exact .error _ _ (be32 s.bot.cbw.CB 2) answered
    · rw [if_neg medium]
      rw [if_pos ⟨UInt32.not_lt.mp outside, medium⟩] at answered
      exact .data dbReadCapacity10 (be32 s.bot.cbw.CB 2) answered (by decide)
  rw [if_neg capacity] at answered ⊢
  by_cases reads : s.bot.cbw.CB 0 = 0x28
  · rw [if_pos reads]
    exact .reads reads rfl
  rw [if_neg reads]
  by_cases writes : s.bot.cbw.CB 0 = 0x2A
  · rw [if_pos writes]
    exact .writes writes rfl
  rw [if_neg writes]
  by_cases verifies : s.bot.cbw.CB 0 = 0x2F
  · rw [if_pos verifies, verify10]
    rw [if_neg (by rw [verifies]; decide)] at answered
    split
    · exact .error _ _ (be32 s.bot.cbw.CB 2) answered
    · split
      · exact .error _ _ (be32 s.bot.cbw.CB 2) answered
      · exact .pass (be32 s.bot.cbw.CB 2) answered
  rw [if_neg verifies]
  by_cases capacities : s.bot.cbw.CB 0 = 0x23
  · rw [if_pos capacities] at answered ⊢
    apply Dispatched.data _ s.bot.lba
    · rw [answered, List.length_take]
      rfl
    · rw [List.length_take]
      exact (Nat.min_le_right _ _).trans (by decide)
  rw [if_neg capacities] at answered ⊢
  by_cases prevents : s.bot.cbw.CB 0 = 0x1E
  · rw [if_pos prevents]
    exact .pass s.bot.lba answered
  rw [if_neg prevents]
  by_cases starts : s.bot.cbw.CB 0 = 0x1B
  · rw [if_pos starts]
    exact .pass s.bot.lba answered
  rw [if_neg starts]
  exact .error _ _ s.bot.lba answered

/-! ## The log -/

/-- What the driver says, and not what it is told. -/
def Output.Spoken : Output → Prop
  | .command _ => False
  | .received _ => False
  | _ => True

/-- What is true of a log stays true of it whatever the driver says. -/
def Lasts (holds : List Output → Prop) : Prop := ∀ log output, output.Spoken → holds log → holds (log ++ [output])

section Lasts

variable {holds : List Output → Prop}

theorem lasts_transmit (lasts : Lasts holds) (reply : Reply) {s : Device} (earlier : holds s.log) :
    holds (transmit reply s).2.log := by
  cases transmit_cases reply s with
  | inl none =>
    rw [none.2]
    exact earlier
  | inr some =>
    obtain ⟨bytes, _, _, _, _, _, result⟩ := some
    rw [result]
    exact lasts s.log (.sent bytes) trivial earlier

theorem lasts_botTx (lasts : Lasts holds) (reply : Reply) {s : Device} (earlier : holds s.log) :
    holds (botTx reply s).log := by
  rw [botTx]
  cases s.bot.state with
  | idle => exact earlier
  | data =>
    have sent := lasts_transmit lasts reply earlier
    dsimp only
    rw [endData]
    split <;> exact sent
  | dataRead =>
    have fetched : holds (if s.bot.fpos = 0 then fetch s else s).log := by
      by_cases empty : s.bot.fpos = 0
      · rw [if_pos empty]
        exact lasts s.log (.sector s.bot.lba s.bot.lbn) trivial earlier
      · rw [if_neg empty]
        exact earlier
    have sent := lasts_transmit lasts reply fetched
    dsimp only
    generalize (transmit reply (if s.bot.fpos = 0 then fetch s else s)).2 = s' at sent
    rw [endRead]
    split <;> exact sent
  | dataWrite => exact earlier
  | csw => exact lasts s.log (.status s.bot.csw) trivial earlier

theorem lasts_blockCommand (lasts : Lasts holds) {start : Device → Device}
    (starts : ∀ {s : Device}, holds s.log → holds (start s).log) (reply : Reply) {s : Device}
    (earlier : holds s.log) : holds (blockCommand start reply s).log := by
  rw [blockCommand]
  dsimp only
  split
  · exact lasts_botTx lasts reply earlier
  · split
    · exact lasts_botTx lasts reply earlier
    · split
      · exact lasts_botTx lasts reply earlier
      · exact starts earlier

theorem lasts_dispatch (lasts : Lasts holds) (reply : Reply) {s : Device} (earlier : holds s.log) :
    holds (dispatch reply s).log := by
  cases dispatch_cases reply s with
  | reads _ result =>
    rw [result]
    rw [read10]
    apply lasts_blockCommand lasts
    · intro s earlier
      exact lasts_botTx lasts reply earlier
    · exact earlier
  | writes _ result =>
    rw [result]
    rw [write10]
    apply lasts_blockCommand lasts
    · intro s earlier
      exact earlier
    · exact earlier
  | @answers bytes _ _ _ result =>
    rw [result]
    exact lasts_botTx lasts reply (lasts s.log (.dataPhase (UInt32.ofNat bytes.length)) trivial earlier)
  | ends bot _ _ _ _ result =>
    rw [result]
    exact lasts_botTx lasts reply earlier

theorem lasts_program (lasts : Lasts holds) {reply : Reply} {s s' : Device} (returns : program reply s = some s')
    (earlier : holds s.log) : holds s'.log := by
  rw [program, Option.map_eq_some_iff] at returns
  obtain ⟨flash, _, rfl⟩ := returns
  have moved := lasts s.log (.sector s.bot.lba s.bot.lbn) trivial earlier
  dsimp only
  split
  · exact lasts_botTx lasts reply moved
  · exact moved

end Lasts

theorem lasts_log (log : List Output) : Lasts fun log' => log <+: log' := by
  intro log' output _ earlier
  exact earlier.trans (List.prefix_append _ _)

/-- What a packet does to the log: it is not looked at, refused, taken as a command, or taken as data. -/
inductive Took (packet : Option (List UInt8)) (s s' : Device) : Prop where
  | ignored (log : s'.log = s.log)
  | refused (log : s'.log = s.log ++ [.stalled])
  | command {bytes : List UInt8} (whole : delivered packet = some bytes)
      (log : ∀ holds, Lasts holds → holds (s.log ++ [.command (wrapper bytes)]) → holds s'.log)
  | data (log : ∀ holds, Lasts holds → holds (s.log ++ [.received (delivered packet)]) → holds s'.log)

theorem rxIdle_took (packet : Option (List UInt8)) (reply : Reply) (s : Device) :
    Took packet s (rxIdle packet reply s) := by
  rw [rxIdle]
  by_cases length : ((delivered packet).getD []).length = 31
  · have some : delivered packet = some ((delivered packet).getD []) := by
      cases known : delivered packet with
      | none =>
        rw [known] at length
        cases length
      | some bytes => rfl
    generalize (delivered packet).getD [] = bytes at length some
    rw [if_neg (not_not_intro length), cbwOf_store length, accept]
    by_cases valid : (wrapper bytes).Valid
    · rw [if_pos valid]
      exact Took.command some fun holds lasts taken => lasts_dispatch lasts reply taken
    · rw [if_neg valid]
      exact .refused rfl
  · rw [if_pos length]
    exact .refused rfl

theorem botRx_took {packet : Option (List UInt8)} {reply : Reply} {s s' : Device}
    (returns : botRx packet reply s = some s') : Took packet s s' := by
  rw [botRx] at returns
  split at returns
  next =>
    rw [← Option.some.inj returns]
    exact rxIdle_took packet reply s
  next =>
    rw [rxWrite] at returns
    dsimp only at returns
    split at returns
    · cases returns
    · apply Took.data
      intro holds lasts received
      split at returns
      · exact lasts_program lasts returns received
      · rw [← Option.some.inj returns]
        exact received
  next =>
    rw [← Option.some.inj returns]
    exact .ignored rfl

/-- Every step only adds to the log. -/
theorem grows_step {event : Event} {s s' : Device} (taken : step event s = some s') : s.log <+: s'.log := by
  cases event with
  | tx reply =>
    rw [← Option.some.inj taken]
    exact lasts_botTx (lasts_log s.log) reply List.prefix_rfl
  | rx packet reply =>
    cases botRx_took taken with
    | ignored log => rw [log]
    | refused log =>
      rw [log]
      exact List.prefix_append _ _
    | command _ log => exact log _ (lasts_log s.log) (List.prefix_append _ _)
    | data log => exact log _ (lasts_log s.log) (List.prefix_append _ _)
  | reset => rw [← Option.some.inj taken]

end XinuStm32.Msc
