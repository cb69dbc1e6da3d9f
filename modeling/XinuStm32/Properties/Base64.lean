import XinuStm32.App.Base64

/-!
# Decoding what was encoded

The sextets of a group determine its bytes, so that whole groups come back. The last group does where the decoder counts
as many padding characters as there are bytes missing: a sextet that is zero is padding for the encoder as well.
-/

namespace XinuStm32

open BitFields

variable {s src : Nat → UInt8} {left slen place : Nat} {t u v : Base64} {a b c : UInt8}

/-! ## A group -/

namespace Base64

theorem fields_setBytes (a b c : UInt8) (t : Base64) :
    field 0 8 (t.setBytes a b c) = c.toBitVec ∧ field 8 8 (t.setBytes a b c) = b.toBitVec ∧
      field 16 8 (t.setBytes a b c) = a.toBitVec := by
  refine ⟨?_, ?_, ?_⟩
  · exact field_setField 0 _ _ (by omega)
  · rw [setBytes, field_setField_apart _ _ (by omega) (by omega), field_setField 8 _ _ (by omega)]
  · rw [setBytes, field_setField_apart _ _ (by omega) (by omega), field_setField_apart _ _ (by omega) (by omega),
      field_setField 16 _ _ (by omega)]

theorem fields_setSextets (a b c d : UInt8) (t : Base64) :
    (t.setSextets a b c d).e4 = d.toBitVec.setWidth 6 ∧ (t.setSextets a b c d).e3 = c.toBitVec.setWidth 6 ∧
      (t.setSextets a b c d).e2 = b.toBitVec.setWidth 6 ∧ (t.setSextets a b c d).e1 = a.toBitVec.setWidth 6 := by
  refine ⟨?_, ?_, ?_, ?_⟩
  · exact field_setField 0 _ _ (by omega)
  · rw [e3, setSextets, field_setField_apart _ _ (by omega) (by omega), field_setField 6 _ _ (by omega)]
  · rw [e2, setSextets, field_setField_apart _ _ (by omega) (by omega), field_setField_apart _ _ (by omega) (by omega),
      field_setField 12 _ _ (by omega)]
  · rw [e1, setSextets, field_setField_apart _ _ (by omega) (by omega), field_setField_apart _ _ (by omega) (by omega),
      field_setField_apart _ _ (by omega) (by omega), field_setField 18 _ _ (by omega)]

/-- The bytes of a group are those of any word with its sextets. -/
theorem bytes_of_sextets (first : t.e1 = u.e1) (second : t.e2 = u.e2) (third : t.e3 = u.e3) (fourth : t.e4 = u.e4) :
    t.c1 = u.c1 ∧ t.c2 = u.c2 ∧ t.c3 = u.c3 := by
  have whole : field 0 (6 + 6 + 6 + 6) t = field 0 (6 + 6 + 6 + 6) u := by
    apply field_join
    · apply field_join
      · exact field_join fourth third
      · exact second
    · exact first
  have high : field 16 8 t = field 16 8 u := field_within whole (by omega) (by omega)
  have middle : field 8 8 t = field 8 8 u := field_within whole (by omega) (by omega)
  have low : field 0 8 t = field 0 8 u := field_within whole (by omega) (by omega)
  exact ⟨by rw [c1, c1, high], by rw [c2, c2, middle], by rw [c3, c3, low]⟩

theorem c1_setBytes (a b c : UInt8) (t : Base64) : (t.setBytes a b c).c1 = a := by
  rw [c1, (fields_setBytes a b c t).2.2]

theorem c2_setBytes (a b c : UInt8) (t : Base64) : (t.setBytes a b c).c2 = b := by
  rw [c2, (fields_setBytes a b c t).2.1]

theorem c3_setBytes (a b c : UInt8) (t : Base64) : (t.setBytes a b c).c3 = c := by
  rw [c3, (fields_setBytes a b c t).1]

/-- The decoder's word has the bytes that the encoder's was filled with, if the sextets are the same. -/
theorem restored {v1 v2 v3 v4 : UInt8} {w : Base64} (filled : t.setBytes a b c = w)
    (first : v1.toBitVec.setWidth 6 = w.e1) (second : v2.toBitVec.setWidth 6 = w.e2)
    (third : v3.toBitVec.setWidth 6 = w.e3) (fourth : v4.toBitVec.setWidth 6 = w.e4) (u : Base64) :
    (u.setSextets v1 v2 v3 v4).c1 = a ∧ (u.setSextets v1 v2 v3 v4).c2 = b ∧ (u.setSextets v1 v2 v3 v4).c3 = c := by
  subst filled
  obtain ⟨four, three, two, one⟩ := fields_setSextets v1 v2 v3 v4 u
  obtain ⟨high, middle, low⟩ := bytes_of_sextets (one.trans first) (two.trans second) (three.trans third)
    (four.trans fourth)
  rw [high, middle, low]
  exact ⟨c1_setBytes a b c t, c2_setBytes a b c t, c3_setBytes a b c t⟩

/-- The third sextet of a group without a third byte. -/
theorem e3_eq_zero_iff (a b : UInt8) (t : Base64) : (t.setBytes a b 0).e3 = 0 ↔ b &&& 0x0F = 0 := by
  have same : (t.setBytes a b 0).e3 = ((0 : Base64).setBytes 0 b 0).e3 := by
    obtain ⟨low, high, -⟩ := fields_setBytes a b 0 t
    obtain ⟨low', high', -⟩ := fields_setBytes 0 b 0 0
    have whole := field_join (low.trans low'.symm) (high.trans high'.symm)
    exact field_within whole (by omega) (by omega)
  rw [same]
  clear same
  revert b
  decide +kernel

theorem e4_eq_zero (a b : UInt8) (t : Base64) : (t.setBytes a b 0).e4 = 0 := by
  have low := (fields_setBytes a b 0 t).1
  have none : field 0 8 (0 : Base64) = (0 : UInt8).toBitVec := by decide
  have same := field_within (low.trans none.symm) (Nat.zero_le 0) (show 0 + 6 ≤ 0 + 8 by omega)
  rw [e4, same]
  decide

end Base64

/-! ## The tables -/

/-- The byte of a sextet. -/
def sextetByte (e : BitVec 6) : UInt8 := ⟨e.setWidth 8⟩

theorem dectbl_enctbl (e : BitVec 6) : dectbl (enctbl e) = some (sextetByte e) := by
  revert e
  decide

theorem enctbl_ne_padding (e : BitVec 6) : enctbl e ≠ padding := by
  revert e
  decide

theorem setWidth_sextetByte (e : BitVec 6) : (sextetByte e).toBitVec.setWidth 6 = e := by
  revert e
  decide

/-- Characters in memory from a place on. -/
def Stored (src : Nat → UInt8) : Nat → List UInt8 → Prop
  | _, [] => True
  | place, ch :: rest => src place = ch ∧ Stored src (place + 1) rest

theorem stored_append {front back : List UInt8} :
    Stored src place (front ++ back) ↔ Stored src place front ∧ Stored src (place + front.length) back := by
  induction front generalizing place with
  | nil => simp [Stored]
  | cons ch front inductionHypothesis =>
    rw [List.cons_append, Stored, Stored, inductionHypothesis, List.length_cons, and_assoc, Nat.add_assoc,
      Nat.add_comm 1]

theorem stored_getD (list : List UInt8) (place : Nat) : Stored (fun i => list.getD i 0) place (list.drop place) := by
  induction rest : list.drop place generalizing place with
  | nil => trivial
  | cons ch behind inductionHypothesis =>
    have inside : place < list.length := by
      by_contra outside
      rw [List.drop_eq_nil_of_le (by omega)] at rest
      cases rest
    rw [List.drop_eq_getElem_cons inside] at rest
    obtain ⟨rfl, rfl⟩ := List.cons.inj rest
    exact ⟨List.getD_eq_getElem _ _ inside, inductionHypothesis (place + 1) rfl⟩

/-! ## The loops -/

/-- The bytes from a place on. -/
def bytesFrom (s : Nat → UInt8) (place : Nat) : Nat → List UInt8
  | 0 => []
  | count + 1 => s place :: bytesFrom s (place + 1) count

theorem length_encodeGroups (s : Nat → UInt8) (left i : Nat) (t : Base64) :
    (encodeGroups s left i t).2.dst.length = 4 * left := by
  induction left generalizing i t with
  | zero => rfl
  | succ left inductionHypothesis =>
    simp only [encodeGroups, List.length_cons, inductionHypothesis]
    omega

theorem encodeGroups_read (s : Nat → UInt8) (left i : Nat) (t : Base64) :
    ∀ place ∈ (encodeGroups s left i t).2.read, place < i + 3 * left := by
  induction left generalizing i t with
  | zero => simp [encodeGroups]
  | succ left inductionHypothesis =>
    simp only [encodeGroups]
    intro place member
    simp only [List.mem_cons] at member
    obtain rfl | rfl | rfl | later := member
    · omega
    · omega
    · omega
    · have bound := inductionHypothesis _ _ place later
      omega

/-- Whole groups come back, whatever is left in the words. -/
theorem decodeGroups_encodeGroups (stored : Stored src place (encodeGroups s left slen t).2.dst) (u : Base64) :
    ∃ v, decodeGroups src left place u = some (v, bytesFrom s slen (3 * left)) := by
  induction left generalizing place slen t u with
  | zero => exact ⟨u, rfl⟩
  | succ left inductionHypothesis =>
    simp only [encodeGroups, Stored] at stored
    obtain ⟨first, second, third, fourth, later⟩ := stored
    generalize word : t.setBytes (s slen) (s (slen + 1)) (s (slen + 2)) = w at first second third fourth later
    obtain ⟨high, middle, low⟩ := Base64.restored word (setWidth_sextetByte w.e1) (setWidth_sextetByte w.e2)
      (setWidth_sextetByte w.e3) (setWidth_sextetByte w.e4) u
    obtain ⟨v, rest⟩ := inductionHypothesis later
      (u.setSextets (sextetByte w.e1) (sextetByte w.e2) (sextetByte w.e3) (sextetByte w.e4))
    refine ⟨v, ?_⟩
    rw [decodeGroups, first, second, third, fourth]
    simp only [dectbl_enctbl, Option.bind_eq_bind, Option.bind_some]
    rw [high, middle, low, rest]
    rfl

/-! ## The last group -/

/-- The sextet behind a padding character is zero. -/
theorem dectbl_padding : dectbl padding = some 64 := by decide

/-- What is written for one byte or two, with the padding that the decoder counts. -/
theorem decodeRest_encodeRest {i : Nat} (stored : Stored src place (encodeRest s slen i t).dst)
    (more : place + 1 < left)
    (u : Base64) :
    decodeRest src left place u = some [s i, UInt8.ofNat (slen - (i + 1)) * s (i + 1), 0] := by
  generalize rest : UInt8.ofNat (slen - (i + 1)) * s (i + 1) = b at stored ⊢
  simp only [encodeRest, Stored, rest] at stored
  obtain ⟨first, second, third, -⟩ := stored
  have last : (0 : UInt8).toBitVec.setWidth 6 = (t.setBytes (s i) b 0).e4 := by
    rw [Base64.e4_eq_zero]
    decide
  obtain ⟨v, found, sextet⟩ : ∃ v, dectbl (src (place + 2)) = some v ∧
      v.toBitVec.setWidth 6 = (t.setBytes (s i) b 0).e3 := by
    rw [show place + 2 = place + 1 + 1 from rfl, third]
    by_cases none : (t.setBytes (s i) b 0).e3 = 0
    · rw [if_neg (not_not.mpr none), none]
      exact ⟨64, dectbl_padding, by decide⟩
    · rw [if_pos none]
      exact ⟨_, dectbl_enctbl _, setWidth_sextetByte _⟩
  obtain ⟨high, middle, low⟩ := Base64.restored rfl (setWidth_sextetByte _) (setWidth_sextetByte _) sextet last u
  simp only [decodeRest, first, second, dectbl_enctbl, Option.bind_eq_bind, Option.bind_some, if_pos more, found]
  rw [high, middle, low]
  rfl

/-! ## The whole -/

theorem skipPadding_stop {n : Nat} (other : src n ≠ padding) : skipPadding src (n + 1) = some (n + 1) := by
  rw [skipPadding, if_neg other]

theorem skipPadding_step {n : Nat} (same : src n = padding) : skipPadding src (n + 1) = skipPadding src n := by
  rw [skipPadding, if_pos same]

/-- The decoder finds the end of the whole groups, and counts a padding character for the missing third byte, and one
for the second sextet of nothing. -/
theorem skipPadding_encodeRest {i : Nat} (stored : Stored src place (encodeRest s slen i t).dst) :
    skipPadding src (place + 4) = some (place +
      if (UInt8.ofNat (slen - (i + 1)) * s (i + 1)) &&& 0x0F = 0 then 2 else 3) := by
  simp only [encodeRest, Stored] at stored
  obtain ⟨-, second, third, fourth, -⟩ := stored
  have ends : skipPadding src (place + 4) = skipPadding src (place + 3) := skipPadding_step fourth
  rw [ends]
  by_cases none : (UInt8.ofNat (slen - (i + 1)) * s (i + 1)) &&& 0x0F = 0
  · rw [if_pos none]
    rw [if_neg (not_not.mpr ((Base64.e3_eq_zero_iff _ _ _).mpr none))] at third
    have skipped : skipPadding src (place + 3) = skipPadding src (place + 2) := skipPadding_step third
    rw [skipped]
    apply skipPadding_stop
    rw [second]
    exact enctbl_ne_padding _
  · rw [if_neg none]
    rw [if_pos fun zero => none ((Base64.e3_eq_zero_iff _ _ _).mp zero)] at third
    apply skipPadding_stop
    rw [show place + 2 = place + 1 + 1 from rfl, third]
    exact enctbl_ne_padding _

/-- Behind whole groups there is no padding. -/
theorem skipPadding_encodeGroups (stored : Stored src place (encodeGroups s (left + 1) slen t).2.dst) :
    skipPadding src (place + 4 * (left + 1)) = some (place + 4 * (left + 1)) := by
  induction left generalizing place slen t with
  | zero =>
    simp only [encodeGroups, Stored] at stored
    apply skipPadding_stop
    rw [show place + 3 = place + 1 + 1 + 1 from rfl, stored.2.2.2.1]
    exact enctbl_ne_padding _
  | succ left inductionHypothesis =>
    rw [encodeGroups] at stored
    simp only [Stored] at stored
    have later := inductionHypothesis stored.2.2.2.2
    rw [show place + 4 * (left + 1 + 1) = place + 1 + 1 + 1 + 1 + 4 * (left + 1) by omega]
    exact later

theorem length_bytesFrom (s : Nat → UInt8) (place count : Nat) : (bytesFrom s place count).length = count := by
  induction count generalizing place with
  | zero => rfl
  | succ count inductionHypothesis => rw [bytesFrom, List.length_cons, inductionHypothesis]

theorem bytesFrom_add (s : Nat → UInt8) (place count more : Nat) :
    bytesFrom s place (count + more) = bytesFrom s place count ++ bytesFrom s (place + count) more := by
  induction count generalizing place with
  | zero => rw [Nat.zero_add, Nat.add_zero]; rfl
  | succ count inductionHypothesis =>
    rw [Nat.succ_add, bytesFrom, inductionHypothesis, bytesFrom, List.cons_append, Nat.add_assoc, Nat.add_comm 1]

theorem base64Encode_whole (src : Nat → UInt8) (groups : Nat) (t : Base64) :
    base64Encode src (3 * (groups + 1)) t = (encodeGroups src (groups + 1) 0 t).2 := by
  have number : 3 * (groups + 1) / 3 = groups + 1 := by omega
  rw [base64Encode, if_neg (by omega), number]
  exact if_neg (by omega)

theorem base64Encode_rest (src : Nat → UInt8) (groups : Nat) {more : Nat} (some : 0 < more) (few : more < 3)
    (t : Base64) :
    base64Encode src (3 * groups + more) t =
      ⟨(encodeGroups src groups 0 t).2.dst ++
          (encodeRest src (3 * groups + more) (3 * groups) (encodeGroups src groups 0 t).1).dst,
        (encodeGroups src groups 0 t).2.read ++ [3 * groups, 3 * groups + 1]⟩ := by
  have number : (3 * groups + more) / 3 = groups := by omega
  rw [base64Encode, if_neg (by omega), number, Nat.mul_comm groups 3]
  exact if_pos (by omega)

/-- Whole groups come back. -/
theorem base64Decode_whole {groups : Nat} (stored : Stored src 0 (encodeGroups s (groups + 1) 0 t).2.dst) (u : Base64) :
    base64Decode src (4 * (groups + 1)) u = some
      (bytesFrom s 0 (3 * (groups + 1)), ((3 * (groups + 1) : Nat) : Int)) := by
  have found := skipPadding_encodeGroups stored
  obtain ⟨v, decoded⟩ := decodeGroups_encodeGroups stored u
  rw [Nat.zero_add] at found
  rw [base64Decode, if_neg (by omega), found]
  have number : 4 * (groups + 1) / 4 = groups + 1 := by omega
  simp only [Option.bind_eq_bind, Option.bind_some, number, decoded]
  rw [if_neg (by omega), length_bytesFrom, Nat.sub_self]
  simp

/-- The rest of the bytes come back with one that is zero behind them, or two, and the length leaves out as many as
there are padding characters. -/
theorem base64Decode_rest {groups : Nat}
    (stored : Stored src 0 ((encodeGroups s groups 0 t).2.dst ++ (encodeRest s slen (3 * groups) v).dst))
    (rest : UInt8.ofNat (slen - (3 * groups + 1)) * s (3 * groups + 1) = b) (u : Base64) :
    base64Decode src (4 * groups + 4) u = some (bytesFrom s 0 (3 * groups) ++ [s (3 * groups), b, 0],
      ((3 * groups + if b &&& 0x0F = 0 then 1 else 2 : Nat) : Int)) := by
  obtain ⟨front, back⟩ := stored_append.mp stored
  rw [length_encodeGroups, Nat.zero_add] at back
  have found := skipPadding_encodeRest back
  obtain ⟨v, decoded⟩ := decodeGroups_encodeGroups front u
  have last := decodeRest_encodeRest back (show 4 * groups + 1 < 4 * groups + 4 by omega) v
  rw [rest] at found last
  have number : (4 * groups + if b &&& 0x0F = 0 then 2 else 3) / 4 = groups := by
    split <;> omega
  rw [base64Decode, if_neg (by omega), found]
  simp only [Option.bind_eq_bind, Option.bind_some, number, decoded, Nat.mul_comm groups 4]
  rw [if_pos (by omega), last]
  simp only [Option.bind_some, List.length_append, length_bytesFrom, List.length_cons, List.length_nil]
  congr 2
  split <;> omega

/-- Two bytes of the rest come back with the right length unless the sextet that only the second one fills is zero; a
single byte does, but the one behind it is read. -/
theorem base64_round_trip_iff (src : Nat → UInt8) {slen : Nat} (nonempty : 0 < slen) (t u : Base64) {mem : Nat → UInt8}
    (stored : Stored mem 0 (base64Encode src slen t).dst) :
    ((∃ out, base64Decode mem (base64Encode src slen t).dst.length u = some (out, (slen : Int)) ∧
        out.take slen = bytesFrom src 0 slen) ∧
      ∀ place ∈ (base64Encode src slen t).read, place < slen) ↔
    slen % 3 = 0 ∨ slen % 3 = 2 ∧ src (slen - 1) &&& 0x0F ≠ 0 := by
  obtain ⟨groups, more, rfl, few⟩ : ∃ groups more, slen = 3 * groups + more ∧ more < 3 :=
    ⟨slen / 3, slen % 3, (Nat.div_add_mod slen 3).symm, Nat.mod_lt _ (by omega)⟩
  obtain rfl | rfl | rfl : more = 0 ∨ more = 1 ∨ more = 2 := by omega
  · obtain ⟨groups, rfl⟩ : ∃ k, groups = k + 1 := ⟨groups - 1, by omega⟩
    rw [Nat.add_zero, base64Encode_whole] at stored ⊢
    apply iff_of_true _ (Or.inl (by omega))
    refine ⟨⟨bytesFrom src 0 (3 * (groups + 1)), ?_, ?_⟩, ?_⟩
    · rw [length_encodeGroups]
      exact base64Decode_whole stored u
    · exact List.take_of_length_le (Nat.le_of_eq (length_bytesFrom _ _ _))
    · intro place member
      have bound := encodeGroups_read _ _ _ _ place member
      omega
  · rw [base64Encode_rest src groups (by omega) (by omega)]
    apply iff_of_false _ (by omega)
    -- The byte behind the only one of the last group is read.
    intro inside
    have bound := inside.2 (3 * groups + 1) (by simp)
    omega
  · have byte : UInt8.ofNat (3 * groups + 2 - (3 * groups + 1)) * src (3 * groups + 1) = src (3 * groups + 1) := by
      rw [show 3 * groups + 2 - (3 * groups + 1) = 1 by omega]
      exact UInt8.one_mul _
    rw [base64Encode_rest src groups (by omega) (by omega)] at stored ⊢
    have decoded := base64Decode_rest stored byte u
    have length : ((encodeGroups src groups 0 t).2.dst ++
        (encodeRest src (3 * groups + 2) (3 * groups) (encodeGroups src groups 0 t).1).dst).length =
          4 * groups + 4 := by
      rw [List.length_append, length_encodeGroups]
      rfl
    simp only [length, decoded, show 3 * groups + 2 - 1 = 3 * groups + 1 by omega]
    constructor
    · rintro ⟨⟨out, same, -⟩, -⟩
      rw [Option.some.injEq, Prod.mk.injEq] at same
      refine Or.inr ⟨by omega, fun zero => ?_⟩
      rw [if_pos zero] at same
      omega
    · intro last
      have some : src (3 * groups + 1) &&& 0x0F ≠ 0 := by
        cases last with
        | inl whole => omega
        | inr two => exact two.2
      rw [if_neg some]
      refine ⟨⟨_, rfl, ?_⟩, ?_⟩
      · rw [bytesFrom_add, List.take_append, length_bytesFrom, Nat.add_sub_cancel_left,
          List.take_of_length_le (by rw [length_bytesFrom]; omega), Nat.zero_add]
        rfl
      · intro place member
        cases List.mem_append.mp member with
        | inl front =>
          have bound := encodeGroups_read _ _ _ _ place front
          omega
        | inr back =>
          simp only [List.mem_cons, List.not_mem_nil, or_false] at back
          omega

/-- A byte string in memory, with zeros behind it. -/
def inMemory (list : List UInt8) : Nat → UInt8 := fun i => list.getD i 0

/-- The three bytes of `Man`. -/
theorem base64_round_trip_man :
    (base64Encode (inMemory [0x4D, 0x61, 0x6E]) 3 0).dst = [0x54, 0x57, 0x46, 0x75] ∧
      (∃ out, base64Decode (inMemory (base64Encode (inMemory [0x4D, 0x61, 0x6E]) 3 0).dst)
          (base64Encode (inMemory [0x4D, 0x61, 0x6E]) 3 0).dst.length 0 = some (out, ((3 : Nat) : Int)) ∧
        out.take 3 = bytesFrom (inMemory [0x4D, 0x61, 0x6E]) 0 3) ∧
      ∀ place ∈ (base64Encode (inMemory [0x4D, 0x61, 0x6E]) 3 0).read, place < 3 :=
  ⟨by decide, (base64_round_trip_iff (inMemory [0x4D, 0x61, 0x6E]) (by decide) 0 0
    (stored_getD (base64Encode (inMemory [0x4D, 0x61, 0x6E]) 3 0).dst 0)).mpr (Or.inl (by decide))⟩

/-- `A@` is encoded with two padding characters, and comes back as one byte. -/
theorem base64_two_bytes_lost :
    ¬∀ (src mem : Nat → UInt8) (slen : Nat) (t u : Base64), 0 < slen → Stored mem 0 (base64Encode src slen t).dst →
      ∃ out, base64Decode mem (base64Encode src slen t).dst.length u = some (out, (slen : Int)) := by
  intro all
  obtain ⟨out, returned⟩ := all (inMemory [0x41, 0x40]) (inMemory (base64Encode (inMemory [0x41, 0x40]) 2 0).dst) 2 0 0
    (by decide) (stored_getD (base64Encode (inMemory [0x41, 0x40]) 2 0).dst 0)
  have short : base64Decode (inMemory (base64Encode (inMemory [0x41, 0x40]) 2 0).dst)
      (base64Encode (inMemory [0x41, 0x40]) 2 0).dst.length 0 = some ([0x41, 0x40, 0], 1) := by decide
  rw [short, Option.some.injEq, Prod.mk.injEq] at returned
  exact absurd returned.2 (by decide)

end XinuStm32
