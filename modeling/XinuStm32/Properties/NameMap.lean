import XinuStm32.Abstract.Names
import XinuStm32.Kernel.Namespace
import XinuStm32.Lib.CString

/-!
# Mapping a name

Whatever was mounted, `nammap` ends, and finds what the table maps a name to: the first prefix that matches is replaced
until the entry belongs to another device. It fails exactly when there is no such mapping among the names that fit, and
stores nothing behind its buffers.
-/

namespace XinuStm32

open CString Names Patch

variable {name buf : Nat → UInt8} {text : List UInt8} {maxlen fuel : Nat}

/-! ## The walks along a string -/

theorem namlenLoop_holds (holds : Holds name text) {left i : Nat} (start : i ≤ text.length)
    (enough : text.length < i + left) :
    namlenLoop name left i = text.length + 1 := by
  induction left generalizing i with
  | zero => omega
  | succ left inductionHypothesis =>
    rw [namlenLoop]
    by_cases last : i = text.length
    · subst last
      rw [if_pos holds.ends]
    · rw [if_neg (holds.ne_zero (by omega))]
      exact inductionHypothesis (by omega) (by omega)

theorem namlen_holds (holds : Holds name text) (fits : text.length < maxlen) : namlen name maxlen = text.length + 1 :=
  namlenLoop_holds holds (Nat.zero_le _) (by omega)

/-- A length that is found belongs to a string. -/
theorem namlenLoop_found {left i : Nat} (found : namlenLoop name left i ≠ SYSERR) (before : ∀ j < i, name j ≠ 0) :
    ∃ text, Holds name text ∧ text.length < i + left := by
  induction left generalizing i with
  | zero => exact absurd rfl found
  | succ left inductionHypothesis =>
    rw [namlenLoop] at found
    by_cases last : name i = NULLCH
    · obtain ⟨text, holds, length⟩ := exists_holds name last before
      exact ⟨text, holds, by omega⟩
    · rw [if_neg last] at found
      obtain ⟨text, holds, length⟩ := inductionHypothesis found (fun j less => by
        cases Nat.lt_succ_iff_lt_or_eq.mp less with
        | inl earlier => exact before j earlier
        | inr here =>
          rw [here]
          exact last)
      exact ⟨text, holds, by omega⟩

theorem namlen_found (found : namlen name maxlen ≠ SYSERR) : ∃ text, Holds name text ∧ text.length < maxlen := by
  obtain ⟨text, holds, length⟩ := namlenLoop_found found (fun j less => absurd less (Nat.not_lt_zero j))
  exact ⟨text, holds, by omega⟩

theorem copyBytes_eq (src : Nat → UInt8) (left sptr dptr : Nat) (buf : Nat → UInt8) :
    copyBytes src left sptr dptr buf = patch dptr left (fun i => src (sptr + i)) buf := by
  induction left generalizing sptr dptr buf with
  | zero => rw [patch_zero, copyBytes]
  | succ left inductionHypothesis =>
    rw [copyBytes, inductionHypothesis, ← patch_cons]
    simp only [Nat.add_zero, Nat.add_assoc, Nat.add_comm 1]

theorem namcpyLoop_holds (holds : Holds name text) {left cnt : Nat} (start : cnt ≤ text.length)
    (enough : text.length < cnt + left) :
    namcpyLoop name left cnt buf = (OK, patch cnt (text.length + 1 - cnt) (fun i => name (cnt + i)) buf) := by
  induction left generalizing cnt buf with
  | zero => omega
  | succ left inductionHypothesis =>
    rw [namcpyLoop]
    by_cases last : cnt = text.length
    · subst last
      rw [if_pos holds.ends, Nat.add_sub_cancel_left, patch_one]
      rfl
    · rw [if_neg (holds.ne_zero (by omega)), inductionHypothesis (by omega) (by omega)]
      have count : text.length + 1 - cnt = text.length + 1 - (cnt + 1) + 1 := by omega
      rw [count, ← patch_cons]
      simp only [Nat.add_zero, Nat.add_assoc, Nat.add_comm 1]

theorem namcpy_holds (holds : Holds name text) (fits : text.length < maxlen) :
    namcpy buf name maxlen = (OK, patch 0 (text.length + 1) name buf) := by
  rw [namcpy, namcpyLoop_holds holds (Nat.zero_le _) (by omega)]
  simp only [Nat.zero_add, Nat.sub_zero]

theorem namcpyLoop_long {left cnt : Nat} (none : ∀ i < cnt + left, name i ≠ 0) :
    namcpyLoop name left cnt buf = (SYSERR, patch cnt left (fun i => name (cnt + i)) buf) := by
  induction left generalizing cnt buf with
  | zero => rw [patch_zero, namcpyLoop]
  | succ left inductionHypothesis =>
    rw [namcpyLoop, if_neg (none cnt (by omega)), inductionHypothesis (fun i less => none i (by omega)), ← patch_cons]
    simp only [Nat.add_zero, Nat.add_assoc, Nat.add_comm 1]

/-- The comparison ends where the prefix does or the name differs. -/
theorem comparePrefix_stop {nprefixStr : Nat → UInt8} {plen place : Nat} (reached : plen ≤ place)
    (enough : place < plen + fuel) (stops : nprefixStr place = 0 ∨ nprefixStr place ≠ name place)
    (before : ∀ i < place, nprefixStr i ≠ 0 ∧ nprefixStr i = name i) :
    comparePrefix nprefixStr name fuel plen = some place := by
  induction fuel generalizing plen with
  | zero => omega
  | succ fuel inductionHypothesis =>
    rw [comparePrefix]
    by_cases here : plen = place
    · subst here
      split
      · rfl
      next some =>
        rw [if_pos (stops.resolve_left some)]
    · obtain ⟨some, same⟩ := before plen (by omega)
      rw [if_neg some, if_neg (not_not.mpr same)]
      exact inductionHypothesis (by omega) (by omega)

/-! ## Tables that were mounted -/

/-- An entry of `nametab` and what was mounted there. -/
structure Entered (entry : Nmentry) (mapping : Mapping UInt8 Int) : Prop where
  front : Holds entry.nprefixStr mapping.front
  frontShort : mapping.front.length < NM_PRELEN
  replacement : Holds entry.nreplace mapping.replacement
  replacementShort : mapping.replacement.length < NM_REPLLEN
  device : entry.ndevice = mapping.device
  valid : 0 ≤ mapping.device

/-- What the calls of `mount` have made of an empty table; strings are what they are called with. -/
inductive Mounted : Namespace → List (Mapping UInt8 Int) → Prop where
  | empty (nametab : Nat → Nmentry) (ndevs : Int) : Mounted ⟨nametab, 0, ndevs⟩ []
  | entered {s t : Namespace} {table : List (Mapping UInt8 Int)} {nprefixStr replace : Nat → UInt8}
      {front replacement : List UInt8} {device : Int} (before : Mounted s table) (isFront : Holds nprefixStr front)
      (isReplacement : Holds replace replacement) (accepted : mount nprefixStr replace device s = (OK, t)) : Mounted t
        (table ++ [⟨front, replacement, device⟩])
  | refused {s t : Namespace} {table : List (Mapping UInt8 Int)} {nprefixStr replace : Nat → UInt8} {device : Int}
      (before : Mounted s table) (failed : mount nprefixStr replace device s = (SYSERR, t)) : Mounted t table

/-- The table in memory. -/
structure Tabled (s : Namespace) (table : List (Mapping UInt8 Int)) : Prop where
  nnames : s.nnames = table.length
  room : s.nnames ≤ NNAMES
  entries : ∀ i (inside : i < table.length), Entered (s.nametab i) table[i]

variable {s t : Namespace} {table : List (Mapping UInt8 Int)} {device : Int}

/-- `mount` refuses, or enters the strings it is called with. -/
theorem mount_cases (nprefixStr replace : Nat → UInt8) (device : Int) (tabled : Tabled s table) :
    mount nprefixStr replace device s = (SYSERR, s) ∨
      ∃ t front replacement, mount nprefixStr replace device s = (OK, t) ∧ Holds nprefixStr front ∧
        Holds replace replacement ∧ Tabled t (table ++ [⟨front, replacement, device⟩]) := by
  rw [mount]
  simp only
  split
  · exact Or.inl rfl
  next accepted =>
    simp only [not_or, not_le, ge_iff_le] at accepted
    obtain ⟨psiz, rsiz, valid, room⟩ := accepted
    obtain ⟨front, isFront, short⟩ := namlen_found psiz
    obtain ⟨replacement, isReplacement, short'⟩ := namlen_found rsiz
    refine Or.inr ⟨_, front, replacement, rfl, isFront, isReplacement, ?_, ?_, ?_⟩
    · simp only [tabled.nnames, List.length_append, List.length_singleton]
      omega
    · simp only
      omega
    · intro i inside
      rw [List.length_append, List.length_singleton] at inside
      have slot : s.nnames.toNat = table.length := by rw [tabled.nnames, Int.toNat_natCast]
      by_cases old : i < table.length
      · rw [List.getElem_append_left old]
        simp only
        rw [Function.update_of_ne (by omega)]
        exact tabled.entries i old
      · have new : i = table.length := by omega
        subst new
        rw [List.getElem_append_right (Nat.le_refl _)]
        simp only [slot, Function.update_self, Nat.sub_self, List.getElem_cons_zero]
        rw [namlen_holds isFront short, namlen_holds isReplacement short', copyBytes_eq, copyBytes_eq]
        constructor
        · simp only [Nat.zero_add]
          exact isFront.copied (by omega)
        · exact short
        · simp only [Nat.zero_add]
          exact isReplacement.copied (by omega)
        · exact short'
        · rfl
        · exact Int.le_of_not_gt fun negative => valid (Or.inl negative)

theorem Mounted.tabled (mounted : Mounted s table) : Tabled s table := by
  induction mounted with
  | empty nametab ndevs => exact ⟨rfl, Int.zero_le_ofNat 5, fun i inside => absurd inside (Nat.not_lt_zero i)⟩
  | @entered s t table nprefixStr replace front replacement device before isFront isReplacement accepted inductionHypothesis =>
    cases mount_cases nprefixStr replace device inductionHypothesis with
    | inl refused =>
      rw [refused] at accepted
      cases accepted
    | inr entered =>
      obtain ⟨t', front', replacement', same, isFront', isReplacement', tabled⟩ := entered
      rw [accepted, Prod.mk.injEq] at same
      rw [same.2, isFront.unique isFront', isReplacement.unique isReplacement']
      exact tabled
  | @refused s t table nprefixStr replace device before failed inductionHypothesis =>
    cases mount_cases nprefixStr replace device inductionHypothesis with
    | inl refused =>
      rw [failed, Prod.mk.injEq] at refused
      rw [refused.2]
      exact inductionHypothesis
    | inr entered =>
      obtain ⟨t', front', replacement', same, -⟩ := entered
      rw [failed] at same
      cases same

/-- Every call of `mount` leads from a mounted table to one. -/
theorem Mounted.step (mounted : Mounted s table) (nprefixStr replace : Nat → UInt8) (device : Int) :
    ∃ table', Mounted (mount nprefixStr replace device s).2 table' := by
  cases mount_cases nprefixStr replace device mounted.tabled with
  | inl refused => exact ⟨table, .refused mounted (by rw [refused])⟩
  | inr entered =>
    obtain ⟨t, front, replacement, accepted, isFront, isReplacement, -⟩ := entered
    exact ⟨_, .entered mounted isFront isReplacement (by rw [accepted])⟩

/-! ## One replacement -/

variable {entry : Nmentry} {mapping : Mapping UInt8 Int} {rest : List UInt8} {newname : Nat → UInt8} {place left : Nat}

/-- With its zero, the name is one that a buffer has room for. -/
def Fits (text : List UInt8) : Prop := text.length < NM_MAXLEN

instance (text : List UInt8) : Decidable (Fits text) := inferInstanceAs (Decidable (_ < _))

theorem comparePrefix_matched (entered : Entered entry mapping) (holds : Holds name text)
    (matched : mapping.front <+: text) (enough : NM_PRELEN ≤ fuel) :
    comparePrefix entry.nprefixStr name fuel 0 = some mapping.front.length := by
  have short := entered.frontShort
  have agree := (holds.prefix_iff entered.front).mp matched
  apply comparePrefix_stop (Nat.zero_le _) (by omega) (Or.inl entered.front.ends)
  exact fun i inside => ⟨entered.front.ne_zero inside, agree i inside⟩

theorem comparePrefix_unmatched (entered : Entered entry mapping) (holds : Holds name text)
    (unmatched : ¬mapping.front <+: text) (enough : NM_PRELEN ≤ fuel) :
    ∃ plen, comparePrefix entry.nprefixStr name fuel 0 = some plen ∧ entry.nprefixStr plen ≠ NULLCH := by
  have short := entered.frontShort
  have differs : ∃ i, i < mapping.front.length ∧ entry.nprefixStr i ≠ name i := by
    by_contra none
    push Not at none
    exact unmatched ((holds.prefix_iff entered.front).mpr none)
  -- the comparison ends at the first place where the name differs
  obtain ⟨inside, differ⟩ := Nat.find_spec differs
  refine ⟨Nat.find differs, ?_, entered.front.ne_zero inside⟩
  apply comparePrefix_stop (Nat.zero_le _) (by omega) (Or.inr differ)
  intro i before
  refine ⟨entered.front.ne_zero (by omega), ?_⟩
  by_contra other
  exact Nat.find_min differs before ⟨by omega, other⟩

/-- A name that does not fit leaves the buffer as it was. -/
theorem substitute_long (entered : Entered entry mapping) (holds : Holds name (mapping.front ++ rest))
    (fits : Fits (mapping.front ++ rest)) (long : ¬Fits (mapping.replacement ++ rest)) :
    substitute entry name newname mapping.front.length = (SYSERR, newname) := by
  have short := entered.replacementShort
  have size : NM_MAXLEN = 16 := rfl
  simp only [Fits, List.length_append, NM_REPLLEN] at fits long short
  rw [substitute, namlen_holds holds (by rw [List.length_append]; omega), namlen_holds entered.replacement (by omega),
    List.length_append]
  simp only
  rw [if_pos]
  omega

theorem substitute_fits (newname : Nat → UInt8) (entered : Entered entry mapping)
    (holds : Holds name (mapping.front ++ rest)) (fits : Fits (mapping.front ++ rest))
      (fits' : Fits (mapping.replacement ++ rest)) :
    ∃ newname', substitute entry name newname mapping.front.length = (mapping.device, newname') ∧
      Holds newname' (mapping.replacement ++ rest) ∧ ∀ i, NM_MAXLEN ≤ i → newname' i = newname i := by
  have short := entered.replacementShort
  have size : NM_MAXLEN = 16 := rfl
  simp only [Fits, List.length_append, NM_REPLLEN] at fits fits' short
  have olen : namlen name NM_MAXLEN % 256 = (mapping.front.length + rest.length + 1 : Nat) := by
    rw [namlen_holds holds (by rw [List.length_append]; omega), List.length_append]
    omega
  have rlen : namlen entry.nreplace NM_MAXLEN - 1 = mapping.replacement.length := by
    rw [namlen_holds entered.replacement (by omega)]
    omega
  have remain : ((mapping.front.length + rest.length + 1 : Nat) : Int) - mapping.front.length =
      (rest.length + 1 : Nat) := by omega
  refine ⟨patch mapping.replacement.length (rest.length + 1) (fun i => name (mapping.front.length + i))
    (patch 0 mapping.replacement.length entry.nreplace newname), ?_, ?_, ?_⟩
  · rw [substitute, olen, rlen]
    simp only [remain, Int.toNat_natCast, copyBytes_eq, Nat.zero_add]
    rw [if_neg (by omega), entered.device]
  · have suffix := holds.drop mapping.front.length (by simp)
    rw [List.drop_left] at suffix
    apply suffix.append entered.replacement.plain _ (by omega)
    intro i inside
    rw [patch_inside (Nat.zero_le i) (by omega), Nat.sub_zero]
    exact entered.replacement.chars i inside
  · intro i outside
    rw [patch_outside (by omega), patch_outside (by omega)]

/-! ## The table -/

/-- The loop ends behind the table, or at the first entry that matches. -/
theorem namreplLoop_none (tabled : Tabled s table) (holds : Holds name text) (enough : NM_PRELEN ≤ fuel)
    (count : place + left = table.length)
    (none : ∀ i (inside : i < table.length), place ≤ i → ¬table[i].front <+: text) :
    namreplLoop fuel s name newname left place = some (SYSERR, newname) := by
  induction left generalizing place with
  | zero => rw [namreplLoop]
  | succ left inductionHypothesis =>
    obtain ⟨plen, compared, goesOn⟩ := comparePrefix_unmatched (tabled.entries place (by omega)) holds
      (none place (by omega) (Nat.le_refl place)) enough
    rw [namreplLoop, compared]
    simp only
    rw [if_pos goesOn]
    exact inductionHypothesis (by omega) fun i inside later => none i inside (by omega)

theorem namreplLoop_first (tabled : Tabled s table) (holds : Holds name text) (enough : NM_PRELEN ≤ fuel)
    (count : place + left = table.length) {first : Nat} (inside : first < table.length) (reached : place ≤ first)
    (matched : table[first].front <+: text)
    (before : ∀ i (inside : i < table.length), i < first → place ≤ i → ¬table[i].front <+: text) :
    namreplLoop fuel s name newname left place =
      some (substitute (s.nametab first) name newname table[first].front.length) := by
  induction left generalizing place with
  | zero => omega
  | succ left inductionHypothesis =>
    by_cases here : place = first
    · subst here
      have entered := tabled.entries place inside
      rw [namreplLoop, comparePrefix_matched entered holds matched enough]
      simp only
      rw [if_neg (not_not.mpr entered.front.ends)]
    · obtain ⟨plen, compared, goesOn⟩ := comparePrefix_unmatched (tabled.entries place (by omega)) holds
        (before place (by omega) (by omega) (Nat.le_refl place)) enough
      rw [namreplLoop, compared]
      simp only
      rw [if_pos goesOn]
      exact inductionHypothesis (by omega) (by omega) fun i within earlier later => before i within earlier (by omega)

theorem namrepl_none (tabled : Tabled s table) (holds : Holds name text) (enough : NM_PRELEN ≤ fuel)
    (none : ∀ mapping ∈ table, ¬mapping.front <+: text) : namrepl fuel s name newname = some (SYSERR, newname) := by
  rw [namrepl, tabled.nnames, Int.toNat_natCast]
  exact namreplLoop_none tabled holds enough (Nat.zero_add _) fun i inside _ => none _ (List.getElem_mem inside)

/-- What a name is rewritten to is stored, if it fits. -/
theorem namrepl_rewrites (newname : Nat → UInt8) (tabled : Tabled s table) (holds : Holds name text)
    (enough : NM_PRELEN ≤ fuel) (fits : Fits text) {text' : List UInt8} (rewrites : Rewrites table text device text') :
    (¬Fits text' ∧ namrepl fuel s name newname = some (SYSERR, newname)) ∨
      Fits text' ∧ ∃ newname', namrepl fuel s name newname = some (device, newname') ∧ Holds newname' text' ∧
        ∀ i, NM_MAXLEN ≤ i → newname' i = newname i := by
  cases rewrites with
  | @first before after mapping rest split unmatched matched =>
    have inside : before.length < table.length := by
      rw [split, List.length_append, List.length_cons]
      omega
    have here : table[before.length] = mapping := by
      simp only [split]
      rw [List.getElem_append_right (Nat.le_refl _)]
      simp
    have found : namrepl fuel s name newname =
        some (substitute (s.nametab before.length) name newname mapping.front.length) := by
      rw [namrepl, tabled.nnames, Int.toNat_natCast, ← here]
      apply namreplLoop_first tabled holds enough (Nat.zero_add _) inside (Nat.zero_le _)
      · rw [here, matched]
        exact List.prefix_append _ _
      · intro i within earlier _
        apply unmatched
        simp only [split]
        rw [List.getElem_append_left earlier]
        exact List.getElem_mem earlier
    have entered := tabled.entries before.length inside
    rw [here] at entered
    subst matched
    rw [found]
    by_cases fits' : Fits (mapping.replacement ++ rest)
    · obtain ⟨newname', stored, holds', frame⟩ := substitute_fits newname entered holds fits fits'
      exact Or.inr ⟨fits', newname', by rw [stored], holds', frame⟩
    · exact Or.inl ⟨fits', by rw [substitute_long entered holds fits fits']⟩

/-! ## The mapping -/

theorem nammapLoop_exact (tabled : Tabled s table) {namdev : Int} (valid : namdev ≠ SYSERR) (enough : NM_PRELEN ≤ fuel)
    (limit : Nat) {t : NameBuffers} (holds : Holds t.tmpname text) (fits : Fits text) :
    ∃ dev t', nammapLoop fuel s namdev limit t = some (dev, t') ∧
      ((∃ text', MapsTo table namdev Fits limit text dev text' ∧ Holds t'.newname text') ∨
        dev = SYSERR ∧ Fails table namdev Fits limit text) ∧
      ∀ i, NM_MAXLEN ≤ i → t'.tmpname i = t.tmpname i ∧ t'.newname i = t.newname i := by
  induction limit generalizing text t with
  | zero => exact ⟨SYSERR, t, rfl, Or.inr ⟨rfl, .limit⟩, fun i _ => ⟨rfl, rfl⟩⟩
  | succ limit inductionHypothesis =>
    rw [nammapLoop]
    cases rewrites_or table text with
    | inl none =>
      rw [namrepl_none tabled holds enough none]
      refine ⟨SYSERR, t, ?_, Or.inr ⟨rfl, .unmatched none⟩, fun i _ => ⟨rfl, rfl⟩⟩
      simp only
      rw [if_pos (Ne.symm valid)]
    | inr some =>
      obtain ⟨device, text', rewrites⟩ := some
      cases namrepl_rewrites t.newname tabled holds enough fits rewrites with
      | inl long =>
        rw [long.2]
        refine ⟨SYSERR, t, ?_, Or.inr ⟨rfl, .long rewrites long.1⟩, fun i _ => ⟨rfl, rfl⟩⟩
        simp only
        rw [if_pos (Ne.symm valid)]
      | inr stored =>
        obtain ⟨fits', newname, replaced, holds', frame⟩ := stored
        rw [replaced]
        simp only
        by_cases other : device ≠ namdev
        · rw [if_pos other]
          exact ⟨device, _, rfl, Or.inl ⟨text', .here rewrites fits' other, holds'⟩, fun i outside =>
            ⟨rfl, frame i outside⟩⟩
        · rw [if_neg other]
          rw [not_not] at other
          subst other
          rw [namcpy_holds holds' fits']
          have copied : Holds (patch 0 (text'.length + 1) newname t.tmpname) text' := holds'.copied (by omega)
          obtain ⟨dev, t', mapped, outcome, frame'⟩ := inductionHypothesis
            (t := ⟨patch 0 (text'.length + 1) newname t.tmpname, newname⟩) copied fits'
          refine ⟨dev, t', mapped, ?_, ?_⟩
          · cases outcome with
            | inl resolved =>
              obtain ⟨text'', maps, holds''⟩ := resolved
              exact Or.inl ⟨text'', .onward rewrites fits' maps, holds''⟩
            | inr failed => exact Or.inr ⟨failed.1, .onward rewrites fits' failed.2⟩
          · intro i outside
            obtain ⟨tmp, new⟩ := frame' i outside
            rw [tmp, new]
            refine ⟨patch_outside ?_, frame i outside⟩
            have size : text'.length < NM_MAXLEN := fits'
            omega

/-- For every mounted table and every name: `nammap` returns what the name is mapped to, or fails exactly when the name
does not fit or there is no mapping, and leaves what is behind its buffers. -/
theorem nammap_exact (mounted : Mounted s table) (holds : Holds name text) {namdev : Int} (valid : namdev ≠ SYSERR)
    (enough : NM_PRELEN ≤ fuel) (t : NameBuffers) :
    ∃ dev t', nammap fuel s name namdev t = some (dev, t') ∧
      (dev = SYSERR ↔ ¬Fits text ∨ Fails table namdev Fits table.length text) ∧
      (dev ≠ SYSERR → ∃ text', MapsTo table namdev Fits table.length text dev text' ∧ Fits text' ∧
        Holds t'.newname text') ∧
      ∀ i, NM_MAXLEN ≤ i → t'.tmpname i = t.tmpname i ∧ t'.newname i = t.newname i := by
  have tabled := mounted.tabled
  have size : NM_MAXLEN = 16 := rfl
  by_cases fits : Fits text
  · have copied : Holds (patch 0 (text.length + 1) name t.tmpname) text := holds.copied (by omega)
    obtain ⟨dev, t', mapped, outcome, frame⟩ := nammapLoop_exact tabled valid enough table.length
      (t := { t with tmpname := patch 0 (text.length + 1) name t.tmpname }) copied fits
    have short : text.length < NM_MAXLEN := fits
    refine ⟨dev, t', ?_, ?_, ?_, ?_⟩
    · rw [nammap, namcpy_holds holds fits, tabled.nnames, Int.toNat_natCast]
      exact mapped
    · cases outcome with
      | inl resolved =>
        obtain ⟨text', maps, -⟩ := resolved
        obtain ⟨mapping, member, same⟩ := maps.device_mem
        obtain ⟨i, inside, at_i⟩ := List.getElem_of_mem member
        have valid' := (tabled.entries i inside).valid
        rw [at_i, same] at valid'
        apply iff_of_false
        · intro error
          rw [error] at valid'
          exact absurd valid' (by decide)
        · rintro (long | fails)
          · exact long fits
          · exact maps.not_fails fails
      | inr failed => exact iff_of_true failed.1 (Or.inr failed.2)
    · intro some
      cases outcome with
      | inl resolved =>
        obtain ⟨text', maps, holds'⟩ := resolved
        exact ⟨text', maps, maps.fitting, holds'⟩
      | inr failed => exact absurd failed.1 some
    · intro i outside
      obtain ⟨tmp, new⟩ := frame i outside
      rw [tmp, new]
      exact ⟨patch_outside (by omega), rfl⟩
  · have long : NM_MAXLEN ≤ text.length := Nat.le_of_not_lt fits
    have none : ∀ i < 0 + NM_MAXLEN, name i ≠ 0 := fun i inside => holds.ne_zero (by omega)
    refine ⟨SYSERR, { t with tmpname := patch 0 NM_MAXLEN name t.tmpname }, ?_, iff_of_true rfl (Or.inl fits),
      fun some => absurd rfl some, fun i outside => ⟨patch_outside (by omega), rfl⟩⟩
    rw [nammap, namcpy, namcpyLoop_long none]
    simp only [Nat.zero_add, if_true]

/-- A string in memory. -/
def literal (text : List UInt8) : Nat → UInt8 := fun i => text.getD i 0

theorem literal_holds (plain : ∀ char ∈ text, char ≠ 0) : Holds (literal text) text := by
  refine ⟨?_, ?_, plain⟩
  · exact fun i inside => List.getD_eq_getElem text 0 inside
  · exact List.getD_eq_default text 0 (Nat.le_refl _)

/-- A table that nothing was mounted to, among five devices. -/
def emptyTable : Namespace := ⟨fun _ => ⟨fun _ => 0, fun _ => 0, 0⟩, 0, 5⟩

/-- `/d` leads back to the namespace, device 2, and `r` to device 3. -/
def twoNames : Namespace := (mount (literal [114]) (literal []) 3
    (mount (literal [47, 100]) (literal []) 2 emptyTable).2).2

def twoMappings : List (Mapping UInt8 Int) := [⟨[47, 100], [], 2⟩, ⟨[114], [], 3⟩]

theorem twoNames_mounted : Mounted twoNames twoMappings := by
  have first : (mount (literal [47, 100]) (literal []) 2 emptyTable).1 = OK := by decide
  have second : (mount (literal [114]) (literal []) 3 (mount (literal [47, 100]) (literal []) 2 emptyTable).2).1 =
    OK := by
    decide
  have nothing : Holds (literal []) [] := literal_holds (by simp)
  have directory : Holds (literal [47, 100]) [47, 100] := literal_holds (by simp)
  have device : Holds (literal [114]) [114] := literal_holds (by simp)
  exact .entered (.entered (.empty _ 5) directory nothing (Prod.ext first rfl)) device nothing (Prod.ext second rfl)

/-- `/dr` is mapped in two replacements. -/
theorem nammap_exact_twice :
    ∃ dev t', nammap 16 twoNames (literal [47, 100, 114]) 2 ⟨fun _ => 1, fun _ => 1⟩ = some (dev, t') ∧
      (dev = SYSERR ↔ ¬Fits [47, 100, 114] ∨ Fails twoMappings 2 Fits twoMappings.length [47, 100, 114]) ∧
      (dev ≠ SYSERR → ∃ text', MapsTo twoMappings 2 Fits twoMappings.length [47, 100, 114] dev text' ∧
        Fits text' ∧ Holds t'.newname text') ∧
      ∀ i, NM_MAXLEN ≤ i → t'.tmpname i = 1 ∧ t'.newname i = 1 := by
  have name : Holds (literal [47, 100, 114]) [47, 100, 114] := literal_holds (by simp)
  have valid : (2 : Int) ≠ SYSERR := by decide
  exact nammap_exact twoNames_mounted name valid (Nat.le_refl _) ⟨fun _ => 1, fun _ => 1⟩

end XinuStm32
