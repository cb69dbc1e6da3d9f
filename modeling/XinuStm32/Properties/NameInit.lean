import XinuStm32.Properties.NameMap

/-!
# Naming the devices

`naminit` counts the characters that it copies up to the size of its buffer and never beyond, so that its test for a
name that is too long never succeeds. A name of ten characters and more leaves the buffer without a zero of its own:
what `mount` finds there is what was on the stack.
-/

namespace XinuStm32

open CString Names Patch

variable {buf tmpstr dvname : Nat → UInt8} {name : List UInt8} {left len nptr tptr : Nat}

/-! ## The buffer -/

theorem copyPrefix_eq (text : List UInt8) (len : Nat) (buf : Nat → UInt8) :
    copyPrefix text len buf = (len + text.length, patch len (text.length + 1) (fun i => text.getD i 0) buf) := by
  induction text generalizing len buf with
  | nil =>
    rw [copyPrefix, List.length_nil, patch_one]
    rfl
  | cons ch rest inductionHypothesis =>
    have joined := patch_cons len (rest.length + 1) (fun i => (ch :: rest).getD i 0) buf
    simp only [List.getD_cons_zero, List.getD_cons_succ] at joined
    rw [copyPrefix, inductionHypothesis, joined, List.length_cons]
    congr 1
    omega

theorem lowerCase_eq_zero_iff (ch : UInt8) : lowerCase ch = 0 ↔ ch = 0 := by
  revert ch
  decide +kernel

/-- A name that ends within the turns is copied with its zero. -/
theorem appendName_short (nptr more : Nat) (holds : Holds dvname name) (length : name.length = nptr + more)
    (enough : more < left) : appendName dvname left len nptr tptr buf =
      (len + more + 1, patch tptr (more + 1) (fun i => lowerCase (dvname (nptr + i))) buf) := by
  induction left generalizing len nptr tptr buf more with
  | zero => omega
  | succ left inductionHypothesis =>
    rw [appendName]
    cases more with
    | zero =>
      rw [Nat.add_zero] at length
      rw [← length, if_pos ((lowerCase_eq_zero_iff _).mpr holds.ends), patch_one]
      rfl
    | succ more =>
      rw [if_neg (fun zero => holds.ne_zero (by omega) ((lowerCase_eq_zero_iff _).mp zero)),
        inductionHypothesis (nptr + 1) more (by omega) (by omega), ← patch_cons tptr (more + 1)]
      simp only [Nat.add_zero, Nat.add_assoc, Nat.add_comm 1]

/-- Of a longer one, as many characters are copied as there are turns. -/
theorem appendName_long (nptr : Nat) (some : ∀ i < nptr + left, dvname i ≠ 0) :
    appendName dvname left len nptr tptr buf =
      (len + left + 1, patch tptr left (fun i => lowerCase (dvname (nptr + i))) buf) := by
  induction left generalizing len nptr tptr buf with
  | zero => rw [patch_zero, appendName]
  | succ left inductionHypothesis =>
    rw [appendName, if_neg (fun zero => some nptr (by omega) ((lowerCase_eq_zero_iff _).mp zero)),
      inductionHypothesis (nptr + 1) (fun i less => some i (by omega)), ← patch_cons]
    simp only [Nat.add_zero, Nat.add_assoc, Nat.add_comm 1]

/-- The name under which a device is mounted. -/
def devicePath (name : List UInt8) : List UInt8 := devprefixStr ++ name.map lowerCase

theorem length_devicePath (name : List UInt8) : (devicePath name).length = 5 + name.length := by
  rw [devicePath, List.length_append, List.length_map]
  rfl

theorem fits_devicePath_iff : Fits (devicePath name) ↔ name.length ≤ 10 := by
  have size : NM_MAXLEN = 16 := rfl
  rw [Fits, length_devicePath]
  omega

/-- What the turn of a device leaves in `tmpstr`. -/
def nameBuffer (dvname tmpstr : Nat → UInt8) : Nat → UInt8 :=
  (appendName dvname 10 5 0 5 (patch 0 6 (fun i => devprefixStr.getD i 0) tmpstr)).2

theorem lower_holds (holds : Holds dvname name) : Holds (fun i => lowerCase (dvname i)) (name.map lowerCase) := by
  constructor
  · intro i inside
    rw [List.length_map] at inside
    rw [List.getElem_map, holds.chars i inside]
  · rw [List.length_map, holds.ends]
    rfl
  · intro ch member
    obtain ⟨ch', among, rfl⟩ := List.mem_map.mp member
    exact fun zero => holds.plain ch' among ((lowerCase_eq_zero_iff ch').mp zero)

/-- The prefix with as much of the name behind it as includes its zero. -/
theorem devicePath_holds (tmpstr : Nat → UInt8) (holds : Holds dvname name) {count : Nat}
    (reaches : name.length < count) :
    Holds (patch 5 count (fun i => lowerCase (dvname i)) (patch 0 6 (fun i => devprefixStr.getD i 0) tmpstr))
      (devicePath name) := by
  have plain : ∀ ch ∈ devprefixStr, ch ≠ 0 := by simp [devprefixStr]
  apply (lower_holds holds).append plain
  · intro i inside
    have short : i < 5 := inside
    rw [patch_inside (Nat.zero_le i) (by omega), Nat.sub_zero, List.getD_eq_getElem _ _ inside]
  · rw [List.length_map]
    exact reaches

theorem nameBuffer_short (holds : Holds dvname name) (short : name.length ≤ 9) :
    Holds (nameBuffer dvname tmpstr) (devicePath name) := by
  rw [nameBuffer, appendName_short 0 name.length holds (by omega) (by omega)]
  simp only [Nat.zero_add]
  exact devicePath_holds tmpstr holds (by omega)

theorem nameBuffer_long (holds : Holds dvname name) (long : 10 ≤ name.length) :
    nameBuffer dvname tmpstr =
      patch 5 10 (fun i => lowerCase (dvname i)) (patch 0 6 (fun i => devprefixStr.getD i 0) tmpstr) := by
  rw [nameBuffer, appendName_long 0 (fun i less => holds.ne_zero (by omega))]
  simp only [Nat.zero_add]

/-- The last place of the buffer is never written. -/
theorem nameBuffer_outside (holds : Holds dvname name) {i : Nat} (outside : 15 ≤ i) :
    nameBuffer dvname tmpstr i = tmpstr i := by
  by_cases short : name.length ≤ 9
  · rw [nameBuffer, appendName_short 0 name.length holds (by omega) (by omega)]
    simp only
    rw [patch_outside (by omega), patch_outside (by omega)]
  · rw [nameBuffer_long holds (by omega), patch_outside (by omega), patch_outside (by omega)]

/-- A name of ten characters ends with what was there. -/
theorem nameBuffer_ten (holds : Holds dvname name) (ten : name.length = 10) (stale : tmpstr 15 = 0) :
    Holds (nameBuffer dvname tmpstr) (devicePath name) := by
  have whole := devicePath_holds tmpstr holds (show name.length < 11 by omega)
  apply whole.congr
  intro i inside
  rw [length_devicePath] at inside
  by_cases last : i = 15
  · subst last
    rw [nameBuffer_outside holds (Nat.le_refl _), stale, patch_inside (by omega) (by omega)]
    have ending := holds.ends
    rw [ten] at ending
    rw [ending]
    rfl
  · rw [nameBuffer_long holds (by omega)]
    by_cases front : i < 5
    · rw [patch_outside (Or.inl front), patch_outside (Or.inl front)]
    · rw [patch_inside (by omega) (by omega), patch_inside (by omega) (by omega)]

/-! ## The turn of a device -/

/-- A device with the name that stands in the device table. -/
structure NamedDevice where
  device : Dentry
  name : List UInt8
  named : Holds device.dvname name

/-- What a turn is to be: the buffer has a zero in it, and the path is mounted if there is room for it. -/
def Named (d : NamedDevice) (turn : NameTurn) : Prop :=
  (∃ i < NM_MAXLEN, turn.tmpstr i = NULLCH) ∧
    if Fits (devicePath d.name) then turn.outcome = .mount OK ∧ Holds turn.tmpstr (devicePath d.name)
    else turn.outcome = .tooLong

/-- What the turn needs: a number in the device table, and a name that the loop ends in, or one character more behind
which there happens to be a zero. -/
def Mountable (ndevs : Int) (stale : UInt8) (d : NamedDevice) : Prop :=
  0 ≤ d.device.dvnum ∧ d.device.dvnum < ndevs ∧ (d.name.length ≤ 9 ∨ d.name.length = 10 ∧ stale = 0)

/-- The entry of a device. -/
def NamedDevice.mapping (d : NamedDevice) : Mapping UInt8 Int := ⟨devicePath d.name, [], d.device.dvnum⟩

theorem appendName_le (left len nptr tptr : Nat) (buf : Nat → UInt8) :
    (appendName dvname left len nptr tptr buf).1 ≤ len + left + 1 := by
  induction left generalizing len nptr tptr buf with
  | zero => rfl
  | succ left inductionHypothesis =>
    rw [appendName]
    split
    · simp only
      omega
    · exact Nat.le_trans (inductionHypothesis _ _ _ _) (by omega)

/-- No name is too long. -/
theorem nameDevice_eq (device : Dentry) (s : Namespace) (tmpstr : Nat → UInt8) :
    nameDevice device s tmpstr =
      (⟨nameBuffer device.dvname tmpstr,
          .mount (mount (nameBuffer device.dvname tmpstr) (fun _ => NULLCH) device.dvnum s).1⟩,
        (mount (nameBuffer device.dvname tmpstr) (fun _ => NULLCH) device.dvnum s).2,
        nameBuffer device.dvname tmpstr) := by
  have length : devprefixStr.length = 5 := rfl
  have bound := @appendName_le device.dvname 10 5 0 5 (patch 0 6 (fun i => devprefixStr.getD i 0) tmpstr)
  rw [nameDevice, copyPrefix_eq, length]
  exact if_neg (by rw [NM_MAXLEN]; exact Nat.not_lt.mpr bound)

theorem mount_ndevs (nprefixStr replace : Nat → UInt8) (device : Int) (s : Namespace) :
    (mount nprefixStr replace device s).2.ndevs = s.ndevs := by
  rw [mount]
  simp only
  split <;> rfl

theorem mount_valid {replace : Nat → UInt8} {device : Int} {s : Namespace}
    (accepted : (mount buf replace device s).1 = OK) :
    0 ≤ device ∧ device < s.ndevs := by
  rw [mount] at accepted
  simp only at accepted
  split at accepted
  · cases accepted
  next valid =>
    simp only [Namespace.isbaddev, not_or] at valid
    omega

/-- A name that is short enough is mounted under a valid number as long as there is room in the table. -/
theorem mount_holds {s : Namespace} {table : List (Mapping UInt8 Int)} {front : List UInt8} {device : Int}
    (tabled : Tabled s table) (holds : Holds buf front) (short : front.length < NM_PRELEN) (low : 0 ≤ device)
    (high : device < s.ndevs) (room : s.nnames < NNAMES) :
    ∃ t, mount buf (fun _ => NULLCH) device s = (OK, t) ∧ Tabled t (table ++ [⟨front, [], device⟩]) := by
  have empty : Holds (fun _ => NULLCH) ([] : List UInt8) :=
    ⟨fun i inside => absurd inside (Nat.not_lt_zero i), rfl, by simp⟩
  cases mount_cases buf (fun _ => NULLCH) device tabled with
  | inl refused =>
    rw [mount, namlen_holds holds short, namlen_holds empty Nat.one_pos] at refused
    simp only at refused
    rw [if_neg, Prod.mk.injEq] at refused
    · exact absurd refused.1 (by decide)
    · simp only [not_or, Namespace.isbaddev]
      have error : SYSERR = -1 := rfl
      omega
  | inr entered =>
    obtain ⟨t, front', replacement, mounted, holds', empty', tabled'⟩ := entered
    rw [← holds.unique holds', ← empty.unique empty'] at tabled'
    exact ⟨t, mounted, tabled'⟩

theorem nameDevice_named {s : Namespace} {table : List (Mapping UInt8 Int)} {d : NamedDevice} (tabled : Tabled s table)
    (room : s.nnames < NNAMES) (mountable : Mountable s.ndevs (tmpstr 15) d) :
    Named d (nameDevice d.device s tmpstr).1 ∧ Tabled (nameDevice d.device s tmpstr).2.1 (table ++ [d.mapping]) := by
  obtain ⟨low, high, short⟩ := mountable
  have fits : Fits (devicePath d.name) := fits_devicePath_iff.mpr (by omega)
  have holds : Holds (nameBuffer d.device.dvname tmpstr) (devicePath d.name) := by
    cases short with
    | inl nine => exact nameBuffer_short d.named nine
    | inr ten => exact nameBuffer_ten d.named ten.1 ten.2
  obtain ⟨t, mounted, tabled'⟩ := mount_holds tabled holds fits low high room
  rw [nameDevice_eq, mounted]
  refine ⟨⟨⟨_, fits, holds.ends⟩, ?_⟩, tabled'⟩
  rw [if_pos fits]
  exact ⟨rfl, holds⟩

theorem mountable_of_named {s : Namespace} {d : NamedDevice} (named : Named d (nameDevice d.device s tmpstr).1) :
    Mountable s.ndevs (tmpstr 15) d := by
  rw [nameDevice_eq] at named
  obtain ⟨-, outcome⟩ := named
  split at outcome
  next fits =>
    obtain ⟨mounted, holds⟩ := outcome
    have valid := mount_valid (NameOutcome.mount.inj mounted)
    have length := fits_devicePath_iff.mp fits
    refine ⟨valid.1, valid.2, ?_⟩
    by_cases nine : d.name.length ≤ 9
    · exact Or.inl nine
    · have ten : d.name.length = 10 := by omega
      have ending := holds.ends
      simp only [length_devicePath, ten, Nat.reduceAdd] at ending
      rw [nameBuffer_outside d.named (Nat.le_refl _)] at ending
      exact Or.inr ⟨ten, ending⟩
  next => cases outcome

/-! ## The device table -/

theorem nameDevice_keeps (d : NamedDevice) (s : Namespace) (tmpstr : Nat → UInt8) :
    (nameDevice d.device s tmpstr).2.1.ndevs = s.ndevs ∧
      ∀ i, 15 ≤ i → (nameDevice d.device s tmpstr).2.2 i = tmpstr i := by
  rw [nameDevice_eq]
  exact ⟨mount_ndevs _ _ _ _, fun i outside => nameBuffer_outside d.named outside⟩

/-- Whatever the names, nothing behind the buffer is written. -/
theorem naminitLoop_outside (devices : List NamedDevice) (s : Namespace) (tmpstr : Nat → UInt8) {i : Nat}
    (outside : 15 ≤ i) : (naminitLoop (devices.map (·.device)) s tmpstr).2.2 i = tmpstr i := by
  induction devices generalizing s tmpstr with
  | nil => rfl
  | cons d devices inductionHypothesis =>
    rw [List.map_cons, naminitLoop]
    simp only
    rw [inductionHypothesis, (nameDevice_keeps d s tmpstr).2 i outside]

theorem mountable_of_forall₂ {devices : List NamedDevice} {s : Namespace}
    (named : List.Forall₂ Named devices (naminitLoop (devices.map (·.device)) s tmpstr).1) :
    ∀ d ∈ devices, Mountable s.ndevs (tmpstr 15) d := by
  induction devices generalizing s tmpstr with
  | nil => simp
  | cons d devices inductionHypothesis =>
    rw [List.map_cons, naminitLoop] at named
    simp only at named
    obtain ⟨head, tail⟩ := List.forall₂_cons.mp named
    obtain ⟨ndevs, stale⟩ := nameDevice_keeps d s tmpstr
    have later := inductionHypothesis tail
    rw [ndevs, stale 15 (Nat.le_refl _)] at later
    exact List.forall_mem_cons.mpr ⟨mountable_of_named head, later⟩

/-- The table has an entry for each device that has had its turn. -/
theorem naminitLoop_named (tmpstr : Nat → UInt8) {devices : List NamedDevice} {s : Namespace}
    {table : List (Mapping UInt8 Int)} (tabled : Tabled s table)
    (room : ((table.length + devices.length : Nat) : Int) ≤ NNAMES)
    (mountable : ∀ d ∈ devices, Mountable s.ndevs (tmpstr 15) d) :
    List.Forall₂ Named devices (naminitLoop (devices.map (·.device)) s tmpstr).1 ∧
      Tabled (naminitLoop (devices.map (·.device)) s tmpstr).2.1 (table ++ devices.map NamedDevice.mapping) := by
  induction devices generalizing s tmpstr table with
  | nil =>
    rw [List.map_nil, List.map_nil, List.append_nil, naminitLoop]
    exact ⟨.nil, tabled⟩
  | cons d devices inductionHypothesis =>
    obtain ⟨head, tail⟩ := List.forall_mem_cons.mp mountable
    rw [List.length_cons] at room
    obtain ⟨named, tabled'⟩ := nameDevice_named tabled (by rw [tabled.nnames]; omega) head
    obtain ⟨ndevs, stale⟩ := nameDevice_keeps d s tmpstr
    have later := inductionHypothesis (nameDevice d.device s tmpstr).2.2 tabled'
      (by rw [List.length_append, List.length_singleton]; omega)
      (by rw [ndevs, stale 15 (Nat.le_refl _)]; exact tail)
    rw [List.append_assoc, List.singleton_append] at later
    rw [List.map_cons, List.map_cons, naminitLoop]
    exact ⟨.cons named later.1, later.2⟩

/-- `naminit` does as it is to do for a device table exactly when no name has more than nine characters, or ten where
the stack has a zero behind the tenth. -/
theorem naminit_named_iff (devices : List NamedDevice) (few : (devices.length : Int) ≤ NNAMES) (nametab : Nat → Nmentry)
    (tmpstr : Nat → UInt8) :
    (List.Forall₂ Named devices (naminit (devices.map (·.device)) nametab tmpstr).1 ∧
      Tabled (naminit (devices.map (·.device)) nametab tmpstr).2.1
        ((devices.filter fun d => Fits (devicePath d.name)).map NamedDevice.mapping) ∧
      ∀ i, NM_MAXLEN ≤ i → (naminit (devices.map (·.device)) nametab tmpstr).2.2 i = tmpstr i) ↔
    ∀ d ∈ devices, Mountable devices.length (tmpstr 15) d := by
  rw [naminit, List.length_map]
  constructor
  · exact fun all => mountable_of_forall₂ all.1
  · intro mountable
    have empty : Tabled ⟨nametab, 0, devices.length⟩ [] := (Mounted.empty nametab _).tabled
    have room : ((([] : List (Mapping UInt8 Int)).length + devices.length : Nat) : Int) ≤ NNAMES := by
      rw [List.length_nil, Nat.zero_add]
      exact few
    obtain ⟨named, tabled⟩ := naminitLoop_named tmpstr empty room mountable
    have all : devices.filter (fun d => Fits (devicePath d.name)) = devices := by
      apply List.filter_eq_self.mpr
      intro d member
      obtain ⟨-, -, short⟩ := mountable d member
      exact decide_eq_true (fits_devicePath_iff.mpr (by omega))
    rw [all]
    refine ⟨named, tabled, ?_⟩
    exact fun i outside => naminitLoop_outside devices _ tmpstr (Nat.le_trans (Nat.le_succ 15) outside)

/-- `CONSOLE`, device 0. -/
def consoleDevice : NamedDevice where
  device := ⟨0, literal [67, 79, 78, 83, 79, 76, 69]⟩
  name := [67, 79, 78, 83, 79, 76, 69]
  named := literal_holds (by simp)

theorem naminit_named_console :
    List.Forall₂ Named [consoleDevice] (naminit [consoleDevice.device] emptyTable.nametab fun _ => 1).1 ∧
      Tabled (naminit [consoleDevice.device] emptyTable.nametab fun _ => 1).2.1
        (([consoleDevice].filter fun d => Fits (devicePath d.name)).map NamedDevice.mapping) ∧
      ∀ i, NM_MAXLEN ≤ i → (naminit [consoleDevice.device] emptyTable.nametab fun _ => 1).2.2 i = 1 := by
  apply (naminit_named_iff [consoleDevice] (by decide) emptyTable.nametab fun _ => 1).mpr
  intro d member
  rw [List.mem_singleton.mp member]
  exact ⟨by decide, by decide, Or.inl (by decide)⟩

/-- `CONTROLLER` has ten characters. -/
def controllerDevice : NamedDevice where
  device := ⟨0, literal [67, 79, 78, 84, 82, 79, 76, 76, 69, 82]⟩
  name := [67, 79, 78, 84, 82, 79, 76, 76, 69, 82]
  named := literal_holds (by simp)

/-- Its path would fit, and is mounted from a buffer with no zero in it. -/
theorem naminit_ten_not_named :
    ¬∀ (devices : List NamedDevice) (nametab : Nat → Nmentry) (tmpstr : Nat → UInt8),
      (devices.length : Int) ≤ NNAMES →
      (∀ d ∈ devices, 0 ≤ d.device.dvnum ∧ d.device.dvnum < devices.length) →
      List.Forall₂ Named devices (naminit (devices.map (·.device)) nametab tmpstr).1 := by
  intro all
  have named := all [controllerDevice] emptyTable.nametab (fun _ => 1) (by decide) (by decide)
  have mountable := mountable_of_forall₂ named controllerDevice List.mem_cons_self
  exact absurd mountable.2.2 (by decide)

end XinuStm32
