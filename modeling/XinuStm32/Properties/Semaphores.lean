import XinuStm32.Abstract.Balance
import XinuStm32.Properties.Consistency

/-!
# Semaphores count and serve their waiting processes

With `scount` read as an integer: a negative count says how many processes wait, signalling and
resetting release exactly the processes that wait, and no one who called `wait` later is released
while someone who called it earlier still waits.
-/

namespace XinuStm32

open View Line

namespace Kernel

/-- The processes in the queue of a semaphore, front first. -/
def waiters (sem : Int) (s : Kernel) : List Int := s.queuetab.members (s.semtab sem).squeue

/-- The process waits for the semaphore. -/
def Waits (p sem : Int) (s : Kernel) : Prop :=
  IsPid p ∧ (s.proctab p).prstate = .wait ∧ (s.proctab p).prsem = sem

/-- The count and the queue of a semaphore agree. -/
structure CountsWaiters (sem : Int) (s : Kernel) : Prop where
  negative : (s.semtab sem).scount < 0 → ((s.waiters sem).length : Int) = -(s.semtab sem).scount
  nonnegative : 0 ≤ (s.semtab sem).scount → s.waiters sem = []
  waiting : ∀ p, p ∈ s.waiters sem ↔ s.Waits p sem

/-- The first `n` processes of the queue leave it and are in the ready list, each once, and nothing
else happens to any process. -/
structure Frees (sem : Int) (n : Nat) (s s' : Kernel) : Prop where
  waiters : s'.waiters sem = (s.waiters sem).drop n
  released : ∀ p ∈ (s.waiters sem).take n,
    (s'.proctab p).prstate = .ready ∧ (s'.queuetab.members s'.readylist).count p = 1
  others : ∀ p ∉ (s.waiters sem).take n, (s'.proctab p).prstate = (s.proctab p).prstate

end Kernel

/-! ## The kernel's lines are the view's -/

namespace Good

variable {s s' : System} {a a' : View}

theorem waiters_eq (good : Good s a) {sem : Int} (valid : ¬ isbadsem sem) :
    s.kernel.waiters sem = a.line sem := by
  rw [Kernel.waiters, good.tracks.semtab, good.members_eq (good.inv.isQueue_squeue valid), View.line]

theorem waits_iff (good : Good s a) {sem : Int} (valid : ¬ isbadsem sem) (p : Int) :
    s.kernel.Waits p sem ↔ p ∈ a.line sem := by
  rw [Kernel.Waits, good.tracks.state, good.tracks.proctab]
  constructor
  · rintro ⟨pid, waiting, rfl⟩
    exact good.inv.waiter_mem pid waiting
  · exact good.inv.waiting_of_mem valid

theorem countsWaiters (good : Good s a) {sem : Int} (valid : ¬ isbadsem sem) (balance : Balance sem a) :
    s.kernel.CountsWaiters sem := by
  unfold Balance at balance
  refine ⟨fun negative => ?_, fun nonnegative => ?_, fun p => ?_⟩
  · rw [good.tracks.semtab] at negative ⊢
    rw [good.waiters_eq valid, balance]
    omega
  · rw [good.tracks.semtab] at nonnegative
    rw [good.waiters_eq valid]
    exact Balance.empty balance nonnegative
  · rw [good.waiters_eq valid, good.waits_iff valid]

theorem frees (good : Good s a) (good' : Good s' a') {sem : Int} (valid : ¬ isbadsem sem) {n : Nat}
    (releases : Releases sem n a a') : s.kernel.Frees sem n s'.kernel := by
  refine ⟨?_, fun p member => ?_, fun p absent => ?_⟩
  · rw [good.waiters_eq valid, good'.waiters_eq valid]
    exact releases.line
  · rw [good.waiters_eq valid] at member
    have pid := (good.inv.waiting_of_mem valid (List.mem_of_mem_take member)).1
    have ready := releases.released p member
    rw [good'.tracks.state, good'.tracks.readylist, good'.members_eq good'.inv.isQueue_readylist]
    exact ⟨ready, List.count_eq_one_of_mem (good'.inv.wellFormed.nodup _)
      (good'.inv.placed.mpr ⟨pid, home_ready ready⟩)⟩
  · rw [good.waiters_eq valid] at absent
    rw [good.tracks.state, good'.tracks.state]
    exact releases.others p absent

end Good

/-! ## Semaphore calls -/

/-- A semaphore that may be used. -/
def Usable (sem : Int) (s : Kernel) : Prop := ¬ isbadsem sem ∧ (s.semtab sem).sstate = .used

section

variable {s : Kernel} {sem : Int}

theorem signal_ok (usable : Usable sem s) : (signal sem s).1 = OK := by
  have used : ((disable s).2.semtab sem).sstate = .used := usable.2
  simp only [signal, if_neg usable.1, used]
  rfl

theorem signaln_ok (usable : Usable sem s) {count : Int32} (nonnegative : 0 ≤ count.toInt) :
    (signaln sem count s).1 = OK := by
  have used : ((disable s).2.semtab sem).sstate = .used := usable.2
  have good : ¬ (isbadsem sem ∨ count.toInt < 0) := by
    rw [not_or]
    exact ⟨usable.1, Int.not_lt.mpr nonnegative⟩
  simp only [signaln, if_neg good, used]
  rfl

theorem semreset_ok (usable : Usable sem s) {count : Int32} (nonnegative : 0 ≤ count.toInt) :
    (semreset sem count s).1 = OK := by
  have used : ((disable s).2.semtab sem).sstate = .used := usable.2
  have good : ¬ (count.toInt < 0 ∨ isbadsem sem ∨ ((disable s).2.semtab sem).sstate = .free) := by
    simp [usable.1, used, nonnegative]
  simp only [semreset, if_neg good]

theorem semdelete_ok (usable : Usable sem s) : (semdelete sem s).1 = OK := by
  have used : ((disable s).2.semtab sem).sstate = .used := usable.2
  simp only [semdelete, if_neg usable.1, used]
  rfl

end

/-! ## Balance in every step -/

namespace Good

variable {s s' : System} {a : View} {sem : Int}

/-- `semreset` releases everyone. -/
theorem resets (good : Good s a) (balanced : ∀ {sem}, ¬ isbadsem sem → Balanced sem a) {count : Int32}
    (h : System.Step (.call (.semreset sem count)) s s') :
    ∃ a', Good s' a' ∧ (∀ {sem}, ¬ isbadsem sem → Balanced sem a') ∧
      (Usable sem s.kernel → 0 ≤ count.toInt → Releases sem (a.line sem).length a a') := by
  obtain ⟨-, -, ret, pc, returns⟩ := h.call
  simp only [execCall, Option.some.injEq, Prod.mk.injEq] at returns
  obtain ⟨-, same, -⟩ := returns
  rcases semreset_follows good.tracks good.inv sem count with
    ⟨refused, follows⟩ | ⟨-, valid, used, drains, quiet, kinds, quiets, follows⟩
  · obtain ⟨a', run, good'⟩ := good.follow h (by simp) (by simp) (same ▸ follows)
    cases run
    refine ⟨a, good', balanced, fun usable nonnegative => ?_⟩
    exact absurd (refused.symm.trans (semreset_ok usable nonnegative)) (by decide)
  · have permits : ∀ move ∈ drains ++ .setCount sem count.toInt :: quiet,
        Label.Permits (.call (.semreset sem count)) move := by
      intro move member
      simp only [List.mem_append, List.mem_cons] at member
      rcases member with member | rfl | member
      · exact Or.inr (Or.inl (kinds move member))
      · exact Or.inr (Or.inr rfl)
      · exact Or.inl (quiets move member)
    obtain ⟨a', run, good'⟩ := good.follow h (by simp) permits (same ▸ follows)
    obtain ⟨releases, after⟩ :=
      Moves.resets run good.inv valid used (balanced valid).counting kinds quiets
    refine ⟨a', good', fun {sem'} valid' => ?_, fun _ _ => releases⟩
    by_cases here : sem' = sem
    · exact here ▸ after
    · refine Moves.balanced run good.inv valid' (balanced valid') fun move member => ?_
      refine Label.counts (permits move member) ?_ (by simp)
      rintro count' same'
      cases same'
      exact here rfl

/-- `semdelete` releases everyone. -/
theorem deletes (good : Good s a) (balanced : ∀ {sem}, ¬ isbadsem sem → Balanced sem a)
    (h : System.Step (.call (.semdelete sem)) s s') :
    ∃ a', Good s' a' ∧ (∀ {sem}, ¬ isbadsem sem → Balanced sem a') ∧
      (Usable sem s.kernel → Releases sem (a.line sem).length a a') := by
  obtain ⟨-, -, ret, pc, returns⟩ := h.call
  simp only [execCall, Option.some.injEq, Prod.mk.injEq] at returns
  obtain ⟨-, same, -⟩ := returns
  rcases semdelete_follows good.tracks good.inv (good.tracks.counting ▸ good.grows) sem with
    ⟨refused, follows⟩ | ⟨-, valid, used, moves, quiet, kinds, quiets, follows⟩
  · obtain ⟨a', run, good'⟩ := good.follow h (by simp) (by simp) (same ▸ follows)
    cases run
    refine ⟨a, good', balanced, fun usable => ?_⟩
    exact absurd (refused.symm.trans (semdelete_ok usable)) (by decide)
  · have permits : ∀ move ∈ .close sem :: (moves ++ [.post sem]) ++ quiet,
        Label.Permits (.call (.semdelete sem)) move := by
      intro move member
      simp only [List.cons_append, List.append_assoc, List.mem_cons, List.mem_append, List.not_mem_nil,
        false_or] at member
      rcases member with rfl | member | rfl | member
      · exact Or.inr (Or.inl rfl)
      · exact Or.inr (Or.inr (kinds move member))
      · exact Or.inr (Or.inr (Or.inr rfl))
      · exact Or.inl (quiets move member)
    obtain ⟨a', run, good'⟩ := good.follow h (by simp) permits (same ▸ follows)
    obtain ⟨releases, after⟩ := Moves.deletes run good.inv valid (balanced valid) kinds quiets
    refine ⟨a', good', fun {sem'} valid' => ?_, fun _ => releases⟩
    by_cases here : sem' = sem
    · exact here ▸ after
    · refine Moves.balanced run good.inv valid' (balanced valid') fun move member => ?_
      refine Label.counts (permits move member) (by simp) ?_
      rintro same'
      cases same'
      exact here rfl

/-- Every step keeps every semaphore balanced. -/
theorem balanced_step {label : Label} (good : Good s a)
    (balanced : ∀ {sem}, ¬ isbadsem sem → Balanced sem a) (h : System.Step label s s') :
    ∃ a', Good s' a' ∧ ∀ {sem}, ¬ isbadsem sem → Balanced sem a' := by
  by_cases reset : ∃ sem count, label = .call (.semreset sem count)
  · obtain ⟨sem, count, rfl⟩ := reset
    obtain ⟨a', good', balanced', -⟩ := good.resets balanced h
    exact ⟨a', good', balanced'⟩
  · by_cases delete : ∃ sem, label = .call (.semdelete sem)
    · obtain ⟨sem, rfl⟩ := delete
      obtain ⟨a', good', balanced', -⟩ := good.deletes balanced h
      exact ⟨a', good', balanced'⟩
    · obtain ⟨moves, a', permits, run, good'⟩ := good.step h
      refine ⟨a', good', fun {sem} valid =>
        Moves.balanced run good.inv valid (balanced valid) fun move member => ?_⟩
      exact Label.counts (permits move member) (fun count same => reset ⟨sem, count, same⟩)
        (fun same => delete ⟨sem, same⟩)

/-- Signalling `n` times releases the first `n` waiting processes. -/
theorem serves {call : Call} (good : Good s a) (balanced : Balanced sem a)
    (h : System.Step (.call call) s s') (valid : ¬ isbadsem sem) (moves quiet : List Move)
    (kinds : ∀ move ∈ moves, move = .release sem ∨ move = .post sem)
    (quiets : ∀ move ∈ quiet, move = .quiet)
    (permits : ∀ move ∈ moves ++ quiet, Label.Permits (.call call) move)
    (follows : Follows 0 (moves ++ quiet) s'.kernel a) :
    ∃ a', Good s' a' ∧ Releases sem moves.length a a' := by
  obtain ⟨a', run, good'⟩ := good.follow h (by simp) permits follows
  obtain ⟨b, run, tail⟩ := run.split
  obtain ⟨line, state, -, -⟩ := Moves.quiets tail quiets
  have signals := Moves.signals run good.inv valid balanced.counting balanced.balance kinds
  exact ⟨a', good', signals.1.congr (line sem) state⟩

theorem signals (good : Good s a) (balanced : Balanced sem a) (usable : Usable sem s.kernel)
    (h : System.Step (.call (.signal sem)) s s') : ∃ a', Good s' a' ∧ Releases sem 1 a a' := by
  obtain ⟨-, -, ret, pc, returns⟩ := h.call
  simp only [execCall, Option.some.injEq, Prod.mk.injEq] at returns
  obtain ⟨-, same, -⟩ := returns
  obtain ⟨refused, -⟩ | ⟨-, -, -, follows | follows⟩ := signal_follows good.tracks good.inv sem
  · exact absurd (refused.symm.trans (signal_ok usable)) (by decide)
  · exact good.serves balanced h usable.1 [.release sem] [] (by simp) (by simp) (by simp [Label.Permits])
      (same ▸ follows)
  · exact good.serves balanced h usable.1 [.post sem] [] (by simp) (by simp) (by simp [Label.Permits])
      (same ▸ follows)

theorem signalns (good : Good s a) (balanced : Balanced sem a) (usable : Usable sem s.kernel)
    {count : Int32} (nonnegative : 0 ≤ count.toInt)
    (h : System.Step (.call (.signaln sem count)) s s') :
    ∃ a', Good s' a' ∧ Releases sem count.toInt.toNat a a' := by
  obtain ⟨-, -, ret, pc, returns⟩ := h.call
  simp only [execCall, Option.some.injEq, Prod.mk.injEq] at returns
  obtain ⟨-, same, -⟩ := returns
  rcases signaln_follows good.tracks good.inv sem count with
    ⟨refused, -⟩ | ⟨-, -, -, moves, quiet, length, kinds, quiets, follows⟩
  · exact absurd (refused.symm.trans (signaln_ok usable nonnegative)) (by decide)
  · rw [← length]
    refine good.serves balanced h usable.1 moves quiet kinds quiets (fun move member => ?_) (same ▸ follows)
    cases List.mem_append.mp member with
    | inl member => exact Or.inr (kinds move member)
    | inr member => exact Or.inl (quiets move member)

end Good

/-! ## First come, first served -/

/-- What a step with each label may do to a waiting line. -/
inductive LineStep (sem : Int) (label : Label) (before after : List Int) (caller : Int) : Prop where
  | served (n : Nat) : after = before.drop n → LineStep sem label before after caller
  | joined : label = .call (.wait sem) → after = before ++ [caller] → LineStep sem label before after caller
  | killed (p : Int) : label = .call (.kill p) → after = before.erase p →
      LineStep sem label before after caller

variable {s s' : System} {a : View} {sem : Int}

namespace Good

/-- The caller of `wait` joins one line at its end; all other lines stay. -/
theorem line_wait (good : Good s a) (valid : ¬ isbadsem sem) {sem' : Int}
    (h : System.Step (.call (.wait sem')) s s') :
    ∃ a', Good s' a' ∧ LineStep sem (.call (.wait sem')) (a.line sem) (a'.line sem) a.currpid := by
  obtain ⟨runs, notNull, ret, pc, returns⟩ := h.call
  simp only [execCall, Option.some.injEq, Prod.mk.injEq] at returns
  obtain ⟨-, same, -⟩ := returns
  rw [good.tracks.currpid] at notNull
  have single {move : Move} (permits : Label.Permits (.call (.wait sem')) move)
      (follows : Follows 0 [move] (wait sem' s.kernel).2 a) :
      ∃ a', Good s' a' ∧ LineStep sem (.call (.wait sem')) (a.line sem) (a'.line sem) a.currpid := by
    obtain ⟨a', run, good'⟩ := good.follow h (by simp) (by simpa using permits) (same ▸ follows)
    refine ⟨a', good', ?_⟩
    cases run with
    | cons step rest =>
      cases rest
      cases step.line good.inv valid with
      | same same => exact .served 0 same
      | served _ served => rcases permits with rfl | rfl <;> simp at served
      | joined block joined =>
        obtain rfl | rfl := permits
        · cases block
        · cases block
          exact .joined rfl joined
      | killed _ killed => rcases permits with rfl | rfl <;> cases killed
  have notNull : a.currpid ≠ NULLPROC := by
    intro null
    cases notNull null
  rcases wait_follows good.tracks good.inv (good.runs runs) notNull sem' with
    ⟨-, follows⟩ | ⟨-, -, -, follows | follows⟩
  · obtain ⟨a', run, good'⟩ := good.follow h (by simp) (by simp) (same ▸ follows)
    cases run
    exact ⟨a, good', .served 0 rfl⟩
  · exact single (by simp [Label.Permits]) follows
  · exact single (by simp [Label.Permits]) follows

/-- Outside `wait` no one joins a line, and outside `kill` no one leaves it but from the front. -/
theorem line_step {label : Label} (good : Good s a) (valid : ¬ isbadsem sem) (h : System.Step label s s') :
    ∃ a', Good s' a' ∧ LineStep sem label (a.line sem) (a'.line sem) a.currpid := by
  by_cases waits : ∃ sem', label = .call (.wait sem')
  · obtain ⟨sem', rfl⟩ := waits
    exact good.line_wait valid h
  · obtain ⟨moves, a', permits, run, good'⟩ := good.step h
    refine ⟨a', good', ?_⟩
    by_cases kills : ∃ p, label = .call (.kill p)
    · obtain ⟨p, rfl⟩ := kills
      have lost := Moves.loses run good.inv (p := p) valid fun move member => by
        obtain rfl | ⟨parent, rfl | rfl⟩ | kill := permits move member
        · exact Or.inl fun _ => rfl
        · exact Or.inl fun _ => rfl
        · exact Or.inl fun _ => rfl
        · cases kill with
          | abandon => exact Or.inr rfl
          | leave | withdraw | take => exact Or.inl fun _ => rfl
      cases lost with
      | inl same => exact .served 0 same
      | inr erased => exact .killed p rfl erased
    · obtain ⟨n, dropped⟩ := Moves.shrinks run good.inv valid fun move member => by
        refine ⟨?_, fun p => ?_⟩
        · rintro rfl
          exact waits ⟨sem, Label.waits (permits _ member)⟩
        · rintro rfl
          exact kills ⟨p, Label.kills (permits _ member)⟩
      exact .served n dropped

end Good

/-- In a run in which one process waits all the time, another that comes later stays behind it. -/
theorem Good.stays_behind {p q : Int} (good : Good s a) (valid : ¬ isbadsem sem)
    (distinct : p ≠ q) (first : p ∈ a.line sem) (later : q ∉ a.line sem) {labels : List Label}
    (run : Transition.Run (fun label s s' => System.Step label s s' ∧ s'.kernel.Waits p sem) labels s s') :
    ∃ a', Good s' a' ∧ p ∈ a'.line sem ∧ (q ∈ a'.line sem → Before p q (a'.line sem)) := by
  refine Transition.Run.invariant
    (fun s => ∃ a, Good s a ∧ p ∈ a.line sem ∧ (q ∈ a.line sem → Before p q (a.line sem)))
    (fun label s s' h => ?_) run ⟨a, good, first, fun member => absurd member later⟩
  rintro ⟨a, good, first, behind⟩
  obtain ⟨a', good', change⟩ := good.line_step valid h.1
  have stays := (good'.waits_iff valid p).mp h.2
  refine ⟨a', good', stays, fun member => ?_⟩
  have distinctLine := good.inv.wellFormed.nodup (a.semtab sem).squeue
  cases change with
  | served n dropped =>
    rw [dropped] at stays member ⊢
    exact (behind (List.mem_of_mem_drop member)).drop distinctLine stays
  | joined _ joined =>
    rw [joined] at member ⊢
    by_cases old : q ∈ a.line sem
    · exact (behind old).mono (List.sublist_append_left _ _)
    · rw [List.mem_append, List.mem_singleton] at member
      obtain rfl := member.resolve_left old
      exact before_concat first
  | killed r _ erased =>
    rw [erased] at stays member ⊢
    have left : r ≠ p := fun same => distinctLine.not_mem_erase (same ▸ stays)
    have right : r ≠ q := fun same => distinctLine.not_mem_erase (same ▸ member)
    exact (behind (List.mem_of_mem_erase member)).erase left right

/-- While one process waits, whoever waits behind it leaves the line only by being killed. -/
theorem Good.leaves_killed {p q : Int} {label : Label} (good : Good s a) (valid : ¬ isbadsem sem)
    (behind : Before p q (a.line sem)) (h : System.Step label s s') (stays : s'.kernel.Waits p sem)
    (leaves : ¬ s'.kernel.Waits q sem) : label = .call (.kill q) := by
  obtain ⟨a', good', change⟩ := good.line_step valid h
  rw [good'.waits_iff valid] at stays leaves
  have distinctLine := good.inv.wellFormed.nodup (a.semtab sem).squeue
  cases change with
  | served n dropped =>
    rw [dropped] at stays leaves
    exact absurd (behind.drop distinctLine stays).mem_right leaves
  | joined _ joined =>
    rw [joined] at leaves
    exact absurd (List.mem_append_left _ behind.mem_right) leaves
  | killed r kill erased =>
    rw [erased] at leaves
    have same : r = q := by
      by_contra other
      exact leaves ((List.mem_erase_of_ne (Ne.symm other)).mpr behind.mem_right)
    exact same ▸ kill

/-! ## Runs -/

/-- How a semaphore treats the processes that wait for it, in a state of the system. -/
structure ServesWaiters (sem : Int) (s : System) : Prop where
  counts : (s.kernel.semtab sem).sstate = .used → s.kernel.CountsWaiters sem
  signal : Usable sem s.kernel → ∀ {s'}, System.Step (.call (.signal sem)) s s' →
    s.kernel.Frees sem 1 s'.kernel
  signaln : Usable sem s.kernel → ∀ {s'} {count : Int32}, 0 ≤ count.toInt →
    System.Step (.call (.signaln sem count)) s s' → s.kernel.Frees sem count.toInt.toNat s'.kernel
  semreset : Usable sem s.kernel → ∀ {s'} {count : Int32}, 0 ≤ count.toInt →
    System.Step (.call (.semreset sem count)) s s' →
    s.kernel.Frees sem (s.kernel.waiters sem).length s'.kernel
  semdelete : Usable sem s.kernel → ∀ {s'}, System.Step (.call (.semdelete sem)) s s' →
    s.kernel.Frees sem (s.kernel.waiters sem).length s'.kernel
  /-- Once `p` waits, a process `q` that begins to wait later goes on waiting as long as `p` does,
  unless it is killed. -/
  inOrder : ∀ {p q labels s₁ label s₂}, p ≠ q → s.kernel.Waits p sem → ¬ s.kernel.Waits q sem →
    Transition.Run (fun label s s' => System.Step label s s' ∧ s'.kernel.Waits p sem) labels s s₁ →
    s₁.kernel.Waits q sem → System.Step label s₁ s₂ → s₂.kernel.Waits p sem →
    ¬ s₂.kernel.Waits q sem → label = .call (.kill q)

theorem Good.servesWaiters (good : Good s a) (balanced : ∀ {sem}, ¬ isbadsem sem → Balanced sem a)
    (valid : ¬ isbadsem sem) : ServesWaiters sem s where
  counts _ := good.countsWaiters valid (balanced valid).balance
  signal usable _ h := by
    obtain ⟨a', good', releases⟩ := good.signals (balanced valid) usable h
    exact good.frees good' valid releases
  signaln usable _ _ nonnegative h := by
    obtain ⟨a', good', releases⟩ := good.signalns (balanced valid) usable nonnegative h
    exact good.frees good' valid releases
  semreset usable _ _ nonnegative h := by
    obtain ⟨a', good', -, releases⟩ := good.resets balanced h
    rw [good.waiters_eq valid]
    exact good.frees good' valid (releases usable nonnegative)
  semdelete usable _ h := by
    obtain ⟨a', good', -, releases⟩ := good.deletes balanced h
    rw [good.waiters_eq valid]
    exact good.frees good' valid (releases usable)
  inOrder distinct first later run waits h stays leaves := by
    obtain ⟨a', good', -, behind⟩ := good.stays_behind valid distinct ((good.waits_iff valid _).mp first)
      (fun member => later ((good.waits_iff valid _).mpr member)) run
    exact good'.leaves_killed valid (behind ((good'.waits_iff valid _).mp waits)) h stays leaves

/-- With counts read as integers, every semaphore serves its waiting processes in every state that
start-up leads to. -/
theorem reachable_servesWaiters (image : BootImage) (ram : Nat → UInt8) {labels : List Label} {s : System}
    (run : System.Run labels (boot image id ram) s) {sem : Int} (valid : ¬ isbadsem sem) :
    ServesWaiters sem s := by
  have booted := boot_booted image id ram
  generalize boot image id ram = s₀ at run booted
  have start {sem : Int} (valid : ¬ isbadsem sem) :
      Balanced sem (viewOf ⟨fun _ => [], s₀.kernel.queuetab.keyOf⟩ 0 s₀.kernel.toSched) := by
    have nonnegative : 0 ≤ (s₀.kernel.semtab sem).scount := booted.scount valid
    refine ⟨booted.counting, ?_, fun _ => nonnegative⟩
    simp only [Balance, View.line, members, viewOf, List.length_nil]
    omega
  have keeps {label : Label} {s s' : System} (h : System.Step label s s')
      (balanced : ∃ a, Good s a ∧ ∀ {sem}, ¬ isbadsem sem → Balanced sem a) :
      ∃ a, Good s' a ∧ ∀ {sem}, ¬ isbadsem sem → Balanced sem a := by
    obtain ⟨_, good, balanced⟩ := balanced
    exact good.balanced_step balanced h
  obtain ⟨a, good, balanced⟩ := Transition.Run.invariant
    (fun s => ∃ a, Good s a ∧ ∀ {sem}, ¬ isbadsem sem → Balanced sem a)
    (fun _ _ _ h => keeps h) run ⟨_, booted.good grows_id, start⟩
  exact good.servesWaiters balanced valid

/-- Two processes wait for a new semaphore, one after the other. -/
def twoWaiters : List Label :=
  [.call (.create 0x08017000 1024 20 [] []), .call (.create 0x08018000 1024 20 [] []),
    .call (.semcreate 0), .call (.resume 1), .call (.resume 2), .switch 0x2001e000, .call (.wait 2),
    .switch 0x2001d000, .call (.wait 2), .switch 0x2001c000]

set_option maxRecDepth 100000 in
theorem twoWaiters_served :
    ∃ s, System.exec twoWaiters (boot smallImage id fun _ => 0) = some s ∧ s.kernel.waiters 2 = [1, 2] ∧
      ServesWaiters 2 s := by
  have runs : (System.exec twoWaiters (boot smallImage id fun _ => 0)).map
      (fun s => s.kernel.waiters 2) = some [1, 2] := by decide +kernel
  obtain ⟨s, returns, waiters⟩ := Option.map_eq_some_iff.mp runs
  exact ⟨s, returns, waiters,
    reachable_servesWaiters smallImage _ (System.run_exec returns) (by decide)⟩

end XinuStm32
