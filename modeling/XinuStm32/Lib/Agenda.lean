import Mathlib

/-!
# Agendas

Entries wait in the order in which they are due, and each is kept with its delay after the one before it.
An entry is added by splitting the delay of the one behind it, taken out by adding its delay to that one, and
the clock only has to count down the first.
-/

namespace Agenda

variable {α : Type*} {key key' due due' : α → Int} {now t : Int} {p q : α} {l front back rest : List α}

/-- Each entry is due its key after the one before it, and the first one its key after `now`. -/
def Scheduled (key due : α → Int) (now : Int) : List α → Prop
  | [] => True
  | p :: rest => 0 ≤ key p ∧ due p = now + key p ∧ Scheduled key due (due p) rest

/-- The time at which the last of some entries is due. -/
def finish (due : α → Int) (now : Int) : List α → Int
  | [] => now
  | p :: rest => finish due (due p) rest

theorem scheduled_append : Scheduled key due now (front ++ back) ↔
    Scheduled key due now front ∧ Scheduled key due (finish due now front) back := by
  induction front generalizing now with
  | nil => simp [Scheduled, finish]
  | cons p front inductionHypothesis =>
    simp only [List.cons_append, Scheduled, finish, inductionHypothesis, and_assoc]

theorem finish_congr (dues : ∀ p ∈ l, due' p = due p) : finish due' now l = finish due now l := by
  induction l generalizing now with
  | nil => rfl
  | cons p rest inductionHypothesis =>
    simp only [finish, dues p List.mem_cons_self]
    exact inductionHypothesis fun q member => dues q (List.mem_cons_of_mem p member)

theorem Scheduled.congr (scheduled : Scheduled key due now l) (keys : ∀ p ∈ l, key' p = key p)
    (dues : ∀ p ∈ l, due' p = due p) : Scheduled key' due' now l := by
  induction l generalizing now with
  | nil => trivial
  | cons p rest inductionHypothesis =>
    obtain ⟨nonnegative, first, later⟩ := scheduled
    simp only [Scheduled, keys p List.mem_cons_self, dues p List.mem_cons_self]
    exact ⟨nonnegative, first, inductionHypothesis later
      (fun q member => keys q (List.mem_cons_of_mem p member)) fun q member => dues q (List.mem_cons_of_mem p member)⟩

theorem Scheduled.now_le (scheduled : Scheduled key due now l) (member : p ∈ l) : now ≤ due p := by
  induction l generalizing now with
  | nil => cases member
  | cons q rest inductionHypothesis =>
    obtain ⟨nonnegative, first, later⟩ := scheduled
    have next : now ≤ due q := by omega
    obtain rfl | member := List.mem_cons.mp member
    · exact next
    · exact le_trans next (inductionHypothesis later member)

theorem Scheduled.now_le_finish (scheduled : Scheduled key due now l) : now ≤ finish due now l := by
  induction l generalizing now with
  | nil => exact le_refl _
  | cons p rest inductionHypothesis =>
    obtain ⟨nonnegative, first, later⟩ := scheduled
    have next := inductionHypothesis later
    simp only [finish]
    omega

/-- No entry is due before the first. -/
theorem Scheduled.first_le (scheduled : Scheduled key due now (p :: rest)) (member : q ∈ p :: rest) :
    due p ≤ due q := by
  obtain rfl | member := List.mem_cons.mp member
  · exact le_refl _
  · exact scheduled.2.2.now_le member

/-- The keys behind an entry once it is in: the delay of the first of them is split. -/
def Shifted (key key' : α → Int) (change : Int) : List α → Prop
  | [] => True
  | next :: rest => key' next = key next + change ∧ ∀ q ∈ rest, key' q = key q

/-- Entries that count from another time have the first delay changed by the difference. -/
theorem Scheduled.shift (scheduled : Scheduled key due now l) {start : Int} (later : ∀ p ∈ l, start ≤ due p)
    (keys : Shifted key key' (now - start) l) (dues : ∀ p ∈ l, due' p = due p) :
    Scheduled key' due' start l := by
  cases l with
  | nil => trivial
  | cons next rest =>
    obtain ⟨nonnegative, first, behind⟩ := scheduled
    obtain ⟨changed, kept⟩ := keys
    have bound := later next List.mem_cons_self
    refine ⟨by omega, ?_, ?_⟩
    · rw [dues next List.mem_cons_self, changed]
      omega
    · rw [dues next List.mem_cons_self]
      exact behind.congr kept fun q member => dues q (List.mem_cons_of_mem next member)

/-- An entry goes where everyone before it is due by its time and everyone behind it is not due earlier. -/
theorem Scheduled.insert (scheduled : Scheduled key due now (front ++ back)) (after : finish due now front ≤ t)
    (before : ∀ q ∈ back, t ≤ due q) (newKey : key' p = t - finish due now front) (newDue : due' p = t)
    (keys : ∀ q ∈ front, key' q = key q) (shifted : Shifted key key' (finish due now front - t) back)
    (dues : ∀ q ∈ front ++ back, due' q = due q) : Scheduled key' due' now (front ++ p :: back) := by
  obtain ⟨ahead, behind⟩ := scheduled_append.mp scheduled
  have duesFront : ∀ q ∈ front, due' q = due q := fun q member => dues q (List.mem_append_left _ member)
  have duesBack : ∀ q ∈ back, due' q = due q := fun q member => dues q (List.mem_append_right _ member)
  refine scheduled_append.mpr ⟨ahead.congr keys duesFront, ?_⟩
  rw [finish_congr duesFront]
  refine ⟨by omega, by omega, ?_⟩
  rw [newDue]
  exact behind.shift before shifted duesBack

/-- Without an entry the one behind it waits for both delays. -/
theorem Scheduled.remove (scheduled : Scheduled key due now (front ++ p :: back))
    (keys : ∀ q ∈ front, key' q = key q) (shifted : Shifted key key' (key p) back) :
    Scheduled key' due now (front ++ back) := by
  obtain ⟨ahead, nonnegative, here, behind⟩ := scheduled_append.mp scheduled
  refine scheduled_append.mpr ⟨ahead.congr keys fun _ _ => rfl, ?_⟩
  have delay : key p = due p - finish due now front := by omega
  refine behind.shift (fun q member => ?_) (delay ▸ shifted) fun _ _ => rfl
  have later := behind.now_le member
  omega

/-- Counting down the first entry moves the whole agenda on by one. -/
theorem Scheduled.tick (scheduled : Scheduled key due now (p :: rest)) (waits : 0 < key p)
    (counted : key' p = key p - 1) (keys : ∀ q ∈ rest, key' q = key q) :
    Scheduled key' due (now + 1) (p :: rest) := by
  obtain ⟨-, first, behind⟩ := scheduled
  exact ⟨by omega, by omega, behind.congr keys fun _ _ => rfl⟩

end Agenda
