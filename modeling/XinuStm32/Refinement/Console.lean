import XinuStm32.Refinement.Semaphore
import XinuStm32.Refinement.Dispatch

/-!
# Console input as moves

A character that arrives with the clock interrupt signals the input semaphore at most.
-/

namespace XinuStm32

open View

variable {owed : Int} {s : Kernel} {a : View}

/-- The moves of an operation that does nothing but signal. -/
def Move.Signals (move : Move) : Prop := move = .quiet ∨ ∃ sem, move = .release sem ∨ move = .post sem

theorem semcount_tracks (track : Tracks owed s a) (sem : Int) : Tracks owed (semcount sem s).2 a := by
  simp only [semcount]
  split <;> exact track.congr rfl

theorem signal_performs (track : Tracks owed s a) (inv : a.Inv) (sem : Int) :
    Performs owed Move.Signals (signal sem s).2 a := by
  obtain ⟨-, follows⟩ | ⟨-, -, -, follows | follows⟩ := signal_follows track inv sem
  · exact ⟨[], by simp, follows⟩
  · exact follows.performs (Or.inr ⟨sem, Or.inl rfl⟩)
  · exact follows.performs (Or.inr ⟨sem, Or.inr rfl⟩)

theorem signaln_performs (track : Tracks owed s a) (inv : a.Inv) (sem : Int) (count : Int32) :
    Performs owed Move.Signals (signaln sem count s).2 a := by
  rcases signaln_follows track inv sem count with
    ⟨-, follows⟩ | ⟨-, -, -, moves, quiet, -, kinds, quiets, follows⟩
  · exact ⟨[], by simp, follows⟩
  · refine ⟨moves ++ quiet, fun move member => ?_, follows⟩
    cases List.mem_append.mp member with
    | inl member => exact Or.inr ⟨sem, kinds move member⟩
    | inr member => exact Or.inl (quiets move member)

/-! ## Echo and the input buffer -/

theorem tty_tracks (track : Tracks owed s a) (tty : Ttycblk) : Tracks owed { s with tty := tty } a :=
  track.congr rfl

theorem eputc_tracks (track : Tracks owed s a) (c : UInt8) : Tracks owed (eputc c s) a :=
  track.congr rfl

theorem echoch_tracks (track : Tracks owed s a) (c : UInt8) : Tracks owed (echoch c s) a := by
  simp only [echoch]
  split
  · exact eputc_tracks (eputc_tracks track _) _
  · split
    · exact eputc_tracks (eputc_tracks track _) _
    · exact eputc_tracks track _

theorem eraseColumn_tracks (track : Tracks owed s a) : Tracks owed (eraseColumn s) a := by
  simp only [eraseColumn]
  split
  · exact eputc_tracks (eputc_tracks (eputc_tracks track _) _) _
  · exact eputc_tracks track _

theorem erase1_tracks (track : Tracks owed s a) : Tracks owed (erase1 s) a := by
  simp only [erase1]
  generalize (if s.tty.tyitail - 1 < 0 then s.tty.tyitail - 1 + TY_IBUFLEN
    else s.tty.tyitail - 1) = tail
  have moved : Tracks owed { s with tty := { s.tty with tyitail := tail } } a := track.congr rfl
  split
  · split
    · apply eraseColumn_tracks
      split
      · exact eraseColumn_tracks moved
      · exact moved
    · exact eraseColumn_tracks moved
  · exact moved

theorem storeChar_tracks (track : Tracks owed s a) (c : UInt8) : Tracks owed (storeChar c s) a :=
  track.congr rfl

theorem wrapTail_tracks (track : Tracks owed s a) : Tracks owed (wrapTail s) a := by
  simp only [wrapTail]
  split
  · exact track.congr rfl
  · exact track

theorem echo_tracks (track : Tracks owed s a) (echo : Bool) (c : UInt8) :
    Tracks owed (if echo = true then echoch c s else s) a := by
  split
  · exact echoch_tracks track c
  · exact track

theorem availChars_tracks (track : Tracks owed s a) : Tracks owed (availChars s).2 a :=
  semcount_tracks track _

/-! ## The line discipline -/

theorem ttyhandleInCooked_performs (track : Tracks owed s a) (inv : a.Inv) (c : UInt8) :
    Performs owed Move.Signals (ttyhandleInCooked c s) a := by
  simp only [ttyhandleInCooked]
  split
  · exact .nothing (eputc_tracks (eputc_tracks (tty_tracks track _) _) _)
  split
  · split
    · exact .nothing (erase1_tracks (tty_tracks track _))
    · exact .nothing track
  split
  · have stored := wrapTail_tracks (storeChar_tracks (echo_tracks track s.tty.tyiecho c) c)
    generalize wrapTail (storeChar c (if s.tty.tyiecho = true then echoch c s else s)) = s at stored ⊢
    exact (signaln_performs stored inv s.tty.tyisem (Int32.ofInt (s.tty.tyicursor + 1))).tracked
      fun _ track => tty_tracks track _
  have track := availChars_tracks track
  generalize availChars s = available at track ⊢
  split
  · exact .nothing (eputc_tracks track _)
  have echoed := echo_tracks track available.2.tty.tyiecho c
  generalize (if available.2.tty.tyiecho = true then echoch c available.2 else available.2) = s
    at echoed ⊢
  split
  · split
    · exact .nothing echoed
    · exact signal_performs (storeChar_tracks echoed c) inv _
  · exact .nothing (wrapTail_tracks (storeChar_tracks (tty_tracks echoed _) c))

theorem ttyhandleIn_performs (track : Tracks owed s a) (inv : a.Inv) (c : UInt8) :
    Performs owed Move.Signals (ttyhandleIn c s) a := by
  have track := availChars_tracks track
  simp only [ttyhandleIn]
  generalize availChars s = available at track ⊢
  split
  · split
    · exact .nothing track
    · exact signal_performs (wrapTail_tracks (storeChar_tracks track c)) inv _
  generalize (if c = TY_RETURN ∧ available.2.tty.tyicrlf = true then TY_NEWLINE else c) = ch
  have held : Tracks owed { available.2 with tty := { available.2.tty with tyoheld := false } } a :=
    track.congr rfl
  split
  · split
    · exact .nothing (eputc_tracks held _)
    · exact signal_performs (echo_tracks (wrapTail_tracks (storeChar_tracks held ch)) _ ch) inv _
  · exact ttyhandleInCooked_performs held inv ch

theorem ttyhandler_performs (track : Tracks owed s a) (inv : a.Inv) (c : UInt8) :
    Performs owed Move.Signals (ttyhandler c s) a := by
  refine (ttyhandleIn_performs track inv c).append inv fun _ a' _ _ _ track' => ?_
  exact (yield_follows track').performs (Or.inl rfl)

end XinuStm32
