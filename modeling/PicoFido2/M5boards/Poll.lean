import PicoFido2.M5boards.BringUp
import PicoFido2.M5boards.KeyScan

/-! The ways a poll goes, and what polls leave alone. -/

namespace PicoFido2.M5boards

open Effect Hal

/-- Everything an initialisation sets up that no poll changes. -/
structure SameSetup (w w' : World) : Prop where
  m5board : w'.m5board = w.m5board
  sBoard : w'.presence.sBoard = w.presence.sBoard
  sPresenceInitialized : w'.presence.sPresenceInitialized = w.presence.sPresenceInitialized
  dev : w'.presence.sKeyboard.dev = w.presence.sKeyboard.dev

instance : IsPreorder World SameSetup where
  refl _ := ⟨rfl, rfl, rfl, rfl⟩
  trans _ _ _ a b := ⟨b.m5board.trans a.m5board, b.sBoard.trans a.sBoard,
    b.sPresenceInitialized.trans a.sPresenceInitialized, b.dev.trans a.dev⟩

theorem OnlyHw.setup {R : Hardware → Hardware → Prop} {w w' : World} (h : OnlyHw R w w') :
    SameSetup w w' :=
  ⟨h.m5board, by rw [h.presence], by rw [h.presence], by rw [h.presence]⟩

theorem ReadKeyEvent.setup {w w' : World} {r : Except EspErr Unit}
    (h : ReadKeyEvent (cleanLocals w) r w') : SameSetup w w' := by
  cases h <;> exact ⟨rfl, rfl, rfl, rfl⟩

theorem Scan.setup {n : ℕ} {w w' : World} {reads : List World} {b : Bool}
    (hs : Scan n w reads b w') : SameSetup w w' :=
  hs.keeps SameSetup (refl_of SameSetup) (trans_of SameSetup) fun hr => hr.setup

/-- Everything a poll can do. -/
inductive Poll (w : World) : Bool → World → Prop where
  | noBoard (hb : w.presence.sBoard = none) : Poll w false w
  | scan {board : BoardPtr} {reads : List World} {b : Bool} {w' : World}
      (hb : w.presence.sBoard = some board) (ht : board.desc.userInput.type = .tca8418)
      (hs : Scan 10 w reads b w') : Poll w b w'
  | sample {board : BoardPtr} {now : Bool} {w' : World}
      (hb : w.presence.sBoard = some board) (ht : board.desc.userInput.type = .gpio)
      (hk : keysPressed board w = (now, w')) :
      Poll w (now && !w'.presence.sGpioLastPressed)
        { w' with presence.sGpioLastPressed := now }

theorem pf2UserPresencePoll_cases (w : World) :
    Poll w (pf2UserPresencePoll w).1 (pf2UserPresencePoll w).2 := by
  unfold pf2UserPresencePoll
  cases hb : w.presence.sBoard with
  | none => exact .noBoard hb
  | some board =>
    dsimp only
    cases ht : board.desc.userInput.type with
    | tca8418 => exact .scan hb ht (pf2Tca8418AnyKeyPressed_scan w)
    | gpio => exact .sample hb ht rfl

theorem Poll.setup {w w' : World} {b : Bool} (hp : Poll w b w') : SameSetup w w' := by
  cases hp with
  | noBoard => exact refl_of SameSetup w
  | scan _ _ hs => exact hs.setup
  | @sample board now u _ _ hk =>
    have h := (onlyHw_keysPressed Hardware.sameChips_waited board w).setup
    rw [hk] at h
    exact ⟨h.m5board, h.sBoard, h.sPresenceInitialized, h.dev⟩

/-- What a call of the presence interface returns. -/
inductive Answer where
  | status (r : Except EspErr Unit)
  | pressed (b : Bool)

def Answer.confirms : Answer → Bool
  | status _ => false
  | pressed b => b

end PicoFido2.M5boards
