import PicoFido2.Display.Drawing

/-! The transfers to the panel, as lists. A function that only talks to the panel sends a
list of transfers, up to the first that fails; the panel is a fold over those it got. -/

namespace PicoFido2.Display

open Effect Hal M5boards

/-- One transfer to the panel: the level of the D/C pin and the bytes. -/
structure Transfer where
  dc : Bool
  bytes : List (BitVec 8)
  deriving DecidableEq, Repr

def Transfer.transmit (t : Transfer) : Lcd Unit := do
  gpioSetLevelDc t.dc
  spiDeviceTransmit t.bytes

/-- Transfers one after the other, up to the first that fails. -/
def transmitAll : List Transfer → Lcd Unit
  | [] => pure ()
  | t :: ts => do
    t.transmit
    transmitAll ts

theorem transmitAll_append (a b : List Transfer) :
    transmitAll (a ++ b) = (do transmitAll a; transmitAll b) := by
  induction a with
  | nil => rfl
  | cons t a ih =>
    rw [List.cons_append, transmitAll, ih, transmitAll, Prog.bind_assoc]

theorem transmitAll_singleton (t : Transfer) : transmitAll [t] = t.transmit := by
  funext s
  show (t.transmit >>= fun _ => pure ()) s = t.transmit s
  rw [Prog.bind_apply]
  rcases t.transmit s with ⟨e | ⟨⟩, u⟩
  · rfl
  · rfl

theorem Transfer.transmit_done (t : Transfer) {w : LcdWorld}
    (h : w.spi.outcomes w.spi.transfers = .done) :
    ∃ u, t.transmit w = (.ok (), u) ∧ u.spi.outcomes = w.spi.outcomes ∧
      u.spi.transfers = w.spi.transfers + 1 := by
  have ht : t.transmit w = spiDeviceTransmit t.bytes { w with spi.dc := t.dc } := rfl
  rw [ht, spiDeviceTransmit]
  dsimp only
  rw [h]
  exact ⟨_, rfl, rfl, rfl⟩

theorem Transfer.transmit_failed (t : Transfer) {w : LcdWorld} {err : EspErr} {sent : ℕ}
    (h : w.spi.outcomes w.spi.transfers = .failed err sent) :
    ∃ u, t.transmit w = (.error err, u) := by
  have ht : t.transmit w = spiDeviceTransmit t.bytes { w with spi.dc := t.dc } := rfl
  rw [ht, spiDeviceTransmit]
  dsimp only
  rw [h]
  exact ⟨_, rfl⟩

/-- All transfers succeed exactly when the bus lets each of them. -/
theorem transmitAll_ok_iff (ts : List Transfer) (w : LcdWorld) :
    (transmitAll ts w).1 = .ok () ↔
      ∀ k < ts.length, w.spi.outcomes (w.spi.transfers + k) = .done := by
  induction ts generalizing w with
  | nil => simp [transmitAll, Prog.pure_apply]
  | cons t ts ih =>
    cases hfirst : w.spi.outcomes w.spi.transfers with
    | done =>
      obtain ⟨u, hu, houtcomes, htransfers⟩ := t.transmit_done hfirst
      rw [transmitAll, Prog.bind_ok hu, ih, List.length_cons, houtcomes, htransfers]
      constructor
      · intro h k hk
        cases k with
        | zero => exact hfirst
        | succ k =>
          have hrest := h k (by omega)
          rw [Nat.add_assoc, Nat.add_comm 1 k] at hrest
          exact hrest
      · intro h k hk
        have hrest := h (k + 1) (by omega)
        rw [Nat.add_assoc, Nat.add_comm 1 k]
        exact hrest
    | failed err sent =>
      obtain ⟨u, hu⟩ := t.transmit_failed hfirst
      rw [transmitAll, Prog.bind_error hu]
      constructor
      · intro h
        cases h
      · intro h
        have hdone := h 0 (by simp)
        rw [Nat.add_zero, hfirst] at hdone
        cases hdone

/-- What a command with its data sends. -/
def commandTransfers (cmd : BitVec 8) (data : List (BitVec 8)) : List Transfer :=
  [⟨false, [cmd]⟩, ⟨true, data⟩]

/-- What `lcd_set_window` sends. -/
def windowTransfers (x₀ y₀ x₁ y₁ : BitVec 16) : List Transfer :=
  commandTransfers 0x2a
      [(x₀ >>> 8).setWidth 8, x₀.setWidth 8, (x₁ >>> 8).setWidth 8, x₁.setWidth 8] ++
    commandTransfers 0x2b
      [(y₀ >>> 8).setWidth 8, y₀.setWidth 8, (y₁ >>> 8).setWidth 8, y₁.setWidth 8] ++
    [⟨false, [0x2c]⟩]

/-- What one pixel of `lcd_rect` sends. -/
def pixelTransfer (c : BitVec 16) : Transfer := ⟨true, Panel.pixelBytes c⟩

theorem lcdCmdData_transfers (cmd : BitVec 8) {data : List (BitVec 8)} (hdata : data.length ≠ 0) :
    lcdCmdData cmd data = transmitAll (commandTransfers cmd data) := by
  rw [commandTransfers, transmitAll, transmitAll_singleton, lcdCmdData, lcdData, if_neg hdata]
  rfl

theorem lcdSetWindow_transfers (x₀ y₀ x₁ y₁ : BitVec 16) :
    lcdSetWindow x₀ y₀ x₁ y₁ = transmitAll (windowTransfers x₀ y₀ x₁ y₁) := by
  rw [windowTransfers, transmitAll_append, transmitAll_append, transmitAll_singleton,
    ← lcdCmdData_transfers 0x2a (by simp), ← lcdCmdData_transfers 0x2b (by simp), Prog.bind_assoc]
  rfl

theorem lcdRectLoop_transfers (c : BitVec 16) (n : ℕ) :
    lcdRectLoop (bswap16 c) n = transmitAll (List.replicate n (pixelTransfer c)) := by
  induction n with
  | zero => rfl
  | succ n ih =>
    rw [List.replicate_succ, transmitAll, ← ih, lcdRectLoop, uint16Bytes_bswap16]
    rfl

/-! ### The panel -/

/-- The panel after transfers that all reach it. -/
def Panel.after (p : Panel) (ts : List Transfer) : Panel :=
  ts.foldl (fun p t => p.receive t.dc t.bytes) p

theorem Panel.after_window (x₀ y₀ x₁ y₁ : BitVec 16) (p : Panel) :
    p.after (windowTransfers x₀ y₀ x₁ y₁) = p.aimed x₀ y₀ x₁ y₁ := by
  simp [Panel.after, windowTransfers, commandTransfers, Panel.receive, Panel.onCommand,
    Panel.onData, Panel.finish, Panel.aimed, Panel.high_append_low]

theorem Panel.after_pixels (c : BitVec 16) (n : ℕ) {p : Panel} (h : p.Receiving) :
    p.after (List.replicate n (pixelTransfer c)) = p.write c n := by
  induction n generalizing p with
  | zero => rfl
  | succ n ih =>
    have hpixel : p.receive true (Panel.pixelBytes c) = p.write c 1 := Panel.pixel_received h c
    show (p.receive true (Panel.pixelBytes c)).after _ = _
    rw [hpixel, ih (h.write c 1), Panel.write_add, Nat.add_comm]

theorem transmitAll_sends (lcd : Pf2LcdDesc) (ts : List Transfer) :
    Sends lcd (fun _ => True) (transmitAll ts) fun p => p.after ts := by
  induction ts with
  | nil => exact Sends.pure lcd _
  | cons t ts ih =>
    exact (gpioSetLevelDc_transmit_sends t.dc t.bytes).bind (fun _ _ => trivial) ih

end PicoFido2.Display
