import Mathlib
import PicoFido2.Display.Clipping
import PicoFido2.Display.Init
import PicoFido2.Display.System

/-! The traffic of the display task. A state is drawn with packets, each of which sets one
window on the screen and then sends a pixel for every place of the window, some pixels to a
transfer. A transfer that fails ends its packet, and the next packet starts with a window of
its own. -/

namespace PicoFido2.Display

open Effect Hal M5boards Queue Raster Transition

/-- A transfer of `n` pixels of one colour. -/
def burst (c : BitVec 16) (n : ℕ) : Transfer :=
  ⟨true, (List.replicate n (Panel.pixelBytes c)).flatten⟩

theorem length_burst (c : BitVec 16) (n : ℕ) : (burst c n).bytes.length = 2 * n := by
  simp [burst, Panel.pixelBytes, List.length_flatten, Nat.mul_comm]

/-- The corners of a window on the screen, and how many pixels go into each transfer. -/
structure Packet (lcd : Pf2LcdDesc) where
  x₀ : BitVec 16
  y₀ : BitVec 16
  x₁ : BitVec 16
  y₁ : BitVec 16
  color : BitVec 16
  bursts : List ℕ
  cols : x₀.toNat ≤ x₁.toNat
  rows : y₀.toNat ≤ y₁.toNat
  right : x₁.toNat < lcd.width.toNat
  bottom : y₁.toNat < lcd.height.toNat
  area : bursts.sum = (x₁.toNat - x₀.toNat + 1) * (y₁.toNat - y₀.toNat + 1)
  short : ∀ n ∈ bursts, 0 < n ∧ n ≤ 64

section Packet

variable {lcd : Pf2LcdDesc}

namespace Packet

def transfers (p : Packet lcd) : List Transfer :=
  windowTransfers p.x₀ p.y₀ p.x₁ p.y₁ ++ p.bursts.map (burst p.color)

/-- Up to the first transfer that fails. -/
def send (p : Packet lcd) (w : LcdWorld) : LcdWorld := (transmitAll p.transfers w).2

theorem opened_send (p : Packet lcd) {w : LcdWorld} (h : Opened lcd w) : Opened lcd (p.send w) :=
  h.of_same (sameStatics_transmitAll p.transfers w)

/-- No transfer is empty, and none is longer than what the bus was initialised for. -/
theorem transfer_fits (p : Packet lcd) {t : Transfer} (ht : t ∈ p.transfers) :
    0 < t.bytes.length ∧ t.bytes.length ≤ (lcdBus lcd).maxTransferSz := by
  have hsize : 128 ≤ (lcdBus lcd).maxTransferSz := by
    have := p.right
    show 128 ≤ lcd.width.toNat * 64 * 2
    omega
  rcases List.mem_append.mp ht with hwindow | hburst
  · have hshort : 0 < t.bytes.length ∧ t.bytes.length ≤ 4 := by
      simp only [windowTransfers, commandTransfers, List.mem_append, List.mem_cons,
        List.not_mem_nil, or_false] at hwindow
      rcases hwindow with (((rfl | rfl) | rfl | rfl) | rfl) <;> simp
    omega
  · obtain ⟨n, hn, rfl⟩ := List.mem_map.mp hburst
    have hbounds := p.short n hn
    rw [length_burst]
    omega

end Packet

def sendAll (ps : List (Packet lcd)) (w : LcdWorld) : LcdWorld := ps.foldl (fun w p => p.send w) w

theorem sendAll_append (ps qs : List (Packet lcd)) (w : LcdWorld) :
    sendAll (ps ++ qs) w = sendAll qs (sendAll ps w) := List.foldl_append

theorem opened_sendAll (ps : List (Packet lcd)) {w : LcdWorld} (h : Opened lcd w) :
    Opened lcd (sendAll ps w) := by
  induction ps generalizing w with
  | nil => exact h
  | cons p ps ih => exact ih (p.opened_send h)

/-- `f` sends packets of one colour, the same in every state. -/
def Packed (lcd : Pf2LcdDesc) (c : BitVec 16) (f : LcdWorld → LcdWorld) : Prop :=
  ∃ ps : List (Packet lcd), (∀ p ∈ ps, p.color = c) ∧ ∀ w, Opened lcd w → f w = sendAll ps w

namespace Packed

variable {c : BitVec 16} {F G : LcdWorld → LcdWorld}

theorem nothing (lcd : Pf2LcdDesc) (c : BitVec 16) : Packed lcd c fun w => w :=
  ⟨[], by simp, fun _ _ => rfl⟩

theorem comp (hF : Packed lcd c F) (hG : Packed lcd c G) : Packed lcd c fun w => G (F w) := by
  obtain ⟨ps, hps, hF⟩ := hF
  obtain ⟨qs, hqs, hG⟩ := hG
  refine ⟨ps ++ qs, fun p hp => ?_, fun w hw => ?_⟩
  · rcases List.mem_append.mp hp with hp | hp
    · exact hps p hp
    · exact hqs p hp
  · rw [sendAll_append, ← hF w hw]
    apply hG
    rw [hF w hw]
    exact opened_sendAll ps hw

theorem foldl {ι : Type} {F : LcdWorld → ι → LcdWorld} (l : List ι)
    (h : ∀ i ∈ l, Packed lcd c fun w => F w i) : Packed lcd c fun w => l.foldl F w := by
  induction l with
  | nil => exact nothing lcd c
  | cons i l ih => exact (h i (by simp)).comp (ih fun j hj => h j (by simp [hj]))

end Packed

/-! ### The drawing functions -/

/-- The loop of `lcd_fill` sends up to 64 pixels at a time. -/
theorem lcdFillLoop_transfers (c : BitVec 16) (remaining : ℕ) :
    ∃ bursts : List ℕ, bursts.sum = remaining ∧ (∀ n ∈ bursts, 0 < n ∧ n ≤ 64) ∧
      lcdFillLoop (List.replicate 64 (bswap16 c)) remaining =
        transmitAll (bursts.map (burst c)) := by
  induction remaining using Nat.strong_induction_on with
  | _ remaining ih =>
    rw [lcdFillLoop]
    by_cases hzero : 0 < remaining
    · rw [if_pos hzero]
      have hle : (if remaining > 64 then 64 else remaining) ≤ 64 := by split <;> omega
      generalize hpixels : (if remaining > 64 then 64 else remaining) = pixels at hle
      have hpos : 0 < pixels ∧ pixels ≤ remaining := by split at hpixels <;> omega
      obtain ⟨bursts, hsum, hshort, hloop⟩ := ih (remaining - pixels) (by omega)
      refine ⟨pixels :: bursts, ?_, ?_, ?_⟩
      · rw [List.sum_cons, hsum]
        omega
      · intro n hn
        rcases List.mem_cons.mp hn with rfl | hn
        · exact ⟨hpos.1, hle⟩
        · exact hshort n hn
      · have hdata : lcdData (burst c pixels).bytes = (burst c pixels).transmit := by
          have hlength := length_burst c pixels
          rw [lcdData, if_neg (by omega)]
          rfl
        dsimp only
        rw [flatMap_uint16Bytes c hle, hloop, List.map_cons, transmitAll, ← hdata]
        rfl
    · obtain rfl : remaining = 0 := by omega
      exact ⟨[], rfl, by simp, rfl⟩

theorem transfers_of_loop (x₀ y₀ x₁ y₁ c : BitVec 16) {loop : Lcd Unit} {bursts : List ℕ}
    (hloop : loop = transmitAll (bursts.map (burst c))) :
    (do lcdSetWindow x₀ y₀ x₁ y₁; loop : Lcd Unit) =
      transmitAll (windowTransfers x₀ y₀ x₁ y₁ ++ bursts.map (burst c)) := by
  rw [transmitAll_append, ← lcdSetWindow_transfers, hloop]

theorem lcdRect_packed (lcd : Pf2LcdDesc) (x y w h c : BitVec 16) :
    Packed lcd c fun s => (lcdRect x y w h c s).2 := by
  by_cases hempty : w = 0 ∨ h = 0 ∨ lcd.width ≤ x ∨ lcd.height ≤ y
  · refine ⟨[], by simp, fun s hs => ?_⟩
    simp only [lcdRect, hs.sLcd, if_pos hempty]
    rfl
  · obtain ⟨hwne, hhne, hxin, hyin⟩ : w ≠ 0 ∧ h ≠ 0 ∧ ¬ lcd.width ≤ x ∧ ¬ lcd.height ≤ y := by
      simpa only [not_or] using hempty
    have hx := exactSide (BitVec.not_le.1 hxin) hwne
    have hy := exactSide (BitVec.not_le.1 hyin) hhne
    have hxpos := hx.pos
    have hypos := hy.pos
    have hxlast := hx.last
    have hylast := hy.last
    let packet : Packet lcd :=
      { x₀ := x
        y₀ := y
        x₁ := x + cut lcd.width x w - 1
        y₁ := y + cut lcd.height y h - 1
        color := c
        bursts := List.replicate ((cut lcd.width x w).toNat * (cut lcd.height y h).toNat) 1
        cols := by omega
        rows := by omega
        right := hx.inside
        bottom := hy.inside
        area := by
          rw [List.sum_replicate_nat, Nat.mul_one, hxlast, hylast]
          congr 1 <;> omega
        short := fun n hn => by
          rw [(List.mem_replicate.mp hn).2]
          decide }
    refine ⟨[packet], by simp [packet], fun s hs => ?_⟩
    have hpixel : burst c 1 = pixelTransfer c := by
      simp [burst, pixelTransfer]
    have hloop : lcdRectLoop (bswap16 c)
        ((cut lcd.width x w).toNat * (cut lcd.height y h).toNat % 2 ^ 32) =
          transmitAll (packet.bursts.map (burst c)) := by
      rw [pixels_lt (cut lcd.width x w).isLt (cut lcd.height y h).isLt, lcdRectLoop_transfers,
        List.map_replicate, hpixel]
    have hrun := transfers_of_loop x y packet.x₁ packet.y₁ c hloop
    show (lcdRect x y w h c s).2 = (transmitAll packet.transfers s).2
    rw [Packet.transfers, ← hrun]
    simp only [lcdRect, hs.sLcd, if_neg hempty]
    rfl

theorem lcdDrawChar_packed (lcd : Pf2LcdDesc) (x y : BitVec 16) (char : BitVec 8) (c : BitVec 16)
    (scale : BitVec 8) : Packed lcd c (lcdDrawChar x y char c scale) := by
  refine Packed.foldl (List.finRange 5) fun col _ => ?_
  refine Packed.foldl (List.range 7) fun row _ => ?_
  by_cases hlit : (glyphFor char).lit col row
  · simp only [hlit, if_true]
    exact lcdRect_packed lcd _ _ _ _ c
  · simp only [hlit]
    exact Packed.nothing lcd c

theorem lcdDrawText_packed (lcd : Pf2LcdDesc) (y c : BitVec 16) (scale : BitVec 8)
    (text : List (BitVec 8)) (x : BitVec 16) : Packed lcd c (lcdDrawText x y text c scale) := by
  induction text generalizing x with
  | nil => exact Packed.nothing lcd c
  | cons char text ih =>
    by_cases hfits : x.toNat + (BitVec.ofNat 16 (6 * scale.toNat)).toNat ≤ lcd.width.toNat
    · obtain ⟨ps, hps, hrun⟩ := (lcdDrawChar_packed lcd x y char c scale).comp
        (ih (x + BitVec.ofNat 16 (6 * scale.toNat)))
      refine ⟨ps, hps, fun w hw => ?_⟩
      rw [← hrun w hw, lcdDrawText.eq_def, hw.sLcd]
      simp only [if_pos hfits]
    · refine ⟨[], by simp, fun w hw => ?_⟩
      rw [lcdDrawText.eq_def, hw.sLcd]
      simp only [if_neg hfits]
      rfl

/-- A packet of the whole screen. -/
def Packet.Full (p : Packet lcd) : Prop :=
  p.x₀ = 0 ∧ p.y₀ = 0 ∧ p.x₁ = lcd.width - 1 ∧ p.y₁ = lcd.height - 1

variable (hw : 0 < lcd.width.toNat) (hh : 0 < lcd.height.toNat)
include hw hh

theorem lcdFill_packed (c : BitVec 16) : ∃ p : Packet lcd, p.Full ∧ p.color = c ∧
    ∀ w, Opened lcd w → lcdFill c w = p.send w := by
  have hwidth : (lcd.width - 1).toNat = lcd.width.toNat - 1 := by bv_omega
  have hheight : (lcd.height - 1).toNat = lcd.height.toNat - 1 := by bv_omega
  have hzero : (0 : BitVec 16).toNat = 0 := rfl
  obtain ⟨bursts, hsum, hshort, hloop⟩ :=
    lcdFillLoop_transfers c (lcd.width.toNat * lcd.height.toNat % 2 ^ 32)
  rw [pixels_lt lcd.width.isLt lcd.height.isLt] at hsum
  let packet : Packet lcd :=
    { x₀ := 0
      y₀ := 0
      x₁ := lcd.width - 1
      y₁ := lcd.height - 1
      color := c
      bursts := bursts
      cols := by omega
      rows := by omega
      right := by omega
      bottom := by omega
      area := by
        rw [hsum, hwidth, hheight, hzero]
        congr 1 <;> omega
      short := hshort }
  refine ⟨packet, ⟨rfl, rfl, rfl, rfl⟩, rfl, fun w hopened => ?_⟩
  have hrun := transfers_of_loop 0 0 (lcd.width - 1) (lcd.height - 1) c hloop
  obtain ⟨spi, hspi⟩ := Option.isSome_iff_exists.mp hopened.sLcdSpi
  show lcdFill c w = (transmitAll packet.transfers w).2
  rw [Packet.transfers, ← hrun]
  unfold lcdFill
  rw [hopened.sLcd, hspi]

/-- The packets of a state: one fills the screen in the colour of the status, the others are
white. -/
structure PacketsOf (lcd : Pf2LcdDesc) (state : Pf2DisplayState) (ps : List (Packet lcd)) :
    Prop where
  fill : ∃ p dots, ps = p :: dots ∧ p.Full ∧ p.color = statusColor state.status ∧
    ∀ dot ∈ dots, dot.color = 0xffff
  draws : ∀ w, Opened lcd w → displayTaskDraw state w = sendAll ps w

theorem exists_packetsOf (state : Pf2DisplayState) : ∃ ps, PacketsOf lcd state ps := by
  obtain ⟨p, hfull, hcolor, hfill⟩ := lcdFill_packed hw hh (statusColor state.status)
  have hlines := (lcdDrawText_packed lcd 12 0xffff 2 state.line1.chars 8).comp
    (lcdDrawText_packed lcd 34 0xffff 2 state.line2.chars 8)
  obtain ⟨dots, hdots, hlines⟩ := hlines
  by_cases htext : state.line1.chars ≠ [] ∨ state.line2.chars ≠ []
  · refine ⟨p :: dots, ⟨p, dots, rfl, hfull, hcolor, hdots⟩, fun w hopened => ?_⟩
    simp only [displayTaskDraw, if_pos htext]
    rw [hfill w hopened]
    exact hlines _ (p.opened_send hopened)
  · refine ⟨[p], ⟨p, [], rfl, hfull, hcolor, by simp⟩, fun w hopened => ?_⟩
    simp only [displayTaskDraw, if_neg htext]
    exact hfill w hopened

/-- In every interleaving of calls with the display task, whatever transfers fail: everything
that was sent to the panel since the start are the packets of the states drawn, in order.
Every packet sets one window on the screen and sends as many pixels as the window has
places; no transfer is empty or longer than what the bus was initialised for; and a failure
ends one packet, not a drawing. -/
theorem sent_in_packets {τ : Type} [DecidableEq τ] {s₀ : Pf2DisplayState} {w₀ : LcdWorld}
    (hopened : Opened lcd w₀) {vs : SystemRun τ} {s : DisplaySystem τ}
    (hp : Path SystemStep (initialized s₀, w₀) vs s) :
    ∃ pss, List.Forall₂ (PacketsOf lcd) (drawn vs) pss ∧ s.2 = sendAll pss.flatten w₀ ∧
      ∀ p ∈ pss.flatten, ∀ t ∈ p.transfers,
        0 < t.bytes.length ∧ t.bytes.length ≤ (lcdBus lcd).maxTransferSz := by
  have hrun := hp.history (I := fun us t => ∃ pss,
    List.Forall₂ (PacketsOf lcd) (drawn us) pss ∧ t.2 = sendAll pss.flatten w₀)
    ⟨[], .nil, rfl⟩ ?_
  · obtain ⟨pss, hpss, hsent⟩ := hrun
    exact ⟨pss, hpss, hsent, fun p _ t ht => p.transfer_fits ht⟩
  · rintro us s a r t hs ⟨pss, hpss, hsent⟩
    rw [drawn_snoc]
    cases hs with
    | handoff hnot =>
      rw [drawn_handoff hnot, List.append_nil]
      exact ⟨pss, hpss, hsent⟩
    | @draw state m htaken =>
      obtain ⟨ps, hps⟩ := exists_packetsOf hw hh state
      rw [drawn_use htaken]
      refine ⟨pss ++ [ps], List.rel_append hpss (.cons hps .nil), ?_⟩
      rw [List.flatten_append, List.flatten_singleton, sendAll_append, ← hsent]
      apply hps.draws
      rw [hsent]
      exact opened_sendAll _ hopened

end Packet

/-- One drawing on a bus on which every second transfer fails. -/
theorem sent_in_packets_flaky : ∃ s : DisplaySystem Bool,
    s.1.used = some ⟨.boot, .empty, .empty⟩ ∧ ∃ ps : List (Packet stickS3Desc.lcd),
      PacketsOf stickS3Desc.lcd ⟨.boot, .empty, .empty⟩ ps ∧ s.2 = sendAll ps flakyStick := by
  have hp : Path (SystemStep (τ := Bool)) (initialized ⟨.boot, .empty, .empty⟩, flakyStick) _ _ :=
    Path.nil
      |>.snoc (.handoff (by simp) (.call (t := true) (.setStatus .locked) rfl))
      |>.snoc (.handoff (by simp) (.take rfl rfl))
      |>.snoc (.draw rfl (.use rfl))
  have hopened : Opened stickS3Desc.lcd flakyStick := ⟨rfl, rfl⟩
  obtain ⟨pss, hpss, hsent, -⟩ := sent_in_packets (by decide) (by decide) hopened hp
  have hdrawn : List.Forall₂ (PacketsOf stickS3Desc.lcd) [⟨.boot, .empty, .empty⟩] pss := hpss
  cases hdrawn with
  | cons hps hnone =>
    cases hnone with
    | nil =>
      rw [List.flatten_singleton] at hsent
      refine ⟨_, ?_, _, hps, hsent⟩
      rfl

end PicoFido2.Display
