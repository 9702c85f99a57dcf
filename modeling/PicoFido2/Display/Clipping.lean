import PicoFido2.Display.Transfers

/-! The transfers of `lcd_rect`. A rectangle that misses the screen sends nothing. Any other
sets one window, the part of the rectangle on the screen, and sends as many pixels as the
window has places, so that the write pointer goes through each of them once. -/

namespace PicoFido2.Display

open Effect Hal M5boards Raster

/-! ### One side -/

/-- No sum, difference or narrowing along one side of `lcd_rect` loses anything. -/
structure ExactSide (size start extent : BitVec 16) : Prop where
  sum : start.toNat + extent.toNat < 2 ^ 31
  cut : (cut size start extent).toNat = min extent.toNat (size.toNat - start.toNat)
  pos : 0 < (Display.cut size start extent).toNat
  last : (start + Display.cut size start extent - 1).toNat =
    start.toNat + (Display.cut size start extent).toNat - 1
  inside : start + Display.cut size start extent - 1 < size

theorem exactSide {size start extent : BitVec 16} (hstart : start < size) (hextent : extent ≠ 0) :
    ExactSide size start extent := by
  obtain ⟨hlast, hpos, hcut⟩ := cut_spec hstart hextent
  have hsize := (hcut (start.toNat + (cut size start extent).toNat - 1)).mpr (by omega)
  refine ⟨by bv_omega, ?_, hpos, hlast, ?_⟩
  · unfold cut
    split
    · bv_omega
    · bv_omega
  · rw [BitVec.lt_def, hlast]
    exact hsize.2

/-! ### The rectangle -/

/-- What `lcd_rect` sends where the rectangle meets the screen. -/
def rectTransfers (lcd : Pf2LcdDesc) (x y w h c : BitVec 16) : List Transfer :=
  windowTransfers x y (x + cut lcd.width x w - 1) (y + cut lcd.height y h - 1) ++
    List.replicate ((cut lcd.width x w).toNat * (cut lcd.height y h).toNat) (pixelTransfer c)

/-- The window it sets. -/
def rectWindow (lcd : Pf2LcdDesc) (x y w h : BitVec 16) : Window where
  xs := x.toNat
  xe := (x + cut lcd.width x w - 1).toNat
  ys := y.toNat
  ye := (y + cut lcd.height y h - 1).toNat

theorem meets_iff (lcd : Pf2LcdDesc) (x y w h : BitVec 16) :
    (rectPlaces x.toNat y.toNat w.toNat h.toNat ∩ screen lcd).Nonempty ↔
      ¬ (w = 0 ∨ h = 0 ∨ lcd.width ≤ x ∨ lcd.height ≤ y) := by
  constructor
  · rintro ⟨p, hrect, hscreen⟩
    simp only [rectPlaces, screen, Set.mem_ofPred_eq] at hrect hscreen
    bv_omega
  · intro hne
    refine ⟨(x.toNat, y.toNat), ?_⟩
    simp only [rectPlaces, screen, Set.mem_inter_iff, Set.mem_ofPred_eq]
    bv_omega

section Meets

variable {lcd : Pf2LcdDesc} {x y w h : BitVec 16} (hx : ExactSide lcd.width x w)
  (hy : ExactSide lcd.height y h)
include hx hy

theorem rectWindow_area : (rectWindow lcd x y w h).area =
    (cut lcd.width x w).toNat * (cut lcd.height y h).toNat := by
  have hxpos := hx.pos
  have hypos := hy.pos
  rw [Window.area, rectWindow, hx.last, hy.last]
  dsimp only
  congr 1 <;> omega

theorem rectWindow_places : (rectWindow lcd x y w h).places =
    rectPlaces x.toNat y.toNat w.toNat h.toNat ∩ screen lcd := by
  have hxpos := hx.pos
  have hypos := hy.pos
  have hxcut := hx.cut
  have hycut := hy.cut
  ext p
  simp only [Window.places, rectWindow, rectPlaces, screen, Set.mem_inter_iff, Set.mem_ofPred_eq,
    hx.last, hy.last]
  omega

/-- Before all pixels are sent the pointer has not come back to the start of the window. -/
theorem pointer_after_pixels (c : BitVec 16) (p : Panel) {k : ℕ}
    (hk : k < (cut lcd.width x w).toNat * (cut lcd.height y h).toNat) :
    let q := p.after (windowTransfers x y (x + cut lcd.width x w - 1)
      (y + cut lcd.height y h - 1) ++ List.replicate k (pixelTransfer c))
    q.window = rectWindow lcd x y w h ∧
      q.pointer = (x.toNat + k % (cut lcd.width x w).toNat,
        y.toNat + k / (cut lcd.width x w).toNat) := by
  have hxpos := hx.pos
  rw [← rectWindow_area hx hy] at hk
  have hcols : (rectWindow lcd x y w h).xe - (rectWindow lcd x y w h).xs + 1 =
      (cut lcd.width x w).toNat := by
    rw [rectWindow, hx.last]
    dsimp only
    omega
  intro q
  have hq : q = (p.aimed x y (x + cut lcd.width x w - 1)
      (y + cut lcd.height y h - 1)).write c k := by
    show p.after _ = _
    rw [Panel.after, List.foldl_append]
    change Panel.after (p.after _) _ = _
    rw [Panel.after_window, Panel.after_pixels c k (p.receiving_aimed _ _ _ _)]
  rw [hq]
  refine ⟨rfl, ?_⟩
  have hpointer := Window.pointer_after (W := rectWindow lcd x y w h) c
    (by show x.toNat ≤ (x + cut lcd.width x w - 1).toNat; rw [hx.last]; omega) p.mem k hk
  rw [hcols] at hpointer
  exact hpointer

end Meets

/-- A rectangle that misses the screen sends nothing. Any other sets the window that is its
part on the screen and sends that window's number of pixels; no intermediate value of the
computation overflows, and the write pointer does not start over before the end. -/
theorem lcdRect_clips (lcd : Pf2LcdDesc) (x y w h c : BitVec 16) {s : LcdWorld}
    (hlcd : s.sLcd = some lcd) :
    (¬ (rectPlaces x.toNat y.toNat w.toNat h.toNat ∩ screen lcd).Nonempty →
      lcdRect x y w h c s = (.ok (), s)) ∧
    ((rectPlaces x.toNat y.toNat w.toNat h.toNat ∩ screen lcd).Nonempty →
      lcdRect x y w h c s = transmitAll (rectTransfers lcd x y w h c) s ∧
      (Up lcd s → (lcdRect x y w h c s).1 = .ok () ∧
        (lcdRect x y w h c s).2.spi.panel = s.spi.panel.after (rectTransfers lcd x y w h c)) ∧
      (rectWindow lcd x y w h).places =
        rectPlaces x.toNat y.toNat w.toNat h.toNat ∩ screen lcd ∧
      (rectWindow lcd x y w h).area = (cut lcd.width x w).toNat * (cut lcd.height y h).toNat ∧
      (∀ p k, k < (rectWindow lcd x y w h).area →
        (Panel.after p (windowTransfers x y (x + cut lcd.width x w - 1)
          (y + cut lcd.height y h - 1) ++ List.replicate k (pixelTransfer c))).pointer =
          (x.toNat + k % (cut lcd.width x w).toNat, y.toNat + k / (cut lcd.width x w).toNat)) ∧
      ExactSide lcd.width x w ∧ ExactSide lcd.height y h ∧
      (cut lcd.width x w).toNat * (cut lcd.height y h).toNat < 2 ^ 32) := by
  rw [meets_iff, not_not]
  refine ⟨fun hempty => by simp only [lcdRect, hlcd, if_pos hempty], fun hmeets => ?_⟩
  obtain ⟨hwne, hhne, hxin, hyin⟩ : w ≠ 0 ∧ h ≠ 0 ∧ ¬ lcd.width ≤ x ∧ ¬ lcd.height ≤ y := by
    simpa only [not_or] using hmeets
  have hx := exactSide (BitVec.not_le.1 hxin) hwne
  have hy := exactSide (BitVec.not_le.1 hyin) hhne
  have hpixels := pixels_lt (cut lcd.width x w).isLt (cut lcd.height y h).isLt
  have hrun : lcdRect x y w h c s = transmitAll (rectTransfers lcd x y w h c) s := by
    rw [rectTransfers, transmitAll_append, ← lcdSetWindow_transfers, ← lcdRectLoop_transfers]
    simp only [lcdRect, hlcd, if_neg hmeets]
    rw [← hpixels]
    rfl
  refine ⟨hrun, fun hup => ?_, rectWindow_places hx hy, rectWindow_area hx hy, fun p k hk => ?_,
    hx, hy, ?_⟩
  · rw [hrun]
    obtain ⟨hok, -, hpanel⟩ := transmitAll_sends lcd (rectTransfers lcd x y w h c) s hup trivial
    exact ⟨hok, hpanel⟩
  · rw [rectWindow_area hx hy] at hk
    exact (pointer_after_pixels hx hy c p hk).2
  · rw [← hpixels]
    exact Nat.mod_lt _ (by decide)

/-- Five columns and ten rows are left of a rectangle that runs over both edges. -/
theorem lcdRect_clips_corner : lcdRect 130 230 10 0xffff 0x07e0 darkStick =
    transmitAll (windowTransfers 130 230 134 239 ++
      List.replicate 50 (pixelTransfer 0x07e0)) darkStick := by
  have hmeets : (rectPlaces (130 : BitVec 16).toNat (230 : BitVec 16).toNat (10 : BitVec 16).toNat
      (0xffff : BitVec 16).toNat ∩ screen stickS3Desc.lcd).Nonempty :=
    ⟨(130, 230), by simp [rectPlaces], by simp [screen, stickS3Desc]⟩
  exact ((lcdRect_clips stickS3Desc.lcd 130 230 10 0xffff 0x07e0 (s := darkStick) rfl).2 hmeets).1

end PicoFido2.Display
