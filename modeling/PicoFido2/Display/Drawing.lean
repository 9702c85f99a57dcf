import PicoFido2.Display.Lcd

/-! What the drawing functions do. Failed or not, they leave the statics alone. When no
transfer fails each of them paints a set of places, cut to the screen; a function that
only sends bytes changes the controller's state by a known function of it. -/

namespace PicoFido2.Display

open Effect Hal M5boards Raster

/-! ### Statics -/

def SameStatics (w w' : LcdWorld) : Prop := w'.sLcd = w.sLcd ∧ w'.sLcdSpi = w.sLcdSpi

instance : IsPreorder LcdWorld SameStatics where
  refl _ := ⟨rfl, rfl⟩
  trans _ _ _ h k := ⟨k.1.trans h.1, k.2.trans h.2⟩

theorem keeps_spiDeviceTransmit (bytes : List (BitVec 8)) :
    Prog.Keeps SameStatics (spiDeviceTransmit bytes) := by
  intro w
  unfold spiDeviceTransmit
  split <;> exact ⟨rfl, rfl⟩

theorem keeps_gpioSetLevelDc (level : Bool) : Prog.Keeps SameStatics (gpioSetLevelDc level) :=
  Prog.keeps_modify fun _ => ⟨rfl, rfl⟩

theorem keeps_lcdCmd (cmd : BitVec 8) : Prog.Keeps SameStatics (lcdCmd cmd) :=
  Prog.keeps_bind (keeps_gpioSetLevelDc false) fun _ => keeps_spiDeviceTransmit [cmd]

theorem keeps_lcdData (data : List (BitVec 8)) : Prog.Keeps SameStatics (lcdData data) := by
  unfold lcdData
  split
  · exact Prog.keeps_pure ()
  · exact Prog.keeps_bind (keeps_gpioSetLevelDc true) fun _ => keeps_spiDeviceTransmit data

theorem keeps_lcdSetWindow (x₀ y₀ x₁ y₁ : BitVec 16) :
    Prog.Keeps SameStatics (lcdSetWindow x₀ y₀ x₁ y₁) := by
  have hcmd : ∀ cmd data, Prog.Keeps SameStatics (lcdCmdData cmd data) := fun cmd data =>
    Prog.keeps_bind (keeps_lcdCmd cmd) fun _ => keeps_lcdData data
  exact Prog.keeps_bind (hcmd _ _) fun _ => Prog.keeps_bind (hcmd _ _) fun _ => keeps_lcdCmd 0x2c

theorem keeps_lcdFillLoop (line : List (BitVec 16)) (remaining : ℕ) :
    Prog.Keeps SameStatics (lcdFillLoop line remaining) := by
  induction remaining using Nat.strong_induction_on with
  | _ remaining ih =>
    rw [lcdFillLoop]
    split
    · apply Prog.keeps_bind (keeps_lcdData _)
      intro _
      apply ih
      split <;> omega
    · exact Prog.keeps_pure ()

theorem keeps_lcdRectLoop (color : BitVec 16) : ∀ n, Prog.Keeps SameStatics (lcdRectLoop color n)
  | 0 => Prog.keeps_pure ()
  | n + 1 => Prog.keeps_bind (keeps_lcdData _) fun _ => keeps_lcdRectLoop color n

theorem sameStatics_lcdFill (c : BitVec 16) (w : LcdWorld) : SameStatics w (lcdFill c w) := by
  unfold lcdFill
  split
  · exact Prog.keeps_bind (keeps_lcdSetWindow _ _ _ _) (fun _ => keeps_lcdFillLoop _ _) w
  · exact ⟨rfl, rfl⟩

theorem sameStatics_lcdRect (x y w h c : BitVec 16) (s : LcdWorld) :
    SameStatics s (lcdRect x y w h c s).2 := by
  unfold lcdRect
  split
  · exact ⟨rfl, rfl⟩
  · split
    · exact ⟨rfl, rfl⟩
    · exact Prog.keeps_bind (keeps_lcdSetWindow _ _ _ _) (fun _ => keeps_lcdRectLoop _ _) s

theorem sameStatics_foldl {ι : Type} {F : LcdWorld → ι → LcdWorld}
    (h : ∀ w i, SameStatics w (F w i)) (l : List ι) (w : LcdWorld) :
    SameStatics w (l.foldl F w) := by
  induction l generalizing w with
  | nil => exact ⟨rfl, rfl⟩
  | cons i l ih => exact trans_of SameStatics (h w i) (ih (F w i))

theorem sameStatics_lcdDrawChar (x y : BitVec 16) (char : BitVec 8) (c : BitVec 16)
    (scale : BitVec 8) (w : LcdWorld) : SameStatics w (lcdDrawChar x y char c scale w) := by
  apply sameStatics_foldl
  intro w col
  apply sameStatics_foldl
  intro w row
  split
  · exact sameStatics_lcdRect _ _ _ _ _ w
  · exact ⟨rfl, rfl⟩

theorem sameStatics_lcdDrawText (y : BitVec 16) (text : List (BitVec 8)) (c : BitVec 16)
    (scale : BitVec 8) (x : BitVec 16) (w : LcdWorld) :
    SameStatics w (lcdDrawText x y text c scale w) := by
  induction text generalizing x w with
  | nil => exact ⟨rfl, rfl⟩
  | cons char text ih =>
    rw [lcdDrawText.eq_def]
    split
    · dsimp only
      split
      · rename_i htext _ _
        obtain ⟨rfl, rfl⟩ := List.cons.inj htext
        exact trans_of SameStatics (sameStatics_lcdDrawChar x y _ c scale w) (ih _ _)
      · exact ⟨rfl, rfl⟩
    · exact ⟨rfl, rfl⟩

theorem sameStatics_displayTaskDraw (state : Pf2DisplayState) (w : LcdWorld) :
    SameStatics w (displayTaskDraw state w) := by
  unfold displayTaskDraw
  dsimp only
  have hfill := sameStatics_lcdFill (statusColor state.status) w
  split
  · exact trans_of SameStatics hfill <| trans_of SameStatics
      (sameStatics_lcdDrawText 12 state.line1.chars 0xffff 2 8 _)
      (sameStatics_lcdDrawText 34 state.line2.chars 0xffff 2 8 _)
  · exact hfill

/-! ### Panels that are up -/

/-- `pf2_display_init` has set the statics. -/
structure Opened (lcd : Pf2LcdDesc) (w : LcdWorld) : Prop where
  sLcd : w.sLcd = some lcd
  sLcdSpi : w.sLcdSpi.isSome

/-- And no transfer fails from here on. -/
structure Up (lcd : Pf2LcdDesc) (w : LcdWorld) : Prop extends Opened lcd w where
  done : ∀ n, w.spi.transfers ≤ n → w.spi.outcomes n = .done

/-- The StickS3 with its panel dark. -/
def darkStick : LcdWorld where
  sLcd := some stickS3Desc.lcd
  sLcdSpi := some 0
  spi :=
    { outcomes := fun _ => .done
      transfers := 0
      dc := false
      panel := ⟨fun _ _ => 0, 0, [], ⟨0, 0, 0, 0⟩, (0, 0)⟩ }

theorem Opened.of_same {lcd : Pf2LcdDesc} {w w' : LcdWorld} (h : Opened lcd w)
    (hsame : SameStatics w w') : Opened lcd w' :=
  ⟨hsame.1.trans h.sLcd, by rw [hsame.2]; exact h.sLcdSpi⟩

/-- With a panel in `I`, `x` returns without an error and changes the panel by `f`. -/
def Sends (lcd : Pf2LcdDesc) (I : Panel → Prop) (x : Lcd Unit) (f : Panel → Panel) : Prop :=
  ∀ w, Up lcd w → I w.spi.panel →
    (x w).1 = .ok () ∧ Up lcd (x w).2 ∧ (x w).2.spi.panel = f w.spi.panel

/-- `f` paints the places in `S`. -/
def Draws (lcd : Pf2LcdDesc) (S : Set (ℕ × ℕ)) (c : BitVec 16) (f : LcdWorld → LcdWorld) : Prop :=
  ∀ w, Up lcd w → Up lcd (f w) ∧ Paints S c w.spi.panel.mem (f w).spi.panel.mem

variable {lcd : Pf2LcdDesc} {I J : Panel → Prop} {x y : Lcd Unit} {f g : Panel → Panel}
  {S T : Set (ℕ × ℕ)} {c : BitVec 16}

namespace Sends

theorem pure (lcd : Pf2LcdDesc) (I : Panel → Prop) : Sends lcd I (Pure.pure ()) id :=
  fun _ hup _ => ⟨rfl, hup, rfl⟩

theorem bind (hx : Sends lcd I x f) (hJ : ∀ p, I p → J (f p)) (hy : Sends lcd J y g) :
    Sends lcd I (x >>= fun _ => y) (g ∘ f) := by
  intro w hup hI
  obtain ⟨hok, hup', hpanel⟩ := hx w hup hI
  have hrun : (x >>= fun _ => y) w = y (x w).2 := Prog.bind_ok (Prod.ext hok rfl) _
  rw [hrun, Function.comp_apply, ← hpanel]
  apply hy _ hup'
  rw [hpanel]
  exact hJ _ hI

theorem congr (h : Sends lcd I x f) (hfg : ∀ p, I p → f p = g p) : Sends lcd I x g := by
  intro w hup hI
  rw [← hfg _ hI]
  exact h w hup hI

end Sends

namespace Draws

theorem congr {F : LcdWorld → LcdWorld} (h : Draws lcd S c F) (hST : S = T) :
    Draws lcd T c F := hST ▸ h

theorem comp {F G : LcdWorld → LcdWorld} (hF : Draws lcd S c F) (hG : Draws lcd T c G) :
    Draws lcd (S ∪ T) c fun w => G (F w) := by
  intro w hup
  obtain ⟨hup', hpaint⟩ := hF w hup
  obtain ⟨hup'', hpaint'⟩ := hG _ hup'
  exact ⟨hup'', hpaint.trans hpaint'⟩

theorem nothing (lcd : Pf2LcdDesc) (c : BitVec 16) : Draws lcd ∅ c fun w => w :=
  fun _ hup => ⟨hup, Paints.refl c _⟩

theorem foldl {ι : Type} {S : ι → Set (ℕ × ℕ)} {F : ι → LcdWorld → LcdWorld} (l : List ι)
    (h : ∀ i ∈ l, Draws lcd (S i) c (F i)) :
    Draws lcd (⋃ i ∈ l, S i) c fun w => l.foldl (fun w i => F i w) w :=
  fun w hup => Paints.foldl l h w hup

end Draws

/-! ### Bytes -/

theorem gpioSetLevelDc_transmit_sends (dc : Bool) (bytes : List (BitVec 8)) :
    Sends lcd (fun _ => True) (do gpioSetLevelDc dc; spiDeviceTransmit bytes)
      (Panel.receive dc bytes) := by
  intro w hup _
  have hrun : (do gpioSetLevelDc dc; spiDeviceTransmit bytes : Lcd Unit) w =
      (.ok (), { w with
        spi.dc := dc
        spi.transfers := w.spi.transfers + 1
        spi.panel := w.spi.panel.receive dc bytes }) := by
    show spiDeviceTransmit bytes { w with spi.dc := dc } = _
    simp only [spiDeviceTransmit, hup.done _ (le_refl _)]
  rw [hrun]
  exact ⟨rfl, ⟨⟨hup.sLcd, hup.sLcdSpi⟩, fun n hn => hup.done n (Nat.le_of_succ_le hn)⟩, rfl⟩

theorem lcdCmd_sends (cmd : BitVec 8) :
    Sends lcd (fun _ => True) (lcdCmd cmd) fun p => p.onCommand cmd :=
  gpioSetLevelDc_transmit_sends false [cmd]

theorem lcdData_sends (data : List (BitVec 8)) :
    Sends lcd (fun _ => True) (lcdData data) fun p => data.foldl Panel.onData p := by
  unfold lcdData
  split
  · rename_i hempty
    rw [List.length_eq_zero_iff.1 hempty]
    exact Sends.pure lcd _
  · exact gpioSetLevelDc_transmit_sends true data

theorem lcdCmdData_sends (cmd : BitVec 8) (data : List (BitVec 8)) :
    Sends lcd (fun _ => True) (lcdCmdData cmd data)
      fun p => data.foldl Panel.onData (p.onCommand cmd) :=
  (lcdCmd_sends cmd).bind (fun _ _ => trivial) (lcdData_sends data)

theorem lcdSetWindow_sends (x₀ y₀ x₁ y₁ : BitVec 16) :
    Sends lcd (fun _ => True) (lcdSetWindow x₀ y₀ x₁ y₁) (Panel.aimed x₀ y₀ x₁ y₁) := by
  unfold lcdSetWindow
  refine Sends.congr (Sends.bind (lcdCmdData_sends 0x2a _) (fun _ _ => trivial)
    (Sends.bind (lcdCmdData_sends 0x2b _) (fun _ _ => trivial) (lcdCmd_sends 0x2c))) fun p _ => ?_
  simp [Panel.onCommand, Panel.onData, Panel.finish, Panel.aimed, Panel.high_append_low]

theorem bswap16_toNat (c : BitVec 16) :
    (bswap16 c).toNat = c.toNat % 256 * 256 + c.toNat / 256 := by
  have hc := c.isLt
  show (c.setWidth 8 ++ (c >>> 8).setWidth 8).toNat = _
  rw [Panel.append_toNat]
  simp only [BitVec.toNat_setWidth, BitVec.toNat_ushiftRight, Nat.shiftRight_eq_div_pow]
  omega

/-- In memory order the swapped colour is the colour's bytes, high byte first. -/
theorem uint16Bytes_bswap16 (c : BitVec 16) : uint16Bytes (bswap16 c) = Panel.pixelBytes c := by
  have hc := c.isLt
  have hlow : (bswap16 c).setWidth 8 = (c >>> 8).setWidth 8 := by
    apply BitVec.eq_of_toNat_eq
    simp only [BitVec.toNat_setWidth, BitVec.toNat_ushiftRight, Nat.shiftRight_eq_div_pow,
      bswap16_toNat, Nat.reducePow]
    omega
  have hhigh : (bswap16 c >>> 8).setWidth 8 = c.setWidth 8 := by
    apply BitVec.eq_of_toNat_eq
    simp only [BitVec.toNat_setWidth, BitVec.toNat_ushiftRight, Nat.shiftRight_eq_div_pow,
      bswap16_toNat, Nat.reducePow]
    have hdiv : (c.toNat % 256 * 256 + c.toNat / 256) / 256 = c.toNat % 256 := by omega
    rw [hdiv, Nat.mod_mod]
  rw [uint16Bytes, hlow, hhigh, Panel.pixelBytes]

theorem flatMap_uint16Bytes (c : BitVec 16) {n : ℕ} (hn : n ≤ 64) :
    ((List.replicate 64 (bswap16 c)).take n).flatMap uint16Bytes =
      (List.replicate n (Panel.pixelBytes c)).flatten := by
  rw [List.take_replicate, Nat.min_eq_left hn, List.flatMap_def, List.map_replicate,
    uint16Bytes_bswap16]

/-! ### Pixels -/

theorem lcdFillLoop_sends (lcd : Pf2LcdDesc) (c : BitVec 16) (remaining : ℕ) :
    Sends lcd Panel.Receiving (lcdFillLoop (List.replicate 64 (bswap16 c)) remaining)
      fun p => p.write c remaining := by
  induction remaining using Nat.strong_induction_on with
  | _ remaining ih =>
    rw [lcdFillLoop]
    by_cases hzero : 0 < remaining
    · rw [if_pos hzero]
      have hle : (if remaining > 64 then 64 else remaining) ≤ 64 := by split <;> omega
      generalize hpixels : (if remaining > 64 then 64 else remaining) = pixels at hle
      have hpos : 0 < pixels ∧ pixels ≤ remaining := by split at hpixels <;> omega
      have hchunk : Sends lcd Panel.Receiving
          (lcdData (((List.replicate 64 (bswap16 c)).take pixels).flatMap uint16Bytes))
          fun p => p.write c pixels := by
        rw [flatMap_uint16Bytes c hle]
        intro w hup hreceiving
        obtain ⟨hok, hup', hpanel⟩ := lcdData_sends _ w hup trivial
        exact ⟨hok, hup', hpanel.trans (Panel.pixels_received c pixels hreceiving)⟩
      apply (hchunk.bind (fun p h => h.write c pixels) (ih _ (by omega))).congr
      intro p _
      rw [Function.comp_apply, Panel.write_add]
      congr 1
      omega
    · rw [if_neg hzero]
      obtain rfl : remaining = 0 := by omega
      exact Sends.pure lcd _

theorem lcdRectLoop_sends (lcd : Pf2LcdDesc) (c : BitVec 16) : ∀ n,
    Sends lcd Panel.Receiving (lcdRectLoop (bswap16 c) n) fun p => p.write c n
  | 0 => Sends.pure lcd _
  | n + 1 => by
    have hpixel : Sends lcd Panel.Receiving (lcdData (uint16Bytes (bswap16 c)))
        fun p => p.write c 1 := by
      rw [uint16Bytes_bswap16]
      intro w hup hreceiving
      obtain ⟨hok, hup', hpanel⟩ := lcdData_sends _ w hup trivial
      exact ⟨hok, hup', hpanel.trans (Panel.pixel_received hreceiving c)⟩
    apply (hpixel.bind (fun p h => h.write c 1) (lcdRectLoop_sends lcd c n)).congr
    intro p _
    rw [Function.comp_apply, Panel.write_add, Nat.add_comm]

/-- A window that is set and then sent as many pixels as it has places is painted. -/
theorem window_paints {loop : Lcd Unit} {x₀ y₀ x₁ y₁ : BitVec 16} {n : ℕ}
    (hx : x₀.toNat ≤ x₁.toNat) (hy : y₀.toNat ≤ y₁.toNat)
    (hloop : Sends lcd Panel.Receiving loop fun p => p.write c n)
    (hn : n = (x₁.toNat - x₀.toNat + 1) * (y₁.toNat - y₀.toNat + 1)) :
    Draws lcd {p | x₀.toNat ≤ p.1 ∧ p.1 ≤ x₁.toNat ∧ y₀.toNat ≤ p.2 ∧ p.2 ≤ y₁.toNat} c
      fun w => ((do lcdSetWindow x₀ y₀ x₁ y₁; loop : Lcd Unit) w).2 := by
  intro w hup
  have hall := (lcdSetWindow_sends x₀ y₀ x₁ y₁).bind
    (fun p _ => p.receiving_aimed x₀ y₀ x₁ y₁) hloop
  obtain ⟨-, hup', hpanel⟩ := hall w hup trivial
  refine ⟨hup', ?_⟩
  rw [hpanel, hn]
  exact Panel.paints_area hx hy c

/-- The places of the panel. -/
def screen (lcd : Pf2LcdDesc) : Set (ℕ × ℕ) := {p | p.1 < lcd.width.toNat ∧ p.2 < lcd.height.toNat}

def rectPlaces (x y w h : ℕ) : Set (ℕ × ℕ) := {p | x ≤ p.1 ∧ p.1 < x + w ∧ y ≤ p.2 ∧ p.2 < y + h}

theorem pixels_lt {m n : ℕ} (hm : m < 2 ^ 16) (hn : n < 2 ^ 16) : m * n % 2 ^ 32 = m * n := by
  apply Nat.mod_eq_of_lt
  calc m * n < 2 ^ 16 * 2 ^ 16 := Nat.mul_lt_mul'' hm hn
    _ = 2 ^ 32 := by decide

theorem lcdFill_draws (hw : 0 < lcd.width.toNat) (hh : 0 < lcd.height.toNat) (c : BitVec 16) :
    Draws lcd (screen lcd) c (lcdFill c) := by
  have hzero : (0 : BitVec 16).toNat = 0 := rfl
  have hwidth : (lcd.width - 1).toNat = lcd.width.toNat - 1 := by bv_omega
  have hheight : (lcd.height - 1).toNat = lcd.height.toNat - 1 := by bv_omega
  have harea : lcd.width.toNat * lcd.height.toNat % 2 ^ 32 =
      ((lcd.width - 1).toNat - (0 : BitVec 16).toNat + 1) *
        ((lcd.height - 1).toNat - (0 : BitVec 16).toNat + 1) := by
    rw [pixels_lt lcd.width.isLt lcd.height.isLt, hwidth, hheight]
    congr 1 <;> omega
  have hleft : (0 : BitVec 16).toNat ≤ (lcd.width - 1).toNat := by omega
  have htop : (0 : BitVec 16).toNat ≤ (lcd.height - 1).toNat := by omega
  have hpaint := window_paints hleft htop
    (lcdFillLoop_sends lcd c _) harea
  intro w hup
  obtain ⟨spi, hspi⟩ := Option.isSome_iff_exists.1 hup.sLcdSpi
  have hrun := hpaint w hup
  rw [lcdFill, hspi, hup.sLcd]
  refine ⟨hrun.1, ?_⟩
  have hplaces : screen lcd = {p | (0 : BitVec 16).toNat ≤ p.1 ∧ p.1 ≤ (lcd.width - 1).toNat ∧
      (0 : BitVec 16).toNat ≤ p.2 ∧ p.2 ≤ (lcd.height - 1).toNat} := by
    ext p
    simp only [screen, Set.mem_ofPred_eq, hwidth, hheight, hzero]
    clear harea
    omega
  rw [hplaces]
  exact hrun.2

theorem lcdRect_empty {x y w h : BitVec 16}
    (hempty : w = 0 ∨ h = 0 ∨ lcd.width ≤ x ∨ lcd.height ≤ y) (c : BitVec 16) :
    Draws lcd (rectPlaces x.toNat y.toNat w.toNat h.toNat ∩ screen lcd) c
      fun s => (lcdRect x y w h c s).2 := by
  have hplaces : rectPlaces x.toNat y.toNat w.toNat h.toNat ∩ screen lcd = ∅ := by
    ext p
    simp only [rectPlaces, screen, Set.mem_inter_iff, Set.mem_ofPred_eq, Set.mem_empty_iff_false,
      iff_false]
    bv_omega
  intro s hup
  have hrun : lcdRect x y w h c s = (.ok (), s) := by
    simp only [lcdRect, hup.sLcd, if_pos hempty]
  dsimp only
  rw [hrun, hplaces]
  exact ⟨hup, Paints.refl c _⟩

/-- A side of `lcd_rect` after it is cut to the screen. -/
def cut (size start extent : BitVec 16) : BitVec 16 :=
  if size.toNat < start.toNat + extent.toNat then size - start else extent

theorem cut_spec {size start extent : BitVec 16} (hstart : start < size) (hextent : extent ≠ 0) :
    (start + cut size start extent - 1).toNat = start.toNat + (cut size start extent).toNat - 1 ∧
      0 < (cut size start extent).toNat ∧
      ∀ p, p < start.toNat + extent.toNat ∧ p < size.toNat ↔
        p < start.toNat + (cut size start extent).toNat := by
  unfold cut
  split
  · refine ⟨by bv_omega, by bv_omega, fun p => ?_⟩
    bv_omega
  · refine ⟨by bv_omega, by bv_omega, fun p => ?_⟩
    bv_omega

/-- A rectangle that meets the screen is sent as one window and its pixels. -/
theorem lcdRect_run {x y w h : BitVec 16}
    (hmeets : ¬ (w = 0 ∨ h = 0 ∨ lcd.width ≤ x ∨ lcd.height ≤ y)) (c : BitVec 16) {s : LcdWorld}
    (hup : Up lcd s) :
    lcdRect x y w h c s =
      (do lcdSetWindow x y (x + cut lcd.width x w - 1) (y + cut lcd.height y h - 1)
          lcdRectLoop (bswap16 c)
            ((cut lcd.width x w).toNat * (cut lcd.height y h).toNat % 2 ^ 32) : Lcd Unit) s := by
  simp only [lcdRect, hup.sLcd, if_neg hmeets]
  rfl

/-- A rectangle is painted as far as it lies on the screen. -/
theorem lcdRect_draws (lcd : Pf2LcdDesc) (x y w h c : BitVec 16) :
    Draws lcd (rectPlaces x.toNat y.toNat w.toNat h.toNat ∩ screen lcd) c
      fun s => (lcdRect x y w h c s).2 := by
  by_cases hempty : w = 0 ∨ h = 0 ∨ lcd.width ≤ x ∨ lcd.height ≤ y
  · exact lcdRect_empty hempty c
  obtain ⟨hwne, hhne, hxin, hyin⟩ : w ≠ 0 ∧ h ≠ 0 ∧ ¬ lcd.width ≤ x ∧ ¬ lcd.height ≤ y := by
    simpa only [not_or] using hempty
  obtain ⟨hxend, hwpos, hcols⟩ := cut_spec (BitVec.not_le.1 hxin) hwne
  obtain ⟨hyend, hhpos, hrows⟩ := cut_spec (BitVec.not_le.1 hyin) hhne
  have hxle : x.toNat ≤ (x + cut lcd.width x w - 1).toNat := by omega
  have hyle : y.toNat ≤ (y + cut lcd.height y h - 1).toNat := by omega
  have harea : (cut lcd.width x w).toNat * (cut lcd.height y h).toNat % 2 ^ 32 =
      ((x + cut lcd.width x w - 1).toNat - x.toNat + 1) *
        ((y + cut lcd.height y h - 1).toNat - y.toNat + 1) := by
    rw [pixels_lt (cut lcd.width x w).isLt (cut lcd.height y h).isLt, hxend, hyend]
    congr 1 <;> omega
  have hplaces : rectPlaces x.toNat y.toNat w.toNat h.toNat ∩ screen lcd =
      {p | x.toNat ≤ p.1 ∧ p.1 ≤ (x + cut lcd.width x w - 1).toNat ∧
        y.toNat ≤ p.2 ∧ p.2 ≤ (y + cut lcd.height y h - 1).toNat} := by
    ext p
    have hcol := hcols p.1
    have hrow := hrows p.2
    clear harea
    simp only [rectPlaces, screen, Set.mem_inter_iff, Set.mem_ofPred_eq, hxend, hyend]
    omega
  intro s hup
  dsimp only
  rw [lcdRect_run hempty c hup, hplaces]
  exact window_paints hxle hyle (lcdRectLoop_sends lcd c _) harea s hup

/-! ### Characters -/

/-- The lit dots of a character whose top left corner is `(x, y)`. -/
def charPlaces (char : BitVec 8) (x y scale : ℕ) : Set (ℕ × ℕ) :=
  {p | ∃ col : Fin 5, ∃ row < 7, (glyphFor char).lit col row ∧
    p ∈ rectPlaces (x + col * scale) (y + row * scale) scale scale}

/-- The lit dots of a line of text, six dots from one character to the next. -/
def textPlaces (text : List (BitVec 8)) (x y scale : ℕ) : Set (ℕ × ℕ) :=
  {p | ∃ i char, text[i]? = some char ∧ p ∈ charPlaces char (x + i * (6 * scale)) y scale}

theorem textPlaces_nil (x y scale : ℕ) : textPlaces [] x y scale = ∅ := by
  ext p
  simp [textPlaces]

theorem textPlaces_cons (char : BitVec 8) (text : List (BitVec 8)) (x y scale : ℕ) :
    textPlaces (char :: text) x y scale =
      charPlaces char x y scale ∪ textPlaces text (x + 6 * scale) y scale := by
  have hnext : ∀ i, x + 6 * scale + i * (6 * scale) = x + (i + 1) * (6 * scale) := by
    intro i
    rw [Nat.succ_mul i]
    omega
  ext p
  simp only [textPlaces, Set.mem_union, Set.mem_ofPred_eq]
  constructor
  · rintro ⟨_ | i, char', hget, hp⟩
    · obtain rfl : char = char' := by simpa using hget
      exact .inl (by simpa using hp)
    · exact .inr ⟨i, char', by simpa using hget, by rwa [hnext]⟩
  · rintro (hp | ⟨i, char', hget, hp⟩)
    · exact ⟨0, char, rfl, by simpa using hp⟩
    · exact ⟨i + 1, char', by simpa using hget, by rwa [← hnext]⟩

theorem dot_toNat {x : BitVec 16} {scale k n : ℕ} (hx : x.toNat + n * scale < 2 ^ 16)
    (hk : k ≤ n) : (x + BitVec.ofNat 16 (k * scale)).toNat = x.toNat + k * scale := by
  have hmul : k * scale ≤ n * scale := Nat.mul_le_mul_right scale hk
  rw [BitVec.toNat_add, BitVec.toNat_ofNat, Nat.mod_eq_of_lt (by omega : k * scale < 2 ^ 16),
    Nat.mod_eq_of_lt (by omega)]

theorem lcdDrawChar_draws {x y : BitVec 16} (char : BitVec 8) (c : BitVec 16) {scale : BitVec 8}
    (hx : x.toNat + 6 * scale.toNat < 2 ^ 16) (hy : y.toNat + 7 * scale.toNat < 2 ^ 16) :
    Draws lcd (charPlaces char x.toNat y.toNat scale.toNat ∩ screen lcd) c
      (lcdDrawChar x y char c scale) := by
  have hdot : ∀ col : Fin 5, ∀ row ∈ List.range 7,
      Draws lcd {p | (glyphFor char).lit col row ∧
          p ∈ rectPlaces (x.toNat + col * scale.toNat) (y.toNat + row * scale.toNat) scale.toNat
            scale.toNat ∩ screen lcd} c
        fun w => if (glyphFor char).lit col row then
          (lcdRect (x + BitVec.ofNat 16 (col * scale.toNat))
            (y + BitVec.ofNat 16 (row * scale.toNat)) (scale.setWidth 16) (scale.setWidth 16) c w).2
          else w := by
    intro col row hrow
    have hrow7 := List.mem_range.1 hrow
    by_cases hlit : (glyphFor char).lit col row
    · have hrect := lcdRect_draws lcd (x + BitVec.ofNat 16 (col * scale.toNat))
        (y + BitVec.ofNat 16 (row * scale.toNat)) (scale.setWidth 16) (scale.setWidth 16) c
      rw [dot_toNat hx (by omega), dot_toNat hy (by omega),
        BitVec.toNat_setWidth_of_le (by omega)] at hrect
      simp only [hlit, if_true, true_and]
      exact hrect
    · simpa [hlit] using Draws.nothing lcd c
  have hall := Draws.foldl (List.finRange 5) fun col _ => Draws.foldl (List.range 7) (hdot col)
  apply hall.congr
  ext p
  simp only [charPlaces, Set.mem_iUnion, Set.mem_inter_iff, Set.mem_ofPred_eq, List.mem_finRange,
    List.mem_range]
  constructor
  · rintro ⟨col, -, row, hrow, hlit, hp, hscreen⟩
    exact ⟨⟨col, row, hrow, hlit, hp⟩, hscreen⟩
  · rintro ⟨⟨col, row, hrow, hlit, hp⟩, hscreen⟩
    exact ⟨col, trivial, row, hrow, hlit, hp, hscreen⟩

/-! ### Lines -/

/-- A line is painted up to the last character that ends on the screen. -/
theorem lcdDrawText_draws (lcd : Pf2LcdDesc) (y c : BitVec 16) (scale : BitVec 8)
    (hy : y.toNat + 7 * scale.toNat < 2 ^ 16) (hscale : 0 < scale.toNat)
    (text : List (BitVec 8)) (x : BitVec 16) :
    Draws lcd
      (textPlaces (text.take ((lcd.width.toNat - x.toNat) / (6 * scale.toNat))) x.toNat y.toNat
        scale.toNat ∩ screen lcd) c
      (lcdDrawText x y text c scale) := by
  have hadvance : (BitVec.ofNat 16 (6 * scale.toNat)).toNat = 6 * scale.toNat := by
    have := scale.isLt
    rw [BitVec.toNat_ofNat, Nat.mod_eq_of_lt (by omega)]
  induction text generalizing x with
  | nil =>
    intro w hup
    rw [List.take_nil, textPlaces_nil, Set.empty_inter]
    exact Draws.nothing lcd c w hup
  | cons char text ih =>
    intro w hup
    by_cases hfits : x.toNat + 6 * scale.toNat ≤ lcd.width.toNat
    · have hwidth := lcd.width.isLt
      have hnext : (x + BitVec.ofNat 16 (6 * scale.toNat)).toNat = x.toNat + 6 * scale.toNat := by
        rw [BitVec.toNat_add, hadvance, Nat.mod_eq_of_lt (by omega)]
      have hcount : (lcd.width.toNat - x.toNat) / (6 * scale.toNat) =
          (lcd.width.toNat - (x.toNat + 6 * scale.toNat)) / (6 * scale.toNat) + 1 := by
        rw [Nat.div_eq_sub_div (by omega) (by omega), Nat.sub_sub]
      have hrest := ih (x + BitVec.ofNat 16 (6 * scale.toNat))
      have hx : x.toNat + 6 * scale.toNat < 2 ^ 16 := by omega
      have hboth := (lcdDrawChar_draws char c hx hy).comp hrest
      rw [hnext, ← Set.union_inter_distrib_right, ← textPlaces_cons, ← List.take_succ_cons,
        ← hcount] at hboth
      have hrun : lcdDrawText x y (char :: text) c scale w =
          lcdDrawText (x + BitVec.ofNat 16 (6 * scale.toNat)) y text c scale
            (lcdDrawChar x y char c scale w) := by
        rw [lcdDrawText.eq_def, hup.sLcd]
        simp only [hadvance, if_pos hfits]
      rw [hrun]
      exact hboth w hup
    · have hcount : (lcd.width.toNat - x.toNat) / (6 * scale.toNat) = 0 := by
        apply Nat.div_eq_of_lt
        omega
      have hrun : lcdDrawText x y (char :: text) c scale w = w := by
        rw [lcdDrawText.eq_def, hup.sLcd]
        simp only [hadvance, if_neg hfits]
      rw [hrun, hcount, List.take_zero, textPlaces_nil, Set.empty_inter]
      exact Draws.nothing lcd c w hup

end PicoFido2.Display
