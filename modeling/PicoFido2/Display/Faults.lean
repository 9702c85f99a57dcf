import PicoFido2.Display.Shown
import PicoFido2.Effect.Triple
import PicoFido2.Raster.Stains

/-! What the drawing functions do while transfers fail, at any point and after any number
of their bytes. Pixels are only sent after a window was set without an error, so a failed
drawing leaves dots out, but colours no dot that it would not have coloured. -/

namespace PicoFido2.Display

open Effect Hal M5boards Raster

/-! ### The panel -/

namespace Panel

/-- Pixels are written to the window `W`, the next one to a place of it. -/
structure AimedAt (W : Window) (p : Panel) : Prop where
  receiving : p.Receiving
  window : p.window = W
  pointer : p.pointer ∈ W.places

variable {W : Window} {p : Panel}

theorem AimedAt.write_one (h : p.AimedAt W) (c : BitVec 16) :
    (p.write c 1).AimedAt W ∧ Stains (W.places ×ˢ {c}) p.mem (p.write c 1).mem := by
  obtain ⟨hreceiving, rfl, hpointer⟩ := h
  exact ⟨⟨hreceiving, rfl, Window.next_mem hpointer⟩, Window.put_stains c p.mem hpointer⟩

theorem AimedAt.write (h : p.AimedAt W) (c : BitVec 16) (n : ℕ) :
    (p.write c n).AimedAt W ∧ Stains (W.places ×ˢ {c}) p.mem (p.write c n).mem := by
  induction n with
  | zero => exact ⟨h, Stains.refl _ _⟩
  | succ n ih =>
    obtain ⟨haimed, hstains⟩ := ih
    obtain ⟨haimed', hstains'⟩ := haimed.write_one c
    rw [write_add] at haimed' hstains'
    exact ⟨haimed', hstains.trans hstains'⟩

/-- Half a pixel colours nothing. -/
theorem onData_first (h : p.Receiving) (b : BitVec 8) : (p.onData b).mem = p.mem := by
  rw [onData, h.2]
  rfl

/-- Any part of a stream of pixels stains the window. -/
theorem pixels_cut (c : BitVec 16) (n k : ℕ) (h : p.AimedAt W) : Stains (W.places ×ˢ {c}) p.mem
    (((List.replicate n (pixelBytes c)).flatten.take k).foldl onData p).mem := by
  induction n generalizing k p with
  | zero =>
    rw [List.replicate_zero, List.flatten_nil, List.take_nil]
    exact Stains.refl _ _
  | succ n ih =>
    rw [List.replicate_succ, List.flatten_cons]
    match k with
    | 0 => exact Stains.refl _ _
    | 1 =>
      show Stains _ p.mem (p.onData _).mem
      rw [onData_first h.receiving]
      exact Stains.refl _ _
    | k + 2 =>
      obtain ⟨haimed, hstains⟩ := h.write_one c
      have htake : (pixelBytes c ++ (List.replicate n (pixelBytes c)).flatten).take (k + 2) =
          pixelBytes c ++ (List.replicate n (pixelBytes c)).flatten.take k := rfl
      rw [htake, List.foldl_append, pixel_received h.receiving]
      exact hstains.trans (ih k haimed)

/-- Data that follows another command than `0x2c` colours nothing. -/
theorem onData_mem (h : p.command ≠ 0x2c) (b : BitVec 8) :
    (p.onData b).mem = p.mem ∧ (p.onData b).command = p.command := by
  unfold onData finish
  split
  · rw [if_neg h]
    exact ⟨rfl, rfl⟩
  · split
    · exact ⟨rfl, rfl⟩
    · split <;> exact ⟨rfl, rfl⟩
  · exact ⟨rfl, rfl⟩

theorem foldl_onData_mem (h : p.command ≠ 0x2c) (bytes : List (BitVec 8)) :
    (bytes.foldl onData p).mem = p.mem := by
  induction bytes generalizing p with
  | nil => rfl
  | cons b bytes ih =>
    obtain ⟨hmem, hcommand⟩ := onData_mem h b
    rw [List.foldl_cons, ih (by rw [hcommand]; exact h), hmem]

end Panel

/-! ### Transfers that may fail -/

def OnPanel (P : Panel → Prop) (w : LcdWorld) : Prop := P w.spi.panel

section Transfers

variable {P Q E : Panel → Prop}

/-- A transfer reaches the panel whole, or fails after a part of its bytes. -/
theorem transmit_triple (dc : Bool) (bytes : List (BitVec 8))
    (hok : ∀ p, P p → Q (p.receive dc bytes))
    (herr : ∀ p k, P p → E (p.receive dc (bytes.take k))) :
    Prog.Triple (OnPanel P) (do gpioSetLevelDc dc; spiDeviceTransmit bytes) (fun _ => OnPanel Q)
      (OnPanel E) := by
  intro w hw
  have hrun : (do gpioSetLevelDc dc; spiDeviceTransmit bytes : Lcd Unit) w =
      spiDeviceTransmit bytes { w with spi.dc := dc } := rfl
  rw [hrun, spiDeviceTransmit]
  dsimp only
  split
  · refine ⟨fun a t h => ?_, fun e t h => by cases h⟩
    cases h
    exact hok _ hw
  · refine ⟨fun a t h => (by cases h), fun e t h => ?_⟩
    cases h
    exact herr _ _ hw

/-- A command changes neither the memory nor the window. -/
theorem lcdCmd_triple (K : Picture (BitVec 16) → Window → Prop) (cmd : BitVec 8) :
    Prog.Triple (OnPanel fun p => K p.mem p.window) (lcdCmd cmd)
      (fun _ => OnPanel fun p => K p.mem p.window ∧ p.command = cmd ∧ p.params = [] ∧
        (cmd = 0x2c → p.pointer = (p.window.xs, p.window.ys)))
      (OnPanel fun p => K p.mem p.window) := by
  apply transmit_triple false [cmd]
  · intro p hp
    exact ⟨hp, rfl, rfl, fun hc => if_pos hc⟩
  · intro p k hp
    cases k with
    | zero => exact hp
    | succ k =>
      rw [List.take_of_length_le (by simp)]
      exact hp

/-- The data of another command than `0x2c` set the window at most. -/
theorem lcdCmdData_triple {m : Picture (BitVec 16)} (K K' : Window → Prop) {cmd : BitVec 8}
    {data : List (BitVec 8)} (hcmd : cmd ≠ 0x2c) (hdata : data.length ≠ 0)
    (hK : ∀ p : Panel, p.command = cmd → p.params = [] → K p.window →
      K' (data.foldl Panel.onData p).window) :
    Prog.Triple (OnPanel fun p => p.mem = m ∧ K p.window) (lcdCmdData cmd data)
      (fun _ => OnPanel fun p => p.mem = m ∧ K' p.window) (OnPanel fun p => p.mem = m) := by
  refine Prog.Triple.bind ((lcdCmd_triple (fun m' W => m' = m ∧ K W) cmd).mono
    (fun _ hp => hp) (fun _ _ hq => hq) fun _ he => he.1) fun _ => ?_
  rw [lcdData, if_neg hdata]
  apply transmit_triple true data
  · rintro p ⟨⟨hmem, hwindow⟩, hcommand, hparams, -⟩
    refine ⟨?_, hK p hcommand hparams hwindow⟩
    exact (Panel.foldl_onData_mem (by rw [hcommand]; exact hcmd) data).trans hmem
  · rintro p k ⟨⟨hmem, -⟩, hcommand, -, -⟩
    exact (Panel.foldl_onData_mem (by rw [hcommand]; exact hcmd) (data.take k)).trans hmem

/-- Setting the window colours nothing; where it returns, the window is set. -/
theorem lcdSetWindow_triple {x₀ y₀ x₁ y₁ : BitVec 16} (hx : x₀.toNat ≤ x₁.toNat)
    (hy : y₀.toNat ≤ y₁.toNat) (m : Picture (BitVec 16)) :
    Prog.Triple (OnPanel fun p => p.mem = m) (lcdSetWindow x₀ y₀ x₁ y₁)
      (fun _ => OnPanel fun p =>
        p.AimedAt ⟨x₀.toNat, x₁.toNat, y₀.toNat, y₁.toNat⟩ ∧ p.mem = m)
      (OnPanel fun p => p.mem = m) := by
  have hcols : Prog.Triple (OnPanel fun p => p.mem = m ∧ True)
      (lcdCmdData 0x2a
        [(x₀ >>> 8).setWidth 8, x₀.setWidth 8, (x₁ >>> 8).setWidth 8, x₁.setWidth 8])
      (fun _ => OnPanel fun p => p.mem = m ∧ p.window.xs = x₀.toNat ∧ p.window.xe = x₁.toNat)
      (OnPanel fun p => p.mem = m) := by
    apply lcdCmdData_triple (fun _ => True) (fun W => W.xs = x₀.toNat ∧ W.xe = x₁.toNat)
      (by decide) (by simp)
    intro p hcommand hparams _
    simp [Panel.onData, Panel.finish, hcommand, hparams, Panel.high_append_low]
  have hrows : Prog.Triple
      (OnPanel fun p => p.mem = m ∧ p.window.xs = x₀.toNat ∧ p.window.xe = x₁.toNat)
      (lcdCmdData 0x2b
        [(y₀ >>> 8).setWidth 8, y₀.setWidth 8, (y₁ >>> 8).setWidth 8, y₁.setWidth 8])
      (fun _ => OnPanel fun p =>
        p.mem = m ∧ p.window = ⟨x₀.toNat, x₁.toNat, y₀.toNat, y₁.toNat⟩)
      (OnPanel fun p => p.mem = m) := by
    apply lcdCmdData_triple (fun W => W.xs = x₀.toNat ∧ W.xe = x₁.toNat)
      (fun W => W = ⟨x₀.toNat, x₁.toNat, y₀.toNat, y₁.toNat⟩) (by decide) (by simp)
    intro p hcommand hparams hxs
    simp [Panel.onData, Panel.finish, hcommand, hparams, Panel.high_append_low, hxs]
  have hwrite := lcdCmd_triple
    (fun m' W => m' = m ∧ W = ⟨x₀.toNat, x₁.toNat, y₀.toNat, y₁.toNat⟩) 0x2c
  refine Prog.Triple.bind (hcols.pre fun _ hp => ⟨hp, trivial⟩) fun _ =>
    Prog.Triple.bind hrows fun _ => hwrite.mono (fun _ hp => hp) ?_ fun _ he => he.1
  rintro _ w ⟨⟨hmem, hwindow⟩, hcommand, hparams, hpointer⟩
  refine ⟨⟨⟨hcommand, hparams⟩, hwindow, ?_⟩, hmem⟩
  rw [hpointer rfl, hwindow]
  exact ⟨le_refl _, hx, le_refl _, hy⟩

end Transfers

section Pixels

variable {W : Window} {A : Set ((ℕ × ℕ) × BitVec 16)} {c : BitVec 16} {m : Picture (BitVec 16)}

/-- The window is set, and nothing but marks of `A` came on the panel. -/
def Drawing (W : Window) (A : Set ((ℕ × ℕ) × BitVec 16)) (m : Picture (BitVec 16)) (p : Panel) :
    Prop := p.AimedAt W ∧ Stains A m p.mem

variable (hA : W.places ×ˢ {c} ⊆ A)
include hA

theorem lcdData_triple (m : Picture (BitVec 16)) (n : ℕ) :
    Prog.Triple (OnPanel (Drawing W A m)) (lcdData (List.replicate n (Panel.pixelBytes c)).flatten)
      (fun _ => OnPanel (Drawing W A m)) (OnPanel fun p => Stains A m p.mem) := by
  unfold lcdData
  split
  · exact Prog.Triple.pure fun _ hp => hp
  · apply transmit_triple true
    · rintro p ⟨haimed, hstains⟩
      obtain ⟨haimed', hstains'⟩ := haimed.write c n
      have hall : p.receive true (List.replicate n (Panel.pixelBytes c)).flatten = p.write c n :=
        Panel.pixels_received c n haimed.receiving
      rw [hall]
      exact ⟨haimed', hstains.trans (hstains'.mono hA)⟩
    · rintro p k ⟨haimed, hstains⟩
      exact hstains.trans ((Panel.pixels_cut c n k haimed).mono hA)

theorem lcdFillLoop_triple (m : Picture (BitVec 16)) (remaining : ℕ) :
    Prog.Triple (OnPanel (Drawing W A m))
      (lcdFillLoop (List.replicate 64 (bswap16 c)) remaining)
      (fun _ => OnPanel (Drawing W A m)) (OnPanel fun p => Stains A m p.mem) := by
  induction remaining using Nat.strong_induction_on with
  | _ remaining ih =>
    rw [lcdFillLoop]
    split
    · have hle : (if remaining > 64 then 64 else remaining) ≤ 64 := by split <;> omega
      generalize hpixels : (if remaining > 64 then 64 else remaining) = pixels at hle
      have hpos : 0 < pixels := by split at hpixels <;> omega
      dsimp only
      rw [flatMap_uint16Bytes c hle]
      exact Prog.Triple.bind (lcdData_triple hA m pixels) fun _ => ih _ (by omega)
    · exact Prog.Triple.pure fun _ hp => hp

theorem lcdRectLoop_triple (m : Picture (BitVec 16)) (n : ℕ) :
    Prog.Triple (OnPanel (Drawing W A m)) (lcdRectLoop (bswap16 c) n)
      (fun _ => OnPanel (Drawing W A m)) (OnPanel fun p => Stains A m p.mem) := by
  induction n with
  | zero => exact Prog.Triple.pure fun _ hp => hp
  | succ n ih =>
    have hpixel := lcdData_triple hA m 1
    rw [List.replicate_one, List.flatten_singleton, ← uint16Bytes_bswap16] at hpixel
    exact Prog.Triple.bind hpixel fun _ => ih

end Pixels

/-- A window that is set and then drawn on has no marks but those of the drawing, whatever
fails. -/
theorem window_stains {loop : Lcd Unit} {x₀ y₀ x₁ y₁ : BitVec 16} (hx : x₀.toNat ≤ x₁.toNat)
    (hy : y₀.toNat ≤ y₁.toNat) {A : Set ((ℕ × ℕ) × BitVec 16)}
    (hloop : ∀ m, Prog.Triple
      (OnPanel (Drawing ⟨x₀.toNat, x₁.toNat, y₀.toNat, y₁.toNat⟩ A m)) loop
      (fun _ => OnPanel (Drawing ⟨x₀.toNat, x₁.toNat, y₀.toNat, y₁.toNat⟩ A m))
      (OnPanel fun p => Stains A m p.mem)) (w : LcdWorld) :
    Stains A w.spi.panel.mem
      ((do lcdSetWindow x₀ y₀ x₁ y₁; loop : Lcd Unit) w).2.spi.panel.mem := by
  have hset : Prog.Triple (OnPanel fun p => p.mem = w.spi.panel.mem) (lcdSetWindow x₀ y₀ x₁ y₁)
      (fun _ => OnPanel (Drawing ⟨x₀.toNat, x₁.toNat, y₀.toNat, y₁.toNat⟩ A w.spi.panel.mem))
      (OnPanel fun p => Stains A w.spi.panel.mem p.mem) := by
    refine (lcdSetWindow_triple hx hy w.spi.panel.mem).mono (fun _ hp => hp) ?_ ?_
    · rintro _ u ⟨haimed, hmem⟩
      exact ⟨haimed, by rw [hmem]; exact Stains.refl A _⟩
    · intro u hmem
      rw [OnPanel, hmem]
      exact Stains.refl A _
  have hall := Prog.Triple.bind hset fun _ => hloop w.spi.panel.mem
  exact hall.final (R := OnPanel fun p => Stains A w.spi.panel.mem p.mem) (fun _ _ hq => hq.2)
    (fun _ he => he) rfl

/-! ### The drawing functions -/

/-- With the statics set `f` brings no marks but those of `A` on the panel, whatever fails. -/
def Marks (lcd : Pf2LcdDesc) (A : Set ((ℕ × ℕ) × BitVec 16)) (f : LcdWorld → LcdWorld) : Prop :=
  ∀ w, w.sLcd = some lcd → Stains A w.spi.panel.mem (f w).spi.panel.mem

variable {lcd : Pf2LcdDesc}

namespace Marks

variable {A B : Set ((ℕ × ℕ) × BitVec 16)} {F G : LcdWorld → LcdWorld}

theorem nothing (lcd : Pf2LcdDesc) (A : Set ((ℕ × ℕ) × BitVec 16)) : Marks lcd A fun w => w :=
  fun _ _ => Stains.refl A _

theorem mono (h : Marks lcd A F) (hAB : A ⊆ B) : Marks lcd B F := fun w hw => (h w hw).mono hAB

theorem comp (hF : Marks lcd A F) (hsame : ∀ w, SameStatics w (F w)) (hG : Marks lcd A G) :
    Marks lcd A fun w => G (F w) := fun w hw =>
  (hF w hw).trans (hG _ ((hsame w).1.trans hw))

theorem foldl {ι : Type} {F : LcdWorld → ι → LcdWorld} (l : List ι)
    (h : ∀ i ∈ l, Marks lcd A fun w => F w i) (hsame : ∀ w i, SameStatics w (F w i)) :
    Marks lcd A fun w => l.foldl F w := by
  induction l with
  | nil => exact nothing lcd A
  | cons i l ih =>
    exact (h i (by simp)).comp (fun w => hsame w i) (ih fun j hj => h j (by simp [hj]))

end Marks

theorem lcdFill_marks (hw : 0 < lcd.width.toNat) (hh : 0 < lcd.height.toNat) (c : BitVec 16) :
    Marks lcd (screen lcd ×ˢ {c}) (lcdFill c) := by
  have hzero : (0 : BitVec 16).toNat = 0 := rfl
  have hwidth : (lcd.width - 1).toNat = lcd.width.toNat - 1 := by bv_omega
  have hheight : (lcd.height - 1).toNat = lcd.height.toNat - 1 := by bv_omega
  have hplaces : (Window.mk (0 : BitVec 16).toNat (lcd.width - 1).toNat (0 : BitVec 16).toNat
      (lcd.height - 1).toNat).places ⊆ screen lcd := by
    intro p hp
    simp only [Window.places, screen, Set.mem_ofPred_eq, hwidth, hheight] at hp ⊢
    omega
  intro w hlcd
  unfold lcdFill
  rw [hlcd]
  split
  · rename_i hsome
    obtain rfl := Option.some.inj hsome
    exact window_stains (by omega) (by omega)
      (fun m => lcdFillLoop_triple (Set.prod_mono_left hplaces) m _) w
  · exact Stains.refl _ _

theorem lcdRect_marks (lcd : Pf2LcdDesc) (x y w h c : BitVec 16) :
    Marks lcd ((rectPlaces x.toNat y.toNat w.toNat h.toNat ∩ screen lcd) ×ˢ {c})
      fun s => (lcdRect x y w h c s).2 := by
  intro s hlcd
  by_cases hempty : w = 0 ∨ h = 0 ∨ lcd.width ≤ x ∨ lcd.height ≤ y
  · have hrun : lcdRect x y w h c s = (.ok (), s) := by
      simp only [lcdRect, hlcd, if_pos hempty]
    dsimp only
    rw [hrun]
    exact Stains.refl _ _
  · obtain ⟨hwne, hhne, hxin, hyin⟩ : w ≠ 0 ∧ h ≠ 0 ∧ ¬ lcd.width ≤ x ∧ ¬ lcd.height ≤ y := by
      simpa only [not_or] using hempty
    obtain ⟨hxend, hwpos, hcols⟩ := cut_spec (BitVec.not_le.1 hxin) hwne
    obtain ⟨hyend, hhpos, hrows⟩ := cut_spec (BitVec.not_le.1 hyin) hhne
    have hplaces : (Window.mk x.toNat (x + cut lcd.width x w - 1).toNat y.toNat
        (y + cut lcd.height y h - 1).toNat).places ⊆
          rectPlaces x.toNat y.toNat w.toNat h.toNat ∩ screen lcd := by
      intro p hp
      have hcol := hcols p.1
      have hrow := hrows p.2
      simp only [Window.places, rectPlaces, screen, Set.mem_inter_iff, Set.mem_ofPred_eq, hxend,
        hyend] at hp ⊢
      omega
    have hrun : lcdRect x y w h c s =
        (do lcdSetWindow x y (x + cut lcd.width x w - 1) (y + cut lcd.height y h - 1)
            lcdRectLoop (bswap16 c)
              ((cut lcd.width x w).toNat * (cut lcd.height y h).toNat % 2 ^ 32) : Lcd Unit) s := by
      simp only [lcdRect, hlcd, if_neg hempty]
      rfl
    dsimp only
    rw [hrun]
    exact window_stains (by omega) (by omega)
      (fun m => lcdRectLoop_triple (Set.prod_mono_left hplaces) m _) s

theorem lcdDrawChar_marks (lcd : Pf2LcdDesc) {x y : BitVec 16} (char : BitVec 8) (c : BitVec 16)
    {scale : BitVec 8} (hx : x.toNat + 6 * scale.toNat < 2 ^ 16)
    (hy : y.toNat + 7 * scale.toNat < 2 ^ 16) :
    Marks lcd ((charPlaces char x.toNat y.toNat scale.toNat ∩ screen lcd) ×ˢ {c})
      (lcdDrawChar x y char c scale) := by
  have hdot : ∀ (w : LcdWorld) (col : Fin 5) (row : ℕ), SameStatics w
      (if (glyphFor char).lit col row then
        (lcdRect (x + BitVec.ofNat 16 (col * scale.toNat))
          (y + BitVec.ofNat 16 (row * scale.toNat)) (scale.setWidth 16) (scale.setWidth 16) c w).2
        else w) := by
    intro w col row
    split
    · exact sameStatics_lcdRect _ _ _ _ _ w
    · exact ⟨rfl, rfl⟩
  refine Marks.foldl (List.finRange 5) (fun col _ => ?_)
    fun w col => sameStatics_foldl (fun w row => hdot w col row) _ w
  refine Marks.foldl (List.range 7) (fun row hrow => ?_) fun w row => hdot w col row
  have hrow7 := List.mem_range.1 hrow
  by_cases hlit : (glyphFor char).lit col row
  · have hrect := lcdRect_marks lcd (x + BitVec.ofNat 16 (col * scale.toNat))
      (y + BitVec.ofNat 16 (row * scale.toNat)) (scale.setWidth 16) (scale.setWidth 16) c
    rw [dot_toNat hx (by omega), dot_toNat hy (by omega),
      BitVec.toNat_setWidth_of_le (by omega)] at hrect
    simp only [hlit, if_true]
    refine hrect.mono (Set.prod_mono_left ?_)
    rintro p ⟨hp, hscreen⟩
    exact ⟨⟨col, row, hrow7, hlit, hp⟩, hscreen⟩
  · simp only [hlit]
    exact Marks.nothing lcd _

/-- A line is marked at most up to the last character that ends on the screen. -/
theorem lcdDrawText_marks (lcd : Pf2LcdDesc) (y c : BitVec 16) (scale : BitVec 8)
    (hy : y.toNat + 7 * scale.toNat < 2 ^ 16) (hscale : 0 < scale.toNat)
    (text : List (BitVec 8)) (x : BitVec 16) :
    Marks lcd
      ((textPlaces (text.take ((lcd.width.toNat - x.toNat) / (6 * scale.toNat))) x.toNat y.toNat
        scale.toNat ∩ screen lcd) ×ˢ {c})
      (lcdDrawText x y text c scale) := by
  have hadvance : (BitVec.ofNat 16 (6 * scale.toNat)).toNat = 6 * scale.toNat := by
    have := scale.isLt
    rw [BitVec.toNat_ofNat, Nat.mod_eq_of_lt (by omega)]
  induction text generalizing x with
  | nil => exact Marks.nothing lcd _
  | cons char text ih =>
    by_cases hfits : x.toNat + 6 * scale.toNat ≤ lcd.width.toNat
    · have hwidth := lcd.width.isLt
      have hnext : (x + BitVec.ofNat 16 (6 * scale.toNat)).toNat = x.toNat + 6 * scale.toNat := by
        rw [BitVec.toNat_add, hadvance, Nat.mod_eq_of_lt (by omega)]
      have hcount : (lcd.width.toNat - x.toNat) / (6 * scale.toNat) =
          (lcd.width.toNat - (x.toNat + 6 * scale.toNat)) / (6 * scale.toNat) + 1 := by
        rw [Nat.div_eq_sub_div (by omega) (by omega), Nat.sub_sub]
      have hrest := ih (x + BitVec.ofNat 16 (6 * scale.toNat))
      have hx : x.toNat + 6 * scale.toNat < 2 ^ 16 := by omega
      have hchar := lcdDrawChar_marks lcd char c hx hy
      rw [hcount, List.take_succ_cons, textPlaces_cons, Set.union_inter_distrib_right]
      rw [hnext] at hrest
      have hboth := (hchar.mono (Set.prod_mono_left Set.subset_union_left)).comp
        (fun w => sameStatics_lcdDrawChar x y char c scale w)
        (hrest.mono (Set.prod_mono_left Set.subset_union_right))
      intro w hlcd
      have hrun : lcdDrawText x y (char :: text) c scale w =
          lcdDrawText (x + BitVec.ofNat 16 (6 * scale.toNat)) y text c scale
            (lcdDrawChar x y char c scale w) := by
        rw [lcdDrawText.eq_def, hlcd]
        simp only [hadvance, if_pos hfits]
      rw [hrun]
      exact hboth w hlcd
    · intro w hlcd
      have hrun : lcdDrawText x y (char :: text) c scale w = w := by
        rw [lcdDrawText.eq_def, hlcd]
        simp only [hadvance, if_neg hfits]
      rw [hrun]
      exact Stains.refl _ _

/-! ### A turn of the display task -/

/-- The dots of the lines of a state that fit on the panel. -/
def stateLit (lcd : Pf2LcdDesc) (state : Pf2DisplayState) : Set (ℕ × ℕ) :=
  textPlaces (state.line1.chars.take ((lcd.width.toNat - 8) / 12)) 8 12 2 ∪
    textPlaces (state.line2.chars.take ((lcd.width.toNat - 8) / 12)) 8 34 2

/-- The screen in the colour of the status, and the dots of the lines in white. -/
def stateMarks (lcd : Pf2LcdDesc) (state : Pf2DisplayState) : Set ((ℕ × ℕ) × BitVec 16) :=
  screen lcd ×ˢ {statusColor state.status} ∪ (stateLit lcd state ∩ screen lcd) ×ˢ {0xffff}

/-- However many transfers fail while a state is drawn, every place is as it was, or in the
colour of the status, or a white dot of the lines; off the screen nothing changes. -/
theorem displayTaskDraw_marks (hw : 0 < lcd.width.toNat) (hh : 0 < lcd.height.toNat)
    (state : Pf2DisplayState) : Marks lcd (stateMarks lcd state) (displayTaskDraw state) := by
  have hfill : Marks lcd (stateMarks lcd state) (lcdFill (statusColor state.status)) :=
    (lcdFill_marks hw hh _).mono Set.subset_union_left
  have hline1 : Marks lcd (stateMarks lcd state) (lcdDrawText 8 12 state.line1.chars 0xffff 2) :=
    (lcdDrawText_marks lcd 12 0xffff 2 (by decide) (by decide) state.line1.chars 8).mono
      ((Set.prod_mono_left (Set.inter_subset_inter_left _ Set.subset_union_left)).trans
        Set.subset_union_right)
  have hline2 : Marks lcd (stateMarks lcd state) (lcdDrawText 8 34 state.line2.chars 0xffff 2) :=
    (lcdDrawText_marks lcd 34 0xffff 2 (by decide) (by decide) state.line2.chars 8).mono
      ((Set.prod_mono_left (Set.inter_subset_inter_left _ Set.subset_union_right)).trans
        Set.subset_union_right)
  have hlines := hline1.comp (fun w => sameStatics_lcdDrawText 12 state.line1.chars 0xffff 2 8 w)
    hline2
  intro w hlcd
  unfold displayTaskDraw
  dsimp only
  split
  · exact hfill.comp (sameStatics_lcdFill _) hlines w hlcd
  · exact hfill w hlcd

end PicoFido2.Display
