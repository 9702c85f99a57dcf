import Mathlib.Algebra.Group.Nat.Defs
import PicoFido2.Display.Panel
import PicoFido2.Display.State
import PicoFido2.Hal.World

/-! Drawing on the panel: the `lcd_` functions of `pico_fido2_display.c` and the turn
of `display_task`. Integers are those of the C code: sixteen-bit coordinates that wrap
around, comparisons and sums in `int`, pixel counts in a 32-bit `size_t`. -/

namespace PicoFido2.Display

open Effect Hal M5boards

/-- A transfer that fails may have sent some of its bytes. -/
inductive SpiOutcome where
  | done
  | failed (err : EspErr) (sent : ℕ)
  deriving DecidableEq, Repr

/-- The bus to the panel: how the transfers to come end, and the level of the pin
`s_lcd->dc`. -/
structure Spi where
  outcomes : ℕ → SpiOutcome
  transfers : ℕ
  dc : Bool
  panel : Panel

/-- The statics the drawing reads, and the bus. -/
structure LcdWorld where
  sLcd : Option Pf2LcdDesc
  sLcdSpi : Option ℕ
  spi : Spi

abbrev Lcd (α : Type) := Prog LcdWorld EspErr α

def Panel.receive (dc : Bool) (bytes : List (BitVec 8)) (p : Panel) : Panel :=
  bytes.foldl (if dc then Panel.onData else Panel.onCommand) p

def gpioSetLevelDc (level : Bool) : Lcd Unit :=
  Prog.modify fun w => { w with spi.dc := level }

def spiDeviceTransmit (bytes : List (BitVec 8)) : Lcd Unit := fun w =>
  match w.spi.outcomes w.spi.transfers with
  | .done =>
    (.ok (), { w with
      spi.transfers := w.spi.transfers + 1
      spi.panel := w.spi.panel.receive w.spi.dc bytes })
  | .failed err sent =>
    (.error err, { w with
      spi.transfers := w.spi.transfers + 1
      spi.panel := w.spi.panel.receive w.spi.dc (bytes.take sent) })

def lcdCmd (cmd : BitVec 8) : Lcd Unit := do
  gpioSetLevelDc false
  spiDeviceTransmit [cmd]

def lcdData (data : List (BitVec 8)) : Lcd Unit :=
  if data.length = 0 then pure ()
  else do
    gpioSetLevelDc true
    spiDeviceTransmit data

def lcdCmdData (cmd : BitVec 8) (data : List (BitVec 8)) : Lcd Unit := do
  lcdCmd cmd
  lcdData data

def lcdSetWindow (x₀ y₀ x₁ y₁ : BitVec 16) : Lcd Unit := do
  lcdCmdData 0x2a
    [(x₀ >>> 8).setWidth 8, x₀.setWidth 8, (x₁ >>> 8).setWidth 8, x₁.setWidth 8]
  lcdCmdData 0x2b
    [(y₀ >>> 8).setWidth 8, y₀.setWidth 8, (y₁ >>> 8).setWidth 8, y₁.setWidth 8]
  lcdCmd 0x2c

def statusColor : Pf2Status → BitVec 16
  | .waitingForTouch => 0xffe0
  | .authSuccess => 0x07e0
  | .authFailure => 0xf800
  | .locked => 0x001f
  | .boot => 0x0000

/-- `__builtin_bswap16`. -/
def bswap16 (x : BitVec 16) : BitVec 16 := x.setWidth 8 ++ (x >>> 8).setWidth 8

/-- A `uint16_t` in the memory of the controller, which is little-endian. -/
def uint16Bytes (x : BitVec 16) : List (BitVec 8) := [x.setWidth 8, (x >>> 8).setWidth 8]

/-- The `while` of `lcd_fill`; `line` has 64 pixels. -/
def lcdFillLoop (line : List (BitVec 16)) (remaining : ℕ) : Lcd Unit :=
  if 0 < remaining then do
    let pixels := if remaining > 64 then 64 else remaining
    lcdData ((line.take pixels).flatMap uint16Bytes)
    lcdFillLoop line (remaining - pixels)
  else pure ()
termination_by remaining
decreasing_by split <;> omega

def lcdFill (rgb565 : BitVec 16) : LcdWorld → LcdWorld := fun w =>
  match w.sLcdSpi, w.sLcd with
  | some _, some lcd =>
    let line := List.replicate 64 (bswap16 rgb565)
    let draw : Lcd Unit := do
      lcdSetWindow 0 0 (lcd.width - 1) (lcd.height - 1)
      lcdFillLoop line (lcd.width.toNat * lcd.height.toNat % 2 ^ 32)
    (draw w).2
  | _, _ => w

/-- The `for` of `lcd_rect`. -/
def lcdRectLoop (color : BitVec 16) : ℕ → Lcd Unit
  | 0 => pure ()
  | i + 1 => do
    lcdData (uint16Bytes color)
    lcdRectLoop color i

def lcdRect (x y w h rgb565 : BitVec 16) : Lcd Unit := fun s =>
  match s.sLcd with
  | none => (.ok (), s)
  | some lcd =>
    if w = 0 ∨ h = 0 ∨ lcd.width ≤ x ∨ lcd.height ≤ y then (.ok (), s)
    else
      let w := if lcd.width.toNat < x.toNat + w.toNat then lcd.width - x else w
      let h := if lcd.height.toNat < y.toNat + h.toNat then lcd.height - y else h
      let draw : Lcd Unit := do
        lcdSetWindow x y (x + w - 1) (y + h - 1)
        lcdRectLoop (bswap16 rgb565) (w.toNat * h.toNat % 2 ^ 32)
      draw s

/-! ### Text -/

/-- Five columns of a glyph, the top row in bit 0. -/
abbrev Glyph := Vector (BitVec 8) 5

def digits : Vector Glyph 10 :=
  #v[#v[0x3e, 0x51, 0x49, 0x45, 0x3e], #v[0x00, 0x42, 0x7f, 0x40, 0x00],
    #v[0x42, 0x61, 0x51, 0x49, 0x46], #v[0x21, 0x41, 0x45, 0x4b, 0x31],
    #v[0x18, 0x14, 0x12, 0x7f, 0x10], #v[0x27, 0x45, 0x45, 0x45, 0x39],
    #v[0x3c, 0x4a, 0x49, 0x49, 0x30], #v[0x01, 0x71, 0x09, 0x05, 0x03],
    #v[0x36, 0x49, 0x49, 0x49, 0x36], #v[0x06, 0x49, 0x49, 0x29, 0x1e]]

def letters : Vector Glyph 26 :=
  #v[#v[0x7e, 0x11, 0x11, 0x11, 0x7e], #v[0x7f, 0x49, 0x49, 0x49, 0x36],
    #v[0x3e, 0x41, 0x41, 0x41, 0x22], #v[0x7f, 0x41, 0x41, 0x22, 0x1c],
    #v[0x7f, 0x49, 0x49, 0x49, 0x41], #v[0x7f, 0x09, 0x09, 0x09, 0x01],
    #v[0x3e, 0x41, 0x49, 0x49, 0x7a], #v[0x7f, 0x08, 0x08, 0x08, 0x7f],
    #v[0x00, 0x41, 0x7f, 0x41, 0x00], #v[0x20, 0x40, 0x41, 0x3f, 0x01],
    #v[0x7f, 0x08, 0x14, 0x22, 0x41], #v[0x7f, 0x40, 0x40, 0x40, 0x40],
    #v[0x7f, 0x02, 0x0c, 0x02, 0x7f], #v[0x7f, 0x04, 0x08, 0x10, 0x7f],
    #v[0x3e, 0x41, 0x41, 0x41, 0x3e], #v[0x7f, 0x09, 0x09, 0x09, 0x06],
    #v[0x3e, 0x41, 0x51, 0x21, 0x5e], #v[0x7f, 0x09, 0x19, 0x29, 0x46],
    #v[0x46, 0x49, 0x49, 0x49, 0x31], #v[0x01, 0x01, 0x7f, 0x01, 0x01],
    #v[0x3f, 0x40, 0x40, 0x40, 0x3f], #v[0x1f, 0x20, 0x40, 0x20, 0x1f],
    #v[0x3f, 0x40, 0x38, 0x40, 0x3f], #v[0x63, 0x14, 0x08, 0x14, 0x63],
    #v[0x07, 0x08, 0x70, 0x08, 0x07], #v[0x61, 0x51, 0x49, 0x45, 0x43]]

/-- A lower-case letter in upper case, any other character as it is. -/
def upperCase (c : ℕ) : ℕ := if 0x61 ≤ c ∧ c ≤ 0x7a then c - 0x61 + 0x41 else c

/-- The glyph of a character code; codes from `0x80` on fail every test, whichever
sign `char` gives them. -/
def glyphFor (char : BitVec 8) : Glyph :=
  let c := upperCase char.toNat
  if h : 0x30 ≤ c ∧ c ≤ 0x39 then digits.get ⟨c - 0x30, by omega⟩
  else if h : 0x41 ≤ c ∧ c ≤ 0x5a then letters.get ⟨c - 0x41, by omega⟩
  else if c = 0x20 then #v[0x00, 0x00, 0x00, 0x00, 0x00]
  else if c = 0x2d ∨ c = 0x5f then #v[0x08, 0x08, 0x08, 0x08, 0x08]
  else if c = 0x3a then #v[0x00, 0x36, 0x36, 0x00, 0x00]
  else if c = 0x2e then #v[0x00, 0x60, 0x60, 0x00, 0x00]
  else if c = 0x2f then #v[0x20, 0x10, 0x08, 0x04, 0x02]
  else #v[0x7f, 0x41, 0x5d, 0x41, 0x7f]

/-- `glyph[col] & BIT(row)`. -/
def Glyph.lit (g : Glyph) (col : Fin 5) (row : ℕ) : Bool := (g.get col).getLsbD row

def lcdDrawChar (x y : BitVec 16) (c : BitVec 8) (color : BitVec 16) (scale : BitVec 8) :
    LcdWorld → LcdWorld := fun w =>
  (List.finRange 5).foldl (fun w col =>
    (List.range 7).foldl (fun w row =>
      if (glyphFor c).lit col row then
        (lcdRect (x + BitVec.ofNat 16 (col * scale.toNat)) (y + BitVec.ofNat 16 (row * scale.toNat))
          (scale.setWidth 16) (scale.setWidth 16) color w).2
      else w) w) w

/-- The task that draws text is created after `s_lcd` is set; without it the C code
has no meaning. -/
def lcdDrawText (x y : BitVec 16) (text : List (BitVec 8)) (color : BitVec 16)
    (scale : BitVec 8) (w : LcdWorld) : LcdWorld :=
  match text, w.sLcd with
  | c :: text, some lcd =>
    let advance := BitVec.ofNat 16 (6 * scale.toNat)
    if x.toNat + advance.toNat ≤ lcd.width.toNat then
      lcdDrawText (x + advance) y text color scale (lcdDrawChar x y c color scale w)
    else w
  | _, _ => w

/-! ### The display task -/

/-- What `display_task` draws for a state. -/
def displayTaskDraw (state : Pf2DisplayState) (w : LcdWorld) : LcdWorld :=
  let w := lcdFill (statusColor state.status) w
  if state.line1.chars ≠ [] ∨ state.line2.chars ≠ [] then
    lcdDrawText 8 34 state.line2.chars 0xffff 2 (lcdDrawText 8 12 state.line1.chars 0xffff 2 w)
  else w

/-- A turn of the loop in `display_task`; it waits while the queue is empty. -/
def displayTaskTurn (d : DisplayStatics) (w : LcdWorld) : Option (DisplayStatics × LcdWorld) :=
  match d.sStatusQueue with
  | some (some state) => some ({ d with sStatusQueue := some none }, displayTaskDraw state w)
  | _ => none

end PicoFido2.Display
