import PicoFido2.Hal.Frame
import PicoFido2.M5boards.State

/-! The TCA8418 driver of `pico_fido2_tca8418.c`. The chip queues key events: bit 7
of an event tells a press from a release and the low seven bits name the key. A
read of `KEY_EVENT_A` takes the oldest event out of the queue, and the low four
bits of `KEY_LCK_EC` count the queue. The context is always `&s_keyboard`. -/

namespace PicoFido2.M5boards

open Effect Hal

def tca8418RegCfg : BitVec 8 := 0x01
def tca8418RegIntStat : BitVec 8 := 0x02
def tca8418RegKeyLckEc : BitVec 8 := 0x03
def tca8418RegKeyEventA : BitVec 8 := 0x04
def tca8418RegKpGpio1 : BitVec 8 := 0x1d
def tca8418RegKpGpio2 : BitVec 8 := 0x1e
def tca8418RegKpGpio3 : BitVec 8 := 0x1f
def tca8418RegDebounceDis1 : BitVec 8 := 0x29
def tca8418RegDebounceDis2 : BitVec 8 := 0x2a
def tca8418RegDebounceDis3 : BitVec 8 := 0x2b
def tca8418CfgKeIen : BitVec 8 := 0x01
def tca8418IntStatKInt : BitVec 8 := 0x01
def tca8418KeyEventPress : BitVec 8 := 0x80
def tca8418KeyEventCodeMask : BitVec 8 := 0x7f

/-! ### The chip's part of a transfer -/

/-- The queue length is or-ed under the lock bits of `KEY_LCK_EC`; an empty queue
reads as event zero. -/
def tcaRead (reg : BitVec 8) (h : Hardware) : BitVec 8 × Hardware :=
  if reg = tca8418RegKeyLckEc then
    ((h.tca reg &&& 0xf0) ||| BitVec.ofNat 8 h.fifo.events.length, h)
  else if reg = tca8418RegKeyEventA then (h.fifo.events.headD 0, { h with fifo := h.fifo.pop })
  else (h.tca reg, h)

/-- `INT_STAT` is cleared by the bits written; the other registers are stored. -/
def tcaWrite (reg value : BitVec 8) (taken : Bool) (h : Hardware) : Hardware :=
  if taken then
    { h with
      tca := Function.update h.tca reg
        (if reg = tca8418RegIntStat then h.tca reg &&& ~~~value else value) }
  else h

/-! ### The driver -/

def tca8418ReadU8 (ctx : Pf2Tca8418) (reg : BitVec 8) : Prog Hardware EspErr (BitVec 8) := do
  Prog.require ctx.dev.isSome .invalidArg
  i2cMasterTransmitReceive (tcaRead reg)

def tca8418WriteU8 (ctx : Pf2Tca8418) (reg value : BitVec 8) : Prog Hardware EspErr Unit := do
  Prog.require ctx.dev.isSome .invalidArg
  i2cMasterTransmit (tcaWrite reg value)

/-- The transfers of `pf2_tca8418_init`, after the handle is in the context. -/
def tca8418Configure (ctx : Pf2Tca8418) : Prog Hardware EspErr Unit := do
  Prog.onlyIf (0 ≤ ctx.intGpio) (gpioConfig
    { pinBitMask := 1#64 <<< ctx.intGpio.toNat, pullUpEn := true, pullDownEn := false })
  tca8418WriteU8 ctx tca8418RegCfg 0x00
  tca8418WriteU8 ctx tca8418RegKpGpio1 0xff
  tca8418WriteU8 ctx tca8418RegKpGpio2 0xff
  tca8418WriteU8 ctx tca8418RegKpGpio3 0x03
  tca8418WriteU8 ctx tca8418RegDebounceDis1 0x00
  tca8418WriteU8 ctx tca8418RegDebounceDis2 0x00
  tca8418WriteU8 ctx tca8418RegDebounceDis3 0x00
  tca8418WriteU8 ctx tca8418RegIntStat 0xff
  tca8418WriteU8 ctx tca8418RegCfg tca8418CfgKeIen

def pf2Tca8418Init (bus : Option ℕ) (addr : BitVec 8) (intGpio : GpioNum) :
    Prog World EspErr Unit := do
  Prog.require (bus.isSome && addr != 0) .invalidArg
  let dev ← hal (i2cMasterBusAddDevice { deviceAddress := addr, sclSpeedHz := 400000 })
  Prog.modify fun w =>
    { w with presence.sKeyboard := { dev := some dev, intGpio := intGpio, lastEvent := 0 } }
  let w ← Prog.get
  hal (tca8418Configure w.presence.sKeyboard)

/-- The results go to the caller's locals `keyOut` and to `last_event`, and only when
all three transfers succeeded. -/
def pf2Tca8418ReadKeyEvent : Prog World EspErr Unit := do
  let w ← Prog.get
  let lckEc ← hal (tca8418ReadU8 w.presence.sKeyboard tca8418RegKeyLckEc)
  let count := lckEc &&& 0x0f
  if count = 0 then
    Prog.modify fun w => { w with keyOut := { keyEvent := 0, pressed := false } }
  else do
    let event ← hal (tca8418ReadU8 w.presence.sKeyboard tca8418RegKeyEventA)
    hal (tca8418WriteU8 w.presence.sKeyboard tca8418RegIntStat tca8418IntStatKInt)
    Prog.modify fun w =>
      { w with
        keyOut :=
          { keyEvent := event &&& tca8418KeyEventCodeMask
            pressed := event &&& tca8418KeyEventPress != 0 }
        presence.sKeyboard.lastEvent := event }

/-- `uint8_t key_event = 0; bool pressed = false;` at the head of the loop body. -/
def cleanLocals (w : World) : World := { w with keyOut := { keyEvent := 0, pressed := false } }

/-- The loop with `n` iterations left. -/
def anyKeyPressedLoop : ℕ → World → Bool × World
  | 0, w => (false, w)
  | n + 1, w =>
    match pf2Tca8418ReadKeyEvent (cleanLocals w) with
    | (.error _, w) => (false, w)
    | (.ok (), w) =>
      if w.keyOut.pressed && w.keyOut.keyEvent != 0 then (true, w)
      else if w.keyOut.keyEvent = 0 then (false, w)
      else anyKeyPressedLoop n w

def pf2Tca8418AnyKeyPressed (w : World) : Bool × World := anyKeyPressedLoop 10 w

end PicoFido2.M5boards
