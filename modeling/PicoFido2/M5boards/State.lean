import PicoFido2.Hal.World

/-! The static variables of the board files, together with the hardware. -/

namespace PicoFido2.M5boards

open Effect Hal

/-- `pf2_m5pm1_t`. -/
structure Pf2M5pm1 where
  dev : Option ℕ
  deriving DecidableEq, Repr

/-- `pf2_tca8418_t`. -/
structure Pf2Tca8418 where
  dev : Option ℕ
  intGpio : GpioNum
  lastEvent : BitVec 8
  deriving DecidableEq, Repr

/-- The statics of `pico_fido2_m5_board.c`. -/
structure M5BoardStatics where
  sInternalI2c : Option ℕ
  sPm1 : Pf2M5pm1
  sPm1Initialized : Bool
  deriving DecidableEq, Repr

/-- The statics of `pico_fido2_presence.c`. -/
structure PresenceStatics where
  sBoard : Option BoardPtr
  sKeyboard : Pf2Tca8418
  sGpioLastPressed : Bool
  sPresenceInitialized : Bool
  deriving DecidableEq, Repr

/-- The two locals of a caller of `pf2_tca8418_read_key_event` its pointers refer to. -/
structure KeyOut where
  keyEvent : BitVec 8
  pressed : Bool
  deriving DecidableEq, Repr

structure World where
  hw : Hardware
  m5board : M5BoardStatics
  presence : PresenceStatics
  keyOut : KeyOut

/-- A hardware call made by the firmware. -/
def hal {ε α : Type} (x : Prog Hardware ε α) : Prog World ε α :=
  Prog.zoom World.hw (fun h w => { w with hw := h }) x

theorem hal_apply {ε α : Type} (x : Prog Hardware ε α) (w : World) :
    hal x w = ((x w.hw).1, { w with hw := (x w.hw).2 }) := rfl

/-- Zero-initialised statics on hardware that starts as `h`. -/
def boot (h : Hardware) : World where
  hw := h
  m5board := { sInternalI2c := none, sPm1 := { dev := none }, sPm1Initialized := false }
  presence :=
    { sBoard := none, sKeyboard := { dev := none, intGpio := 0, lastEvent := 0 }
      sGpioLastPressed := false, sPresenceInitialized := false }
  keyOut := { keyEvent := 0, pressed := false }

end PicoFido2.M5boards
