import PicoFido2.M5boards.M5pm1
import PicoFido2.M5boards.Tca8418

/-! Board bring-up of `pico_fido2_m5_board.c`. -/

namespace PicoFido2.M5boards

open Effect Hal

def pf2M5BoardInitEarly (cfg : Kconfig) : Prog World EspErr Unit :=
  match pf2M5BoardGet cfg with
  | none => Prog.fail .notSupported
  | some board => do
    let w ← Prog.get
    if w.m5board.sInternalI2c.isSome then pure ()
    else do
      let bus ← hal (i2cNewMasterBus
        { sdaIoNum := board.desc.internalI2c.sda
          sclIoNum := board.desc.internalI2c.scl
          glitchIgnoreCnt := 7
          enableInternalPullup := true })
      Prog.modify fun w => { w with m5board.sInternalI2c := some bus }

/-- The chip is registered once; a registration whose check failed is not remembered. -/
def registerPm1 (board : BoardPtr) : Prog World EspErr Unit := do
  let w ← Prog.get
  if w.m5board.sPm1Initialized then pure ()
  else do
    pf2M5pm1Init w.m5board.sInternalI2c board.desc.pm1.i2cAddr
    Prog.modify fun w => { w with m5board.sPm1Initialized := true }

def drivePm1Pins (board : BoardPtr) : Prog World EspErr Unit := do
  let w ← Prog.get
  hal (pf2M5pm1GpioSetOutput w.m5board.sPm1 board.desc.pm1.gpioL3bPower true)
  hal (pf2M5pm1GpioSetOutput w.m5board.sPm1 board.desc.pm1.gpioSpeakerAmp false)

def presenceGpioConfig (board : BoardPtr) : GpioConfig where
  pinBitMask := (1#64 <<< board.desc.userInput.gpioA.toNat) |||
    (1#64 <<< board.desc.userInput.gpioB.toNat)
  pullUpEn := board.desc.userInput.activeLow
  pullDownEn := !board.desc.userInput.activeLow

def pf2M5BoardInitPeripherals (cfg : Kconfig) : Prog World EspErr Unit :=
  match pf2M5BoardGet cfg with
  | none => Prog.fail .notSupported
  | some board => do
    pf2M5BoardInitEarly cfg
    Prog.onlyIf (board.desc.id = .stickS3) do
      registerPm1 board
      drivePm1Pins board
    Prog.onlyIf (board.desc.userInput.type = .gpio) (hal (gpioConfig (presenceGpioConfig board)))

end PicoFido2.M5boards
