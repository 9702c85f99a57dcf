import PicoFido2.Hal.Frame
import PicoFido2.M5boards.State

/-! The M5PM1 driver of `pico_fido2_m5pm1.c`. The chip is a register file: a read
returns a register and a write that is taken replaces it. -/

namespace PicoFido2.M5boards

open Effect Hal

def m5pm1RegDeviceId : BitVec 8 := 0x00
def m5pm1RegGpioMode : BitVec 8 := 0x10
def m5pm1RegGpioOut : BitVec 8 := 0x11
def m5pm1RegGpioFunc0 : BitVec 8 := 0x16
def m5pm1RegGpioFunc1 : BitVec 8 := 0x17
def m5pm1RegSysCmd : BitVec 8 := 0x0c
def m5pm1SysCmdKey : BitVec 8 := 0xa0
def m5pm1SysCmdShutdown : BitVec 8 := 0x01

/-- The chip's part of a write, logged also where the chip does not take it. -/
def pm1Store (reg value : BitVec 8) (taken : Bool) (h : Hardware) : Hardware :=
  { h with
    pm1 := if taken then Function.update h.pm1 reg value else h.pm1
    log := h.log ++ [.pm1Write reg value taken] }

def m5pm1ReadU8 (ctx : Pf2M5pm1) (reg : BitVec 8) : Prog Hardware EspErr (BitVec 8) := do
  Prog.require ctx.dev.isSome .invalidArg
  i2cMasterTransmitReceive fun h => (h.pm1 reg, h)

def m5pm1WriteU8 (ctx : Pf2M5pm1) (reg value : BitVec 8) : Prog Hardware EspErr Unit := do
  Prog.require ctx.dev.isSome .invalidArg
  i2cMasterTransmit (pm1Store reg value)

def m5pm1UpdateBits (ctx : Pf2M5pm1) (reg mask value : BitVec 8) : Prog Hardware EspErr Unit := do
  let oldValue ← m5pm1ReadU8 ctx reg
  let newValue := (oldValue &&& ~~~mask) ||| (value &&& mask)
  if newValue = oldValue then pure () else m5pm1WriteU8 ctx reg newValue

/-- `ctx` is `&s_pm1`; its handle is set before the device identifier is read. -/
def pf2M5pm1Init (bus : Option ℕ) (addr : BitVec 8) : Prog World EspErr Unit := do
  Prog.require (bus.isSome && addr != 0) .invalidArg
  let dev ← hal (i2cMasterBusAddDevice { deviceAddress := addr, sclSpeedHz := 400000 })
  Prog.modify fun w => { w with m5board.sPm1.dev := some dev }
  let w ← Prog.get
  let _deviceId ← hal (m5pm1ReadU8 w.m5board.sPm1 m5pm1RegDeviceId)
  pure ()

def pf2M5pm1GpioSetOutput (ctx : Pf2M5pm1) (gpio : BitVec 8) (level : Bool) :
    Prog Hardware EspErr Unit := do
  Prog.require (gpio < 5) .invalidArg
  let bit : BitVec 8 := 1#8 <<< gpio.toNat
  let clearFunc : Prog Hardware EspErr Unit :=
    if gpio < 4 then m5pm1UpdateBits ctx m5pm1RegGpioFunc0 (0x03#8 <<< (gpio.toNat * 2)) 0
    else m5pm1UpdateBits ctx m5pm1RegGpioFunc1 0x03 0
  clearFunc
  m5pm1UpdateBits ctx m5pm1RegGpioOut bit (if level then bit else 0)
  m5pm1UpdateBits ctx m5pm1RegGpioMode bit bit

def pf2M5pm1EnableL3bPower (ctx : Pf2M5pm1) (enable : Bool) : Prog Hardware EspErr Unit :=
  pf2M5pm1GpioSetOutput ctx 2 enable

def pf2M5pm1EnableSpeakerAmp (ctx : Pf2M5pm1) (enable : Bool) : Prog Hardware EspErr Unit :=
  pf2M5pm1GpioSetOutput ctx 3 enable

def pf2M5pm1Shutdown (ctx : Pf2M5pm1) : Prog Hardware EspErr Unit :=
  m5pm1WriteU8 ctx m5pm1RegSysCmd (m5pm1SysCmdKey ||| m5pm1SysCmdShutdown)

end PicoFido2.M5boards
