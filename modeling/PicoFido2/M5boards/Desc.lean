import Mathlib.Data.Int.Notation
import Mathlib.Tactic.Common

/-! Board descriptors: the types of `pico_fido2_m5_board.h` and the two constant
descriptors of `pico_fido2_m5_board.c`, with the fields the modelled functions
read. A descriptor is handed around by address, and addresses are what
`s_board == board` compares. -/

namespace PicoFido2.M5boards

/-- `GPIO_NUM_NC` is `-1`. -/
abbrev GpioNum := ℤ

def gpioNumNc : GpioNum := -1

inductive Pf2M5BoardId where
  | none | cardputerAdv | stickS3
  deriving DecidableEq, Repr

inductive Pf2UserInputType where
  | gpio | tca8418
  deriving DecidableEq, Repr

structure Pf2I2cBusDesc where
  sda : GpioNum
  scl : GpioNum
  deriving DecidableEq, Repr

structure Pf2LcdDesc where
  mosi : GpioNum
  miso : GpioNum
  sclk : GpioNum
  cs : GpioNum
  dc : GpioNum
  rst : GpioNum
  bl : GpioNum
  width : BitVec 16
  height : BitVec 16
  invertColors : Bool
  deriving DecidableEq, Repr

structure Pf2M5pm1Desc where
  i2cAddr : BitVec 8
  gpioL3bPower : BitVec 8
  gpioSpeakerAmp : BitVec 8
  deriving DecidableEq, Repr

structure Pf2UserInputDesc where
  type : Pf2UserInputType
  gpioA : GpioNum
  gpioB : GpioNum
  activeLow : Bool
  tca8418Addr : BitVec 8
  tca8418Int : GpioNum
  deriving DecidableEq, Repr

structure Pf2M5BoardDesc where
  id : Pf2M5BoardId
  name : String
  internalI2c : Pf2I2cBusDesc
  lcd : Pf2LcdDesc
  pm1 : Pf2M5pm1Desc
  userInput : Pf2UserInputDesc
  deriving DecidableEq, Repr

/-- A `const pf2_m5_board_desc_t *` that is not null: where it points and what is there. -/
structure BoardPtr where
  addr : ℕ
  desc : Pf2M5BoardDesc
  deriving DecidableEq, Repr

def cardputerAdvDesc : Pf2M5BoardDesc where
  id := .cardputerAdv
  name := "m5stack-cardputer-adv"
  internalI2c := { sda := 8, scl := 9 }
  lcd :=
    { mosi := 35, miso := gpioNumNc, sclk := 36, cs := 37, dc := 34, rst := 33, bl := 38
      width := 240, height := 135, invertColors := true }
  pm1 := { i2cAddr := 0, gpioL3bPower := 0xff, gpioSpeakerAmp := 0xff }
  userInput :=
    { type := .tca8418, gpioA := gpioNumNc, gpioB := gpioNumNc, activeLow := true
      tca8418Addr := 0x34, tca8418Int := 11 }

def stickS3Desc : Pf2M5BoardDesc where
  id := .stickS3
  name := "m5stack-stick-s3"
  internalI2c := { sda := 47, scl := 48 }
  lcd :=
    { mosi := 39, miso := gpioNumNc, sclk := 40, cs := 41, dc := 45, rst := 21, bl := 38
      width := 135, height := 240, invertColors := true }
  pm1 := { i2cAddr := 0x6e, gpioL3bPower := 2, gpioSpeakerAmp := 3 }
  userInput :=
    { type := .gpio, gpioA := 11, gpioB := 12, activeLow := true
      tca8418Addr := 0, tca8418Int := gpioNumNc }

/-- The two macros `PICO_BOARD` sets at build time. -/
structure Kconfig where
  boardM5stackStickS3 : Bool
  boardM5stackCardputerAdv : Bool
  deriving DecidableEq, Repr

def cardputerAdv : Kconfig where
  boardM5stackStickS3 := false
  boardM5stackCardputerAdv := true

def stickS3 : Kconfig where
  boardM5stackStickS3 := true
  boardM5stackCardputerAdv := false

def pf2M5BoardIdFromKconfig (cfg : Kconfig) : Pf2M5BoardId :=
  if cfg.boardM5stackStickS3 then .stickS3
  else if cfg.boardM5stackCardputerAdv then .cardputerAdv
  else .none

/-- The descriptors are two objects, so their addresses differ. -/
def pf2M5BoardGet (cfg : Kconfig) : Option BoardPtr :=
  match pf2M5BoardIdFromKconfig cfg with
  | .cardputerAdv => some ⟨1, cardputerAdvDesc⟩
  | .stickS3 => some ⟨2, stickS3Desc⟩
  | .none => none

theorem pf2M5BoardGet_cases {cfg : Kconfig} {board : BoardPtr}
    (h : pf2M5BoardGet cfg = some board) :
    board = ⟨1, cardputerAdvDesc⟩ ∨ board = ⟨2, stickS3Desc⟩ := by
  unfold pf2M5BoardGet at h
  split at h <;> simp_all

end PicoFido2.M5boards
