import Mathlib.Logic.Function.Basic
import PicoFido2.Effect.Prog
import PicoFido2.M5boards.Desc

/-! The hardware and the ESP-IDF calls the board code rests on. Every call takes
one turn: first the outside world acts (time passes, keys move, the keyboard
controller queues events), then the call succeeds or fails as the turn says. A
sequence of turns is thus a failure pattern together with a schedule of key
events. The log records what happened outside, and every PM1 register write. -/

namespace PicoFido2.Hal

open Effect M5boards

/-- `esp_err_t` other than `ESP_OK`; `driver` stands for any code of a driver call. -/
inductive EspErr where
  | invalidArg | notSupported | invalidState | noMem
  | driver (code : ℕ)
  deriving DecidableEq, Repr

/-! ### The outside world -/

/-- What a failed transfer did on the chip, for a read and for a write. -/
structure Fault where
  err : EspErr
  readTaken : Bool
  writeTaken : Bool
  deriving DecidableEq, Repr

inductive Outcome where
  | done
  | failed (fault : Fault)
  deriving DecidableEq, Repr

/-- `key` is an event byte of the keyboard controller; `pad` a level on a GPIO pad. -/
inductive Stimulus where
  | elapse (us : ℕ)
  | key (event : BitVec 8)
  | pad (gpio : GpioNum) (high : Bool)
  deriving DecidableEq, Repr

structure Turn where
  stimuli : List Stimulus
  outcome : Outcome
  deriving DecidableEq, Repr

inductive Entry where
  | key (time : ℤ) (event : BitVec 8)
  | pad (time : ℤ) (gpio : GpioNum) (before after : Bool)
  | pm1Write (reg value : BitVec 8) (taken : Bool)
  deriving DecidableEq, Repr

/-- The event queue of the TCA8418 holds ten events. -/
structure KeyFifo where
  events : List (BitVec 8)
  le_ten : events.length ≤ 10
  deriving DecidableEq

namespace KeyFifo

def empty : KeyFifo := ⟨[], by decide⟩

/-- An event that finds the queue full is lost. -/
def push (q : KeyFifo) (event : BitVec 8) : KeyFifo :=
  if h : q.events.length < 10 then
    ⟨q.events ++ [event], by rw [List.length_append, List.length_singleton]; omega⟩
  else q

def pop (q : KeyFifo) : KeyFifo :=
  ⟨q.events.tail, by have := q.le_ten; rw [List.length_tail]; omega⟩

end KeyFifo

structure I2cMasterBusConfig where
  sdaIoNum : GpioNum
  sclIoNum : GpioNum
  glitchIgnoreCnt : ℕ
  enableInternalPullup : Bool
  deriving DecidableEq, Repr

structure I2cDeviceConfig where
  deviceAddress : BitVec 8
  sclSpeedHz : ℕ
  deriving DecidableEq, Repr

/-- An input configuration without interrupts, the only kind the board code makes. -/
structure GpioConfig where
  pinBitMask : BitVec 64
  pullUpEn : Bool
  pullDownEn : Bool
  deriving DecidableEq, Repr

/-- `turns` are the turns of the whole run and `turn` the next one to take. -/
structure Hardware where
  turns : ℕ → Turn
  turn : ℕ
  now : ℤ
  log : List Entry
  pads : GpioNum → Bool
  pm1 : BitVec 8 → BitVec 8
  fifo : KeyFifo
  tca : BitVec 8 → BitVec 8
  buses : List I2cMasterBusConfig
  devices : List I2cDeviceConfig
  padConfigs : List GpioConfig

/-- Nothing happens outside and every call succeeds. -/
def quietTurns (_ : ℕ) : Turn := ⟨[], .done⟩

/-- Quiet turns, but call `k` fails and does not reach the chip. -/
def failsAt (k n : ℕ) : Turn :=
  ⟨[], if n = k then .failed ⟨.driver 0x103, false, false⟩ else .done⟩

/-- Only at turn `k` something happens, and every call succeeds. -/
def stimuliAt (k : ℕ) (stimuli : List Stimulus) (n : ℕ) : Turn :=
  ⟨if n = k then stimuli else [], .done⟩

namespace Hardware

/-- Power-up with the pads pulled high and every chip register zero. -/
def start (turns : ℕ → Turn) : Hardware where
  turns := turns
  turn := 0
  now := 0
  log := []
  pads _ := true
  pm1 _ := 0
  fifo := .empty
  tca _ := 0
  buses := []
  devices := []
  padConfigs := []

def stimulate (h : Hardware) : Stimulus → Hardware
  | .elapse us => { h with now := h.now + us }
  | .key event =>
    if h.fifo.events.length < 10 then
      { h with fifo := h.fifo.push event, log := h.log ++ [.key h.now event] }
    else h
  | .pad gpio high =>
    { h with
      pads := Function.update h.pads gpio high
      log := h.log ++ [.pad h.now gpio (h.pads gpio) high] }

def settle (h : Hardware) (stimuli : List Stimulus) : Hardware := stimuli.foldl stimulate h

/-- The state in which the next call takes effect. -/
def waited (h : Hardware) : Hardware :=
  { h.settle (h.turns h.turn).stimuli with turn := h.turn + 1 }

def outcome (h : Hardware) : Outcome := (h.turns h.turn).outcome

end Hardware

/-! ### ESP-IDF calls -/

open Hardware

/-- `i2c_master_transmit_receive` of one register: `read` is the chip's part. -/
def i2cMasterTransmitReceive {α : Type} (read : Hardware → α × Hardware) : Prog Hardware EspErr α :=
  fun h => match h.outcome with
    | .done => (.ok (read h.waited).1, (read h.waited).2)
    | .failed f => (.error f.err, if f.readTaken then (read h.waited).2 else h.waited)

/-- `i2c_master_transmit` of one register: `write` is the chip's part, told whether
the transfer reached it. -/
def i2cMasterTransmit (write : Bool → Hardware → Hardware) : Prog Hardware EspErr Unit :=
  fun h => match h.outcome with
    | .done => (.ok (), write true h.waited)
    | .failed f => (.error f.err, write f.writeTaken h.waited)

/-- A driver call that changes the hardware's books only when it succeeds. -/
def driverCall {α : Type} (result : Hardware → α × Hardware) : Prog Hardware EspErr α :=
  fun h => match h.outcome with
    | .done => (.ok (result h.waited).1, (result h.waited).2)
    | .failed f => (.error f.err, h.waited)

/-- The handle of a bus is its place among the buses created. -/
def i2cNewMasterBus (cfg : I2cMasterBusConfig) : Prog Hardware EspErr ℕ :=
  driverCall fun h => (h.buses.length, { h with buses := h.buses ++ [cfg] })

/-- The handle of a device is its place among the devices added. -/
def i2cMasterBusAddDevice (cfg : I2cDeviceConfig) : Prog Hardware EspErr ℕ :=
  driverCall fun h => (h.devices.length, { h with devices := h.devices ++ [cfg] })

def gpioConfig (cfg : GpioConfig) : Prog Hardware EspErr Unit :=
  driverCall fun h => ((), { h with padConfigs := h.padConfigs ++ [cfg] })

def gpioGetLevel (gpio : GpioNum) (h : Hardware) : ℤ × Hardware :=
  (if h.waited.pads gpio then 1 else 0, h.waited)

def espTimerGetTime (h : Hardware) : ℤ × Hardware := (h.waited.now, h.waited)

def vTaskDelay (h : Hardware) : Hardware := h.waited

end PicoFido2.Hal
