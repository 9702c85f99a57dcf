import Mathlib.Algebra.Group.Nat.Defs
import PicoFido2.M5boards.M5board

/-! User presence of `pico_fido2_presence.c`. -/

namespace PicoFido2.M5boards

open Effect Hal

def gpioIsPressed (gpio : GpioNum) (activeLow : Bool) (w : World) : Bool × World :=
  if gpio < 0 then (false, w)
  else
    let (level, h) := gpioGetLevel gpio w.hw
    (if activeLow then level = 0 else level ≠ 0, { w with hw := h })

/-- `gpio_is_pressed(gpio_a, …) || gpio_is_pressed(gpio_b, …)`: the second pad is
read only where the first key is up. -/
def keysPressed (board : BoardPtr) (w : World) : Bool × World :=
  match gpioIsPressed board.desc.userInput.gpioA board.desc.userInput.activeLow w with
  | (true, w) => (true, w)
  | (false, w) => gpioIsPressed board.desc.userInput.gpioB board.desc.userInput.activeLow w

/-- The fallible steps of `pf2_user_presence_init`. -/
def presenceBringUp (cfg : Kconfig) (board : BoardPtr) : Prog World EspErr Unit := do
  pf2M5BoardInitPeripherals cfg
  Prog.onlyIf (board.desc.userInput.type = .tca8418) do
    let w ← Prog.get
    pf2Tca8418Init w.m5board.sInternalI2c board.desc.userInput.tca8418Addr
      board.desc.userInput.tca8418Int

/-- The sample later polls are compared with. -/
def firstSample (board : BoardPtr) : Prog World EspErr Unit := do
  let pressed ← Prog.total (keysPressed board)
  Prog.modify fun w => { w with presence.sGpioLastPressed := pressed }

def pf2UserPresenceInit (cfg : Kconfig) (board : Option BoardPtr) : Prog World EspErr Unit :=
  match board with
  | none => Prog.fail .invalidArg
  | some board => do
    let w ← Prog.get
    if w.presence.sPresenceInitialized && w.presence.sBoard == some board then pure ()
    else do
      Prog.modify fun w =>
        { w with presence.sBoard := some board, presence.sGpioLastPressed := false }
      presenceBringUp cfg board
      Prog.onlyIf (board.desc.userInput.type = .gpio) (firstSample board)
      Prog.modify fun w => { w with presence.sPresenceInitialized := true }

def pf2UserPresencePoll (w : World) : Bool × World :=
  match w.presence.sBoard with
  | none => (false, w)
  | some board =>
    match board.desc.userInput.type with
    | .tca8418 => pf2Tca8418AnyKeyPressed w
    | .gpio =>
      let (nowPressed, w) := keysPressed board w
      let risingEdge := nowPressed && !w.presence.sGpioLastPressed
      (risingEdge, { w with presence.sGpioLastPressed := nowPressed })

/-- A signed 64-bit value. -/
def int64 (x : ℤ) : ℤ := x.bmod (2 ^ 64)

/-- The loop of `pf2_user_presence_wait`, for at most `fuel` polls; `none` where it
is still waiting after them. -/
def presenceWaitLoop (timeoutMs : BitVec 32) (deadlineUs : ℤ) : ℕ → World → Option (Bool × World)
  | 0, _ => none
  | fuel + 1, w =>
    match pf2UserPresencePoll w with
    | (true, w) => some (true, w)
    | (false, w) =>
      let w := { w with hw := vTaskDelay w.hw }
      if timeoutMs = 0 then presenceWaitLoop timeoutMs deadlineUs fuel w
      else
        let (now, h) := espTimerGetTime w.hw
        if now < deadlineUs then presenceWaitLoop timeoutMs deadlineUs fuel { w with hw := h }
        else some (false, { w with hw := h })

def pf2UserPresenceWait (timeoutMs : BitVec 32) (fuel : ℕ) (w : World) : Option (Bool × World) :=
  let (now, h) := espTimerGetTime w.hw
  let deadlineUs := int64 (now + timeoutMs.toNat * 1000)
  presenceWaitLoop timeoutMs deadlineUs fuel { w with hw := h }

def picoFido2PresenceInit (cfg : Kconfig) : Prog World EspErr Unit :=
  match pf2M5BoardGet cfg with
  | none => Prog.fail .notSupported
  | some board => do
    pf2M5BoardInitEarly cfg
    pf2UserPresenceInit cfg (some board)

/-- The guard of `pico_fido2_presence_poll` and `pico_fido2_presence_wait`: without a
board the initialisation is tried, and a failure answers the call. -/
def presenceGuard (cfg : Kconfig) (w : World) : Bool × World :=
  if w.presence.sBoard.isNone then
    match picoFido2PresenceInit cfg w with
    | (.error _, w) => (false, w)
    | (.ok (), w) => (true, w)
  else (true, w)

def picoFido2PresencePoll (cfg : Kconfig) (w : World) : Bool × World :=
  match presenceGuard cfg w with
  | (false, w) => (false, w)
  | (true, w) => pf2UserPresencePoll w

def picoFido2PresenceWait (cfg : Kconfig) (timeoutMs : BitVec 32) (fuel : ℕ) (w : World) :
    Option (Bool × World) :=
  match presenceGuard cfg w with
  | (false, w) => some (false, w)
  | (true, w) => pf2UserPresenceWait timeoutMs fuel w

end PicoFido2.M5boards
