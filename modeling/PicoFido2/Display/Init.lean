import PicoFido2.Display.Shown
import PicoFido2.Display.Transfers

/-! `pf2_display_init`. Its variable `ret` goes through the start-up commands of the panel,
is overwritten when the task is created, and nothing that follows the device is undone
but the queue. So a call reports its failures and leaves nothing behind exactly when the
device could not be added, or when everything after it succeeds. -/

namespace PicoFido2.Display

open Effect Hal M5boards

/-! ### The world of the initialisation -/

/-- `spi_bus_config_t`, the fields that are set. -/
structure SpiBusConfig where
  mosiIoNum : GpioNum
  misoIoNum : GpioNum
  sclkIoNum : GpioNum
  quadwpIoNum : GpioNum
  quadhdIoNum : GpioNum
  maxTransferSz : ℕ
  deriving DecidableEq, Repr

/-- `spi_device_interface_config_t`, the fields that are set. -/
structure SpiDeviceConfig where
  clockSpeedHz : ℕ
  mode : ℕ
  spicsIoNum : GpioNum
  queueSize : ℕ
  deriving DecidableEq, Repr

/-- How the calls of the drivers and of FreeRTOS end; how the transfers end is told by
the bus. -/
structure InitOutcomes where
  gpioConfig : Except EspErr Unit
  spiBusInitialize : Except EspErr Unit
  spiBusAddDevice : Except EspErr Unit
  xQueueCreate : Bool
  xTaskCreate : Bool

/-- The statics of `pico_fido2_display.c`, and what the initialisation changes outside. -/
structure InitWorld where
  outcomes : InitOutcomes
  display : DisplayStatics
  lcd : LcdWorld
  sDisplayTask : Bool
  outputPads : List (BitVec 64)
  pads : GpioNum → Bool
  delayedMs : ℕ
  spiBuses : List SpiBusConfig
  spiDevices : List SpiDeviceConfig

abbrev Init (α : Type) := Prog InitWorld EspErr α

/-- A driver call that changes something only when it succeeds. -/
def driver (result : InitOutcomes → Except EspErr Unit) (change : InitWorld → InitWorld) :
    Init Unit := fun w =>
  match result w.outcomes with
  | .ok () => (.ok (), change w)
  | .error e => (.error e, w)

def gpioConfigOutputs (pinBitMask : BitVec 64) : Init Unit :=
  driver InitOutcomes.gpioConfig fun w => { w with outputPads := w.outputPads ++ [pinBitMask] }

def spiBusInitialize (cfg : SpiBusConfig) : Init Unit :=
  driver InitOutcomes.spiBusInitialize fun w => { w with spiBuses := w.spiBuses ++ [cfg] }

/-- The handle is the place of the device among those added. -/
def spiBusAddDevice (cfg : SpiDeviceConfig) : Init Unit :=
  driver InitOutcomes.spiBusAddDevice fun w =>
    { w with spiDevices := w.spiDevices ++ [cfg], lcd.sLcdSpi := some w.spiDevices.length }

def xTaskCreate : Init Unit :=
  driver (fun o => if o.xTaskCreate then .ok () else .error .noMem) fun w =>
    { w with sDisplayTask := true }

def gpioSetLevel (gpio : GpioNum) (level : Bool) : Init Unit :=
  Prog.modify fun w => { w with pads := Function.update w.pads gpio level }

def vTaskDelay (ms : ℕ) : Init Unit :=
  Prog.modify fun w => { w with delayedMs := w.delayedMs + ms }

/-- A function of the panel. -/
def onLcd (x : Lcd Unit) : Init Unit := Prog.zoom InitWorld.lcd (fun l w => { w with lcd := l }) x

/-! ### `pf2_display_init` -/

/-- `if (ret == ESP_OK) ret = x;` -/
def ifOk (ret : Except EspErr Unit) (x : Init Unit) : Init (Except EspErr Unit) :=
  match ret with
  | .ok () => Prog.attempt x
  | .error e => pure (.error e)

/-- The commands that start the panel, with the result in `ret`. -/
def startPanel (lcd : Pf2LcdDesc) : Init (Except EspErr Unit) := do
  let ret ← Prog.attempt (onLcd (lcdCmd 0x01))
  vTaskDelay 150
  let ret ← ifOk ret (onLcd (lcdCmd 0x11))
  vTaskDelay 120
  let ret ← ifOk ret (onLcd (lcdCmdData 0x3a [0x55]))
  let ret ← ifOk ret (onLcd (Prog.onlyIf lcd.invertColors (lcdCmd 0x21)))
  let ret ← ifOk ret (onLcd (lcdCmd 0x13))
  ifOk ret (onLcd (lcdCmd 0x29))

/-- The queue and the task; the result of the commands is overwritten here. -/
def startTask : Init Unit := do
  Prog.modify fun w =>
    { w with display.sStatusQueue := if w.outcomes.xQueueCreate then some none else none }
  let w ← Prog.get
  Prog.require w.display.sStatusQueue.isSome .noMem
  let ret ← Prog.attempt xTaskCreate
  match ret with
  | .error e => do
    Prog.modify fun w => { w with display.sStatusQueue := none }
    Prog.fail e
  | .ok () => Prog.modify fun w =>
    { w with
      display := displayQueueState { w.display with sDisplayState.status := w.display.sStatus } }

/-- What follows the device. -/
def startDisplay (lcd : Pf2LcdDesc) : Init Unit := do
  gpioSetLevel lcd.rst false
  vTaskDelay 20
  gpioSetLevel lcd.rst true
  vTaskDelay 120
  let _ret ← startPanel lcd
  gpioSetLevel lcd.bl true
  startTask

def lcdBus (lcd : Pf2LcdDesc) : SpiBusConfig where
  mosiIoNum := lcd.mosi
  misoIoNum := lcd.miso
  sclkIoNum := lcd.sclk
  quadwpIoNum := gpioNumNc
  quadhdIoNum := gpioNumNc
  maxTransferSz := lcd.width.toNat * 64 * 2

def lcdDevice (lcd : Pf2LcdDesc) : SpiDeviceConfig where
  clockSpeedHz := 40 * 1000 * 1000
  mode := 0
  spicsIoNum := lcd.cs
  queueSize := 1

/-- A bus that is there already is used. -/
def openBus (lcd : Pf2LcdDesc) : Init Unit := do
  let ret ← Prog.attempt (spiBusInitialize (lcdBus lcd))
  match ret with
  | .ok () => pure ()
  | .error .invalidState => pure ()
  | .error e => Prog.fail e

/-- An error of `gpio_config` is only printed. -/
def pf2DisplayInit (lcd : Option Pf2LcdDesc) : Init Unit := do
  Prog.modify fun w => { w with lcd.sLcd := lcd, display.sStatus := .boot }
  match lcd with
  | none => Prog.fail .invalidArg
  | some lcd => do
    let _ ← Prog.attempt (gpioConfigOutputs
      ((1#64 <<< lcd.dc.toNat) ||| (1#64 <<< lcd.rst.toNat) ||| (1#64 <<< lcd.bl.toNat)))
    openBus lcd
    spiBusAddDevice (lcdDevice lcd)
    startDisplay lcd

/-! ### The start-up commands -/

/-- What the start-up commands send. -/
def startTransfers (lcd : Pf2LcdDesc) : List Transfer :=
  [⟨false, [0x01]⟩] ++ [⟨false, [0x11]⟩] ++ commandTransfers 0x3a [0x55] ++
    (if lcd.invertColors then [⟨false, [0x21]⟩] else []) ++ [⟨false, [0x13]⟩] ++ [⟨false, [0x29]⟩]

/-- Everything but the panel, the pads, the bus and the time. -/
structure SameCore (w w' : InitWorld) : Prop where
  outcomes : w'.outcomes = w.outcomes
  display : w'.display = w.display
  sDisplayTask : w'.sDisplayTask = w.sDisplayTask
  spiDevices : w'.spiDevices = w.spiDevices

instance : IsPreorder InitWorld SameCore where
  refl _ := ⟨rfl, rfl, rfl, rfl⟩
  trans _ _ _ a b := ⟨b.outcomes.trans a.outcomes, b.display.trans a.display,
    b.sDisplayTask.trans a.sDisplayTask, b.spiDevices.trans a.spiDevices⟩

/-- From `w₀` on the transfers `ts` were sent, up to the first that failed, with the
result in `ret`. -/
structure Sent (w₀ : InitWorld) (ts : List Transfer) (ret : Except EspErr Unit) (w : InitWorld) :
    Prop where
  ret : ret = (transmitAll ts w₀.lcd).1
  lcd : w.lcd = (transmitAll ts w₀.lcd).2
  core : SameCore w₀ w

theorem vTaskDelay_apply (ms : ℕ) (w : InitWorld) :
    vTaskDelay ms w = (.ok (), (vTaskDelay ms w).2) := rfl

theorem Sent.delay {w₀ w : InitWorld} {ts : List Transfer} {ret : Except EspErr Unit}
    (h : Sent w₀ ts ret w) (ms : ℕ) : Sent w₀ ts ret (vTaskDelay ms w).2 :=
  ⟨h.ret, h.lcd,
    trans_of SameCore h.core (show SameCore w (vTaskDelay ms w).2 from ⟨rfl, rfl, rfl, rfl⟩)⟩

/-- Commands that are skipped after an error send no more than one list of transfers. -/
theorem Sent.ifOk {w₀ w : InitWorld} {ts us : List Transfer} {ret : Except EspErr Unit}
    (h : Sent w₀ ts ret w) {x : Lcd Unit} (hx : x = transmitAll us) :
    ∃ ret' w', ifOk ret (onLcd x) w = (.ok ret', w') ∧ Sent w₀ (ts ++ us) ret' w' := by
  obtain ⟨hret, hlcd, hcore⟩ := h
  subst hx
  rcases hrun : transmitAll ts w₀.lcd with ⟨e | ⟨⟩, l⟩
  · rw [hrun] at hret hlcd
    subst hret
    have hall : transmitAll (ts ++ us) w₀.lcd = (.error e, l) := by
      rw [transmitAll_append]
      exact Prog.bind_error hrun _
    exact ⟨.error e, w, rfl, by rw [hall], by rw [hall]; exact hlcd, hcore⟩
  · rw [hrun] at hret hlcd
    subst hret
    have hall : transmitAll (ts ++ us) w₀.lcd = transmitAll us w.lcd := by
      rw [transmitAll_append, hlcd]
      exact Prog.bind_ok hrun _
    have hlast : SameCore w (onLcd (transmitAll us) w).2 := ⟨rfl, rfl, rfl, rfl⟩
    refine ⟨_, _, rfl, ?_, ?_, trans_of SameCore hcore hlast⟩
    · rw [hall]
      rfl
    · rw [hall]
      rfl

theorem startPanel_sends (lcd : Pf2LcdDesc) (w : InitWorld) :
    ∃ ret w', startPanel lcd w = (.ok ret, w') ∧ Sent w (startTransfers lcd) ret w' := by
  have hcmd : ∀ cmd, lcdCmd cmd = transmitAll [⟨false, [cmd]⟩] := by
    intro cmd
    rw [transmitAll_singleton]
    rfl
  have hinvert : Prog.onlyIf lcd.invertColors (lcdCmd 0x21) =
      transmitAll (if lcd.invertColors then [⟨false, [0x21]⟩] else []) := by
    cases lcd.invertColors with
    | false => rfl
    | true => exact hcmd 0x21
  have hcolmod : lcdCmdData 0x3a [0x55] = transmitAll (commandTransfers 0x3a [0x55]) :=
    lcdCmdData_transfers 0x3a (by simp)
  have h₀ : Sent w [] (.ok ()) w := ⟨rfl, rfl, refl_of SameCore w⟩
  obtain ⟨r₁, w₁, e₁, h₁⟩ := h₀.ifOk (hcmd 0x01)
  obtain ⟨r₂, w₂, e₂, h₂⟩ := (h₁.delay 150).ifOk (hcmd 0x11)
  obtain ⟨r₃, w₃, e₃, h₃⟩ := (h₂.delay 120).ifOk hcolmod
  obtain ⟨r₄, w₄, e₄, h₄⟩ := h₃.ifOk hinvert
  obtain ⟨r₅, w₅, e₅, h₅⟩ := h₄.ifOk (hcmd 0x13)
  obtain ⟨r₆, w₆, e₆, h₆⟩ := h₅.ifOk (hcmd 0x29)
  have e₀ : Prog.attempt (onLcd (lcdCmd 0x01)) w = (.ok r₁, w₁) := e₁
  refine ⟨r₆, w₆, ?_, h₆⟩
  unfold startPanel
  rw [Prog.bind_ok e₀, Prog.bind_ok (vTaskDelay_apply 150 w₁), Prog.bind_ok e₂,
    Prog.bind_ok (vTaskDelay_apply 120 w₂), Prog.bind_ok e₃, Prog.bind_ok e₄, Prog.bind_ok e₅]
  exact e₆

/-! ### How a call ends -/

/-- The calls up to the device succeed; a bus that is there already is no failure. -/
def DeviceAdded (o : InitOutcomes) : Prop :=
  (o.spiBusInitialize = .ok () ∨ o.spiBusInitialize = .error .invalidState) ∧
    o.spiBusAddDevice = .ok ()

/-- Everything `pf2_display_init` can do with a descriptor. -/
inductive DisplayInit (lcd : Pf2LcdDesc) (w : InitWorld) :
    Except EspErr Unit → InitWorld → Prop where
  | early {e : EspErr} {w' : InitWorld} (hadded : ¬ DeviceAdded w.outcomes)
      (hqueue : w'.display.sStatusQueue = w.display.sStatusQueue)
      (hdevices : w'.spiDevices = w.spiDevices) : DisplayInit lcd w (.error e) w'
  | late {w' : InitWorld} (hadded : DeviceAdded w.outcomes)
      (hfailed : w.outcomes.xQueueCreate = false ∨ w.outcomes.xTaskCreate = false)
      (hqueue : w'.display.sStatusQueue = none)
      (hdevices : w'.spiDevices = w.spiDevices ++ [lcdDevice lcd]) :
      DisplayInit lcd w (.error .noMem) w'
  | started {w' : InitWorld} (hadded : DeviceAdded w.outcomes)
      (hqueue : w.outcomes.xQueueCreate = true) (htask : w.outcomes.xTaskCreate = true)
      (hdisplay : w'.display = pf2DisplayInitQueue w.display) (hopened : Opened lcd w'.lcd)
      (hpanel : w'.lcd.spi = (transmitAll (startTransfers lcd)
        { w.lcd with sLcd := some lcd, sLcdSpi := some w.spiDevices.length }).2.spi) :
      DisplayInit lcd w (.ok ()) w'

theorem sameStatics_transmitAll (ts : List Transfer) :
    Prog.Keeps SameStatics (transmitAll ts) := by
  induction ts with
  | nil => exact Prog.keeps_pure ()
  | cons t ts ih =>
    exact Prog.keeps_bind (Prog.keeps_bind (keeps_gpioSetLevelDc t.dc)
      fun _ => keeps_spiDeviceTransmit t.bytes) fun _ => ih

theorem startTask_eq (w : InitWorld) :
    startTask w =
      if w.outcomes.xQueueCreate = true ∧ w.outcomes.xTaskCreate = true then
        (.ok (), { w with
          sDisplayTask := true
          display := displayQueueState { w.display with
            sStatusQueue := some none
            sDisplayState.status := w.display.sStatus } })
      else (.error .noMem, { w with display.sStatusQueue := none }) := by
  obtain ⟨⟨_, _, _, queue, task⟩, _, _, _, _, _, _, _, _⟩ := w
  cases queue <;> cases task <;> rfl

/-- What follows the device ends as the queue and the task say, whatever became of the
commands. -/
theorem startDisplay_cases {lcd : Pf2LcdDesc} {w u : InitWorld} (hadded : DeviceAdded w.outcomes)
    (houtcomes : u.outcomes = w.outcomes)
    (hdisplay : u.display = { w.display with sStatus := .boot })
    (hlcd : u.lcd = { w.lcd with sLcd := some lcd, sLcdSpi := some w.spiDevices.length })
    (hdevices : u.spiDevices = w.spiDevices ++ [lcdDevice lcd]) :
    DisplayInit lcd w (startDisplay lcd u).1 (startDisplay lcd u).2 := by
  let v : InitWorld :=
    { u with
      pads := Function.update (Function.update u.pads lcd.rst false) lcd.rst true
      delayedMs := u.delayedMs + 20 + 120 }
  obtain ⟨ret, t, hpanel, hsent⟩ := startPanel_sends lcd v
  have hrun : startDisplay lcd u =
      startTask { t with pads := Function.update t.pads lcd.bl true } := by
    show (startPanel lcd >>= fun _ => gpioSetLevel lcd.bl true >>= fun _ => startTask) v = _
    rw [Prog.bind_ok hpanel]
    rfl
  have hcore := hsent.core
  have ht : t.outcomes = w.outcomes := hcore.outcomes.trans houtcomes
  have htdisplay : t.display = { w.display with sStatus := .boot } := hcore.display.trans hdisplay
  have htdevices : t.spiDevices = w.spiDevices ++ [lcdDevice lcd] :=
    hcore.spiDevices.trans hdevices
  have htlcd : t.lcd = (transmitAll (startTransfers lcd) u.lcd).2 := hsent.lcd
  rw [hrun, startTask_eq]
  dsimp only
  rw [ht]
  by_cases hstarted : w.outcomes.xQueueCreate = true ∧ w.outcomes.xTaskCreate = true
  · rw [if_pos hstarted]
    refine .started hadded hstarted.1 hstarted.2 ?_ ?_ ?_
    · rw [htdisplay]
      rfl
    · have hopened : Opened lcd u.lcd := by
        rw [hlcd]
        exact ⟨rfl, rfl⟩
      show Opened lcd t.lcd
      rw [htlcd]
      exact hopened.of_same (sameStatics_transmitAll (startTransfers lcd) u.lcd)
    · show t.lcd.spi = _
      rw [htlcd, hlcd]
  · rw [if_neg hstarted]
    refine .late hadded ?_ rfl htdevices
    rw [not_and_or, Bool.not_eq_true, Bool.not_eq_true] at hstarted
    exact hstarted

theorem openBus_eq (lcd : Pf2LcdDesc) (w : InitWorld) :
    openBus lcd w = match w.outcomes.spiBusInitialize with
      | .ok () => (.ok (), { w with spiBuses := w.spiBuses ++ [lcdBus lcd] })
      | .error .invalidState => (.ok (), w)
      | .error e => (.error e, w) := by
  have hattempt : Prog.attempt (spiBusInitialize (lcdBus lcd)) w =
      (.ok (spiBusInitialize (lcdBus lcd) w).1, (spiBusInitialize (lcdBus lcd) w).2) := rfl
  rw [openBus, Prog.bind_ok hattempt, spiBusInitialize, driver]
  cases w.outcomes.spiBusInitialize with
  | ok => rfl
  | error e => cases e <;> rfl

/-- The device and what follows it, from a state in which there is a bus. -/
theorem addDevice_cases {lcd : Pf2LcdDesc} {w v : InitWorld}
    (hcore : SameCore { w with display.sStatus := .boot } v)
    (hlcd : v.lcd = { w.lcd with sLcd := some lcd })
    (hbus : w.outcomes.spiBusInitialize = .ok () ∨
      w.outcomes.spiBusInitialize = .error .invalidState) :
    DisplayInit lcd w
      ((spiBusAddDevice (lcdDevice lcd) >>= fun _ => startDisplay lcd) v).1
      ((spiBusAddDevice (lcdDevice lcd) >>= fun _ => startDisplay lcd) v).2 := by
  have houtcomes : v.outcomes = w.outcomes := hcore.outcomes
  have hdevices : v.spiDevices = w.spiDevices := hcore.spiDevices
  cases hadd : w.outcomes.spiBusAddDevice with
  | error e =>
    have hrun : spiBusAddDevice (lcdDevice lcd) v = (.error e, v) := by
      rw [spiBusAddDevice, driver, houtcomes, hadd]
    rw [Prog.bind_error hrun]
    refine .early (fun h => ?_) (by rw [hcore.display]) hdevices
    rw [h.2] at hadd
    cases hadd
  | ok =>
    have hrun : spiBusAddDevice (lcdDevice lcd) v = (.ok (), { v with
        spiDevices := v.spiDevices ++ [lcdDevice lcd]
        lcd.sLcdSpi := some v.spiDevices.length }) := by
      rw [spiBusAddDevice, driver, houtcomes, hadd]
    rw [Prog.bind_ok hrun]
    refine startDisplay_cases ⟨hbus, hadd⟩ houtcomes hcore.display ?_ ?_
    · dsimp only
      rw [hlcd, hdevices]
    · dsimp only
      rw [hdevices]

/-- Whether or not the pads were configured, the bus is asked for next. -/
theorem pf2DisplayInit_eq (lcd : Pf2LcdDesc) (w : InitWorld) :
    ∃ u, pf2DisplayInit (some lcd) w =
      (openBus lcd >>= fun _ => spiBusAddDevice (lcdDevice lcd) >>= fun _ => startDisplay lcd) u ∧
      SameCore { w with display.sStatus := .boot } u ∧
      u.lcd = { w.lcd with sLcd := some lcd } := by
  refine ⟨(gpioConfigOutputs ((1#64 <<< lcd.dc.toNat) ||| (1#64 <<< lcd.rst.toNat) |||
    (1#64 <<< lcd.bl.toNat)) { w with lcd.sLcd := some lcd, display.sStatus := .boot }).2,
    rfl, ?_, ?_⟩
  · rw [gpioConfigOutputs, driver]
    split <;> exact ⟨rfl, rfl, rfl, rfl⟩
  · rw [gpioConfigOutputs, driver]
    split <;> rfl

theorem pf2DisplayInit_cases (lcd : Pf2LcdDesc) (w : InitWorld) :
    DisplayInit lcd w (pf2DisplayInit (some lcd) w).1 (pf2DisplayInit (some lcd) w).2 := by
  obtain ⟨u, hrun, hcore, hlcd⟩ := pf2DisplayInit_eq lcd w
  have houtcomes : u.outcomes = w.outcomes := hcore.outcomes
  have hopen := openBus_eq lcd u
  rw [hrun]
  cases hbus : w.outcomes.spiBusInitialize with
  | ok =>
    rw [houtcomes, hbus] at hopen
    rw [Prog.bind_ok hopen]
    have hcore' : SameCore u { u with
        outcomes := w.outcomes
        spiBuses := u.spiBuses ++ [lcdBus lcd] } := ⟨houtcomes.symm, rfl, rfl, rfl⟩
    exact addDevice_cases (trans_of SameCore hcore hcore') hlcd (.inl hbus)
  | error e =>
    rw [houtcomes, hbus] at hopen
    by_cases he : e = .invalidState
    · subst he
      rw [Prog.bind_ok hopen]
      exact addDevice_cases hcore hlcd (.inr hbus)
    · have hfail : openBus lcd u = (.error e, u) := by
        rw [hopen]
        cases e <;> first | rfl | exact absurd rfl he
      have hqueue : u.display.sStatusQueue = w.display.sStatusQueue := by rw [hcore.display]
      rw [Prog.bind_error hfail]
      refine .early (fun h => ?_) hqueue hcore.spiDevices
      rw [DeviceAdded, hbus] at h
      rcases h.1 with h | h
      · cases h
      · exact he (Except.error.inj h)

/-! ### Reports and undoing -/

/-- Every transfer of the start-up commands succeeds. -/
def CommandsSent (lcd : Pf2LcdDesc) (w : InitWorld) : Prop :=
  ∀ k < (startTransfers lcd).length, w.lcd.spi.outcomes (w.lcd.spi.transfers + k) = .done

/-- What the panel is sent is the list of start-up commands, and the variable of the
commands is `ESP_OK` exactly when all of them were sent. -/
theorem startPanel_ok_iff (lcd : Pf2LcdDesc) {v w : InitWorld} (hspi : v.lcd.spi = w.lcd.spi) :
    (startPanel lcd v).1 = .ok (.ok ()) ↔ CommandsSent lcd w := by
  obtain ⟨ret, v', hrun, hsent⟩ := startPanel_sends lcd v
  rw [hrun, CommandsSent, ← hspi, ← transmitAll_ok_iff, ← hsent.ret]
  simp

/-- No queue is installed, so later calls queue nothing, and no device is on the bus. -/
structure NothingLeft (w : InitWorld) : Prop where
  queue : w.display.sStatusQueue = none
  calls : ∀ call : DisplayCall, (call.run w.display).sStatusQueue = none
  devices : w.spiDevices = []

/-- The call returns `ESP_OK` exactly when everything it does succeeds, and leaves nothing
behind otherwise. The commands are those of `startPanel`, run with the SPI as it is in `w`. -/
structure ReportsAndUndoes (lcd : Pf2LcdDesc) (w : InitWorld) : Prop where
  commands : ∀ v : InitWorld, v.lcd.spi = w.lcd.spi →
    ((startPanel lcd v).1 = .ok (.ok ()) ↔ CommandsSent lcd w)
  ok_iff : (pf2DisplayInit (some lcd) w).1 = .ok () ↔
    DeviceAdded w.outcomes ∧ CommandsSent lcd w ∧ w.outcomes.xQueueCreate = true ∧
      w.outcomes.xTaskCreate = true
  undone : ∀ e, (pf2DisplayInit (some lcd) w).1 = .error e →
    NothingLeft (pf2DisplayInit (some lcd) w).2

/-- The state before the first call. -/
structure AtBoot (w : InitWorld) : Prop where
  queue : w.display.sStatusQueue = none
  devices : w.spiDevices = []

/-- A first call from boot reports and undoes exactly where the device cannot be added or
everything after it succeeds. A failed command is not reported, and a failed queue or task
leaves the device on the bus. -/
theorem reports_and_undoes_iff (lcd : Pf2LcdDesc) {w : InitWorld} (hboot : AtBoot w) :
    ReportsAndUndoes lcd w ↔ ¬ DeviceAdded w.outcomes ∨
      (CommandsSent lcd w ∧ w.outcomes.xQueueCreate = true ∧ w.outcomes.xTaskCreate = true) := by
  have hc := pf2DisplayInit_cases lcd w
  have hcalls : ∀ {d : DisplayStatics}, d.sStatusQueue = none →
      ∀ call : DisplayCall, (call.run d).sStatusQueue = none := by
    intro d hd call
    rw [(call.run_eq d).2, hd]
    rfl
  rcases hrun : pf2DisplayInit (some lcd) w with ⟨r, w'⟩
  rw [hrun] at hc
  cases hc with
  | @early e _ hadded hqueue hdevices =>
    have hnone := hqueue.trans hboot.queue
    refine ⟨fun _ => .inl hadded, fun _ => ⟨fun _ => startPanel_ok_iff lcd, ?_, fun _ _ => ?_⟩⟩
    · rw [hrun]
      exact ⟨fun h => (by cases h), fun h => absurd h.1 hadded⟩
    · rw [hrun]
      exact ⟨hnone, hcalls hnone, hdevices.trans hboot.devices⟩
  | late hadded hfailed hqueue hdevices =>
    constructor
    · -- the device is still there
      intro h
      have hleft := (h.undone .noMem (by rw [hrun])).devices
      rw [hrun, hdevices] at hleft
      simp at hleft
    · rintro (h | ⟨-, hq, ht⟩)
      · exact absurd hadded h
      · rw [hq, ht] at hfailed
        simp at hfailed
  | started hadded hqueue htask =>
    constructor
    · intro h
      exact .inr (h.ok_iff.mp (by rw [hrun])).2
    · rintro (h | h)
      · exact absurd hadded h
      · refine ⟨fun _ => startPanel_ok_iff lcd, ?_, fun e he => ?_⟩
        · rw [hrun]
          exact ⟨fun _ => ⟨hadded, h⟩, fun _ => rfl⟩
        · rw [hrun] at he
          cases he

/-! ### A first call on the StickS3 -/

/-- The StickS3 at boot, with every call of the drivers succeeding but those of the
changed `outcomes` and `transfers`. -/
def stickAtBoot (outcomes : InitOutcomes) (transfers : ℕ → SpiOutcome) : InitWorld where
  outcomes := outcomes
  display := bootStatics
  lcd := { darkStick with sLcd := none, sLcdSpi := none, spi.outcomes := transfers }
  sDisplayTask := false
  outputPads := []
  pads := fun _ => false
  delayedMs := 0
  spiBuses := []
  spiDevices := []

def allSucceed : InitOutcomes where
  gpioConfig := .ok ()
  spiBusInitialize := .ok ()
  spiBusAddDevice := .ok ()
  xQueueCreate := true
  xTaskCreate := true

/-- A software reset the panel never gets is not reported; where the task cannot be
started, the device stays. -/
theorem lost_reset_not_reported :
    ¬ ReportsAndUndoes stickS3Desc.lcd
        (stickAtBoot allSucceed fun n => if n = 0 then .failed (.driver 0x107) 0 else .done) ∧
      ¬ ReportsAndUndoes stickS3Desc.lcd
        (stickAtBoot { allSucceed with xTaskCreate := false } fun _ => .done) := by
  constructor
  · intro h
    have hsent := (h.ok_iff.mp rfl).2.1 0 (by decide)
    cases hsent
  · intro h
    have hleft := (h.undone .noMem rfl).devices
    cases hleft

theorem stick_reports_and_undoes :
    ReportsAndUndoes stickS3Desc.lcd (stickAtBoot allSucceed fun _ => .done) ∧
      ReportsAndUndoes stickS3Desc.lcd
        (stickAtBoot { allSucceed with spiBusAddDevice := .error .noMem } fun _ => .done) := by
  constructor
  · exact (reports_and_undoes_iff stickS3Desc.lcd ⟨rfl, rfl⟩).mpr (.inr ⟨fun _ _ => rfl, rfl, rfl⟩)
  · exact (reports_and_undoes_iff stickS3Desc.lcd ⟨rfl, rfl⟩).mpr (.inl fun h => by cases h.2)

end PicoFido2.Display
