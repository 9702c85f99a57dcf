import PicoFido2.M5boards.Calls
import PicoFido2.M5boards.Presence

/-! The ways an initialisation goes. The bus is created at most once; bringing up
the peripherals does not touch the three variables the presence code looks at;
and `pf2_user_presence_init` sets two of them before the bring-up and the third
after it. -/

namespace PicoFido2.M5boards

open Effect Hal Hardware

/-! ### The bus -/

def busConfig (board : BoardPtr) : I2cMasterBusConfig where
  sdaIoNum := board.desc.internalI2c.sda
  sclIoNum := board.desc.internalI2c.scl
  glitchIgnoreCnt := 7
  enableInternalPullup := true

/-- The state after a bus creation that succeeded. -/
def withBus (board : BoardPtr) (w : World) : World :=
  { w with
    hw := { w.hw.waited with buses := w.hw.waited.buses ++ [busConfig board] }
    m5board.sInternalI2c := some w.hw.waited.buses.length }

/-- Everything `pf2_m5_board_init_early` can do. -/
inductive InitEarly (board : BoardPtr) (w : World) : Except EspErr Unit → World → Prop where
  | already (hbus : w.m5board.sInternalI2c.isSome) : InitEarly board w (.ok ()) w
  | failed {f : Fault} (hbus : w.m5board.sInternalI2c = none) (hf : w.hw.outcome = .failed f) :
      InitEarly board w (.error f.err) { w with hw := w.hw.waited }
  | created (hbus : w.m5board.sInternalI2c = none) (hd : w.hw.outcome = .done) :
      InitEarly board w (.ok ()) (withBus board w)

section Selected

variable {cfg : Kconfig} {board : BoardPtr} (hb : pf2M5BoardGet cfg = some board)
include hb

theorem pf2M5BoardInitEarly_cases (w : World) :
    InitEarly board w (pf2M5BoardInitEarly cfg w).1 (pf2M5BoardInitEarly cfg w).2 := by
  unfold pf2M5BoardInitEarly
  rw [hb]
  dsimp only
  rw [Prog.bind_ok (Prog.get_apply w)]
  by_cases hbus : w.m5board.sInternalI2c.isSome
  · rw [if_pos hbus]
    exact .already hbus
  · have hnone : w.m5board.sInternalI2c = none := by simpa using hbus
    rw [if_neg hbus, Prog.bind_apply, hal_apply]
    cases ho : w.hw.outcome with
    | done => simp only [i2cNewMasterBus, driverCall, ho]; exact .created hnone ho
    | failed f => simp only [i2cNewMasterBus, driverCall, ho]; exact .failed hnone ho

theorem initEarly_of_bus {w : World} (hbus : w.m5board.sInternalI2c.isSome) :
    pf2M5BoardInitEarly cfg w = (.ok (), w) := by
  have hc := pf2M5BoardInitEarly_cases hb w
  rcases hr : pf2M5BoardInitEarly cfg w with ⟨r, w'⟩
  rw [hr] at hc
  cases hc with
  | already => rfl
  | failed hnone => rw [hnone] at hbus; simp at hbus
  | created hnone => rw [hnone] at hbus; simp at hbus

theorem initEarly_ok {w w' : World} (h : pf2M5BoardInitEarly cfg w = (.ok (), w')) :
    w'.m5board.sInternalI2c.isSome := by
  have hc := pf2M5BoardInitEarly_cases hb w
  rw [h] at hc
  cases hc with
  | already hbus => exact hbus
  | created => rfl

theorem initEarly_flags {w w' : World} {r : Except EspErr Unit}
    (h : pf2M5BoardInitEarly cfg w = (r, w')) :
    w'.m5board.sPm1Initialized = w.m5board.sPm1Initialized ∧ w'.presence = w.presence := by
  have hc := pf2M5BoardInitEarly_cases hb w
  rw [h] at hc
  cases hc <;> exact ⟨rfl, rfl⟩

/-- Where there is a bus, or its creation succeeds, the peripherals start from there. -/
theorem initPeripherals_of_early_ok {w w' : World} (h : pf2M5BoardInitEarly cfg w = (.ok (), w')) :
    pf2M5BoardInitPeripherals cfg w = pf2M5BoardInitPeripherals cfg w' := by
  have h' := initEarly_of_bus hb (initEarly_ok hb h)
  unfold pf2M5BoardInitPeripherals
  rw [hb]
  dsimp only
  rw [Prog.bind_ok h, Prog.bind_ok h']

theorem initPeripherals_of_early_error {w w' : World} {e : EspErr}
    (h : pf2M5BoardInitEarly cfg w = (.error e, w')) :
    pf2M5BoardInitPeripherals cfg w = (.error e, w') := by
  unfold pf2M5BoardInitPeripherals
  rw [hb]
  exact Prog.bind_error h _

end Selected

/-! ### What the bring-up leaves alone -/

/-- Kept by calls that let time pass and by what the bring-up assigns. -/
structure Spares (R : World → World → Prop) : Prop where
  hal : ∀ {α : Type} {x : Prog Hardware EspErr α},
    Prog.Keeps (Passes []) x → Prog.Keeps R (hal x)
  m5board : ∀ w m5board, R w { w with m5board := m5board }
  keyboard : ∀ w keyboard, R w { w with presence.sKeyboard := keyboard }

section Spares

variable {R : World → World → Prop} [IsPreorder World R] (hR : Spares R)
include hR

theorem keeps_initEarly (cfg : Kconfig) : Prog.Keeps R (pf2M5BoardInitEarly cfg) := by
  unfold pf2M5BoardInitEarly
  split
  · exact Prog.keeps_fail _
  · refine Prog.keeps_bind Prog.keeps_get fun _ => ?_
    split
    · exact Prog.keeps_pure ()
    · exact Prog.keeps_bind (hR.hal (passes_newMasterBus _)) fun _ =>
        Prog.keeps_modify fun w => hR.m5board w _

theorem keeps_pf2M5pm1Init (bus : Option ℕ) (addr : BitVec 8) :
    Prog.Keeps R (pf2M5pm1Init bus addr) := by
  refine Prog.keeps_bind (Prog.keeps_require _ _) fun _ => ?_
  refine Prog.keeps_bind (hR.hal (passes_addDevice _)) fun _ => ?_
  refine Prog.keeps_bind (Prog.keeps_modify fun w => hR.m5board w _) fun _ => ?_
  refine Prog.keeps_bind Prog.keeps_get fun _ => ?_
  exact Prog.keeps_bind (hR.hal (keeps_m5pm1ReadU8 stable_passes.toStableOffPm1 _ _)) fun _ =>
    Prog.keeps_pure ()

theorem keeps_registerPm1 (board : BoardPtr) : Prog.Keeps R (registerPm1 board) := by
  refine Prog.keeps_bind Prog.keeps_get fun w => ?_
  split
  · exact Prog.keeps_pure ()
  · exact Prog.keeps_bind (keeps_pf2M5pm1Init hR _ _) fun _ =>
      Prog.keeps_modify fun w => hR.m5board w _

theorem keeps_initPeripherals (cfg : Kconfig) : Prog.Keeps R (pf2M5BoardInitPeripherals cfg) := by
  have hout := fun ctx gpio level =>
    hR.hal (keeps_pf2M5pm1GpioSetOutput stable_passes ctx gpio level)
  unfold pf2M5BoardInitPeripherals
  split
  · exact Prog.keeps_fail _
  · refine Prog.keeps_bind (keeps_initEarly hR cfg) fun _ => ?_
    refine Prog.keeps_bind (Prog.keeps_onlyIf _ ?_) fun _ =>
      Prog.keeps_onlyIf _ (hR.hal (keeps_gpioConfig stable_passes.toStableOffPm1 _))
    refine Prog.keeps_bind (keeps_registerPm1 hR _) fun _ => ?_
    refine Prog.keeps_bind Prog.keeps_get fun _ => ?_
    exact Prog.keeps_bind (hout _ _ _) fun _ => hout _ _ _

theorem keeps_pf2Tca8418Init (bus : Option ℕ) (addr : BitVec 8) (intGpio : GpioNum) :
    Prog.Keeps R (pf2Tca8418Init bus addr intGpio) := by
  refine Prog.keeps_bind (Prog.keeps_require _ _) fun _ => ?_
  refine Prog.keeps_bind (hR.hal (passes_addDevice _)) fun _ => ?_
  refine Prog.keeps_bind (Prog.keeps_modify fun w => hR.keyboard w _) fun _ => ?_
  exact Prog.keeps_bind Prog.keeps_get fun _ =>
    hR.hal (keeps_tca8418Configure stable_passes.toStableOffPm1 _)

theorem keeps_presenceBringUp (cfg : Kconfig) (board : BoardPtr) :
    Prog.Keeps R (presenceBringUp cfg board) := by
  refine Prog.keeps_bind (keeps_initPeripherals hR cfg) fun _ => Prog.keeps_onlyIf _ ?_
  exact Prog.keeps_bind Prog.keeps_get fun _ => keeps_pf2Tca8418Init hR _ _ _

end Spares

/-- The variables the presence code decides by. -/
structure SamePresence (w w' : World) : Prop where
  sBoard : w'.presence.sBoard = w.presence.sBoard
  sGpioLastPressed : w'.presence.sGpioLastPressed = w.presence.sGpioLastPressed
  sPresenceInitialized : w'.presence.sPresenceInitialized = w.presence.sPresenceInitialized

instance : IsPreorder World SamePresence where
  refl _ := ⟨rfl, rfl, rfl⟩
  trans _ _ _ a b := ⟨b.sBoard.trans a.sBoard, b.sGpioLastPressed.trans a.sGpioLastPressed,
    b.sPresenceInitialized.trans a.sPresenceInitialized⟩

theorem spares_samePresence : Spares SamePresence where
  hal _ _ := ⟨rfl, rfl, rfl⟩
  m5board _ _ := ⟨rfl, rfl, rfl⟩
  keyboard _ _ := ⟨rfl, rfl, rfl⟩

/-- Time passes and no event leaves the queue. -/
def Elapses (w w' : World) : Prop := Passes [] w.hw w'.hw

instance : IsPreorder World Elapses where
  refl w := refl_of (Passes []) w.hw
  trans _ _ _ a b := trans_of (Passes []) a b

theorem spares_elapses : Spares Elapses where
  hal hx := Prog.keeps_zoom hx fun _ _ h => h
  m5board w _ := refl_of (Passes []) w.hw
  keyboard w _ := refl_of (Passes []) w.hw

/-! ### Samples -/

section Sample

variable {R : Hardware → Hardware → Prop} [IsPreorder Hardware R]
  (hw : ∀ h : Hardware, R h h.waited)
include hw

theorem onlyHw_gpioIsPressed (gpio : GpioNum) (activeLow : Bool) (w : World) :
    OnlyHw R w (gpioIsPressed gpio activeLow w).2 := by
  unfold gpioIsPressed
  split
  · exact refl_of _ w
  · exact ⟨hw w.hw, rfl, rfl, rfl⟩

theorem onlyHw_keysPressed (board : BoardPtr) (w : World) :
    OnlyHw R w (keysPressed board w).2 := by
  have ha := onlyHw_gpioIsPressed hw board.desc.userInput.gpioA board.desc.userInput.activeLow w
  unfold keysPressed
  rcases hr : gpioIsPressed board.desc.userInput.gpioA board.desc.userInput.activeLow w with
    ⟨b | b, w'⟩
  · rw [hr] at ha
    exact trans_of _ ha (onlyHw_gpioIsPressed hw _ _ w')
  · rw [hr] at ha
    exact ha

end Sample

/-! ### `pf2_user_presence_init` -/

/-- What is assigned before the bring-up. -/
def selected (board : BoardPtr) (w : World) : World :=
  { w with presence.sBoard := some board, presence.sGpioLastPressed := false }

/-- What is assigned after it, with the sample of a board with keys on pads. -/
def finished (board : BoardPtr) (w : World) : World :=
  match board.desc.userInput.type with
  | .tca8418 => { w with presence.sPresenceInitialized := true }
  | .gpio =>
    { (keysPressed board w).2 with
      presence.sGpioLastPressed := (keysPressed board w).1
      presence.sPresenceInitialized := true }

theorem finished_hw {R : Hardware → Hardware → Prop} [IsPreorder Hardware R]
    (hw : ∀ h : Hardware, R h h.waited) (board : BoardPtr) (w : World) :
    R w.hw (finished board w).hw := by
  unfold finished
  split
  · exact refl_of R w.hw
  · exact (onlyHw_keysPressed hw board w).hw

section Finished

variable (board : BoardPtr) (w : World)

theorem finished_m5board : (finished board w).m5board = w.m5board := by
  unfold finished
  split
  · rfl
  · exact (onlyHw_keysPressed Hardware.sameChips_waited board w).m5board

theorem finished_sBoard : (finished board w).presence.sBoard = w.presence.sBoard := by
  unfold finished
  split
  · rfl
  · simp [(onlyHw_keysPressed Hardware.sameChips_waited board w).presence]

theorem finished_initialized : (finished board w).presence.sPresenceInitialized = true := by
  unfold finished
  split <;> rfl

end Finished

/-- The early exit of `pf2_user_presence_init`. -/
def alreadyInitialized (board : BoardPtr) (w : World) : Bool :=
  w.presence.sPresenceInitialized && w.presence.sBoard == some board

theorem alreadyInitialized_iff {board : BoardPtr} {w : World} :
    alreadyInitialized board w ↔
      w.presence.sPresenceInitialized ∧ w.presence.sBoard = some board := by
  simp [alreadyInitialized]

/-- Everything `pf2_user_presence_init` can do. -/
inductive UserInit (cfg : Kconfig) (w : World) :
    Option BoardPtr → Except EspErr Unit → World → Prop where
  | noBoard : UserInit cfg w none (.error .invalidArg) w
  | already {board : BoardPtr} (ha : alreadyInitialized board w) :
      UserInit cfg w (some board) (.ok ()) w
  | failed {board : BoardPtr} {e : EspErr} {w' : World} (ha : ¬ alreadyInitialized board w)
      (hr : presenceBringUp cfg board (selected board w) = (.error e, w')) :
      UserInit cfg w (some board) (.error e) w'
  | done {board : BoardPtr} {w' : World} (ha : ¬ alreadyInitialized board w)
      (hr : presenceBringUp cfg board (selected board w) = (.ok (), w')) :
      UserInit cfg w (some board) (.ok ()) (finished board w')

theorem pf2UserPresenceInit_cases (cfg : Kconfig) (board : Option BoardPtr) (w : World) :
    UserInit cfg w board (pf2UserPresenceInit cfg board w).1
      (pf2UserPresenceInit cfg board w).2 := by
  cases board with
  | none => exact .noBoard
  | some board =>
    unfold pf2UserPresenceInit
    dsimp only
    rw [Prog.bind_ok (Prog.get_apply w)]
    by_cases ha : alreadyInitialized board w
    · rw [if_pos (by simpa [alreadyInitialized] using ha)]
      exact .already ha
    · rw [if_neg (by simpa [alreadyInitialized] using ha), Prog.bind_ok (Prog.modify_apply _ w)]
      change UserInit cfg w (some board)
        ((presenceBringUp cfg board >>= _) (selected board w)).1
        ((presenceBringUp cfg board >>= _) (selected board w)).2
      rcases hr : presenceBringUp cfg board (selected board w) with ⟨e | ⟨⟩, w'⟩
      · rw [Prog.bind_error hr]
        exact .failed ha hr
      · rw [Prog.bind_ok hr]
        have hdone := UserInit.done ha hr
        unfold finished at hdone
        cases ht : board.desc.userInput.type with
        | tca8418 => rw [ht] at hdone; exact hdone
        | gpio => rw [ht] at hdone; exact hdone

theorem UserInit.of_eq {cfg : Kconfig} {board : Option BoardPtr} {w w' : World}
    {r : Except EspErr Unit} (h : pf2UserPresenceInit cfg board w = (r, w')) :
    UserInit cfg w board r w' := by
  have hc := pf2UserPresenceInit_cases cfg board w
  rw [h] at hc
  exact hc

end PicoFido2.M5boards
