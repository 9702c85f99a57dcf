import Mathlib.Data.List.Count
import PicoFido2.M5boards.BringUp
import PicoFido2.Transition.Path

/-! Registrations on the internal bus. The bus is created at most once. The one
chip of a board is added before the transfers that can still fail, and the flag
that keeps it from being added again is raised after them, so a retry adds a
second handle exactly when the chip is on the bus and its flag still down. -/

namespace PicoFido2.M5boards

open Effect Hal Transition

/-! ### Books -/

/-- The buses created and the devices added. -/
structure SameBooks (h k : Hardware) : Prop where
  buses : k.buses = h.buses
  devices : k.devices = h.devices

instance : IsPreorder Hardware SameBooks where
  refl _ := ⟨rfl, rfl⟩
  trans _ _ _ a b := ⟨b.buses.trans a.buses, b.devices.trans a.devices⟩

theorem stable_sameBooks : Stable SameBooks where
  waited h := ⟨(Hardware.sameChips_waited h).buses, (Hardware.sameChips_waited h).devices⟩
  pm1 _ _ _ _ := ⟨rfl, rfl⟩
  tca _ _ taken _ := by cases taken <;> exact ⟨rfl, rfl⟩
  pads _ _ := ⟨rfl, rfl⟩

/-- The devices in `new` were added to the bus, which is the same. -/
structure Adds (new : List I2cDeviceConfig) (w w' : World) : Prop where
  buses : w'.hw.buses = w.hw.buses
  devices : w'.hw.devices = w.hw.devices ++ new
  bus : w'.m5board.sInternalI2c = w.m5board.sInternalI2c
  pm1 : w.m5board.sPm1Initialized → w'.m5board.sPm1Initialized

theorem Adds.trans {a b : List I2cDeviceConfig} {u v w : World} (h : Adds a u v) (k : Adds b v w) :
    Adds (a ++ b) u w :=
  ⟨k.buses.trans h.buses, by rw [k.devices, h.devices, List.append_assoc], k.bus.trans h.bus,
    fun hu => k.pm1 (h.pm1 hu)⟩

instance : IsPreorder World (Adds []) where
  refl _ := ⟨rfl, (List.append_nil _).symm, rfl, id⟩
  trans _ _ _ h k := h.trans k

theorem adds_of_onlyHw {w w' : World} (h : OnlyHw SameBooks w w') : Adds [] w w' :=
  ⟨h.hw.buses, by rw [h.hw.devices, List.append_nil], by rw [h.m5board],
    by rw [h.m5board]; exact id⟩

theorem adds_hal {α : Type} {x : Prog Hardware EspErr α} (hx : Prog.Keeps SameBooks x) :
    Prog.Keeps (Adds []) (hal x) := (keeps_hal hx).mono fun _ _ => adds_of_onlyHw

theorem adds_bind {α β : Type} {x : Prog World EspErr α} {f : α → Prog World EspErr β}
    {new : List I2cDeviceConfig} {w : World} (hx : Adds new w (x w).2)
    (hf : ∀ a, Prog.Keeps (Adds []) (f a)) : Adds new w ((x >>= f) w).2 := by
  rw [Prog.bind_apply]
  rcases hr : x w with ⟨e | a, w'⟩
  · rw [hr] at hx; exact hx
  · rw [hr] at hx
    have h := hx.trans (hf a w')
    rw [List.append_nil] at h
    exact h

/-! ### One registration -/

/-- What a registration that is the next hardware call adds. -/
def attempt (dev : I2cDeviceConfig) (h : Hardware) : List I2cDeviceConfig :=
  if h.outcome = .done then [dev] else []

theorem addDevice_adds (dev : I2cDeviceConfig) (w : World) :
    Adds (attempt dev w.hw) w (hal (i2cMasterBusAddDevice dev) w).2 := by
  have hs := stable_sameBooks.waited w.hw
  rw [hal_apply]
  unfold i2cMasterBusAddDevice driverCall attempt
  cases ho : w.hw.outcome with
  | done => exact ⟨hs.buses, by simp [hs.devices], rfl, id⟩
  | failed f => exact ⟨hs.buses, by simp [hs.devices], rfl, id⟩

theorem adds_rename {f : World → World} (h : ∀ w, (f w).hw = w.hw ∧
    (f w).m5board.sInternalI2c = w.m5board.sInternalI2c ∧
    (f w).m5board.sPm1Initialized = w.m5board.sPm1Initialized) :
    Prog.Keeps (Adds []) (Prog.modify f : Prog World EspErr Unit) := by
  intro w
  obtain ⟨hhw, hbus, hpm1⟩ := h w
  refine ⟨?_, ?_, hbus, ?_⟩
  · rw [Prog.modify_apply, hhw]
  · rw [Prog.modify_apply, hhw, List.append_nil]
  · rw [Prog.modify_apply, hpm1]; exact id

/-- The configuration a chip at `addr` is added with. -/
def chipAt (addr : BitVec 8) : I2cDeviceConfig := { deviceAddress := addr, sclSpeedHz := 400000 }

theorem pf2M5pm1Init_adds {bus : Option ℕ} {addr : BitVec 8} (hv : (bus.isSome && addr != 0) = true)
    (w : World) : Adds (attempt (chipAt addr) w.hw) w (pf2M5pm1Init bus addr w).2 := by
  unfold pf2M5pm1Init
  rw [Prog.require_bind, if_pos hv]
  refine adds_bind (addDevice_adds _ w) fun dev => ?_
  refine Prog.keeps_bind (adds_rename fun _ => ⟨rfl, rfl, rfl⟩) fun _ => ?_
  refine Prog.keeps_bind Prog.keeps_get fun _ => ?_
  exact Prog.keeps_bind (adds_hal (keeps_m5pm1ReadU8 stable_sameBooks.toStableOffPm1 _ _)) fun _ =>
    Prog.keeps_pure ()

theorem pf2Tca8418Init_adds {bus : Option ℕ} {addr : BitVec 8}
    (hv : (bus.isSome && addr != 0) = true) (intGpio : GpioNum) (w : World) :
    Adds (attempt (chipAt addr) w.hw) w (pf2Tca8418Init bus addr intGpio w).2 := by
  unfold pf2Tca8418Init
  rw [Prog.require_bind, if_pos hv]
  refine adds_bind (addDevice_adds _ w) fun dev => ?_
  refine Prog.keeps_bind (adds_rename fun _ => ⟨rfl, rfl, rfl⟩) fun _ => ?_
  exact Prog.keeps_bind Prog.keeps_get fun _ =>
    adds_hal (keeps_tca8418Configure stable_sameBooks.toStableOffPm1 _)

/-! ### The two boards -/

/-- The one chip of the board the firmware adds to the bus. -/
def chip (board : BoardPtr) : I2cDeviceConfig :=
  match board.desc.id with
  | .stickS3 => chipAt board.desc.pm1.i2cAddr
  | _ => chipAt board.desc.userInput.tca8418Addr

/-- The flag that keeps the chip from being added again. -/
def guarded (board : BoardPtr) (w : World) : Bool :=
  match board.desc.id with
  | .stickS3 => w.m5board.sPm1Initialized
  | _ => w.presence.sPresenceInitialized

theorem registerPm1_adds {board : BoardPtr} (ha : board.desc.pm1.i2cAddr ≠ 0) {w : World}
    (hbus : w.m5board.sInternalI2c.isSome) :
    Adds (if w.m5board.sPm1Initialized then [] else attempt (chipAt board.desc.pm1.i2cAddr) w.hw) w
      (registerPm1 board w).2 := by
  unfold registerPm1
  rw [Prog.bind_ok (Prog.get_apply w)]
  split
  · exact refl_of (Adds []) w
  · refine adds_bind (pf2M5pm1Init_adds (by simpa [hbus] using ha) w) fun _ => ?_
    exact fun _ => ⟨rfl, by simp [Prog.modify_apply], rfl, fun _ => rfl⟩

theorem registerPm1_ok {board : BoardPtr} {w w' : World} (h : registerPm1 board w = (.ok (), w')) :
    w'.m5board.sPm1Initialized := by
  unfold registerPm1 at h
  rw [Prog.bind_ok (Prog.get_apply w)] at h
  split at h
  · rename_i hflag
    rw [Prog.pure_apply] at h
    cases h
    exact hflag
  · obtain ⟨_, u, -, hset⟩ := Prog.of_bind_ok h
    rw [Prog.modify_apply] at hset
    cases hset
    rfl

section Selected

variable {cfg : Kconfig} {board : BoardPtr} (hb : pf2M5BoardGet cfg = some board)
include hb

/-- With the bus there, the peripherals add the PM1 of a stick whose flag is down. -/
theorem initPeripherals_adds {w : World} (hbus : w.m5board.sInternalI2c.isSome) :
    Adds (if board.desc.id = .stickS3 ∧ ¬ guarded board w then attempt (chip board) w.hw else []) w
      (pf2M5BoardInitPeripherals cfg w).2 := by
  unfold pf2M5BoardInitPeripherals
  rw [hb]
  dsimp only
  rw [Prog.bind_ok (initEarly_of_bus hb hbus)]
  have hrest : ∀ _ : Unit, Prog.Keeps (Adds []) (Prog.onlyIf (board.desc.userInput.type = .gpio)
      (hal (gpioConfig (presenceGpioConfig board)))) := fun _ =>
    (keeps_presencePads stable_sameBooks.toStableOffPm1 board).mono fun _ _ => adds_of_onlyHw
  rcases pf2M5BoardGet_cases hb with rfl | rfl
  · exact adds_bind (refl_of (Adds []) w) hrest
  · refine adds_bind (adds_bind ?_ fun _ => ?_) hrest
    · have haddr : (⟨2, stickS3Desc⟩ : BoardPtr).desc.pm1.i2cAddr ≠ 0 := by decide
      have h := registerPm1_adds haddr hbus
      have hif : (if (⟨2, stickS3Desc⟩ : BoardPtr).desc.id = .stickS3 ∧
          ¬ guarded ⟨2, stickS3Desc⟩ w then attempt (chip ⟨2, stickS3Desc⟩) w.hw else []) =
          if w.m5board.sPm1Initialized then []
          else attempt (chipAt stickS3Desc.pm1.i2cAddr) w.hw := by
        cases hf : w.m5board.sPm1Initialized <;> simp [guarded, chip, hf, stickS3Desc]
      rw [hif]
      exact h
    · exact (keeps_drivePm1Pins stable_sameBooks _).mono fun _ _ => adds_of_onlyHw

theorem initPeripherals_ok (hid : board.desc.id = .stickS3) {w w' : World}
    (h : pf2M5BoardInitPeripherals cfg w = (.ok (), w')) : w'.m5board.sPm1Initialized := by
  unfold pf2M5BoardInitPeripherals at h
  rw [hb] at h
  obtain ⟨⟨⟩, u, -, h⟩ := Prog.of_bind_ok h
  obtain ⟨⟨⟩, v, hstick, h⟩ := Prog.of_bind_ok h
  rw [Prog.onlyIf_pos hid] at hstick
  obtain ⟨⟨⟩, t, hreg, hdrive⟩ := Prog.of_bind_ok hstick
  have hflag := registerPm1_ok hreg
  have hkeep := keeps_drivePm1Pins stable_sameBooks board t
  rw [hdrive] at hkeep
  have hrest : OnlyHw SameBooks v w' := by
    have hk := keeps_presencePads stable_sameBooks.toStableOffPm1 board v
    rw [h] at hk
    exact hk
  rw [hrest.m5board, hkeep.m5board]
  exact hflag

/-- With the bus there, the bring-up adds the board's chip unless the stick's flag is up. -/
theorem presenceBringUp_adds {w : World} (hbus : w.m5board.sInternalI2c.isSome) :
    Adds (if board.desc.id = .stickS3 ∧ w.m5board.sPm1Initialized then []
      else attempt (chip board) w.hw) w (presenceBringUp cfg board w).2 := by
  have hp := initPeripherals_adds hb hbus
  unfold presenceBringUp
  rcases pf2M5BoardGet_cases hb with rfl | rfl
  · -- nothing to do on the bus before the keyboard is added
    have hskip : pf2M5BoardInitPeripherals cfg w = (.ok (), w) := by
      unfold pf2M5BoardInitPeripherals
      rw [hb]
      dsimp only
      rw [Prog.bind_ok (initEarly_of_bus hb hbus)]
      rfl
    rw [Prog.bind_ok hskip]
    exact pf2Tca8418Init_adds (by simp [hbus, cardputerAdvDesc]) _ w
  · refine adds_bind ?_ fun _ => Prog.keeps_pure ()
    cases hf : w.m5board.sPm1Initialized <;> simp [guarded, hf, stickS3Desc] at hp ⊢ <;> exact hp

end Selected

/-! ### One call -/

/-- The calls that initialise; `pf2_user_presence_init` gets the board or `NULL`. -/
inductive InitCall where
  | presenceInit
  | userPresenceInit (given : Bool)
  | initEarly
  | initPeripherals
  deriving DecidableEq, Repr

def InitCall.run (cfg : Kconfig) (board : BoardPtr) : InitCall → Prog World EspErr Unit
  | presenceInit => picoFido2PresenceInit cfg
  | userPresenceInit given => pf2UserPresenceInit cfg (if given then some board else none)
  | initEarly => pf2M5BoardInitEarly cfg
  | initPeripherals => pf2M5BoardInitPeripherals cfg

/-- The call gets to the registration of the board's chip, if its flag is down. -/
def InitCall.reaches (board : BoardPtr) : InitCall → Bool
  | presenceInit => true
  | userPresenceInit given => given
  | initEarly => false
  | initPeripherals => board.desc.id = .stickS3

/-- What the books and the flags agree on. -/
structure Ledger (board : BoardPtr) (w : World) : Prop where
  bus : w.hw.buses.length = if w.m5board.sInternalI2c.isSome then 1 else 0
  noBus : w.m5board.sInternalI2c = none → w.hw.devices = []
  chips : ∀ d ∈ w.hw.devices, d = chip board
  flags : w.presence.sPresenceInitialized → w.presence.sBoard = some board ∧ guarded board w

/-- The books moved as one registration moves them, which was the next hardware
call where the bus was there and it was due. -/
structure Enrols (board : BoardPtr) (due : Bool) (w w' : World) : Prop where
  bus : w'.hw.buses.length = if w'.m5board.sInternalI2c.isSome then 1 else 0
  noBus : w'.m5board.sInternalI2c = none → w'.hw.devices = []
  added : w'.hw.devices = w.hw.devices ∨ w'.hw.devices = w.hw.devices ++ [chip board]
  due : w.m5board.sInternalI2c.isSome →
    w'.hw.devices = w.hw.devices ++ if due then attempt (chip board) w.hw else []
  pm1 : w.m5board.sPm1Initialized → w'.m5board.sPm1Initialized

section OneCall

variable {cfg : Kconfig} {board : BoardPtr}

theorem enrols_of_adds {due : Bool} {w w' : World} (hl : Ledger board w)
    (hbus : w.m5board.sInternalI2c.isSome)
    (h : Adds (if due then attempt (chip board) w.hw else []) w w') : Enrols board due w w' where
  bus := by rw [h.buses, h.bus]; exact hl.bus
  noBus hnone := by rw [h.bus] at hnone; rw [hnone] at hbus; simp at hbus
  added := by
    rw [h.devices]
    unfold attempt
    split
    · split <;> simp
    · simp
  due _ := h.devices
  pm1 := h.pm1

theorem ledger_withBus {w : World} (hl : Ledger board w) (hnone : w.m5board.sInternalI2c = none) :
    Ledger board (withBus board w) where
  bus := by
    have h := hl.bus
    rw [hnone] at h
    simp only [withBus, List.length_append, (stable_sameBooks.waited w.hw).buses, h]
    rfl
  noBus h := by simp [withBus] at h
  chips := by rw [show (withBus board w).hw.devices = w.hw.devices from
    (stable_sameBooks.waited w.hw).devices]; exact hl.chips
  flags := hl.flags

/-- A call that starts by seeing to the bus enrols as it does once the bus is there. -/
theorem enrols_of_early (hb : pf2M5BoardGet cfg = some board) {x : Prog World EspErr Unit}
    {due : Bool} {w : World} (hl : Ledger board w)
    (herr : ∀ e w', pf2M5BoardInitEarly cfg w = (.error e, w') → x w = (.error e, w'))
    (hok : ∀ w', pf2M5BoardInitEarly cfg w = (.ok (), w') → x w = x w')
    (hx : ∀ w', pf2M5BoardInitEarly cfg w = (.ok (), w') →
      Adds (if due then attempt (chip board) w'.hw else []) w' (x w').2) :
    Enrols board due w (x w).2 := by
  have hc := pf2M5BoardInitEarly_cases hb w
  rcases hr : pf2M5BoardInitEarly cfg w with ⟨r, w'⟩
  rw [hr] at hc
  cases hc with
  | already hbus => exact enrols_of_adds hl hbus (hx _ hr)
  | failed hnone _ =>
    have hs := stable_sameBooks.waited w.hw
    rw [herr _ _ hr]
    refine ⟨?_, fun _ => ?_, .inl hs.devices, fun h => ?_, id⟩
    · rw [hs.buses]; exact hl.bus
    · rw [hs.devices]; exact hl.noBus hnone
    · rw [hnone] at h; simp at h
  | created hnone _ =>
    have hdev : (withBus board w).hw.devices = w.hw.devices :=
      (stable_sameBooks.waited w.hw).devices
    have h := enrols_of_adds (ledger_withBus hl hnone) rfl (hx _ hr)
    rw [hok _ hr]
    refine ⟨h.bus, h.noBus, ?_, fun h' => ?_, h.pm1⟩
    · rw [← hdev]; exact h.added
    · rw [hnone] at h'; simp at h'

section Selected

variable (hb : pf2M5BoardGet cfg = some board)
include hb

theorem guarded_initEarly {w w' : World} {r : Except EspErr Unit}
    (h : pf2M5BoardInitEarly cfg w = (r, w')) : guarded board w' = guarded board w := by
  obtain ⟨hpm1, hpres⟩ := initEarly_flags hb h
  unfold guarded
  rw [hpm1, hpres]

theorem initEarly_enrols {w : World} (hl : Ledger board w) :
    Enrols board false w (pf2M5BoardInitEarly cfg w).2 := by
  refine enrols_of_early hb hl (fun _ _ h => h) (fun w' h => ?_) fun w' h => ?_
  · rw [h, initEarly_of_bus hb (initEarly_ok hb h)]
  · rw [initEarly_of_bus hb (initEarly_ok hb h)]
    exact refl_of (Adds []) w'

theorem initPeripherals_enrols {w : World} (hl : Ledger board w) :
    Enrols board (board.desc.id = .stickS3 && !guarded board w) w
      (pf2M5BoardInitPeripherals cfg w).2 := by
  refine enrols_of_early hb hl (fun _ _ => initPeripherals_of_early_error hb)
    (fun _ => initPeripherals_of_early_ok hb) fun w' h => ?_
  have ha := initPeripherals_adds hb (initEarly_ok hb h)
  rw [guarded_initEarly hb h] at ha
  simpa using ha

theorem presenceBringUp_of_early_ok {w w' : World} (h : pf2M5BoardInitEarly cfg w = (.ok (), w')) :
    presenceBringUp cfg board w = presenceBringUp cfg board w' := by
  unfold presenceBringUp
  rw [Prog.bind_apply, Prog.bind_apply, initPeripherals_of_early_ok hb h]

theorem presenceBringUp_of_early_error {w w' : World} {e : EspErr}
    (h : pf2M5BoardInitEarly cfg w = (.error e, w')) :
    presenceBringUp cfg board w = (.error e, w') :=
  Prog.bind_error (initPeripherals_of_early_error hb h) _

/-- Until the presence code is initialised, the stick's flag is the only thing that
keeps its bring-up from registering the chip. -/
theorem presenceBringUp_enrols {w : World} (hl : Ledger board w)
    (hni : w.presence.sPresenceInitialized = false) :
    Enrols board (!guarded board w) w (presenceBringUp cfg board w).2 := by
  refine enrols_of_early hb hl (fun _ _ => presenceBringUp_of_early_error hb)
    (fun _ => presenceBringUp_of_early_ok hb) fun w' h => ?_
  have ha := presenceBringUp_adds hb (initEarly_ok hb h)
  rw [(initEarly_flags hb h).1] at ha
  rcases pf2M5BoardGet_cases hb with rfl | rfl
  · simpa [guarded, hni, cardputerAdvDesc] using ha
  · cases hf : w.m5board.sPm1Initialized <;> simpa [guarded, hf, stickS3Desc] using ha

theorem presenceBringUp_ok_pm1 (hid : board.desc.id = .stickS3) {w w' : World}
    (h : presenceBringUp cfg board w = (.ok (), w')) : w'.m5board.sPm1Initialized := by
  obtain ⟨⟨⟩, u, hp, hrest⟩ := Prog.of_bind_ok h
  have hu := initPeripherals_ok hb hid hp
  rcases pf2M5BoardGet_cases hb with rfl | rfl
  · cases hid
  · rw [Prog.onlyIf_neg (by decide), Prog.pure_apply] at hrest
    cases hrest
    exact hu

end Selected

theorem Enrols.ledger {due : Bool} {w w' : World} (hl : Ledger board w) (h : Enrols board due w w')
    (hflags : w'.presence.sPresenceInitialized →
      w'.presence.sBoard = some board ∧ guarded board w') : Ledger board w' where
  bus := h.bus
  noBus := h.noBus
  chips d hd := by
    rcases h.added with he | he
    · rw [he] at hd; exact hl.chips d hd
    · rw [he, List.mem_append, List.mem_singleton] at hd
      exact hd.elim (hl.chips d) id
  flags := hflags

/-- A call that leaves the presence code's flags alone keeps what they say. -/
theorem Enrols.ledger_of_same {due : Bool} {w w' : World} (hl : Ledger board w)
    (h : Enrols board due w w') (hs : SamePresence w w') : Ledger board w' := by
  refine h.ledger hl fun hi => ?_
  rw [hs.sPresenceInitialized] at hi
  obtain ⟨hsb, hg⟩ := hl.flags hi
  refine ⟨hs.sBoard.trans hsb, ?_⟩
  unfold guarded at hg ⊢
  split at hg
  · exact h.pm1 hg
  · rw [hs.sPresenceInitialized]; exact hg

theorem enrols_refl {w : World} (hl : Ledger board w) : Enrols board false w w :=
  ⟨hl.bus, hl.noBus, .inl rfl, fun _ => (List.append_nil _).symm, id⟩

/-- The end of a successful initialisation leaves the books alone. -/
theorem Enrols.finished {due : Bool} {w u : World} (h : Enrols board due w u) :
    Enrols board due w (finished board u) := by
  have hbooks := finished_hw stable_sameBooks.waited board u
  have hm5 := finished_m5board board u
  refine ⟨?_, ?_, ?_, ?_, ?_⟩
  · rw [hbooks.buses, hm5]; exact h.bus
  · rw [hbooks.devices, hm5]; exact h.noBus
  · rw [hbooks.devices]; exact h.added
  · rw [hbooks.devices]; exact h.due
  · rw [hm5]; exact h.pm1

theorem guarded_finished (hb : pf2M5BoardGet cfg = some board) {w u : World}
    (h : presenceBringUp cfg board w = (.ok (), u)) : guarded board (finished board u) := by
  unfold guarded
  split
  · rename_i hid
    rw [finished_m5board board u]
    exact presenceBringUp_ok_pm1 hb hid h
  · exact finished_initialized board u

theorem userPresenceInit_enrols (hb : pf2M5BoardGet cfg = some board) {w : World}
    (hl : Ledger board w) :
    Enrols board (!guarded board w) w (pf2UserPresenceInit cfg (some board) w).2 ∧
      Ledger board (pf2UserPresenceInit cfg (some board) w).2 := by
  have hc := pf2UserPresenceInit_cases cfg (some board) w
  rcases hr : pf2UserPresenceInit cfg (some board) w with ⟨r, w'⟩
  rw [hr] at hc
  -- before the flags are up, the call enrols as its bring-up does
  have hbring : ¬ alreadyInitialized board w →
      Ledger board (selected board w) ∧ (selected board w).presence.sPresenceInitialized = false ∧
      Enrols board (!guarded board w) w (presenceBringUp cfg board (selected board w)).2 := by
    intro ha
    have hni : w.presence.sPresenceInitialized = false := by
      cases hi : w.presence.sPresenceInitialized
      · rfl
      · exact absurd (alreadyInitialized_iff.mpr ⟨hi, (hl.flags hi).1⟩) ha
    have hsel : Ledger board (selected board w) :=
      ⟨hl.bus, hl.noBus, hl.chips, fun hi => by simp [selected, hni] at hi⟩
    have he := presenceBringUp_enrols hb hsel hni
    exact ⟨hsel, hni, he.bus, he.noBus, he.added, he.due, he.pm1⟩
  cases hc with
  | already ha =>
    rw [(hl.flags (alreadyInitialized_iff.mp ha).1).2]
    exact ⟨enrols_refl hl, hl⟩
  | failed ha hf =>
    obtain ⟨hsel, hni, he⟩ := hbring ha
    have hs := keeps_presenceBringUp spares_samePresence cfg board (selected board w)
    rw [hf] at he hs
    refine ⟨he, he.ledger hl fun hi => ?_⟩
    rw [hs.sPresenceInitialized, hni] at hi
    simp at hi
  | @done _ u ha hd =>
    obtain ⟨hsel, hni, he⟩ := hbring ha
    have hs := keeps_presenceBringUp spares_samePresence cfg board (selected board w)
    rw [hd] at he hs
    have he' := he.finished
    have hg := guarded_finished hb hd
    have hsb : (finished board u).presence.sBoard = some board :=
      (finished_sBoard board u).trans hs.sBoard
    exact ⟨he', he'.ledger hl fun _ => ⟨hsb, hg⟩⟩

theorem presenceInit_enrols (hb : pf2M5BoardGet cfg = some board) {w : World}
    (hl : Ledger board w) :
    Enrols board (!guarded board w) w (picoFido2PresenceInit cfg w).2 ∧
      Ledger board (picoFido2PresenceInit cfg w).2 := by
  unfold picoFido2PresenceInit
  rw [hb]
  dsimp only
  have hearly := initEarly_enrols hb hl
  have hc := pf2M5BoardInitEarly_cases hb w
  rcases hr : pf2M5BoardInitEarly cfg w with ⟨r, w'⟩
  have hflags := initEarly_flags hb hr
  have hg := guarded_initEarly hb hr
  rw [hr] at hc hearly
  have hl' : Ledger board w' := by
    refine hearly.ledger hl fun hi => ?_
    rw [hg, hflags.2]
    rw [hflags.2] at hi
    exact hl.flags hi
  cases r with
  | error e =>
    rw [Prog.bind_error hr]
    refine ⟨⟨hearly.bus, hearly.noBus, hearly.added, fun hbus => ?_, hearly.pm1⟩, hl'⟩
    rw [initEarly_of_bus hb hbus] at hr
    cases hr
  | ok a =>
    rw [Prog.bind_ok hr]
    obtain ⟨he, hlast⟩ := userPresenceInit_enrols hb hl'
    refine ⟨?_, hlast⟩
    rw [hg] at he
    cases hc with
    | already => exact he
    | created hnone =>
      have hdev : (withBus board w).hw.devices = w.hw.devices :=
        (stable_sameBooks.waited w.hw).devices
      refine ⟨he.bus, he.noBus, ?_, fun hbus => ?_, he.pm1⟩
      · rw [← hdev]; exact he.added
      · rw [hnone] at hbus; simp at hbus

theorem initCall_enrols (hb : pf2M5BoardGet cfg = some board) {w : World} (hl : Ledger board w)
    (call : InitCall) :
    Enrols board (call.reaches board && !guarded board w) w (call.run cfg board w).2 ∧
      Ledger board (call.run cfg board w).2 := by
  cases call with
  | presenceInit => exact presenceInit_enrols hb hl
  | userPresenceInit given =>
    cases given with
    | false => exact ⟨enrols_refl hl, hl⟩
    | true => exact userPresenceInit_enrols hb hl
  | initEarly =>
    have h := initEarly_enrols hb hl
    exact ⟨h, h.ledger_of_same hl (keeps_initEarly spares_samePresence cfg w)⟩
  | initPeripherals =>
    have h := initPeripherals_enrols hb hl
    exact ⟨h, h.ledger_of_same hl (keeps_initPeripherals spares_samePresence cfg w)⟩

end OneCall

/-! ### Runs -/

def InitStep (cfg : Kconfig) (board : BoardPtr) (w : World) (call : InitCall)
    (r : Except EspErr Unit) (w' : World) : Prop := call.run cfg board w = (r, w')

/-- One bus at most, and at most one handle for any address. -/
def OncePerAddress (h : Hardware) : Prop :=
  h.buses.length ≤ 1 ∧ ∀ addr, h.devices.countP (·.deviceAddress = addr) ≤ 1

/-- The call registers a chip that has a handle: its flag is still down, and the
registration, the next hardware call, succeeds. -/
def Reregisters (board : BoardPtr) (call : InitCall) (w : World) : Prop :=
  chip board ∈ w.hw.devices ∧ guarded board w = false ∧ call.reaches board ∧ w.hw.outcome = .done

theorem Ledger.once_iff {board : BoardPtr} {w : World} (hl : Ledger board w) :
    OncePerAddress w.hw ↔ w.hw.devices.length ≤ 1 := by
  constructor
  · intro h
    have hc := h.2 (chip board).deviceAddress
    have hall : w.hw.devices.countP (·.deviceAddress = (chip board).deviceAddress) =
        w.hw.devices.length :=
      List.countP_eq_length.mpr fun d hd => by simp [hl.chips d hd]
    omega
  · intro h
    refine ⟨?_, fun addr => Nat.le_trans List.countP_le_length h⟩
    rw [hl.bus]
    split <;> omega

theorem Ledger.boot {board : BoardPtr} {h : Hardware} (hbuses : h.buses = [])
    (hdevices : h.devices = []) : Ledger board (boot h) where
  bus := by simp [M5boards.boot, hbuses]
  noBus _ := hdevices
  chips d hd := by simp [M5boards.boot, hdevices] at hd
  flags hi := by simp [M5boards.boot] at hi

/-- A call that registers a chip again leaves two handles, and no other does. -/
theorem Enrols.length {board : BoardPtr} {call : InitCall} {w w' : World} (hl : Ledger board w)
    (h : Enrols board (call.reaches board && !guarded board w) w w')
    (hw : w.hw.devices.length ≤ 1) : w'.hw.devices.length ≤ 1 ↔ ¬ Reregisters board call w := by
  rcases hd : w.hw.devices with _ | ⟨d, rest⟩
  · have hno : ¬ Reregisters board call w := fun hr => by simp [Reregisters, hd] at hr
    have hadded := h.added
    rw [hd] at hadded
    refine iff_of_true ?_ hno
    rcases hadded with he | he <;> rw [he] <;> simp
  · have hbus : w.m5board.sInternalI2c.isSome := by
      cases hb : w.m5board.sInternalI2c with
      | none => rw [hl.noBus hb] at hd; simp at hd
      | some _ => rfl
    have hmem : chip board ∈ w.hw.devices := by
      rw [hd, hl.chips d (by rw [hd]; simp)]; simp
    have hdue := h.due hbus
    rw [hdue, List.length_append]
    have hlen : w.hw.devices.length = 1 := by rw [hd] at hw ⊢; simp at hw ⊢; exact hw
    rw [hlen]
    unfold Reregisters attempt
    cases hre : call.reaches board <;> cases hg : guarded board w <;> cases ho : w.hw.outcome <;>
      simp [hmem]

/-- In a run of initialisations no chip is ever registered twice exactly where no
call of it registers a chip again. -/
theorem once_per_address_iff {cfg : Kconfig} {board : BoardPtr}
    (hb : pf2M5BoardGet cfg = some board) {h₀ : Hardware} (hbuses : h₀.buses = [])
    (hdevices : h₀.devices = []) {vs : List (Visit World InitCall (Except EspErr Unit))} {w : World}
    (hp : Path (InitStep cfg board) (boot h₀) vs w) :
    (∀ v ∈ vs, OncePerAddress v.after.hw) ↔ ∀ v ∈ vs, ¬ Reregisters board v.op v.before := by
  have hstep : ∀ {w call r w'}, InitStep cfg board w call r w' → Ledger board w →
      Enrols board (call.reaches board && !guarded board w) w w' ∧ Ledger board w' := by
    intro w call r w' hs hl
    have h := initCall_enrols hb hl call
    rw [show call.run cfg board w = (r, w') from hs] at h
    exact h
  have hwhole := hp.history (I := fun vs w => Ledger board w ∧
      ((∀ v ∈ vs, OncePerAddress v.after.hw) ↔ ∀ v ∈ vs, ¬ Reregisters board v.op v.before) ∧
      ((∀ v ∈ vs, OncePerAddress v.after.hw) → OncePerAddress w.hw))
    ⟨Ledger.boot hbuses hdevices, by simp, fun _ => ?_⟩ ?_
  · exact hwhole.2.1
  · have hl : Ledger board (boot h₀) := Ledger.boot hbuses hdevices
    rw [hl.once_iff]
    simp [boot, hdevices]
  · rintro vs w call r w' hs ⟨hl, hiff, hlast⟩
    obtain ⟨he, hl'⟩ := hstep hs hl
    refine ⟨hl', ?_, fun h => h ⟨w, call, r, w'⟩ (by simp)⟩
    simp only [List.forall_mem_append, List.forall_mem_singleton]
    rw [← hiff]
    refine and_congr_right fun hvs => ?_
    rw [hl'.once_iff]
    exact he.length hl (hl.once_iff.mp (hlast hvs))

/-- A pin of the PM1 cannot be read once the chip was added; the retry does not add it again. -/
theorem once_per_address_stick :
    ∃ vs w, Path (InitStep stickS3 ⟨2, stickS3Desc⟩) (boot (.start (failsAt 3))) vs w ∧
      vs.map (fun v => v.ret) = [.error (.driver 0x103), .ok ()] ∧
      (∀ v ∈ vs, OncePerAddress v.after.hw) ∧ w.hw.devices.length = 1 := by
  have hp : Path (InitStep stickS3 ⟨2, stickS3Desc⟩) (boot (.start (failsAt 3))) _ _ :=
    .snoc (.snoc .nil (i := .presenceInit) rfl) (i := .presenceInit) rfl
  refine ⟨_, _, hp, by decide +kernel, (once_per_address_iff rfl rfl rfl hp).mpr ?_,
    by decide +kernel⟩
  intro v hv
  simp only [List.nil_append, List.cons_append, List.mem_cons, List.not_mem_nil, or_false] at hv
  rcases hv with rfl | rfl
  · -- nothing is on the bus yet
    rintro ⟨hmem, -⟩
    cases hmem
  · -- the flag of the chip is up
    rintro ⟨-, hguard, -⟩
    exact absurd hguard (by decide +kernel)

/-- The identifier read fails after the chip was added, and the retry adds it again. -/
theorem twice_registered_stick :
    ∃ vs w, Path (InitStep stickS3 ⟨2, stickS3Desc⟩) (boot (.start (failsAt 2))) vs w ∧
      ¬ OncePerAddress w.hw := by
  refine ⟨_, _, .snoc (.snoc .nil (i := .presenceInit) rfl) (i := .presenceInit) rfl, fun h => ?_⟩
  exact absurd (h.2 0x6e) (by decide +kernel)

end PicoFido2.M5boards
