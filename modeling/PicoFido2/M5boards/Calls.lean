import PicoFido2.M5boards.M5board

/-! What the register transfers of the two drivers leave alone. A relation that
the outside world moves along, and a register write and a pad configuration with
it, is kept by every driver call that adds no device and takes no key event. Where
the PM1 is not written, a relation that its writes break is kept as well. -/

namespace PicoFido2.M5boards

open Effect Hal Hardware

/-- Kept by turns, writes to the keyboard controller and pad configurations. -/
structure StableOffPm1 (R : Hardware → Hardware → Prop) : Prop where
  waited : ∀ h, R h h.waited
  tca : ∀ reg value taken h, R h (tcaWrite reg value taken h)
  pads : ∀ cfg h, R h { h with padConfigs := h.padConfigs ++ [cfg] }

/-- Kept by writes to the PM1 as well. -/
structure Stable (R : Hardware → Hardware → Prop) : Prop extends StableOffPm1 R where
  pm1 : ∀ reg value taken h, R h (pm1Store reg value taken h)

section StableOffPm1

variable {R : Hardware → Hardware → Prop} [IsPreorder Hardware R] (hR : StableOffPm1 R)
include hR

theorem keeps_driverCall {α : Type} {result : Hardware → α × Hardware}
    (hresult : ∀ h, R h (result h).2) : Prog.Keeps R (driverCall result) := by
  intro h
  unfold driverCall
  split
  · exact trans_of R (hR.waited h) (hresult _)
  · exact hR.waited h

theorem keeps_transmitReceive {α : Type} {read : Hardware → α × Hardware}
    (hread : ∀ h, R h (read h).2) : Prog.Keeps R (i2cMasterTransmitReceive read) := by
  intro h
  unfold i2cMasterTransmitReceive
  split
  · exact trans_of R (hR.waited h) (hread _)
  · split
    · exact trans_of R (hR.waited h) (hread _)
    · exact hR.waited h

theorem keeps_transmit {write : Bool → Hardware → Hardware} (hwrite : ∀ b h, R h (write b h)) :
    Prog.Keeps R (i2cMasterTransmit write) := by
  intro h
  unfold i2cMasterTransmit
  split <;> exact trans_of R (hR.waited h) (hwrite _ _)

theorem keeps_gpioConfig (cfg : GpioConfig) : Prog.Keeps R (gpioConfig cfg) :=
  keeps_driverCall hR (hR.pads cfg)

theorem keeps_m5pm1ReadU8 (ctx : Pf2M5pm1) (reg : BitVec 8) :
    Prog.Keeps R (m5pm1ReadU8 ctx reg) :=
  Prog.keeps_bind (Prog.keeps_require _ _) fun _ =>
    keeps_transmitReceive hR fun h => refl_of R h

theorem keeps_tca8418WriteU8 (ctx : Pf2Tca8418) (reg value : BitVec 8) :
    Prog.Keeps R (tca8418WriteU8 ctx reg value) :=
  Prog.keeps_bind (Prog.keeps_require _ _) fun _ => keeps_transmit hR (hR.tca reg value)

theorem keeps_tca8418Configure (ctx : Pf2Tca8418) : Prog.Keeps R (tca8418Configure ctx) := by
  have hw := keeps_tca8418WriteU8 hR ctx
  unfold tca8418Configure
  refine Prog.keeps_bind (Prog.keeps_onlyIf _ (keeps_gpioConfig hR _)) fun _ => ?_
  iterate 8 refine Prog.keeps_bind (hw _ _) fun _ => ?_
  exact hw _ _

end StableOffPm1

section Stable

variable {R : Hardware → Hardware → Prop} [IsPreorder Hardware R] (hR : Stable R)
include hR

theorem keeps_m5pm1WriteU8 (ctx : Pf2M5pm1) (reg value : BitVec 8) :
    Prog.Keeps R (m5pm1WriteU8 ctx reg value) :=
  Prog.keeps_bind (Prog.keeps_require _ _) fun _ =>
    keeps_transmit hR.toStableOffPm1 (hR.pm1 reg value)

theorem keeps_m5pm1UpdateBits (ctx : Pf2M5pm1) (reg mask value : BitVec 8) :
    Prog.Keeps R (m5pm1UpdateBits ctx reg mask value) := by
  refine Prog.keeps_bind (keeps_m5pm1ReadU8 hR.toStableOffPm1 ctx reg) fun old => ?_
  dsimp only
  split
  · exact Prog.keeps_pure ()
  · exact keeps_m5pm1WriteU8 hR ctx reg _

theorem keeps_pf2M5pm1GpioSetOutput (ctx : Pf2M5pm1) (gpio : BitVec 8) (level : Bool) :
    Prog.Keeps R (pf2M5pm1GpioSetOutput ctx gpio level) := by
  refine Prog.keeps_bind (Prog.keeps_require _ _) fun _ => Prog.keeps_bind ?_ fun _ =>
    Prog.keeps_bind (keeps_m5pm1UpdateBits hR _ _ _ _) fun _ => keeps_m5pm1UpdateBits hR _ _ _ _
  split <;> exact keeps_m5pm1UpdateBits hR _ _ _ _

end Stable

/-! ### Time passing -/

theorem passes_tcaWrite (reg value : BitVec 8) (taken : Bool) (h : Hardware) :
    Passes [] h (tcaWrite reg value taken h) := by
  cases taken <;> exact .silent [] rfl rfl (by simp [tcaWrite]) (by simp) rfl rfl rfl

theorem stable_passes : Stable (Passes []) where
  waited := passes_waited
  pm1 reg value taken _ := .silent [.pm1Write reg value taken] rfl rfl rfl
    (by simp [Entry.within]) rfl rfl rfl
  tca := passes_tcaWrite
  pads _ _ := .silent [] rfl rfl (by simp) (by simp) rfl rfl rfl

theorem passes_newMasterBus (cfg : I2cMasterBusConfig) :
    Prog.Keeps (Passes []) (i2cNewMasterBus cfg) :=
  keeps_driverCall stable_passes.toStableOffPm1 fun _ =>
    .silent [] rfl rfl (by simp) (by simp) rfl rfl rfl

theorem passes_addDevice (cfg : I2cDeviceConfig) :
    Prog.Keeps (Passes []) (i2cMasterBusAddDevice cfg) :=
  keeps_driverCall stable_passes.toStableOffPm1 fun _ =>
    .silent [] rfl rfl (by simp) (by simp) rfl rfl rfl

/-! ### On the whole state -/

/-- Only the hardware moves, and it moves along `R`. -/
structure OnlyHw (R : Hardware → Hardware → Prop) (w w' : World) : Prop where
  hw : R w.hw w'.hw
  m5board : w'.m5board = w.m5board
  presence : w'.presence = w.presence
  keyOut : w'.keyOut = w.keyOut

section OnlyHw

variable {R : Hardware → Hardware → Prop}

theorem keeps_hal {ε α : Type} {x : Prog Hardware ε α} (hx : Prog.Keeps R x) :
    Prog.Keeps (OnlyHw R) (hal x) :=
  Prog.keeps_zoom hx fun _ _ h => ⟨h, rfl, rfl, rfl⟩

variable [IsPreorder Hardware R]

instance : IsPreorder World (OnlyHw R) where
  refl w := ⟨refl_of R w.hw, rfl, rfl, rfl⟩
  trans _ _ _ a b := ⟨trans_of R a.hw b.hw, b.m5board.trans a.m5board,
    b.presence.trans a.presence, b.keyOut.trans a.keyOut⟩

theorem keeps_drivePm1Pins (hR : Stable R) (board : BoardPtr) :
    Prog.Keeps (OnlyHw R) (drivePm1Pins board) :=
  Prog.keeps_bind Prog.keeps_get fun _ =>
    Prog.keeps_bind (keeps_hal (keeps_pf2M5pm1GpioSetOutput hR _ _ _)) fun _ =>
      keeps_hal (keeps_pf2M5pm1GpioSetOutput hR _ _ _)

theorem keeps_presencePads (hR : StableOffPm1 R) (board : BoardPtr) :
    Prog.Keeps (OnlyHw R) (Prog.onlyIf (board.desc.userInput.type = .gpio)
      (hal (gpioConfig (presenceGpioConfig board))) : Prog World EspErr Unit) :=
  Prog.keeps_onlyIf _ (keeps_hal (keeps_gpioConfig hR _))

end OnlyHw

end PicoFido2.M5boards
