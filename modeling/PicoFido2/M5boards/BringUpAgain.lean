import PicoFido2.M5boards.Pm1Writes
import PicoFido2.M5boards.Registration

/-! A board that was brought up once. Every later bring-up finds the bits of its two PM1
pins as it wants them and so skips each of its register writes, whatever calls for other
pins came in between and whichever transfers fail. -/

namespace PicoFido2.M5boards

open Effect Hal Bits Transition

/-! ### Updates that are skipped -/

/-- From registers `regs` on no register was written and no device added. -/
def Idle (regs : Pm1Regs) (h k : Hardware) : Prop :=
  h.pm1 = regs → Writes [] h k ∧ k.devices = h.devices

instance (regs : Pm1Regs) : IsPreorder Hardware (Idle regs) where
  refl h := fun _ => ⟨refl_of (Writes []) h, rfl⟩
  trans _ _ _ a b := fun hregs => by
    obtain ⟨ha, hdev⟩ := a hregs
    obtain ⟨hb, hdev'⟩ := b (ha.pm1.trans hregs)
    exact ⟨ha.trans hb, hdev'.trans hdev⟩

section Updates

variable {regs : Pm1Regs} (ctx : Pf2M5pm1)

theorem idle_updateBits {reg mask value : BitVec 8}
    (hm : merge (regs reg) mask value = regs reg) :
    Prog.Keeps (Idle regs) (m5pm1UpdateBits ctx reg mask value) := by
  intro h hregs
  subst hregs
  exact ⟨m5pm1UpdateBits_same ctx reg mask value hm,
    (keeps_m5pm1UpdateBits stable_sameBooks ctx reg mask value h).devices⟩

/-- Function bits that are clear stay so under the first update. -/
theorem PinDrives.merge_func {g : ℕ} {level : Bool} (hd : PinDrives regs g level)
    {reg mask : BitVec 8} (hfield : field reg mask = funcBits g) :
    merge (regs reg) mask 0 = regs reg := by
  apply merge_eq_self
  intro i hi
  have hmem : (reg, i) ∈ funcBits g := hfield ▸ ⟨rfl, hi⟩
  have hclear : (regs reg).getLsbD i = false := hd.func _ hmem
  rw [hclear]
  simp

/-- A single bit that is as wanted stays so under an update of it. -/
theorem merge_bit (reg : BitVec 8) {g : ℕ} (hg : g < 8) {level : Bool}
    (hbit : bitAt regs (reg, g) = level) :
    merge (regs reg) (1#8 <<< g) (if level then 1#8 <<< g else 0) = regs reg := by
  apply merge_eq_self
  intro i hi
  have hig : i = g := (getLsbD_bit hg).mp hi
  subst hig
  rw [show (regs reg).getLsbD i = level from hbit]
  cases level with
  | false => simp
  | true => exact hi

/-- A call for what the pin already drives writes nothing. -/
theorem PinDrives.idle {gpio : BitVec 8} (hg : gpio.toNat < 5) {level : Bool}
    (hd : PinDrives regs gpio.toNat level) :
    Prog.Keeps (Idle regs) (pf2M5pm1GpioSetOutput ctx gpio level) := by
  obtain ⟨reg, mask, hfield, -, -, hclear⟩ := clearFunc_spec ctx hg
  have hout := merge_bit m5pm1RegGpioOut (show gpio.toNat < 8 by omega) hd.out
  have hmode := merge_bit m5pm1RegGpioMode (show gpio.toNat < 8 by omega) hd.mode
  unfold pf2M5pm1GpioSetOutput
  simp only [hclear]
  refine Prog.keeps_bind (Prog.keeps_require _ _) fun _ => ?_
  refine Prog.keeps_bind (idle_updateBits ctx (hd.merge_func hfield)) fun _ => ?_
  refine Prog.keeps_bind (idle_updateBits ctx hout) fun _ => ?_
  exact idle_updateBits ctx hmode

theorem stableOffPm1_idle : StableOffPm1 (Idle regs) where
  waited h _ := ⟨writes_waited h, (stable_sameBooks.waited h).devices⟩
  tca reg value taken h _ := ⟨stableOffPm1_writes.tca reg value taken h,
    (stable_sameBooks.tca reg value taken h).devices⟩
  pads _ _ _ := ⟨writes_of_same rfl rfl, rfl⟩

end Updates

/-! ### The bring-up -/

/-- What a bring-up that returned `ESP_OK` leaves on a stick. -/
structure BroughtUp (board : BoardPtr) (w : World) : Prop where
  bus : w.m5board.sInternalI2c.isSome
  registered : w.m5board.sPm1Initialized
  l3bPower : PinDrives w.hw.pm1 board.desc.pm1.gpioL3bPower.toNat true
  speakerAmp : PinDrives w.hw.pm1 board.desc.pm1.gpioSpeakerAmp.toNat false

theorem of_hal_ok {α : Type} {x : Prog Hardware EspErr α} {w w' : World} {a : α}
    (h : hal x w = (.ok a, w')) : x w.hw = (.ok a, w'.hw) := by
  rw [hal_apply, Prod.mk.injEq] at h
  rw [← h.2]
  exact Prod.ext h.1 rfl

section Stick

variable {cfg : Kconfig} {board : BoardPtr} (hb : pf2M5BoardGet cfg = some board)
  (hid : board.desc.id = .stickS3)
include hb hid

theorem stick_pins : board.desc.pm1.gpioL3bPower.toNat = 2 ∧
    board.desc.pm1.gpioSpeakerAmp.toNat = 3 := by
  rcases pf2M5BoardGet_cases hb with rfl | rfl
  · cases hid
  · exact ⟨rfl, rfl⟩

theorem drivePm1Pins_ok {w w' : World} (h : drivePm1Pins board w = (.ok (), w')) :
    PinDrives w'.hw.pm1 board.desc.pm1.gpioL3bPower.toNat true ∧
      PinDrives w'.hw.pm1 board.desc.pm1.gpioSpeakerAmp.toNat false := by
  obtain ⟨hl3b, hamp⟩ := stick_pins hb hid
  unfold drivePm1Pins at h
  rw [Prog.bind_ok (Prog.get_apply w)] at h
  obtain ⟨⟨⟩, u, h₁, h₂⟩ := Prog.of_bind_ok h
  have e₁ := setOutput_ok _ (by omega) _ (of_hal_ok h₁)
  have e₂ := setOutput_ok _ (by omega) _ (of_hal_ok h₂)
  refine ⟨e₁.of_bits fun a ha => ?_, e₂⟩
  have hamp5 : board.desc.pm1.gpioSpeakerAmp.toNat < 5 := by omega
  have hframe := setOutput_frame w.m5board.sPm1 hamp5 false u.hw
  rw [of_hal_ok h₂] at hframe
  exact hframe a (pinBits_disjoint (by omega) (by omega) (by omega) ha)

theorem broughtUp_of_ok {w w' : World} (h : pf2M5BoardInitPeripherals cfg w = (.ok (), w')) :
    BroughtUp board w' := by
  have hflag := initPeripherals_ok hb hid h
  have hrest := h
  unfold pf2M5BoardInitPeripherals at hrest
  rw [hb] at hrest
  obtain ⟨⟨⟩, u, hearly, hrest⟩ := Prog.of_bind_ok hrest
  have hbus := (initPeripherals_adds hb (initEarly_ok hb hearly)).bus
  rw [← initPeripherals_of_early_ok hb hearly, h] at hbus
  obtain ⟨⟨⟩, v, hstick, hpads⟩ := Prog.of_bind_ok hrest
  rw [Prog.onlyIf_pos hid] at hstick
  obtain ⟨⟨⟩, t, -, hdrive⟩ := Prog.of_bind_ok hstick
  obtain ⟨hl3b, hamp⟩ := drivePm1Pins_ok hb hid hdrive
  have hpm1 : w'.hw.pm1 = v.hw.pm1 := by
    have hk := (keeps_presencePads stableOffPm1_writes board v).hw
    rw [hpads] at hk
    exact hk.pm1
  refine ⟨?_, hflag, ?_, ?_⟩
  · rw [hbus]
    exact initEarly_ok hb hearly
  · rw [hpm1]
    exact hl3b
  · rw [hpm1]
    exact hamp

/-- A later bring-up writes no register and adds no device. -/
theorem BroughtUp.idle {w : World} (hup : BroughtUp board w) :
    OnlyHw (Idle w.hw.pm1) w (pf2M5BoardInitPeripherals cfg w).2 := by
  obtain ⟨hl3b, hamp⟩ := stick_pins hb hid
  have hregister : registerPm1 board w = (.ok (), w) := by
    unfold registerPm1
    rw [Prog.bind_ok (Prog.get_apply w), if_pos hup.registered]
    rfl
  have hdrive : Prog.Keeps (OnlyHw (Idle w.hw.pm1)) (drivePm1Pins board) := by
    refine Prog.keeps_bind Prog.keeps_get fun _ => ?_
    refine Prog.keeps_bind (keeps_hal (hup.l3bPower.idle _ (by omega))) fun _ => ?_
    exact keeps_hal (hup.speakerAmp.idle _ (by omega))
  unfold pf2M5BoardInitPeripherals
  rw [hb]
  dsimp only
  rw [Prog.bind_ok (initEarly_of_bus hb hup.bus), Prog.onlyIf_pos hid, Prog.bind_apply,
    Prog.bind_ok hregister]
  rw [← Prog.bind_apply]
  exact Prog.keeps_bind hdrive (fun _ => keeps_presencePads stableOffPm1_idle board) w

theorem BroughtUp.bringUp {w : World} (hup : BroughtUp board w) :
    BroughtUp board (pf2M5BoardInitPeripherals cfg w).2 := by
  have hidle := hup.idle hb hid
  have hpm1 : (pf2M5BoardInitPeripherals cfg w).2.hw.pm1 = w.hw.pm1 := (hidle.hw rfl).1.pm1
  refine ⟨?_, ?_, ?_, ?_⟩
  · rw [hidle.m5board]; exact hup.bus
  · rw [hidle.m5board]; exact hup.registered
  · rw [hpm1]; exact hup.l3bPower
  · rw [hpm1]; exact hup.speakerAmp

end Stick

/-! ### Runs -/

inductive BoardCall where
  | bringUp
  | setOutput (ctx : Pf2M5pm1) (gpio : BitVec 8) (level : Bool)
  deriving DecidableEq, Repr

def BoardCall.run (cfg : Kconfig) : BoardCall → Prog World EspErr Unit
  | bringUp => pf2M5BoardInitPeripherals cfg
  | setOutput ctx gpio level => hal (pf2M5pm1GpioSetOutput ctx gpio level)

/-- The call is for none of the two pins the bring-up drives. -/
def BoardCall.Spares (board : BoardPtr) : BoardCall → Prop
  | bringUp => True
  | setOutput _ gpio _ =>
    gpio ≠ board.desc.pm1.gpioL3bPower ∧ gpio ≠ board.desc.pm1.gpioSpeakerAmp

def BoardStep (cfg : Kconfig) (w : World) (call : BoardCall) (r : Except EspErr Unit)
    (w' : World) : Prop := call.run cfg w = (r, w')

section Run

variable {cfg : Kconfig} {board : BoardPtr} (hb : pf2M5BoardGet cfg = some board)
  (hid : board.desc.id = .stickS3)
include hb hid

/-- A call for another pin, or for none, leaves both pins as they are. -/
theorem BroughtUp.setOutput {w : World} (hup : BroughtUp board w) (ctx : Pf2M5pm1)
    {gpio : BitVec 8} (level : Bool) (hl : gpio ≠ board.desc.pm1.gpioL3bPower)
    (ha : gpio ≠ board.desc.pm1.gpioSpeakerAmp) :
    BroughtUp board (hal (pf2M5pm1GpioSetOutput ctx gpio level) w).2 := by
  obtain ⟨hl3b, hamp⟩ := stick_pins hb hid
  have hbits : ∀ g < 5, gpio.toNat ≠ g → ∀ a ∈ pinBits g,
      bitAt (hal (pf2M5pm1GpioSetOutput ctx gpio level) w).2.hw.pm1 a = bitAt w.hw.pm1 a := by
    intro g hg hne a hmem
    have hs : SetOutputStep ctx w.hw (gpio, level) (hal (pf2M5pm1GpioSetOutput ctx gpio level) w).1
        (hal (pf2M5pm1GpioSetOutput ctx gpio level) w).2.hw := rfl
    exact setOutputStep_frame hs fun h5 => pinBits_disjoint hg h5 hne.symm hmem
  refine ⟨hup.bus, hup.registered, hup.l3bPower.of_bits ?_, hup.speakerAmp.of_bits ?_⟩
  · exact hbits _ (by omega) fun h => hl (BitVec.eq_of_toNat_eq h)
  · exact hbits _ (by omega) fun h => ha (BitVec.eq_of_toNat_eq h)

theorem BroughtUp.step {w w' : World} {call : BoardCall} {r : Except EspErr Unit}
    (hup : BroughtUp board w) (hs : BoardStep cfg w call r w') (hspare : call.Spares board) :
    BroughtUp board w' := by
  have hw' : w' = (call.run cfg w).2 := by rw [show call.run cfg w = _ from hs]
  rw [hw']
  cases call with
  | bringUp => exact hup.bringUp hb hid
  | setOutput ctx gpio level => exact hup.setOutput hb hid ctx level hspare.1 hspare.2

/-- Once a bring-up returned `ESP_OK`, no later bring-up writes a PM1 register or adds a
device, and the two pins stay as the first one left them. -/
theorem bring_up_again {w w₁ w' : World} {vs : List (Visit World BoardCall (Except EspErr Unit))}
    (hok : pf2M5BoardInitPeripherals cfg w = (.ok (), w₁)) (hp : Path (BoardStep cfg) w₁ vs w')
    (hspare : ∀ v ∈ vs, v.op.Spares board) :
    (∀ v ∈ vs, v.op = .bringUp → Writes [] v.before.hw v.after.hw ∧
      v.after.hw.devices = v.before.hw.devices) ∧
    PinDrives w'.hw.pm1 board.desc.pm1.gpioL3bPower.toNat true ∧
    PinDrives w'.hw.pm1 board.desc.pm1.gpioSpeakerAmp.toNat false := by
  suffices hall : BroughtUp board w' ∧ ∀ v ∈ vs, v.op = .bringUp →
      Writes [] v.before.hw v.after.hw ∧ v.after.hw.devices = v.before.hw.devices from
    ⟨hall.2, hall.1.l3bPower, hall.1.speakerAmp⟩
  induction hp with
  | nil => exact ⟨broughtUp_of_ok hb hid hok, by simp⟩
  | @snoc vs s t op r _ hs ih =>
    obtain ⟨hup, hidle⟩ := ih fun v hv => hspare v (List.mem_append_left _ hv)
    refine ⟨hup.step hb hid hs (hspare ⟨s, op, r, t⟩ (by simp)), fun v hv hop => ?_⟩
    rcases List.mem_append.mp hv with hv | hv
    · exact hidle v hv hop
    · rw [List.mem_singleton] at hv
      subst hv
      subst hop
      have ht : t = (pf2M5BoardInitPeripherals cfg s).2 := by
        rw [show pf2M5BoardInitPeripherals cfg s = _ from hs]
      rw [ht]
      exact (hup.idle hb hid).hw rfl

end Run

/-- A stick brought up from power-up. -/
def upOnce : World := (pf2M5BoardInitPeripherals stickS3 (boot (.start quietTurns))).2

def otherPin : Visit World BoardCall (Except EspErr Unit) :=
  ⟨upOnce, .setOutput ⟨some 0⟩ 1 true, .ok (),
    (hal (pf2M5pm1GpioSetOutput ⟨some 0⟩ 1 true) upOnce).2⟩

def upTwice : Visit World BoardCall (Except EspErr Unit) :=
  ⟨otherPin.after, .bringUp, .ok (), (pf2M5BoardInitPeripherals stickS3 otherPin.after).2⟩

/-- With a call for another pin in between, a second bring-up writes nothing. -/
theorem bring_up_again_twice :
    Writes [] upTwice.before.hw upTwice.after.hw ∧ PinDrives upTwice.after.hw.pm1 2 true ∧
      PinDrives upTwice.after.hw.pm1 3 false := by
  have hok : pf2M5BoardInitPeripherals stickS3 (boot (.start quietTurns)) = (.ok (), upOnce) :=
    Prod.ext (by decide +kernel) rfl
  have e₁ : BoardStep stickS3 upOnce (.setOutput ⟨some 0⟩ 1 true) (.ok ()) otherPin.after :=
    Prod.ext (by decide +kernel) rfl
  have e₂ : BoardStep stickS3 otherPin.after .bringUp (.ok ()) upTwice.after :=
    Prod.ext (by decide +kernel) rfl
  have hspare : ∀ v ∈ [otherPin, upTwice], v.op.Spares ⟨2, stickS3Desc⟩ := by
    intro v hv
    rcases List.mem_pair.mp hv with rfl | rfl
    · exact ⟨by decide, by decide⟩
    · trivial
  obtain ⟨hidle, hpins⟩ := bring_up_again rfl rfl hok (.snoc (.snoc .nil e₁) e₂) hspare
  have hmem := List.mem_append_right [otherPin] (List.mem_singleton_self upTwice)
  exact ⟨(hidle upTwice hmem rfl).1, hpins⟩

end PicoFido2.M5boards
