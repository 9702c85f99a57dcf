import PicoFido2.M5boards.BringUpAgain
import PicoFido2.M5boards.Glitches
import PicoFido2.M5boards.PollRule

/-! The PM1 chip over whole runs of the presence calls, with any failures. The rule: what
holds along everything that writes no PM1 register, and along the two calls for the pins of
the board, holds along every run. -/

namespace PicoFido2.M5boards

open Effect Hal Hardware Bits Transition

/-! ### What writes no register -/

theorem quiet_newMasterBus (cfg : I2cMasterBusConfig) :
    Prog.Keeps (Writes []) (i2cNewMasterBus cfg) :=
  keeps_driverCall stableOffPm1_writes fun _ => writes_of_same rfl rfl

theorem quiet_addDevice (cfg : I2cDeviceConfig) :
    Prog.Keeps (Writes []) (i2cMasterBusAddDevice cfg) :=
  keeps_driverCall stableOffPm1_writes fun _ => writes_of_same rfl rfl

theorem quiet_polls : KeptByPolls (Writes []) where
  waited := writes_waited
  popped _ := writes_of_same rfl rfl
  cleared := stableOffPm1_writes.tca tca8418RegIntStat tca8418IntStatKInt

/-! ### The rule -/

/-- Kept by what writes no register, and by the calls for the two pins. -/
structure Tolerates (cfg : Kconfig) (R : Hardware → Hardware → Prop) : Prop where
  quiet : ∀ {h k}, Writes [] h k → R h k
  l3bPower : ∀ board, pf2M5BoardGet cfg = some board → board.desc.id = .stickS3 → ∀ ctx,
    Prog.Keeps R (pf2M5pm1GpioSetOutput ctx board.desc.pm1.gpioL3bPower true)
  speakerAmp : ∀ board, pf2M5BoardGet cfg = some board → board.desc.id = .stickS3 → ∀ ctx,
    Prog.Keeps R (pf2M5pm1GpioSetOutput ctx board.desc.pm1.gpioSpeakerAmp false)

/-- The hardware moves along `R`, whatever becomes of the statics. -/
def HwMoves (R : Hardware → Hardware → Prop) (w w' : World) : Prop := R w.hw w'.hw

instance (R : Hardware → Hardware → Prop) [IsPreorder Hardware R] :
    IsPreorder World (HwMoves R) where
  refl w := refl_of R w.hw
  trans _ _ _ a b := trans_of R a b

theorem hwMoves_modify {R : Hardware → Hardware → Prop} [IsPreorder Hardware R]
    {f : World → World} (hf : ∀ w, (f w).hw = w.hw) :
    Prog.Keeps (HwMoves R) (Prog.modify f : Prog World EspErr Unit) := by
  intro w
  show R w.hw (f w).hw
  rw [hf]
  exact refl_of R w.hw

section Tolerates

variable {cfg : Kconfig} {R : Hardware → Hardware → Prop} [IsPreorder Hardware R]
  (hR : Tolerates cfg R)
include hR

omit [IsPreorder Hardware R] in
theorem Tolerates.hal {α : Type} {x : Prog Hardware EspErr α} (hx : Prog.Keeps (Writes []) x) :
    Prog.Keeps (HwMoves R) (hal x) :=
  Prog.keeps_zoom hx fun _ _ h => hR.quiet h

theorem Tolerates.initEarly : Prog.Keeps (HwMoves R) (pf2M5BoardInitEarly cfg) := by
  unfold pf2M5BoardInitEarly
  split
  · exact Prog.keeps_fail _
  · refine Prog.keeps_bind Prog.keeps_get fun _ => ?_
    split
    · exact Prog.keeps_pure ()
    · exact Prog.keeps_bind (hR.hal (quiet_newMasterBus _)) fun _ =>
        hwMoves_modify fun _ => rfl

theorem Tolerates.registerPm1 (board : BoardPtr) :
    Prog.Keeps (HwMoves R) (registerPm1 board) := by
  refine Prog.keeps_bind Prog.keeps_get fun w => ?_
  split
  · exact Prog.keeps_pure ()
  · refine Prog.keeps_bind (Prog.keeps_bind (Prog.keeps_require _ _) fun _ => ?_) fun _ =>
      hwMoves_modify fun _ => rfl
    refine Prog.keeps_bind (hR.hal (quiet_addDevice _)) fun _ => ?_
    refine Prog.keeps_bind (hwMoves_modify fun _ => rfl) fun _ => ?_
    refine Prog.keeps_bind Prog.keeps_get fun _ => ?_
    exact Prog.keeps_bind (hR.hal (keeps_m5pm1ReadU8 stableOffPm1_writes _ _)) fun _ =>
      Prog.keeps_pure ()

theorem Tolerates.initPeripherals : Prog.Keeps (HwMoves R) (pf2M5BoardInitPeripherals cfg) := by
  unfold pf2M5BoardInitPeripherals
  cases hb : pf2M5BoardGet cfg with
  | none => exact Prog.keeps_fail _
  | some board =>
    have hstick : Prog.Keeps (HwMoves R) (Prog.onlyIf (board.desc.id = .stickS3) do
        M5boards.registerPm1 board
        drivePm1Pins board) := by
      unfold Prog.onlyIf
      split
      · rename_i hid
        refine Prog.keeps_bind (hR.registerPm1 board) fun _ => ?_
        refine Prog.keeps_bind Prog.keeps_get fun _ => ?_
        refine Prog.keeps_bind ?_ fun _ => ?_
        · exact Prog.keeps_zoom (hR.l3bPower board hb hid _) fun _ _ h => h
        · exact Prog.keeps_zoom (hR.speakerAmp board hb hid _) fun _ _ h => h
      · exact Prog.keeps_pure ()
    refine Prog.keeps_bind hR.initEarly fun _ => Prog.keeps_bind hstick fun _ => ?_
    exact Prog.keeps_onlyIf _ (hR.hal (keeps_gpioConfig stableOffPm1_writes _))

theorem Tolerates.presenceBringUp (board : BoardPtr) :
    Prog.Keeps (HwMoves R) (presenceBringUp cfg board) := by
  refine Prog.keeps_bind hR.initPeripherals fun _ => Prog.keeps_onlyIf _ ?_
  refine Prog.keeps_bind Prog.keeps_get fun _ => ?_
  refine Prog.keeps_bind (Prog.keeps_require _ _) fun _ => ?_
  refine Prog.keeps_bind (hR.hal (quiet_addDevice _)) fun _ => ?_
  refine Prog.keeps_bind (hwMoves_modify fun _ => rfl) fun _ => ?_
  exact Prog.keeps_bind Prog.keeps_get fun _ =>
    hR.hal (keeps_tca8418Configure stableOffPm1_writes _)

theorem Tolerates.presenceInit {w w' : World} {r : Except EspErr Unit}
    (h : PresenceInit cfg w r w') : R w.hw w'.hw := by
  have he := hR.initEarly w
  cases h with
  | noBoard => exact refl_of R w.hw
  | earlyFailed _ h => rw [h] at he; exact he
  | @late board u _ _ _ h hu =>
    rw [h] at he
    have hup := hR.presenceBringUp board (selected board u)
    cases hu with
    | already => exact he
    | failed _ hr => rw [hr] at hup; exact trans_of R he hup
    | @done _ v _ hr =>
      rw [hr] at hup
      have hsample : Writes [] v.hw (finished board v).hw := finished_hw writes_waited board v
      exact trans_of R he (trans_of R hup (hR.quiet hsample))

theorem Tolerates.step {w w' : World} {call : PresenceCall} {ans : Answer}
    (h : PresenceStep cfg w call ans w') : R w.hw w'.hw := by
  have hguard : ∀ {b : Bool} {u : World}, Guarded cfg w b u → R w.hw u.hw := by
    intro b u hg
    cases hg with
    | chosen => exact refl_of R w.hw
    | failed _ hi => exact hR.presenceInit hi
    | lazy _ hi => exact hR.presenceInit hi
  cases h.move with
  | init hi => exact hR.presenceInit hi
  | refused hg => exact hguard hg
  | asked hg ha => exact trans_of R (hguard hg) (hR.quiet (quiet_polls.asks ha))

/-- What every call keeps, a run keeps. -/
theorem Tolerates.run {w₀ w : World} {vs : List (Visit World PresenceCall Answer)}
    (hp : Path (PresenceStep cfg) w₀ vs w) : R w₀.hw w.hw := by
  refine hp.invariant (I := fun w => R w₀.hw w.hw) (refl_of R w₀.hw) fun _ _ _ _ hs h => ?_
  exact trans_of R h (hR.step hs)

end Tolerates

/-! ### Register files on the way -/

/-- From a register file in `S` all files on the way are in `S`. -/
def Stays (S : Set Pm1Regs) (h k : Hardware) : Prop := h.pm1 ∈ S → Through S h k

theorem through_quiet {S : Set Pm1Regs} {h k : Hardware} (hw : Writes [] h k) (hS : h.pm1 ∈ S) :
    Through S h k := by
  refine ⟨[], hw, fun p hp => ?_⟩
  rw [List.prefix_nil.mp hp]
  exact hS

instance (S : Set Pm1Regs) : IsPreorder Hardware (Stays S) where
  refl h := through_quiet (refl_of (Writes []) h)
  trans _ _ _ a b := fun hS => (a hS).trans (b (a hS).last)

section Pins

variable {S : Set Pm1Regs} (ctx : Pf2M5pm1)

/-- A set that no bit of a pin decides is kept by the calls for that pin. -/
theorem stays_setOutput {gpio : BitVec 8} (hg : gpio.toNat < 5) (level : Bool)
    (hS : ∀ f k, SameOff (pinBits gpio.toNat) f k → f ∈ S → k ∈ S) :
    Prog.Keeps (Stays S) (pf2M5pm1GpioSetOutput ctx gpio level) := by
  obtain ⟨reg, mask, hfield, -, -, hrun⟩ := setOutput_updates ctx hg
  have hupdate : ∀ {reg mask : BitVec 8} (value : BitVec 8), field reg mask ⊆ pinBits gpio.toNat →
      Prog.Keeps (Stays S) (m5pm1UpdateBits ctx reg mask value) := by
    intro reg mask value hsub h hin
    refine updateBits_through ctx hin fun _ _ _ => hS h.pm1 _ ?_ hin
    exact (sameOff_update_merge h.pm1 reg mask value).mono hsub
  intro h
  rw [hrun]
  refine Prog.keeps_bind (hupdate 0 ?_) (fun _ => Prog.keeps_bind (hupdate _ ?_)
    fun _ => hupdate _ ?_) h
  · rw [hfield]
    exact Set.subset_union_left
  · rw [field_bit _ (by omega)]
    simp [pinBits, outBit]
  · rw [field_bit _ (by omega)]
    simp [pinBits, modeBit]

/-- The pin is not an output at level high, whatever its function. -/
def Silent (g : ℕ) : Set Pm1Regs :=
  {regs | ¬ (bitAt regs (outBit g) = true ∧ bitAt regs (modeBit g) = true)}

theorem Silent.not_drives {g : ℕ} {regs : Pm1Regs} (h : regs ∈ Silent g) :
    ¬ PinDrives regs g true := fun hd => h ⟨hd.out, hd.mode⟩

/-- Switching a pin off sets its mode bit only once its output bit is clear. -/
theorem stays_silent {gpio : BitVec 8} (hg : gpio.toNat < 5) :
    Prog.Keeps (Stays (Silent gpio.toNat)) (pf2M5pm1GpioSetOutput ctx gpio false) := by
  obtain ⟨reg, mask, -, hout, hmode, hrun⟩ := setOutput_updates ctx hg
  intro h hin
  rw [hrun]
  have hfirst : Through (Silent gpio.toNat) h (m5pm1UpdateBits ctx reg mask 0 h).2 := by
    refine updateBits_through ctx hin fun _ _ _ hboth => hin ?_
    rw [bitAt_update_merge, if_neg (fun hc => hout hc.1.symm), bitAt_update_merge,
      if_neg (fun hc => hmode hc.1.symm)] at hboth
    exact hboth
  refine bind_through hfirst fun k hk => ?_
  have hlast := hfirst.last
  rw [hk] at hlast
  refine outputUpdates_through ctx hg hlast fun regs ho hboth => ?_
  rw [ho] at hboth
  cases hboth.1

/-- A pin that drives its level is left alone by a call for that level. -/
theorem stays_drives {gpio : BitVec 8} (hg : gpio.toNat < 5) (level : Bool) :
    Prog.Keeps (Stays {regs | PinDrives regs gpio.toNat level})
      (pf2M5pm1GpioSetOutput ctx gpio level) := by
  intro h hd
  have hidle := PinDrives.idle ctx hg hd h rfl
  exact through_quiet hidle.1 hd

end Pins

/-! ### The board's pins -/

section Run

variable {cfg : Kconfig} {w₀ w : World} {vs : List (Visit World PresenceCall Answer)}

/-- The amplifier pin is not touched by the call for the power pin. -/
theorem tolerates_silent : Tolerates cfg (Stays (Silent 3)) where
  quiet hw := through_quiet hw
  l3bPower board hb hid ctx := by
    obtain ⟨hl3b, -⟩ := stick_pins hb hid
    refine stays_setOutput ctx (by omega) true fun f k hoff hf hboth => hf ?_
    rw [hl3b] at hoff
    rw [hoff _ (pinBits_disjoint (g := 3) (by omega) (by omega) (by omega) (by simp [pinBits])),
      hoff _ (pinBits_disjoint (g := 3) (by omega) (by omega) (by omega) (by simp [pinBits]))]
      at hboth
    exact hboth
  speakerAmp board hb hid ctx := by
    obtain ⟨-, hamp⟩ := stick_pins hb hid
    rw [← hamp]
    exact stays_silent ctx (by omega)

theorem tolerates_power : Tolerates cfg (Stays {regs | PinDrives regs 2 true}) where
  quiet hw := through_quiet hw
  l3bPower board hb hid ctx := by
    obtain ⟨hl3b, -⟩ := stick_pins hb hid
    rw [← hl3b]
    exact stays_drives ctx (by omega) true
  speakerAmp board hb hid ctx := by
    obtain ⟨-, hamp⟩ := stick_pins hb hid
    refine stays_setOutput ctx (by omega) false fun f k hoff hf => PinDrives.of_bits hf ?_
    rw [hamp] at hoff
    exact fun a ha => hoff a (pinBits_disjoint (by omega) (by omega) (by omega) ha)

/-- A run that starts with the power on and the amplifier off, and brings both up again. -/
theorem upAgain : Path (PresenceStep stickS3) upOnce
    [⟨upOnce, .init, .status (.ok ()), (picoFido2PresenceInit stickS3 upOnce).2⟩]
    (picoFido2PresenceInit stickS3 upOnce).2 :=
  .snoc .nil (.init (Prod.ext (by decide +kernel) rfl))

/-- In every run of calls with any failures, through every register file on the way: an
amplifier whose mode and output bits are not both set already, whatever its function, is
never driven high, and the L3B power, once on, stays on. -/
theorem pins_over_runs (hp : Path (PresenceStep cfg) w₀ vs w) :
    (¬ (bitAt w₀.hw.pm1 (outBit 3) = true ∧ bitAt w₀.hw.pm1 (modeBit 3) = true) →
      ∀ regs ∈ passed w₀.hw w.hw, ¬ PinDrives regs 3 true) ∧
    (PinDrives w₀.hw.pm1 2 true → ∀ regs ∈ passed w₀.hw w.hw, PinDrives regs 2 true) := by
  constructor
  · intro hsilent regs hregs
    exact Silent.not_drives ((tolerates_silent.run hp hsilent).passed hregs)
  · intro hpower regs hregs
    exact (tolerates_power.run hp hpower).passed hregs

theorem pins_over_runs_upAgain :
    PinDrives upOnce.hw.pm1 2 true ∧
      ∀ regs ∈ passed upOnce.hw (picoFido2PresenceInit stickS3 upOnce).2.hw,
        ¬ PinDrives regs 3 true ∧ PinDrives regs 2 true := by
  have stickBoard : pf2M5BoardGet stickS3 = some ⟨2, stickS3Desc⟩ := rfl
  have hok : pf2M5BoardInitPeripherals stickS3 (boot (.start quietTurns)) = (.ok (), upOnce) :=
    Prod.ext (by decide +kernel) rfl
  have hup := broughtUp_of_ok stickBoard rfl hok
  obtain ⟨hamp, hpower⟩ := pins_over_runs upAgain
  refine ⟨hup.l3bPower, fun regs hregs => ⟨hamp ?_ regs hregs, hpower hup.l3bPower regs hregs⟩⟩
  rintro ⟨hout, -⟩
  rw [show bitAt upOnce.hw.pm1 (outBit 3) = false from hup.speakerAmp.out] at hout
  cases hout

/-! ### The writes -/

/-- Writes were issued, and to these registers only. -/
def WritesTo (regs : List (BitVec 8)) (h k : Hardware) : Prop :=
  ∃ ws, Writes ws h k ∧ ∀ u ∈ ws, u.reg ∈ regs

instance (regs : List (BitVec 8)) : IsPreorder Hardware (WritesTo regs) where
  refl h := ⟨[], refl_of (Writes []) h, by simp⟩
  trans _ _ _ := by
    rintro ⟨ws, hws, hregs⟩ ⟨ws', hws', hregs'⟩
    refine ⟨_, hws.trans hws', fun u hu => ?_⟩
    rcases List.mem_append.mp hu with hu | hu
    · exact hregs u hu
    · exact hregs' u hu

/-- The registers of the pins below four. -/
def lowPinRegs : List (BitVec 8) := [m5pm1RegGpioFunc0, m5pm1RegGpioOut, m5pm1RegGpioMode]

theorem writesTo_updateBits (ctx : Pf2M5pm1) {regs : List (BitVec 8)} {reg : BitVec 8}
    (hreg : reg ∈ regs) (mask value : BitVec 8) :
    Prog.Keeps (WritesTo regs) (m5pm1UpdateBits ctx reg mask value) := by
  intro h
  refine ⟨_, m5pm1UpdateBits_writes ctx reg mask value h, fun u hu => ?_⟩
  unfold updateWrites at hu
  split at hu
  · rw [List.mem_singleton] at hu
    subst hu
    exact hreg
  · cases hu

theorem writesTo_setOutput (ctx : Pf2M5pm1) {regs : List (BitVec 8)} (hlow : lowPinRegs ⊆ regs)
    {gpio : BitVec 8} (hg : gpio < 4 ∨ m5pm1RegGpioFunc1 ∈ regs) (level : Bool) :
    Prog.Keeps (WritesTo regs) (pf2M5pm1GpioSetOutput ctx gpio level) := by
  unfold pf2M5pm1GpioSetOutput
  refine Prog.keeps_bind (Prog.keeps_require _ _) fun _ => ?_
  refine Prog.keeps_bind ?_ fun _ => ?_
  · split
    · exact writesTo_updateBits ctx (hlow (by simp [lowPinRegs])) _ _
    · rename_i hfour
      exact writesTo_updateBits ctx (hg.resolve_left hfour) _ _
  · refine Prog.keeps_bind (writesTo_updateBits ctx (hlow (by simp [lowPinRegs])) _ _) fun _ => ?_
    exact writesTo_updateBits ctx (hlow (by simp [lowPinRegs])) _ _

theorem tolerates_writesTo : Tolerates cfg (WritesTo lowPinRegs) where
  quiet hw := ⟨[], hw, by simp⟩
  l3bPower board hb hid ctx := by
    rcases pf2M5BoardGet_cases hb with rfl | rfl
    · cases hid
    · exact writesTo_setOutput ctx (List.Subset.refl _) (.inl (by decide)) true
  speakerAmp board hb hid ctx := by
    rcases pf2M5BoardGet_cases hb with rfl | rfl
    · cases hid
    · exact writesTo_setOutput ctx (List.Subset.refl _) (.inl (by decide)) false

/-- The register files that differ from `f` in the bits of the two pins at most. -/
def nearby (f : Pm1Regs) : Set Pm1Regs := {k | SameOff (pinBits 2 ∪ pinBits 3) f k}

theorem tolerates_nearby (f : Pm1Regs) : Tolerates cfg (Stays (nearby f)) where
  quiet hw := through_quiet hw
  l3bPower board hb hid ctx := by
    obtain ⟨hl3b, -⟩ := stick_pins hb hid
    refine stays_setOutput ctx (by omega) true fun g k hoff hg => ?_
    rw [hl3b] at hoff
    exact SameOff.trans hg (hoff.mono Set.subset_union_left)
  speakerAmp board hb hid ctx := by
    obtain ⟨-, hamp⟩ := stick_pins hb hid
    refine stays_setOutput ctx (by omega) false fun g k hoff hg => ?_
    rw [hamp] at hoff
    exact SameOff.trans hg (hoff.mono Set.subset_union_right)

/-- A board without the chip writes it nothing. -/
theorem tolerates_none (hno : ∀ board, pf2M5BoardGet cfg = some board → board.desc.id ≠ .stickS3) :
    Tolerates cfg (Writes []) where
  quiet hw := hw
  l3bPower board hb hid := absurd hid (hno board hb)
  speakerAmp board hb hid := absurd hid (hno board hb)

/-- In every run of calls with any failures: only the three registers of the low pins are
written, so no shutdown is ever commanded; through every register file on the way no bit
moves but those of the two pins; and a board without the chip writes it nothing. -/
theorem pm1_writes_over_runs (hp : Path (PresenceStep cfg) w₀ vs w) :
    (∀ u ∈ writesSince w₀.hw w.hw, u.reg = m5pm1RegGpioFunc0 ∨ u.reg = m5pm1RegGpioOut ∨
      u.reg = m5pm1RegGpioMode) ∧
    (∀ regs ∈ passed w₀.hw w.hw, ∀ a, a ∉ pinBits 2 ∪ pinBits 3 →
      bitAt regs a = bitAt w₀.hw.pm1 a) ∧
    ((∀ board, pf2M5BoardGet cfg = some board → board.desc.id ≠ .stickS3) →
      writesSince w₀.hw w.hw = []) := by
  refine ⟨?_, ?_, ?_⟩
  · obtain ⟨ws, hws, hregs⟩ := tolerates_writesTo.run hp
    rw [hws.since]
    intro u hu
    simpa [lowPinRegs] using hregs u hu
  · intro regs hregs
    exact ((tolerates_nearby w₀.hw.pm1).run hp SameOff.rfl).passed hregs
  · intro hno
    exact Writes.since ((tolerates_none hno).run hp)

/-- The first bring-up of a stick writes registers, and none of them shuts it down. -/
theorem pm1_writes_over_runs_boot :
    writesSince (boot (.start quietTurns)).hw
        (picoFido2PresenceInit stickS3 (boot (.start quietTurns))).2.hw ≠ [] ∧
      ∀ u ∈ writesSince (boot (.start quietTurns)).hw
        (picoFido2PresenceInit stickS3 (boot (.start quietTurns))).2.hw,
        u.reg ≠ m5pm1RegSysCmd := by
  have hp : Path (PresenceStep stickS3) (boot (.start quietTurns)) _ _ :=
    .snoc .nil (.init (Prod.ext rfl rfl))
  refine ⟨by decide +kernel, fun u hu => ?_⟩
  rcases (pm1_writes_over_runs hp).1 u hu with h | h | h <;> rw [h] <;> decide

end Run

end PicoFido2.M5boards
