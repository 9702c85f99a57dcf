import PicoFido2.M5boards.BringUpAgain
import PicoFido2.M5boards.Confirmations
import PicoFido2.M5boards.Freshness
import PicoFido2.M5boards.PollRule

/-! What the flag of the presence code stands for. Wherever it is up, the board's input was
brought up and still is: the keyboard is registered and configured, or the pads are
configured, the PM1 is registered, its power pin drives high and its amplifier pin low. -/

namespace PicoFido2.M5boards

open Effect Hal Hardware Transition

/-! ### The keyboard's settings -/

/-- What `pf2_tca8418_init` sets, but for the interrupt status. -/
def tcaSettings : List (BitVec 8 × BitVec 8) :=
  [(tca8418RegCfg, tca8418CfgKeIen), (tca8418RegKpGpio1, 0xff), (tca8418RegKpGpio2, 0xff),
    (tca8418RegKpGpio3, 0x03), (tca8418RegDebounceDis1, 0x00), (tca8418RegDebounceDis2, 0x00),
    (tca8418RegDebounceDis3, 0x00)]

/-- The registers of the keyboard are at these values. -/
def Configured (tca : BitVec 8 → BitVec 8) : Prop := ∀ s ∈ tcaSettings, tca s.1 = s.2

instance : DecidablePred Configured := fun tca =>
  List.decidableBAll (fun s : BitVec 8 × BitVec 8 => tca s.1 = s.2) tcaSettings

theorem ne_intStat : ∀ s ∈ tcaSettings, s.1 ≠ tca8418RegIntStat := by
  simp [tcaSettings, tca8418RegCfg, tca8418RegKpGpio1, tca8418RegKpGpio2, tca8418RegKpGpio3,
    tca8418RegDebounceDis1, tca8418RegDebounceDis2, tca8418RegDebounceDis3, tca8418RegIntStat]

/-- What a write that was taken stores. -/
def tcaStored (tca : BitVec 8 → BitVec 8) (reg value : BitVec 8) : BitVec 8 → BitVec 8 :=
  Function.update tca reg (if reg = tca8418RegIntStat then tca reg &&& ~~~value else value)

section Configure

variable (ctx : Pf2Tca8418)

theorem tca8418WriteU8_ok {reg value : BitVec 8} {h h' : Hardware}
    (hr : tca8418WriteU8 ctx reg value h = (.ok (), h')) : h'.tca = tcaStored h.tca reg value := by
  have hw := (sameChips_waited h).tca
  rw [tca8418WriteU8_apply] at hr
  split at hr
  · unfold i2cMasterTransmit at hr
    split at hr
    · rw [← (Prod.mk.inj hr).2]
      show Function.update h.waited.tca reg _ = _
      rw [hw]
      rfl
    · cases hr
  · cases hr

theorem tca8418Configure_ok {h h' : Hardware} (hr : tca8418Configure ctx h = (.ok (), h')) :
    Configured h'.tca := by
  unfold tca8418Configure at hr
  obtain ⟨⟨⟩, h₀, -, hr⟩ := Prog.of_bind_ok hr
  obtain ⟨⟨⟩, h₁, -, hr⟩ := Prog.of_bind_ok hr
  obtain ⟨⟨⟩, h₂, e₂, hr⟩ := Prog.of_bind_ok hr
  obtain ⟨⟨⟩, h₃, e₃, hr⟩ := Prog.of_bind_ok hr
  obtain ⟨⟨⟩, h₄, e₄, hr⟩ := Prog.of_bind_ok hr
  obtain ⟨⟨⟩, h₅, e₅, hr⟩ := Prog.of_bind_ok hr
  obtain ⟨⟨⟩, h₆, e₆, hr⟩ := Prog.of_bind_ok hr
  obtain ⟨⟨⟩, h₇, e₇, hr⟩ := Prog.of_bind_ok hr
  obtain ⟨⟨⟩, h₈, e₈, hr⟩ := Prog.of_bind_ok hr
  rw [tca8418WriteU8_ok ctx hr, tca8418WriteU8_ok ctx e₈, tca8418WriteU8_ok ctx e₇,
    tca8418WriteU8_ok ctx e₆, tca8418WriteU8_ok ctx e₅, tca8418WriteU8_ok ctx e₄,
    tca8418WriteU8_ok ctx e₃, tca8418WriteU8_ok ctx e₂]
  intro s hs
  simp only [tcaSettings, List.mem_cons, List.not_mem_nil, or_false] at hs
  rcases hs with rfl | rfl | rfl | rfl | rfl | rfl | rfl <;> rfl

end Configure

/-! ### What later calls leave alone -/

/-- The chips are as they were but for the keyboard's interrupt status; pads may have been
configured again. -/
structure Calm (h k : Hardware) : Prop where
  pm1 : k.pm1 = h.pm1
  tca : ∀ reg, reg ≠ tca8418RegIntStat → k.tca reg = h.tca reg
  padConfigs : k.padConfigs = h.padConfigs

instance : IsPreorder Hardware Calm where
  refl _ := ⟨rfl, fun _ _ => rfl, rfl⟩
  trans _ _ _ a b := ⟨b.pm1.trans a.pm1, fun reg hreg => (b.tca reg hreg).trans (a.tca reg hreg),
    b.padConfigs.trans a.padConfigs⟩

theorem calm_waited (h : Hardware) : Calm h h.waited := by
  have hs := sameChips_waited h
  exact ⟨hs.pm1, fun _ _ => by rw [hs.tca], hs.padConfigs⟩

theorem calm_polls : KeptByPolls Calm where
  waited := calm_waited
  popped _ := ⟨rfl, fun _ _ => rfl, rfl⟩
  cleared taken h := by
    cases taken with
    | false => exact refl_of Calm h
    | true => exact ⟨rfl, fun reg hreg => Function.update_of_ne hreg _ _, rfl⟩

theorem Configured.calm {h k : Hardware} (hc : Configured h.tca) (hk : Calm h k) :
    Configured k.tca := by
  intro s hs
  rw [hk.tca s.1 (ne_intStat s hs)]
  exact hc s hs

/-! ### The invariant -/

/-- The input of the board was brought up and still is. -/
structure Operational (board : BoardPtr) (w : World) : Prop where
  sBoard : w.presence.sBoard = some board
  bus : w.m5board.sInternalI2c.isSome
  keyboard : board.desc.userInput.type = .tca8418 →
    w.presence.sKeyboard.dev.isSome ∧ Configured w.hw.tca
  pads : board.desc.userInput.type = .gpio → presenceGpioConfig board ∈ w.hw.padConfigs
  stick : board.desc.id = .stickS3 → BroughtUp board w

section Operational

variable {board : BoardPtr} {w w' : World}

theorem Operational.calm (h : Operational board w) (hm5board : w'.m5board = w.m5board)
    (hsb : w'.presence.sBoard = w.presence.sBoard)
    (hdev : w'.presence.sKeyboard.dev = w.presence.sKeyboard.dev) (hc : Calm w.hw w'.hw) :
    Operational board w' where
  sBoard := hsb.trans h.sBoard
  bus := by rw [hm5board]; exact h.bus
  keyboard ht := by
    obtain ⟨hsome, hconfigured⟩ := h.keyboard ht
    exact ⟨by rw [hdev]; exact hsome, hconfigured.calm hc⟩
  pads ht := by rw [hc.padConfigs]; exact h.pads ht
  stick hid := by
    obtain ⟨hbus, hregistered, hl3b, hamp⟩ := h.stick hid
    refine ⟨?_, ?_, ?_, ?_⟩
    · rw [hm5board]; exact hbus
    · rw [hm5board]; exact hregistered
    · rw [hc.pm1]; exact hl3b
    · rw [hc.pm1]; exact hamp

/-- The first sample leaves it all as it is. -/
theorem Operational.finished (h : Operational board w) :
    Operational board (finished board w) := by
  have hdev : (M5boards.finished board w).presence.sKeyboard.dev = w.presence.sKeyboard.dev := by
    unfold M5boards.finished
    split
    · rfl
    · simp [(onlyHw_keysPressed calm_waited board w).presence]
  exact h.calm (finished_m5board board w) (finished_sBoard board w) hdev
    (finished_hw calm_waited board w)

variable {cfg : Kconfig} (hb : pf2M5BoardGet cfg = some board)
include hb

/-- What `pf2_m5_board_init_peripherals` leaves of a keyboard board: nothing but the bus. -/
theorem initPeripherals_bus (hbus : w.m5board.sInternalI2c.isSome) :
    (pf2M5BoardInitPeripherals cfg w).2.m5board.sInternalI2c.isSome := by
  rw [(initPeripherals_adds hb hbus).bus]
  exact hbus

theorem initPeripherals_pads (ht : board.desc.userInput.type = .gpio)
    (h : pf2M5BoardInitPeripherals cfg w = (.ok (), w')) :
    presenceGpioConfig board ∈ w'.hw.padConfigs := by
  unfold pf2M5BoardInitPeripherals at h
  rw [hb] at h
  obtain ⟨⟨⟩, u, -, h⟩ := Prog.of_bind_ok h
  obtain ⟨⟨⟩, v, -, h⟩ := Prog.of_bind_ok h
  rw [Prog.onlyIf_pos ht] at h
  have hpads := of_hal_ok h
  unfold gpioConfig driverCall at hpads
  split at hpads
  · rw [← (Prod.mk.inj hpads).2]
    exact List.mem_append_right _ (List.mem_singleton_self _)
  · cases hpads

omit hb in
theorem tca8418Init_ok {bus : Option ℕ} {addr : BitVec 8} {intGpio : GpioNum}
    (h : pf2Tca8418Init bus addr intGpio w = (.ok (), w')) :
    w'.presence.sKeyboard.dev.isSome ∧ Configured w'.hw.tca ∧ w'.m5board = w.m5board := by
  unfold pf2Tca8418Init at h
  rw [Prog.require_bind] at h
  split at h
  · obtain ⟨dev, u, hadd, h⟩ := Prog.of_bind_ok h
    rw [Prog.bind_ok (Prog.modify_apply _ u), Prog.bind_ok (Prog.get_apply _)] at h
    have hconfigured := tca8418Configure_ok _ (of_hal_ok h)
    rw [hal_apply] at h hadd
    have hu : u.m5board = w.m5board := by rw [← (Prod.mk.inj hadd).2]
    refine ⟨?_, hconfigured, ?_⟩
    · rw [← (Prod.mk.inj h).2]
      rfl
    · rw [← (Prod.mk.inj h).2]
      exact hu
  · cases h

/-- A bring-up that returned `ESP_OK` leaves the input operational. -/
theorem presenceBringUp_operational (hbus : w.m5board.sInternalI2c.isSome)
    (hsb : w.presence.sBoard = some board) (h : presenceBringUp cfg board w = (.ok (), w')) :
    Operational board w' := by
  have hsame := keeps_presenceBringUp spares_samePresence cfg board w
  rw [h] at hsame
  have hboard := hsame.sBoard.trans hsb
  obtain ⟨⟨⟩, u, hperipherals, hkeyboard⟩ := Prog.of_bind_ok h
  have hu := initPeripherals_bus hb hbus
  rw [hperipherals] at hu
  rcases pf2M5BoardGet_cases hb with rfl | rfl
  · have htype : (⟨1, cardputerAdvDesc⟩ : BoardPtr).desc.userInput.type = .tca8418 := rfl
    rw [Prog.onlyIf_pos htype, Prog.bind_ok (Prog.get_apply u)] at hkeyboard
    obtain ⟨hdev, hconfigured, hm5board⟩ := tca8418Init_ok hkeyboard
    refine ⟨hboard, by rw [hm5board]; exact hu, fun _ => ⟨hdev, hconfigured⟩, ?_, ?_⟩
    · intro ht
      cases ht
    · intro hid
      cases hid
  · rw [Prog.onlyIf_neg (by decide), Prog.pure_apply] at hkeyboard
    cases hkeyboard
    refine ⟨hboard, hu, ?_, fun ht => initPeripherals_pads hb ht hperipherals,
      fun hid => broughtUp_of_ok hb hid hperipherals⟩
    intro ht
    cases ht

/-! ### Calls -/

/-- Where the flag is up, the input is operational. -/
def FlagMeans (board : BoardPtr) (w : World) : Prop :=
  w.presence.sPresenceInitialized → Operational board w

omit hb in
theorem FlagMeans.down (h : ¬ w.presence.sPresenceInitialized)
    (hs : w'.presence.sPresenceInitialized = w.presence.sPresenceInitialized) :
    FlagMeans board w' := by
  intro hup
  rw [hs] at hup
  exact absurd hup h

theorem FlagMeans.presenceInit {r : Except EspErr Unit} (h : FlagMeans board w)
    (hi : PresenceInit cfg w r w') : FlagMeans board w' := by
  by_cases hup : w.presence.sPresenceInitialized
  · -- the bus is there and the board is this one, so the initialisation does nothing
    have hop := h hup
    have hearly := initEarly_of_bus hb hop.bus
    cases hi with
    | noBoard => exact h
    | earlyFailed hb' he => rw [hearly] at he; cases he
    | @late board' u _ _ hb' he hu =>
      rw [hb] at hb'
      cases hb'
      rw [hearly] at he
      cases he
      have ha := alreadyInitialized_iff.mpr ⟨hup, hop.sBoard⟩
      cases hu with
      | already => exact h
      | failed hno => exact absurd ha hno
      | done hno => exact absurd ha hno
  · cases hi with
    | noBoard => exact h
    | earlyFailed hb' he => exact .down hup (by rw [(initEarly_flags hb' he).2])
    | @late board' u _ _ hb' he hu =>
      rw [hb] at hb'
      cases hb'
      have hpres := (initEarly_flags hb he).2
      cases hu with
      | already => exact .down hup (by rw [hpres])
      | failed _ hr =>
        have hs := keeps_presenceBringUp spares_samePresence cfg board (selected board u)
        rw [hr] at hs
        refine .down hup (hs.sPresenceInitialized.trans ?_)
        show u.presence.sPresenceInitialized = _
        rw [hpres]
      | @done _ v _ hr =>
        have hbus := initEarly_ok hb he
        have hop := presenceBringUp_operational (w := selected board u) hb hbus rfl hr
        exact fun _ => hop.finished

theorem FlagMeans.step {call : PresenceCall} {ans : Answer} (h : FlagMeans board w)
    (hs : PresenceStep cfg w call ans w') : FlagMeans board w' := by
  have hguard : ∀ {b : Bool} {u : World}, Guarded cfg w b u → FlagMeans board u := by
    intro b u hg
    cases hg with
    | chosen => exact h
    | failed _ hi => exact h.presenceInit hb hi
    | lazy _ hi => exact h.presenceInit hb hi
  cases hs.move with
  | init hi => exact h.presenceInit hb hi
  | refused hg => exact hguard hg
  | asked hg ha =>
    have hsetup := ha.setup
    intro hup
    rw [hsetup.sPresenceInitialized] at hup
    exact (hguard hg hup).calm hsetup.m5board hsetup.sBoard hsetup.dev (calm_polls.asks ha)

/-- In every run from boot, with any failures. -/
theorem flagMeans_run {h₀ : Hardware} {vs : List (Visit World PresenceCall Answer)}
    (hp : Path (PresenceStep cfg) (boot h₀) vs w) : FlagMeans board w :=
  hp.invariant (fun h => (by cases h)) fun _ _ _ _ hs h => h.step hb hs

/-- The flag is up from a successful initialisation on. -/
theorem flag_run {h₀ : Hardware} {vs : List (Visit World PresenceCall Answer)}
    (hp : Path (PresenceStep cfg) (boot h₀) vs w)
    (hinit : ∃ v ∈ vs, v.ret = .status (.ok ())) : Ready board w := by
  have h := hp.history (I := fun us s => (∃ u ∈ us, u.ret = .status (.ok ())) → Ready board s)
    (by simp) ?_
  · exact h hinit
  · rintro us s call ans t hs ih ⟨u, hu, hans⟩
    rcases List.mem_append.mp hu with hu | hu
    · exact (ih ⟨u, hu, hans⟩).step hb hs
    · rw [List.mem_singleton] at hu
      subst hu
      obtain rfl : ans = .status (.ok ()) := hans
      generalize hr : Answer.status (.ok ()) = r at hs
      cases hs with
      | init h =>
        cases hr
        exact ready_of_init_ok hb (.of_eq h)
      | poll => cases hr
      | wait => cases hr

end Operational

/-- In every run of calls from boot, with any failures at any transfers: wherever the flag
of the presence code is up the input is operational, and it is up from the first successful
initialisation on. -/
theorem initialised_means_operational {cfg : Kconfig} {board : BoardPtr}
    (hb : pf2M5BoardGet cfg = some board) {h₀ : Hardware}
    {vs : List (Visit World PresenceCall Answer)} {w : World}
    (hp : Path (PresenceStep cfg) (boot h₀) vs w) :
    (w.presence.sPresenceInitialized → Operational board w) ∧
      ((∃ v ∈ vs, v.ret = .status (.ok ())) → Operational board w) := by
  have hflag := flagMeans_run hb hp
  exact ⟨hflag, fun hinit => hflag (flag_run hb hp hinit).sPresenceInitialized⟩

/-- The keyboard stays configured while its key is polled. -/
theorem initialised_means_operational_cardputer : Configured pollVisit.after.hw.tca := by
  have hb : pf2M5BoardGet cardputerAdv = some ⟨1, cardputerAdvDesc⟩ := rfl
  have hop := (initialised_means_operational hb keyRun).2 ⟨initVisit, by simp, rfl⟩
  exact (hop.keyboard rfl).2

end PicoFido2.M5boards
