import PicoFido2.M5boards.Pm1Runs

/-! The PM1 driver under any client. A client switches pins, by number or by the two names
the driver has for them, and shuts the chip down, in any order and with any failures. Only
the shutdown calls issue writes to the command register, and what the pins do is told by the
calls for them as if nobody had asked for a shutdown. -/

namespace PicoFido2.M5boards

open Effect Hal Bits Transition

inductive Pm1Call where
  | gpioSetOutput (gpio : BitVec 8) (level : Bool)
  | enableL3bPower (enable : Bool)
  | enableSpeakerAmp (enable : Bool)
  | shutdown
  deriving DecidableEq, Repr

def Pm1Call.run (ctx : Pf2M5pm1) : Pm1Call → Prog Hardware EspErr Unit
  | gpioSetOutput gpio level => pf2M5pm1GpioSetOutput ctx gpio level
  | enableL3bPower enable => pf2M5pm1EnableL3bPower ctx enable
  | enableSpeakerAmp enable => pf2M5pm1EnableSpeakerAmp ctx enable
  | shutdown => pf2M5pm1Shutdown ctx

/-- The pin of a call and the level asked for. -/
def Pm1Call.pin? : Pm1Call → Option (BitVec 8 × Bool)
  | gpioSetOutput gpio level => some (gpio, level)
  | enableL3bPower enable => some (2, enable)
  | enableSpeakerAmp enable => some (3, enable)
  | shutdown => none

def Pm1Step (ctx : Pf2M5pm1) (h : Hardware) (call : Pm1Call) (r : Except EspErr Unit)
    (h' : Hardware) : Prop := call.run ctx h = (r, h')

theorem Pm1Step.after {ctx : Pf2M5pm1} {h h' : Hardware} {call : Pm1Call}
    {r : Except EspErr Unit} (hs : Pm1Step ctx h call r h') : h' = (call.run ctx h).2 :=
  (congrArg Prod.snd hs).symm

abbrev Pm1Visit := Visit Hardware Pm1Call (Except EspErr Unit)

/-- A call is a switch of one pin or a shutdown. -/
theorem Pm1Call.run_cases (ctx : Pf2M5pm1) (call : Pm1Call) :
    (∃ gpio level, call.pin? = some (gpio, level) ∧
      call.run ctx = pf2M5pm1GpioSetOutput ctx gpio level) ∨ call = .shutdown := by
  cases call with
  | gpioSetOutput gpio level => exact .inl ⟨gpio, level, rfl, rfl⟩
  | enableL3bPower enable => exact .inl ⟨2, enable, rfl, rfl⟩
  | enableSpeakerAmp enable => exact .inl ⟨3, enable, rfl, rfl⟩
  | shutdown => exact .inr rfl

section Run

variable {ctx : Pf2M5pm1} {h₀ h : Hardware} {vs : List Pm1Visit}

/-! ### Pins -/

/-- A call leaves every bit alone that is not its pin's, outside the command register. -/
theorem pm1Step_frame {h h' : Hardware} {call : Pm1Call} {r : Except EspErr Unit}
    (hs : Pm1Step ctx h call r h') {a : BitAddr (BitVec 8)} (hreg : a.1 ≠ m5pm1RegSysCmd)
    (ha : ∀ gpio level, call.pin? = some (gpio, level) → gpio.toNat < 5 → a ∉ pinBits gpio.toNat) :
    bitAt h'.pm1 a = bitAt h.pm1 a := by
  rcases call.run_cases ctx with ⟨gpio, level, hpin, hrun⟩ | rfl
  · have hset : SetOutputStep ctx h (gpio, level) r h' := by
      rw [SetOutputStep, ← hrun]
      exact hs
    exact setOutputStep_frame hset (ha gpio level hpin)
  · have hafter : h' = (pf2M5pm1Shutdown ctx h).2 := hs.after
    rw [hafter]
    rcases m5pm1WriteU8_pm1 ctx m5pm1RegSysCmd (m5pm1SysCmdKey ||| m5pm1SysCmdShutdown) h with
      ⟨hsame, -⟩ | hupdate
    · exact congrArg (fun regs => bitAt regs a) hsame
    · have hread : (pf2M5pm1Shutdown ctx h).2.pm1 a.1 = h.pm1 a.1 := by
        rw [pf2M5pm1Shutdown, hupdate, Function.update_of_ne hreg]
      exact congrArg (fun value : BitVec 8 => value.getLsbD a.2) hread

theorem pm1Run_frame (hp : Path (Pm1Step ctx) h₀ vs h) {a : BitAddr (BitVec 8)}
    (hreg : a.1 ≠ m5pm1RegSysCmd)
    (ha : ∀ v ∈ vs, ∀ gpio level, v.op.pin? = some (gpio, level) → gpio.toNat < 5 →
      a ∉ pinBits gpio.toNat) : bitAt h.pm1 a = bitAt h₀.pm1 a := by
  induction hp with
  | nil => rfl
  | @snoc vs s t call r _ hs ih =>
    rw [pm1Step_frame hs hreg (ha ⟨s, call, r, t⟩ (by simp)),
      ih fun v hv => ha v (List.mem_append_left _ hv)]

theorem pinBits_ne_sysCmd {g : ℕ} {a : BitAddr (BitVec 8)} (ha : a ∈ pinBits g) :
    a.1 ≠ m5pm1RegSysCmd := by
  rcases pinBits_register ha with h | h | h | h <;> rw [h] <;> decide

/-! ### Commands -/

/-- So many writes to the command register were issued, each a shutdown with its key. -/
def Commands (n : ℕ) (h k : Hardware) : Prop :=
  ∃ ws, Writes ws h k ∧ (ws.filter fun u => u.reg = m5pm1RegSysCmd).map (fun u => u.value) =
    List.replicate n (m5pm1SysCmdKey ||| m5pm1SysCmdShutdown)

theorem Commands.trans {m n : ℕ} {h k l : Hardware} (a : Commands m h k) (b : Commands n k l) :
    Commands (m + n) h l := by
  obtain ⟨ws, hws, hsent⟩ := a
  obtain ⟨ws', hws', hsent'⟩ := b
  refine ⟨ws ++ ws', hws.trans hws', ?_⟩
  rw [List.filter_append, List.map_append, hsent, hsent', List.replicate_append_replicate]

def shutdowns (vs : List Pm1Visit) : ℕ := vs.countP fun v => v.op = .shutdown

/-- The registers of the pins. -/
def pinRegs : List (BitVec 8) := m5pm1RegGpioFunc1 :: lowPinRegs

theorem ne_sysCmd : ∀ reg ∈ pinRegs, reg ≠ m5pm1RegSysCmd := by
  simp [pinRegs, lowPinRegs, m5pm1RegGpioFunc0, m5pm1RegGpioFunc1, m5pm1RegGpioOut,
    m5pm1RegGpioMode, m5pm1RegSysCmd]

theorem pm1Step_commands (hdev : ctx.dev.isSome) {h h' : Hardware} {call : Pm1Call}
    {r : Except EspErr Unit} (hs : Pm1Step ctx h call r h') :
    Commands (shutdowns [⟨h, call, r, h'⟩]) h h' := by
  rcases call.run_cases ctx with ⟨gpio, level, hpin, hrun⟩ | rfl
  · have hafter : h' = (pf2M5pm1GpioSetOutput ctx gpio level h).2 := by
      rw [← hrun]
      exact hs.after
    have hlow : lowPinRegs ⊆ pinRegs := List.subset_cons_self _ _
    obtain ⟨ws, hws, hregs⟩ := writesTo_setOutput ctx hlow (.inr List.mem_cons_self) level h
    have hnone : shutdowns [⟨h, call, r, h'⟩] = 0 := by
      cases call with
      | shutdown => cases hpin
      | _ => rfl
    rw [hnone, hafter]
    refine ⟨ws, hws, ?_⟩
    have hfilter : ws.filter (fun u => u.reg = m5pm1RegSysCmd) = [] := by
      rw [List.filter_eq_nil_iff]
      intro u hu
      simpa using ne_sysCmd u.reg (hregs u hu)
    rw [hfilter]
    rfl
  · have hafter : h' = (pf2M5pm1Shutdown ctx h).2 := hs.after
    have hone : shutdowns [(⟨h, .shutdown, r, h'⟩ : Pm1Visit)] = 1 := rfl
    rw [hone, hafter]
    exact ⟨_, m5pm1WriteU8_writes ctx m5pm1RegSysCmd _ hdev h, rfl⟩

/-- In every run of a client of the driver, once the chip is registered and with any failures:
every shutdown call issues one write to the command register, of the command with its key,
and no other call issues one; a pin whose last call returned `ESP_OK` drives that call's
level, shutdowns or not; and outside the command register no bit moves but those of the pins
that calls name. -/
theorem pm1_client_runs (hdev : ctx.dev.isSome) (hp : Path (Pm1Step ctx) h₀ vs h) :
    ((writesSince h₀ h).filter fun u => u.reg = m5pm1RegSysCmd).map (fun u => u.value) =
        List.replicate (shutdowns vs) (m5pm1SysCmdKey ||| m5pm1SysCmdShutdown) ∧
      (∀ pre v post gpio level, vs = pre ++ v :: post → v.op.pin? = some (gpio, level) →
        gpio.toNat < 5 → v.ret = .ok () → (∀ u ∈ post, ∀ l, u.op.pin? ≠ some (gpio, l)) →
          PinDrives h.pm1 gpio.toNat level) ∧
      ∀ a : BitAddr (BitVec 8), a.1 ≠ m5pm1RegSysCmd →
        (∀ v ∈ vs, ∀ gpio level, v.op.pin? = some (gpio, level) → gpio.toNat < 5 →
          a ∉ pinBits gpio.toNat) → bitAt h.pm1 a = bitAt h₀.pm1 a := by
  refine ⟨?_, ?_, fun a hreg ha => pm1Run_frame hp hreg ha⟩
  · have hcommands : Commands (shutdowns vs) h₀ h := by
      refine hp.history (I := fun us t => Commands (shutdowns us) h₀ t)
        ⟨[], refl_of (Writes []) h₀, rfl⟩ fun us s call r t hs ih => ?_
      rw [shutdowns, List.countP_append]
      exact ih.trans (pm1Step_commands hdev hs)
    obtain ⟨ws, hws, hsent⟩ := hcommands
    rw [hws.since]
    exact hsent
  · intro pre v post gpio level he hpin hg hok hlast
    obtain ⟨-, hv⟩ := hp.visit pre v post he
    have hdrives : PinDrives v.after.pm1 gpio.toNat level := by
      rcases v.op.run_cases ctx with ⟨gpio', level', hpin', hrun⟩ | hshutdown
      · rw [hpin] at hpin'
        cases hpin'
        apply setOutput_ok ctx hg level
        rw [← hrun, show v.op.run ctx v.before = (v.ret, v.after) from hv, hok]
      · rw [hshutdown] at hpin
        cases hpin
    refine hdrives.of_bits fun a ha => ?_
    refine pm1Run_frame (hp.suffix he) (pinBits_ne_sysCmd ha) fun u hu gpio' level' hpin' hg' => ?_
    refine pinBits_disjoint hg hg' (fun heq => ?_) ha
    obtain rfl : gpio = gpio' := BitVec.eq_of_toNat_eq heq
    exact hlast u hu level' hpin'

end Run

/-- The amplifier is switched on and the chip shut down; the command does not reach the pin. -/
theorem pm1_client_runs_shutdown :
    let h₀ := Hardware.start quietTurns
    let h₁ := (pf2M5pm1EnableSpeakerAmp ⟨some 0⟩ true h₀).2
    let h₂ := (pf2M5pm1Shutdown ⟨some 0⟩ h₁).2
    (((writesSince h₀ h₂).filter fun u => u.reg = m5pm1RegSysCmd).map fun u => u.value) = [0xa1] ∧
      PinDrives h₂.pm1 3 true := by
  intro h₀ h₁ h₂
  have e₁ : Pm1Step ⟨some 0⟩ h₀ (.enableSpeakerAmp true) (.ok ()) h₁ :=
    Prod.ext (by decide +kernel) rfl
  have e₂ : Pm1Step ⟨some 0⟩ h₁ .shutdown (.ok ()) h₂ := Prod.ext (by decide +kernel) rfl
  have hrun := pm1_client_runs rfl (Path.snoc (Path.snoc .nil e₁) e₂)
  exact ⟨hrun.1, hrun.2.1 [] _ _ 3 true rfl rfl (by decide) rfl (by simp [Pm1Call.pin?])⟩

end PicoFido2.M5boards
