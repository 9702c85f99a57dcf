import PicoFido2.M5boards.Pm1Writes

/-! The levels a PM1 pin drives on the way. The function bits are cleared before the
output bit is set, so a pin in another function whose mode and output bits already say
the opposite level drives that level after the first write. In every other case no
write of a call makes the pin drive the wrong level. -/

namespace PicoFido2.M5boards

open Effect Hal Bits

/-! ### Register files on the way -/

/-- The writes issued from `h` to `k`. -/
def writesSince (h k : Hardware) : List Pm1Write := writesOf (k.log.drop h.log.length)

theorem Writes.since {ws : List Pm1Write} {h k : Hardware} (a : Writes ws h k) :
    writesSince h k = ws := by
  obtain ⟨new, hlog, hws⟩ := a.log
  rw [writesSince, hlog, List.drop_left, hws]

/-- The register files from `h` to `k`: the first one, the one after each write, and the
one left. -/
def passed (h k : Hardware) : List Pm1Regs :=
  (writesSince h k).inits.map (afterWrites h.pm1) ++ [k.pm1]

/-- All of them are in `S`. -/
def Through (S : Set Pm1Regs) (h k : Hardware) : Prop :=
  ∃ ws, Writes ws h k ∧ ∀ p, p <+: ws → afterWrites h.pm1 p ∈ S

variable {S : Set Pm1Regs} {h k l : Hardware}

theorem Through.last (a : Through S h k) : k.pm1 ∈ S := by
  obtain ⟨ws, hws, hS⟩ := a
  rw [hws.pm1]
  exact hS ws (List.prefix_refl ws)

theorem Through.trans (a : Through S h k) (b : Through S k l) : Through S h l := by
  obtain ⟨ws, hws, hS⟩ := a
  obtain ⟨ws', hws', hS'⟩ := b
  refine ⟨ws ++ ws', hws.trans hws', fun p hp => ?_⟩
  rcases List.prefix_or_prefix_of_prefix hp (List.prefix_append ws ws') with hp | ⟨q, rfl⟩
  · exact hS p hp
  · rw [afterWrites_append, ← hws.pm1]
    exact hS' q ((List.prefix_append_right_inj ws).mp hp)

theorem Through.passed (a : Through S h k) {regs : Pm1Regs} (hregs : regs ∈ passed h k) :
    regs ∈ S := by
  have hlast := a.last
  obtain ⟨ws, hws, hS⟩ := a
  rw [M5boards.passed, hws.since] at hregs
  rcases List.mem_append.mp hregs with hregs | hregs
  · obtain ⟨p, hp, rfl⟩ := List.mem_map.mp hregs
    exact hS p ((List.mem_inits p ws).mp hp)
  · rw [List.mem_singleton.mp hregs]
    exact hlast

/-- Some writes were issued, it does not matter which. -/
def Issues (h k : Hardware) : Prop := ∃ ws, Writes ws h k

instance : IsPreorder Hardware Issues where
  refl h := ⟨[], refl_of (Writes []) h⟩
  trans _ _ _ := fun ⟨_, a⟩ ⟨_, b⟩ => ⟨_, a.trans b⟩

/-- The register file after the first write is one of them. -/
theorem Writes.first_passed {w : Pm1Write} (a : Writes [w] h k) (b : Issues k l) :
    w.apply h.pm1 ∈ passed h l := by
  obtain ⟨ws, b⟩ := b
  rw [passed, (a.trans b).since]
  refine List.mem_append_left _ (List.mem_map.mpr ⟨[w], ?_, rfl⟩)
  exact (List.mem_inits _ _).mpr (List.prefix_append [w] ws)

section Call

variable (ctx : Pf2M5pm1)

/-- A masked update passes through the file before it and, where its write reaches the
chip, through the file after it. -/
theorem updateBits_through {reg mask value : BitVec 8} (h0 : h.pm1 ∈ S)
    (h1 : ctx.dev.isSome → h.outcome = .done → reached h.waited.outcome = true →
      Function.update h.pm1 reg (merge (h.pm1 reg) mask value) ∈ S) :
    Through S h (m5pm1UpdateBits ctx reg mask value h).2 := by
  refine ⟨_, m5pm1UpdateBits_writes ctx reg mask value h, fun p hp => ?_⟩
  unfold updateWrites at hp
  split at hp
  · rename_i hissued
    rcases List.prefix_cons_iff.mp hp with rfl | ⟨t, rfl, ht⟩
    · exact h0
    · rw [List.prefix_nil.mp ht]
      show Pm1Write.apply _ h.pm1 ∈ S
      unfold Pm1Write.apply
      split
      · rename_i htaken
        exact h1 hissued.1 hissued.2.1 htaken
      · exact h0
  · rw [List.prefix_nil.mp hp]
    exact h0

/-! ### One call -/

/-- The call never makes its pin drive the opposite level: a register file on the way in
which the pin drives it is one the call started from. -/
def NeverWrong (gpio : BitVec 8) (level : Bool) (h : Hardware) : Prop :=
  ∀ regs ∈ passed h (pf2M5pm1GpioSetOutput ctx gpio level h).2,
    PinDrives regs gpio.toNat (!level) → PinDrives h.pm1 gpio.toNat (!level)

/-- The pin is in another function, and would drive `level` but for that. -/
structure Concealed (regs : Pm1Regs) (g : ℕ) (level : Bool) : Prop where
  func : ∃ a ∈ funcBits g, bitAt regs a = true
  out : bitAt regs (outBit g) = level
  mode : bitAt regs (modeBit g) = true

/-- The first read succeeds and the write that may follow it reaches the chip. -/
def FirstWriteReaches (h : Hardware) : Prop :=
  ctx.dev.isSome ∧ h.outcome = .done ∧ reached h.waited.outcome = true

section Cleared

variable {regs : Pm1Regs} {reg mask : BitVec 8} {g : ℕ} {level : Bool}
  (hfield : field reg mask = funcBits g) (hout : reg ≠ m5pm1RegGpioOut)
  (hmode : reg ≠ m5pm1RegGpioMode)
include hfield hout hmode

/-- With the function bits cleared the other two decide. -/
theorem pinDrives_cleared :
    PinDrives (Function.update regs reg (merge (regs reg) mask 0)) g level ↔
      bitAt regs (outBit g) = level ∧ bitAt regs (modeBit g) = true := by
  have ho : bitAt (Function.update regs reg (merge (regs reg) mask 0)) (outBit g) =
      bitAt regs (outBit g) := by
    rw [bitAt_update_merge, if_neg (fun hc => hout hc.1.symm)]
  have hm : bitAt (Function.update regs reg (merge (regs reg) mask 0)) (modeBit g) =
      bitAt regs (modeBit g) := by
    rw [bitAt_update_merge, if_neg (fun hc => hmode hc.1.symm)]
  constructor
  · intro hd
    exact ⟨ho ▸ hd.out, hm ▸ hd.mode⟩
  · rintro ⟨h₁, h₂⟩
    refine ⟨fun a ha => ?_, ho.trans h₁, hm.trans h₂⟩
    have hmem : a ∈ field reg mask := hfield ▸ ha
    rw [bitAt_update_merge, if_pos ⟨hmem.1, hmem.2⟩]
    simp

omit hout hmode in
/-- A pin in another function has a bit the first update clears. -/
theorem Concealed.merge_ne (hc : Concealed regs g level) :
    merge (regs reg) mask 0 ≠ regs reg := by
  obtain ⟨a, ha, htrue⟩ := hc.func
  have hmem : a ∈ field reg mask := hfield ▸ ha
  intro heq
  have hbit := getLsbD_merge (regs reg) mask 0 a.2
  rw [heq, if_pos hmem.2, ← hmem.1, show (regs a.1).getLsbD a.2 = true from htrue] at hbit
  simp at hbit

end Cleared

/-- Once the output bit is at the level asked for, the pin cannot drive the other one. -/
theorem not_wrong_of_out {regs : Pm1Regs} {g : ℕ} {level : Bool}
    (h : bitAt regs (outBit g) = level) : ¬ PinDrives regs g (!level) := by
  intro hd
  have := h.symm.trans hd.out
  cases level <;> cases this

/-- The two updates after the function bits are cleared. -/
def outputUpdates (gpio : BitVec 8) (level : Bool) : Prog Hardware EspErr Unit := do
  m5pm1UpdateBits ctx m5pm1RegGpioOut (1#8 <<< gpio.toNat) (if level then 1#8 <<< gpio.toNat else 0)
  m5pm1UpdateBits ctx m5pm1RegGpioMode (1#8 <<< gpio.toNat) (1#8 <<< gpio.toNat)

theorem setOutput_updates {gpio : BitVec 8} (hg : gpio.toNat < 5) :
    ∃ reg mask, field reg mask = funcBits gpio.toNat ∧ reg ≠ m5pm1RegGpioOut ∧
      reg ≠ m5pm1RegGpioMode ∧ ∀ level h, pf2M5pm1GpioSetOutput ctx gpio level h =
        (m5pm1UpdateBits ctx reg mask 0 >>= fun _ => outputUpdates ctx gpio level) h := by
  obtain ⟨reg, mask, hfield, hout, hmode, hclear⟩ := clearFunc_spec ctx hg
  refine ⟨reg, mask, hfield, hout, hmode, fun level h => ?_⟩
  rw [pf2M5pm1GpioSetOutput, Prog.require_bind, if_pos (by simpa [BitVec.lt_def] using hg)]
  simp only [hclear]
  rfl

theorem bind_through {x : Prog Hardware EspErr Unit} {f : Unit → Prog Hardware EspErr Unit}
    (hx : Through S h (x h).2) (hf : ∀ k, x h = (.ok (), k) → Through S k (f () k).2) :
    Through S h ((x >>= f) h).2 := by
  rw [Prog.bind_apply]
  rcases hr : x h with ⟨e | ⟨⟩, k⟩
  · rw [hr] at hx
    exact hx
  · rw [hr] at hx
    exact hx.trans (hf k hr)

/-- Once the output bit is written it stays at the level asked for. -/
theorem outputUpdates_through {gpio : BitVec 8} (hg : gpio.toNat < 5) {level : Bool}
    (h0 : h.pm1 ∈ S) (hS : ∀ regs, bitAt regs (outBit gpio.toNat) = level → regs ∈ S) :
    Through S h (outputUpdates ctx gpio level h).2 := by
  have hbit : (1#8 <<< gpio.toNat).getLsbD gpio.toNat = true := (getLsbD_bit (by omega)).2 rfl
  have hom : m5pm1RegGpioOut ≠ m5pm1RegGpioMode := by decide
  have hset : ∀ regs : Pm1Regs, bitAt (Function.update regs m5pm1RegGpioOut
      (merge (regs m5pm1RegGpioOut) (1#8 <<< gpio.toNat)
        (if level then 1#8 <<< gpio.toNat else 0))) (outBit gpio.toNat) = level := by
    intro regs
    rw [bitAt_update_merge, if_pos ⟨rfl, hbit⟩]
    cases level <;> simp [outBit, hbit]
  have hfirst := updateBits_through ctx h0 fun _ _ _ => hS _ (hset h.pm1)
  refine bind_through hfirst fun k hk => ?_
  have hlast := hfirst.last
  rw [hk] at hlast
  refine updateBits_through ctx hlast fun _ _ _ => hS _ ?_
  rw [bitAt_update_merge, if_neg (fun hc => hom hc.1), m5pm1UpdateBits_ok ctx _ _ _ hk]
  exact hset h.pm1

/-- A call makes its pin drive the opposite level exactly where the pin was concealed at
that level and the write that clears its function bits reaches the chip. -/
theorem never_wrong_iff {gpio : BitVec 8} (hg : gpio.toNat < 5) (level : Bool) (h : Hardware) :
    NeverWrong ctx gpio level h ↔
      ¬ (Concealed h.pm1 gpio.toNat (!level) ∧ FirstWriteReaches ctx h) := by
  obtain ⟨reg, mask, hfield, hout, hmode, hrun⟩ := setOutput_updates ctx hg
  unfold NeverWrong
  rw [hrun]
  constructor
  · -- the file after the first write of a concealed pin is one of those on the way
    rintro hnever ⟨hc, hdev, hdone, hreach⟩
    have hfirst := m5pm1UpdateBits_writes ctx reg mask 0 h
    rw [updateWrites, if_pos ⟨hdev, hdone, hc.merge_ne hfield⟩, hreach] at hfirst
    have hissues : ∀ r m v, Prog.Keeps Issues (m5pm1UpdateBits ctx r m v) :=
      fun r m v h => ⟨_, m5pm1UpdateBits_writes ctx r m v h⟩
    have hrest : Prog.Keeps Issues (outputUpdates ctx gpio level) :=
      Prog.keeps_bind (hissues _ _ _) fun _ => hissues _ _ _
    have hmem : Function.update h.pm1 reg (merge (h.pm1 reg) mask 0) ∈
        passed h ((m5pm1UpdateBits ctx reg mask 0 >>=
          fun _ => outputUpdates ctx gpio level) h).2 := by
      refine hfirst.first_passed ?_
      rw [Prog.bind_apply]
      rcases m5pm1UpdateBits ctx reg mask 0 h with ⟨e | u, t⟩
      · exact refl_of Issues t
      · exact hrest t
    have hdrives := hnever _ hmem ((pinDrives_cleared hfield hout hmode).mpr ⟨hc.out, hc.mode⟩)
    obtain ⟨a, ha, htrue⟩ := hc.func
    rw [hdrives.func a ha] at htrue
    cases htrue
  · -- every update stays among the files that drive no wrong level the call did not find
    intro hno regs hregs
    have hfirst : Through {regs | PinDrives regs gpio.toNat (!level) →
        PinDrives h.pm1 gpio.toNat (!level)} h (m5pm1UpdateBits ctx reg mask 0 h).2 := by
      refine updateBits_through ctx id fun hdev hdone hreach hd => ?_
      obtain ⟨ho, hm⟩ := (pinDrives_cleared hfield hout hmode).mp hd
      refine ⟨fun a ha => ?_, ho, hm⟩
      by_contra htrue
      exact hno ⟨⟨⟨a, ha, by simpa using htrue⟩, ho, hm⟩, hdev, hdone, hreach⟩
    refine (bind_through hfirst fun k hk => ?_).passed hregs
    have hlast := hfirst.last
    rw [hk] at hlast
    exact outputUpdates_through ctx hg hlast fun _ ho hd => absurd hd (not_wrong_of_out ho)

end Call

/-! ### The amplifier of a StickS3 -/

/-- The amplifier's pin is in another function, with its mode and output bits set. -/
def leftByFirmware (turns : ℕ → Turn) : Hardware :=
  { Hardware.start turns with
    pm1 := Function.update (Function.update (Function.update (fun _ => 0)
      m5pm1RegGpioFunc0 0xc0) m5pm1RegGpioOut 0x08) m5pm1RegGpioMode 0x08 }

/-- Where the first read fails nothing is driven. -/
theorem amp_off_read_fails : NeverWrong ⟨some 0⟩ 3 false (leftByFirmware (failsAt 0)) :=
  (never_wrong_iff ⟨some 0⟩ (by decide) false (leftByFirmware (failsAt 0))).mpr fun h =>
    absurd h.2.2.1 (by decide)

/-- Switching the amplifier off turns it on: after the first write it drives high. -/
theorem amp_off_turns_on : ¬ NeverWrong ⟨some 0⟩ 3 false (leftByFirmware quietTurns) := by
  intro h
  have hwrites : writesSince (leftByFirmware quietTurns)
      (pf2M5pm1GpioSetOutput ⟨some 0⟩ 3 false (leftByFirmware quietTurns)).2 =
      [⟨m5pm1RegGpioFunc0, 0, true⟩, ⟨m5pm1RegGpioOut, 0, true⟩] := by decide +kernel
  have hmem : afterWrites (leftByFirmware quietTurns).pm1 [⟨m5pm1RegGpioFunc0, 0, true⟩] ∈
      passed (leftByFirmware quietTurns)
        (pf2M5pm1GpioSetOutput ⟨some 0⟩ 3 false (leftByFirmware quietTurns)).2 := by
    rw [passed, hwrites]
    refine List.mem_append_left _ (List.mem_map.mpr ⟨_, ?_, rfl⟩)
    exact (List.mem_inits _ _).mpr (List.prefix_append [_] [_])
  have hdrives : PinDrives (afterWrites (leftByFirmware quietTurns).pm1
      [⟨m5pm1RegGpioFunc0, 0, true⟩]) 3 true := by
    refine ⟨fun a ha => ?_, by decide, by decide⟩
    rcases ha with rfl | rfl <;> decide
  have hfunc := (h _ hmem hdrives).func (m5pm1RegGpioFunc0, 6) (.inl rfl)
  revert hfunc
  decide

end PicoFido2.M5boards
