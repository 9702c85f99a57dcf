import Mathlib.Data.Set.Insert
import Mathlib.Tactic
import PicoFido2.Bits.RegFile
import PicoFido2.M5boards.M5pm1
import PicoFido2.Transition.Path

/-! Independence of the PM1 pins. Every pin owns four bits of the register file:
two function bits, an output bit and a mode bit. A call for a pin moves no other
bit, whether it succeeds or stops at any of its six transfers, and a call that
succeeds leaves the pin's four bits as an output at the level asked for. Over a
run of calls each pin keeps what its own last call made of it. -/

namespace PicoFido2.M5boards

open Effect Hal Bits Transition

/-! ### One masked update -/

section Update

variable (ctx : Pf2M5pm1) (reg mask value : BitVec 8)

theorem m5pm1ReadU8_pm1 (h : Hardware) : (m5pm1ReadU8 ctx reg h).2.pm1 = h.pm1 := by
  have hw := (Hardware.sameChips_waited h).pm1
  rw [m5pm1ReadU8, Prog.require_bind]
  split
  · unfold i2cMasterTransmitReceive
    split
    · exact hw
    · split <;> exact hw
  · rfl

theorem m5pm1ReadU8_ok {h h' : Hardware} {v : BitVec 8}
    (hr : m5pm1ReadU8 ctx reg h = (.ok v, h')) : v = h.pm1 reg := by
  rw [m5pm1ReadU8, Prog.require_bind] at hr
  split at hr
  · rw [(transmitReceive_ok hr).2.1, (Hardware.sameChips_waited h).pm1]
  · simp at hr

/-- A write reaches the register or leaves the file as it was; one that returns `ESP_OK`
reached it. -/
theorem m5pm1WriteU8_pm1 (h : Hardware) :
    ((m5pm1WriteU8 ctx reg value h).2.pm1 = h.pm1 ∧
      (m5pm1WriteU8 ctx reg value h).1 ≠ .ok ()) ∨
    (m5pm1WriteU8 ctx reg value h).2.pm1 = Function.update h.pm1 reg value := by
  have hw := (Hardware.sameChips_waited h).pm1
  rw [m5pm1WriteU8, Prog.require_bind]
  split
  · unfold i2cMasterTransmit
    split
    · right; simp [pm1Store, hw]
    · rename_i f _
      cases hf : f.writeTaken
      · left; simp [pm1Store, hw]
      · right; simp [pm1Store, hw]
  · left; simp

/-- A masked update reaches the register or leaves the file as it was; one that
returns `ESP_OK` reached it, also where it skipped the write. -/
theorem m5pm1UpdateBits_pm1 (h : Hardware) :
    ((m5pm1UpdateBits ctx reg mask value h).2.pm1 = h.pm1 ∧
      (m5pm1UpdateBits ctx reg mask value h).1 ≠ .ok ()) ∨
    (m5pm1UpdateBits ctx reg mask value h).2.pm1 =
      Function.update h.pm1 reg (merge (h.pm1 reg) mask value) := by
  have hp := m5pm1ReadU8_pm1 ctx reg h
  unfold m5pm1UpdateBits
  rcases hr : m5pm1ReadU8 ctx reg h with ⟨e | old, t⟩
  · rw [hr] at hp
    rw [Prog.bind_error hr]
    left; exact ⟨hp, by simp⟩
  · have hold := m5pm1ReadU8_ok ctx reg hr
    rw [hr] at hp
    rw [Prog.bind_ok hr]
    change (_ ∧ _) ∨ _
    by_cases hskip : merge old mask value = old
    · right
      rw [show ((old &&& ~~~mask) ||| (value &&& mask)) = old from hskip, if_pos rfl,
        Prog.pure_apply, ← hold, hskip, hold, Function.update_eq_self]
      exact hp
    · simp only [merge] at hskip
      simp only [if_neg hskip]
      have hw := m5pm1WriteU8_pm1 ctx reg (merge old mask value) t
      rw [show t.pm1 = h.pm1 from hp, hold] at hw
      rw [hold]
      exact hw

theorem m5pm1UpdateBits_sameOff (h : Hardware) :
    SameOff (field reg mask) h.pm1 (m5pm1UpdateBits ctx reg mask value h).2.pm1 := by
  rcases m5pm1UpdateBits_pm1 ctx reg mask value h with ⟨hu, _⟩ | hu
  · rw [hu]; exact SameOff.rfl
  · rw [hu]; exact sameOff_update_merge h.pm1 reg mask value

theorem m5pm1UpdateBits_ok {h h' : Hardware}
    (hr : m5pm1UpdateBits ctx reg mask value h = (.ok (), h')) :
    h'.pm1 = Function.update h.pm1 reg (merge (h.pm1 reg) mask value) := by
  have hu := m5pm1UpdateBits_pm1 ctx reg mask value h
  rw [hr] at hu
  rcases hu with ⟨_, hne⟩ | hu
  · exact absurd rfl hne
  · exact hu

end Update

/-! ### The bits of a pin -/

/-- The two function bits of pin `g`. -/
def funcBits (g : ℕ) : Set (BitAddr (BitVec 8)) :=
  if g < 4 then {(m5pm1RegGpioFunc0, 2 * g), (m5pm1RegGpioFunc0, 2 * g + 1)}
  else {(m5pm1RegGpioFunc1, 0), (m5pm1RegGpioFunc1, 1)}

def outBit (g : ℕ) : BitAddr (BitVec 8) := (m5pm1RegGpioOut, g)

def modeBit (g : ℕ) : BitAddr (BitVec 8) := (m5pm1RegGpioMode, g)

def pinBits (g : ℕ) : Set (BitAddr (BitVec 8)) := funcBits g ∪ {outBit g, modeBit g}

/-- Pin `g` is a plain GPIO output at `level`. -/
structure PinDrives (regs : BitVec 8 → BitVec 8) (g : ℕ) (level : Bool) : Prop where
  func : ∀ a ∈ funcBits g, bitAt regs a = false
  out : bitAt regs (outBit g) = level
  mode : bitAt regs (modeBit g) = true

theorem getLsbD_bit {g i : ℕ} (hg : g < 8) : (1#8 <<< g).getLsbD i = true ↔ i = g := by
  by_cases hi : i < 8
  · interval_cases g <;> interval_cases i <;> decide
  · simp only [BitVec.getLsbD_of_ge _ _ (Nat.le_of_not_lt hi), Bool.false_eq_true, false_iff]
    omega

theorem getLsbD_funcMask {g i : ℕ} (hg : g < 4) :
    (0x03#8 <<< (g * 2)).getLsbD i = true ↔ i = 2 * g ∨ i = 2 * g + 1 := by
  by_cases hi : i < 8
  · interval_cases g <;> interval_cases i <;> decide
  · simp only [BitVec.getLsbD_of_ge _ _ (Nat.le_of_not_lt hi), Bool.false_eq_true, false_iff]
    omega

theorem field_bit (r : BitVec 8) {g : ℕ} (hg : g < 8) : field r (1#8 <<< g) = {(r, g)} := by
  ext ⟨k, i⟩
  simp only [field, Set.mem_ofPred_eq, getLsbD_bit hg, Set.mem_singleton_iff, Prod.mk.injEq]

theorem field_func0 {g : ℕ} (hg : g < 4) :
    field m5pm1RegGpioFunc0 (0x03#8 <<< (g * 2)) = funcBits g := by
  ext ⟨k, i⟩
  simp only [field, funcBits, if_pos hg, Set.mem_ofPred_eq, getLsbD_funcMask hg,
    Set.mem_insert_iff, Set.mem_singleton_iff, Prod.mk.injEq]
  tauto

theorem field_func1 : field m5pm1RegGpioFunc1 0x03#8 = funcBits 4 := by
  ext ⟨k, i⟩
  have hm : (0x03#8).getLsbD i = true ↔ i = 0 ∨ i = 1 := @getLsbD_funcMask 0 i (by omega)
  simp only [field, funcBits, Set.mem_ofPred_eq, hm, if_neg (show ¬ 4 < 4 by omega),
    Set.mem_insert_iff, Set.mem_singleton_iff, Prod.mk.injEq]
  tauto

/-- Different pins have no bit in common. -/
theorem pinBits_disjoint {g k : ℕ} (hg : g < 5) (hk : k < 5) (hgk : g ≠ k)
    {a : BitAddr (BitVec 8)} (ha : a ∈ pinBits g) : a ∉ pinBits k := by
  obtain ⟨r, i⟩ := a
  simp only [pinBits, funcBits, outBit, modeBit, m5pm1RegGpioFunc0, m5pm1RegGpioFunc1,
    m5pm1RegGpioOut, m5pm1RegGpioMode, Set.mem_union, Set.mem_insert_iff,
    Set.mem_singleton_iff, Prod.mk.injEq] at ha ⊢
  split at ha <;> split <;>
    simp only [Set.mem_insert_iff, Set.mem_singleton_iff, Prod.mk.injEq] at ha ⊢ <;>
    rcases ha with (⟨rfl, rfl⟩ | ⟨rfl, rfl⟩) | (⟨rfl, rfl⟩ | ⟨rfl, rfl⟩) <;> simp <;> omega

/-- Only four registers hold pin bits. -/
theorem pinBits_register {g : ℕ} {a : BitAddr (BitVec 8)} (ha : a ∈ pinBits g) :
    a.1 = m5pm1RegGpioFunc0 ∨ a.1 = m5pm1RegGpioFunc1 ∨ a.1 = m5pm1RegGpioOut ∨
      a.1 = m5pm1RegGpioMode := by
  simp only [pinBits, funcBits, outBit, modeBit, Set.mem_union, Set.mem_insert_iff,
    Set.mem_singleton_iff] at ha
  split at ha <;> rcases ha with (rfl | rfl) | (rfl | rfl) <;> simp

/-- What a pin drives is told by its own bits. -/
theorem PinDrives.of_bits {f k : BitVec 8 → BitVec 8} {g : ℕ} {level : Bool}
    (hd : PinDrives f g level) (h : ∀ a ∈ pinBits g, bitAt k a = bitAt f a) :
    PinDrives k g level := by
  refine ⟨fun a ha => ?_, ?_, ?_⟩
  · rw [h a (Or.inl ha)]; exact hd.func a ha
  · rw [h _ (by simp [pinBits])]; exact hd.out
  · rw [h _ (by simp [pinBits])]; exact hd.mode

/-! ### One call -/

section Call

variable (ctx : Pf2M5pm1)

/-- The registers of `k` are those of `h` off the bits in `S`. -/
def RegFrame (S : Set (BitAddr (BitVec 8))) (h k : Hardware) : Prop := SameOff S h.pm1 k.pm1

instance (S : Set (BitAddr (BitVec 8))) : IsPreorder Hardware (RegFrame S) where
  refl _ := SameOff.rfl
  trans _ _ _ := SameOff.trans

theorem keeps_updateBits {S : Set (BitAddr (BitVec 8))} {reg mask : BitVec 8}
    (hS : field reg mask ⊆ S) (value : BitVec 8) :
    Prog.Keeps (RegFrame S) (m5pm1UpdateBits ctx reg mask value) :=
  fun h => (m5pm1UpdateBits_sameOff ctx reg mask value h).mono hS

/-- The first of the three updates, in either layout. -/
theorem clearFunc_spec {gpio : BitVec 8} (hg : gpio.toNat < 5) :
    ∃ reg mask, field reg mask = funcBits gpio.toNat ∧ reg ≠ m5pm1RegGpioOut ∧
      reg ≠ m5pm1RegGpioMode ∧
      (if gpio < 4 then
        m5pm1UpdateBits ctx m5pm1RegGpioFunc0 (0x03#8 <<< (gpio.toNat * 2)) 0
      else m5pm1UpdateBits ctx m5pm1RegGpioFunc1 0x03 0) = m5pm1UpdateBits ctx reg mask 0 := by
  by_cases h4 : gpio < 4
  · have : gpio.toNat < 4 := by simpa [BitVec.lt_def] using h4
    exact ⟨_, _, field_func0 this, by decide, by decide, if_pos h4⟩
  · have : gpio.toNat = 4 := by simp [BitVec.lt_def] at h4; omega
    exact ⟨_, _, by rw [this]; exact field_func1, by decide, by decide, if_neg h4⟩

/-- A call for a pin the chip does not have changes nothing. -/
theorem setOutput_invalid {gpio : BitVec 8} (hg : ¬ gpio.toNat < 5) (level : Bool) (h : Hardware) :
    pf2M5pm1GpioSetOutput ctx gpio level h = (.error .invalidArg, h) := by
  rw [pf2M5pm1GpioSetOutput, Prog.require_bind, if_neg]
  simpa [BitVec.lt_def] using hg

/-- However a call ends, it moves only bits of its own pin. -/
theorem setOutput_frame {gpio : BitVec 8} (hg : gpio.toNat < 5) (level : Bool) (h : Hardware) :
    SameOff (pinBits gpio.toNat) h.pm1 (pf2M5pm1GpioSetOutput ctx gpio level h).2.pm1 := by
  obtain ⟨reg, mask, hfield, _, _, hclear⟩ := clearFunc_spec ctx hg
  rw [pf2M5pm1GpioSetOutput, Prog.require_bind, if_pos (by simpa [BitVec.lt_def] using hg)]
  simp only [hclear]
  refine Prog.keeps_bind (R := RegFrame (pinBits gpio.toNat)) ?_
    (fun _ => Prog.keeps_bind ?_ (fun _ => ?_)) h
  · exact keeps_updateBits ctx (hfield ▸ Set.subset_union_left) _
  · exact keeps_updateBits ctx (by rw [field_bit _ (by omega)]; simp [pinBits, outBit]) _
  · exact keeps_updateBits ctx (by rw [field_bit _ (by omega)]; simp [pinBits, modeBit]) _

/-- A call that returns `ESP_OK` leaves its pin as an output at the level asked for. -/
theorem setOutput_ok {gpio : BitVec 8} (hg : gpio.toNat < 5) (level : Bool) {h h' : Hardware}
    (hr : pf2M5pm1GpioSetOutput ctx gpio level h = (.ok (), h')) :
    PinDrives h'.pm1 gpio.toNat level := by
  obtain ⟨reg, mask, hfield, hout, hmode, hclear⟩ := clearFunc_spec ctx hg
  rw [pf2M5pm1GpioSetOutput, Prog.require_bind, if_pos (by simpa [BitVec.lt_def] using hg)] at hr
  simp only [hclear] at hr
  obtain ⟨_, h₁, hr₁, hr⟩ := Prog.of_bind_ok hr
  obtain ⟨_, h₂, hr₂, hr₃⟩ := Prog.of_bind_ok hr
  have e₁ := m5pm1UpdateBits_ok ctx _ _ _ hr₁
  have e₂ := m5pm1UpdateBits_ok ctx _ _ _ hr₂
  have e₃ := m5pm1UpdateBits_ok ctx _ _ _ hr₃
  have hbit : (1#8 <<< gpio.toNat).getLsbD gpio.toNat = true := (getLsbD_bit (by omega)).2 rfl
  have hom : m5pm1RegGpioOut ≠ m5pm1RegGpioMode := by decide
  -- the later updates are of other registers, so each bit is read off the update that set it
  refine ⟨fun a ha => ?_, ?_, ?_⟩
  · have hfa : a ∈ field reg mask := hfield ▸ ha
    obtain ⟨harg, ham⟩ := hfa
    rw [e₃, bitAt_update_merge, if_neg (fun h => hmode (harg.symm.trans h.1)), e₂,
      bitAt_update_merge, if_neg (fun h => hout (harg.symm.trans h.1)), e₁, bitAt_update_merge,
      if_pos ⟨harg, ham⟩]
    simp
  · rw [e₃, bitAt_update_merge, if_neg (fun h => hom h.1), e₂, bitAt_update_merge,
      if_pos ⟨rfl, hbit⟩]
    cases level <;> simp [outBit, hbit]
  · rw [e₃, bitAt_update_merge, if_pos ⟨rfl, hbit⟩]
    exact hbit

end Call

/-! ### Runs of calls -/

section Run

variable (ctx : Pf2M5pm1)

/-- A call of `pf2_m5pm1_gpio_set_output` with a gpio byte and a level. -/
def SetOutputStep (h : Hardware) (op : BitVec 8 × Bool) (r : Except EspErr Unit) (h' : Hardware) :
    Prop := pf2M5pm1GpioSetOutput ctx op.1 op.2 h = (r, h')

abbrev SetOutputVisit := Visit Hardware (BitVec 8 × Bool) (Except EspErr Unit)

variable {ctx} {h₀ h : Hardware} {vs : List SetOutputVisit}

/-- One call leaves every bit alone that is not its own pin's. -/
theorem setOutputStep_frame {h h' : Hardware} {op : BitVec 8 × Bool} {r : Except EspErr Unit}
    (hs : SetOutputStep ctx h op r h') {a : BitAddr (BitVec 8)}
    (ha : op.1.toNat < 5 → a ∉ pinBits op.1.toNat) : bitAt h'.pm1 a = bitAt h.pm1 a := by
  have e : h' = (pf2M5pm1GpioSetOutput ctx op.1 op.2 h).2 := by rw [show _ = (r, h') from hs]
  by_cases hg : op.1.toNat < 5
  · rw [e]; exact setOutput_frame ctx hg op.2 h a (ha hg)
  · rw [e, setOutput_invalid ctx hg]

/-- A run leaves every bit alone that belongs to no pin it names. -/
theorem run_frame (hp : Path (SetOutputStep ctx) h₀ vs h) {a : BitAddr (BitVec 8)}
    (ha : ∀ v ∈ vs, v.op.1.toNat < 5 → a ∉ pinBits v.op.1.toNat) :
    bitAt h.pm1 a = bitAt h₀.pm1 a := by
  induction hp with
  | nil => rfl
  | @snoc vs s t op r _ hr ih =>
    rw [setOutputStep_frame hr (ha ⟨s, op, r, t⟩ (by simp)), ih (fun v hv => ha v (by simp [hv]))]

/-- A run that names other pins only keeps what a pin drives. -/
theorem PinDrives.run {g : ℕ} {level : Bool} (hg : g < 5) (hd : PinDrives h₀.pm1 g level)
    (hp : Path (SetOutputStep ctx) h₀ vs h) (hne : ∀ v ∈ vs, v.op.1.toNat ≠ g) :
    PinDrives h.pm1 g level :=
  hd.of_bits fun _ ha => run_frame hp fun v hv h5 => pinBits_disjoint hg h5 (hne v hv).symm ha

/-- Over every run of calls with any failures: a pin whose last call returned
`ESP_OK` drives that call's level, a pin no call names keeps its bits, and the
bits of no pin, the other registers and all registers across a call for a pin
the chip does not have are unchanged. -/
theorem pm1_pins_independent (hp : Path (SetOutputStep ctx) h₀ vs h) :
    (∀ pre v post, vs = pre ++ v :: post → v.op.1.toNat < 5 → v.ret = .ok () →
      (∀ u ∈ post, u.op.1 ≠ v.op.1) → PinDrives h.pm1 v.op.1.toNat v.op.2) ∧
    (∀ g < 5, (∀ v ∈ vs, v.op.1.toNat ≠ g) → ∀ a ∈ pinBits g, bitAt h.pm1 a = bitAt h₀.pm1 a) ∧
    (∀ a, (∀ g < 5, a ∉ pinBits g) → bitAt h.pm1 a = bitAt h₀.pm1 a) ∧
    (∀ reg, reg ≠ m5pm1RegGpioFunc0 → reg ≠ m5pm1RegGpioFunc1 → reg ≠ m5pm1RegGpioOut →
      reg ≠ m5pm1RegGpioMode → h.pm1 reg = h₀.pm1 reg) ∧
    (∀ v ∈ vs, 5 ≤ v.op.1.toNat → v.after.pm1 = v.before.pm1) := by
  refine ⟨?_, ?_, ?_, ?_, ?_⟩
  · intro pre v post he hg hok hlast
    obtain ⟨_, hv⟩ := hp.visit pre v post he
    have hd : PinDrives v.after.pm1 v.op.1.toNat v.op.2 :=
      setOutput_ok ctx hg v.op.2 (by rw [show _ = (v.ret, v.after) from hv, hok])
    exact hd.run hg (hp.suffix he) fun u hu h => hlast u hu (BitVec.eq_of_toNat_eq h)
  · intro g hg hne a ha
    exact run_frame hp fun v hv h5 => pinBits_disjoint hg h5 (hne v hv).symm ha
  · intro a ha
    exact run_frame hp fun v _ h5 => ha _ h5
  · intro reg h0 h1 ho hm
    have hoff : SameOff {a : BitAddr (BitVec 8) | a.1 ≠ reg} h₀.pm1 h.pm1 := by
      intro a ha
      have hreg : a.1 = reg := not_not.mp ha
      refine run_frame hp fun v _ _ hmem => ?_
      rcases pinBits_register hmem with h | h | h | h <;> rw [hreg] at h <;> contradiction
    exact hoff.register fun i _ hi => hi rfl
  · intro v hv hg
    obtain ⟨pre, post, he⟩ := List.append_of_mem hv
    have hs : pf2M5pm1GpioSetOutput ctx v.op.1 v.op.2 v.before = (v.ret, v.after) :=
      (hp.visit pre v post he).2
    rw [setOutput_invalid ctx (by omega)] at hs
    rw [(Prod.mk.inj hs).2]

/-- L3B power switched on, then the amplifier off: the power pin still drives high. -/
theorem pm1_pins_independent_l3b :
    let h₀ := Hardware.start fun _ => ⟨[], .done⟩
    let h₁ := (pf2M5pm1GpioSetOutput ⟨some 0⟩ 2 true h₀).2
    let h₂ := (pf2M5pm1GpioSetOutput ⟨some 0⟩ 3 false h₁).2
    PinDrives h₂.pm1 2 true := by
  intro h₀ h₁ h₂
  have e₁ : SetOutputStep ⟨some 0⟩ h₀ (2, true) (.ok ()) h₁ := Prod.ext (by decide +kernel) rfl
  have e₂ : SetOutputStep ⟨some 0⟩ h₁ (3, false) (.ok ()) h₂ := Prod.ext (by decide +kernel) rfl
  have hp := Path.snoc (Path.snoc .nil e₁) e₂
  exact (pm1_pins_independent hp).1 [] _ _ rfl (by decide) rfl (by simp)

end Run

end PicoFido2.M5boards
