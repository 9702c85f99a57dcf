import PicoFido2.M5boards.Calls
import PicoFido2.M5boards.Pm1Pins

/-! The register writes of the PM1 driver one by one. The log tells every write and
whether the chip took it, so the register files a call goes through are those after
the writes told so far. -/

namespace PicoFido2.M5boards

open Effect Hal Bits

structure Pm1Write where
  reg : BitVec 8
  value : BitVec 8
  taken : Bool
  deriving DecidableEq, Repr

abbrev Pm1Regs := BitVec 8 → BitVec 8

/-- The writes a log tells, in order. -/
def writesOf (log : List Entry) : List Pm1Write :=
  log.filterMap fun
    | .pm1Write reg value taken => some ⟨reg, value, taken⟩
    | _ => none

theorem writesOf_append (l l' : List Entry) : writesOf (l ++ l') = writesOf l ++ writesOf l' :=
  List.filterMap_append

def Pm1Write.apply (w : Pm1Write) (regs : Pm1Regs) : Pm1Regs :=
  if w.taken then Function.update regs w.reg w.value else regs

def afterWrites (regs : Pm1Regs) (ws : List Pm1Write) : Pm1Regs :=
  ws.foldl (fun regs w => w.apply regs) regs

theorem afterWrites_append (regs : Pm1Regs) (ws ws' : List Pm1Write) :
    afterWrites regs (ws ++ ws') = afterWrites (afterWrites regs ws) ws' := List.foldl_append

/-- From `h` to `k` the writes `ws` were issued, and nothing else moved a register. -/
structure Writes (ws : List Pm1Write) (h k : Hardware) : Prop where
  log : ∃ new, k.log = h.log ++ new ∧ writesOf new = ws
  pm1 : k.pm1 = afterWrites h.pm1 ws

theorem Writes.trans {ws ws' : List Pm1Write} {h k l : Hardware} (a : Writes ws h k)
    (b : Writes ws' k l) : Writes (ws ++ ws') h l := by
  obtain ⟨new, hlog, hws⟩ := a.log
  obtain ⟨new', hlog', hws'⟩ := b.log
  refine ⟨⟨new ++ new', ?_, ?_⟩, ?_⟩
  · rw [hlog', hlog, List.append_assoc]
  · rw [writesOf_append, hws, hws']
  · rw [b.pm1, a.pm1, afterWrites_append]

instance : IsPreorder Hardware (Writes []) where
  refl _ := ⟨⟨[], (List.append_nil _).symm, rfl⟩, rfl⟩
  trans _ _ _ a b := a.trans b

theorem writes_stimulate (h : Hardware) (s : Stimulus) : Writes [] h (h.stimulate s) := by
  cases s with
  | elapse us => exact ⟨⟨[], by simp [Hardware.stimulate], rfl⟩, rfl⟩
  | key event =>
    simp only [Hardware.stimulate]
    split
    · exact ⟨⟨_, rfl, rfl⟩, rfl⟩
    · exact refl_of (Writes []) h
  | pad gpio high => exact ⟨⟨_, rfl, rfl⟩, rfl⟩

theorem writes_waited (h : Hardware) : Writes [] h h.waited := by
  have hs := Hardware.settle_induction writes_stimulate h (h.turns h.turn).stimuli
  exact ⟨hs.log, hs.pm1⟩

theorem writes_of_same {h k : Hardware} (hlog : k.log = h.log) (hpm1 : k.pm1 = h.pm1) :
    Writes [] h k := ⟨⟨[], by rw [hlog, List.append_nil], rfl⟩, hpm1⟩

theorem stableOffPm1_writes : StableOffPm1 (Writes []) where
  waited := writes_waited
  tca reg value taken _ := by cases taken <;> exact writes_of_same rfl rfl
  pads _ _ := writes_of_same rfl rfl

theorem writes_pm1Store (reg value : BitVec 8) (taken : Bool) (h : Hardware) :
    Writes [⟨reg, value, taken⟩] h (pm1Store reg value taken h) := ⟨⟨_, rfl, rfl⟩, rfl⟩

/-! ### Transfers -/

/-- A write reaches the chip: it succeeds, or it fails after the chip took it. -/
def reached : Outcome → Bool
  | .done => true
  | .failed f => f.writeTaken

section Transfers

variable (ctx : Pf2M5pm1) (reg mask value : BitVec 8)

theorem m5pm1WriteU8_writes (hdev : ctx.dev.isSome) (h : Hardware) :
    Writes [⟨reg, value, reached h.outcome⟩] h (m5pm1WriteU8 ctx reg value h).2 := by
  rw [m5pm1WriteU8, Prog.require_bind, if_pos hdev]
  unfold i2cMasterTransmit
  cases h.outcome <;> exact (writes_waited h).trans (writes_pm1Store _ _ _ _)

/-- The one write a masked update issues, or none: where the read fails, or the bits are
already there. -/
def updateWrites (h : Hardware) : List Pm1Write :=
  if ctx.dev.isSome ∧ h.outcome = .done ∧ merge (h.pm1 reg) mask value ≠ h.pm1 reg then
    [⟨reg, merge (h.pm1 reg) mask value, reached h.waited.outcome⟩]
  else []

theorem m5pm1UpdateBits_writes (h : Hardware) :
    Writes (updateWrites ctx reg mask value h) h (m5pm1UpdateBits ctx reg mask value h).2 := by
  have hread := keeps_m5pm1ReadU8 stableOffPm1_writes ctx reg h
  unfold m5pm1UpdateBits updateWrites
  rcases hr : m5pm1ReadU8 ctx reg h with ⟨e | old, t⟩
  · rw [hr] at hread
    rw [Prog.bind_error hr, if_neg]
    · exact hread
    · rintro ⟨hdev, hdone, -⟩
      rw [m5pm1ReadU8, Prog.require_bind, if_pos hdev, i2cMasterTransmitReceive, hdone] at hr
      cases hr
  · have hold := m5pm1ReadU8_ok ctx reg hr
    rw [hr] at hread
    rw [Prog.bind_ok hr]
    rw [m5pm1ReadU8, Prog.require_bind] at hr
    split at hr
    · rename_i hdev
      obtain ⟨hdone, -, ht⟩ := transmitReceive_ok hr
      change Writes _ h ((if merge old mask value = old then pure ()
        else m5pm1WriteU8 ctx reg (merge old mask value)) t).2
      rw [hold]
      by_cases hskip : merge (h.pm1 reg) mask value = h.pm1 reg
      · rw [if_pos hskip, if_neg (fun hc => hc.2.2 hskip)]
        exact hread
      · rw [if_neg hskip, if_pos ⟨hdev, hdone, hskip⟩]
        have hwrite := m5pm1WriteU8_writes ctx reg (merge (h.pm1 reg) mask value) hdev t
        rw [ht] at hread hwrite ⊢
        exact hread.trans hwrite
    · cases hr

/-- Where the bits are already there no register is written. -/
theorem m5pm1UpdateBits_same {h : Hardware} (hm : merge (h.pm1 reg) mask value = h.pm1 reg) :
    Writes [] h (m5pm1UpdateBits ctx reg mask value h).2 := by
  have hw := m5pm1UpdateBits_writes ctx reg mask value h
  rw [updateWrites, if_neg (fun hc => hc.2.2 hm)] at hw
  exact hw

end Transfers

end PicoFido2.M5boards
