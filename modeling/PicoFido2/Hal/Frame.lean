import Mathlib.Order.Basic
import Mathlib.Data.Int.Order.Basic
import PicoFido2.Hal.World
import PicoFido2.Queue.Flow

/-! What the outside world leaves alone during a turn, and what the log keeps of
what it does: every event that arrived, every change of a pad, each with its time. -/

namespace PicoFido2.Hal

open Effect Queue

/-- The key events a log records. -/
def keysOf (log : List Entry) : List (BitVec 8) :=
  log.filterMap fun
    | .key _ event => some event
    | _ => none

theorem keysOf_append (l l' : List Entry) : keysOf (l ++ l') = keysOf l ++ keysOf l' :=
  List.filterMap_append

/-- What an entry records happened in `[t₀, t₁]`. -/
def Entry.within (t₀ t₁ : ℤ) : Entry → Prop
  | .key time _ => t₀ ≤ time ∧ time ≤ t₁
  | .pad time _ _ _ => t₀ ≤ time ∧ time ≤ t₁
  | .pm1Write _ _ _ => True

theorem Entry.within_mono {t₀ t₁ u₀ u₁ : ℤ} {e : Entry} (h : e.within t₀ t₁) (h₀ : u₀ ≤ t₀)
    (h₁ : t₁ ≤ u₁) : e.within u₀ u₁ := by
  cases e with
  | key time event => exact ⟨h₀.trans h.1, h.2.trans h₁⟩
  | pad time gpio before after => exact ⟨h₀.trans h.1, h.2.trans h₁⟩
  | pm1Write reg value taken => trivial

namespace Hardware

/-- The parts only firmware calls change. -/
structure SameChips (h k : Hardware) : Prop where
  turns : k.turns = h.turns
  pm1 : k.pm1 = h.pm1
  tca : k.tca = h.tca
  buses : k.buses = h.buses
  devices : k.devices = h.devices
  padConfigs : k.padConfigs = h.padConfigs

theorem SameChips.rfl {h : Hardware} : SameChips h h := ⟨Eq.refl _, Eq.refl _, Eq.refl _, Eq.refl _,
  Eq.refl _, Eq.refl _⟩

theorem SameChips.trans {h k l : Hardware} (a : SameChips h k) (b : SameChips k l) :
    SameChips h l :=
  ⟨b.turns.trans a.turns, b.pm1.trans a.pm1, b.tca.trans a.tca, b.buses.trans a.buses,
    b.devices.trans a.devices, b.padConfigs.trans a.padConfigs⟩

theorem sameChips_stimulate (h : Hardware) (s : Stimulus) : SameChips h (h.stimulate s) := by
  cases s with
  | elapse us => exact ⟨rfl, rfl, rfl, rfl, rfl, rfl⟩
  | key event =>
    simp only [stimulate]
    split
    · exact ⟨rfl, rfl, rfl, rfl, rfl, rfl⟩
    · exact SameChips.rfl
  | pad gpio high => exact ⟨rfl, rfl, rfl, rfl, rfl, rfl⟩

/-- A relation that every stimulus moves along is kept by a list of stimuli. -/
theorem settle_induction {R : Hardware → Hardware → Prop} [IsPreorder Hardware R]
    (hs : ∀ h s, R h (h.stimulate s)) (h : Hardware) (stimuli : List Stimulus) :
    R h (h.settle stimuli) := by
  induction stimuli generalizing h with
  | nil => exact refl_of R h
  | cons s rest ih => exact trans_of R (hs h s) (ih (h.stimulate s))

instance : IsPreorder Hardware SameChips where
  refl _ := SameChips.rfl
  trans _ _ _ := SameChips.trans

theorem sameChips_waited (h : Hardware) : SameChips h h.waited := by
  have hs := settle_induction sameChips_stimulate h (h.turns h.turn).stimuli
  exact ⟨hs.turns, hs.pm1, hs.tca, hs.buses, hs.devices, hs.padConfigs⟩

/-- From `h` to `k` the log grew by `new`, which tells what happened in between, and
the events in `removed` left the keyboard's queue. -/
structure Records (h k : Hardware) (new : List Entry) (removed : List (BitVec 8)) : Prop where
  log : k.log = h.log ++ new
  within : ∀ e ∈ new, e.within h.now k.now
  pads : ∀ gpio before, h.pads gpio = before → k.pads gpio = !before →
    ∃ time, Entry.pad time gpio before (!before) ∈ new
  fifo : Queue.Flow h.fifo.events (keysOf new) removed k.fifo.events

theorem Records.trans {h k l : Hardware} {a b : List Entry} {r r' : List (BitVec 8)}
    (ha : Records h k a r) (hb : Records k l b r') (hk : h.now ≤ k.now) (hl : k.now ≤ l.now) :
    Records h l (a ++ b) (r ++ r') where
  log := by rw [hb.log, ha.log, List.append_assoc]
  within e he := by
    rcases List.mem_append.mp he with he | he
    · exact Entry.within_mono (ha.within e he) le_rfl hl
    · exact Entry.within_mono (hb.within e he) hk le_rfl
  pads gpio before h₀ h₁ := by
    by_cases hm : k.pads gpio = before
    · obtain ⟨time, ht⟩ := hb.pads gpio before hm h₁
      exact ⟨time, List.mem_append_right a ht⟩
    · obtain ⟨time, ht⟩ := ha.pads gpio before h₀ (Bool.eq_not_of_ne hm)
      exact ⟨time, List.mem_append_left b ht⟩
  fifo := by
    rw [keysOf_append]
    exact ha.fifo.trans hb.fifo

/-- A pad that is as it was has no change to be told. -/
theorem pads_unchanged {h k : Hardware} {gpio : M5boards.GpioNum} (hp : k.pads gpio = h.pads gpio)
    {before : Bool} (h₀ : h.pads gpio = before) (h₁ : k.pads gpio = !before) : False := by
  rw [hp, h₀] at h₁
  simp at h₁

/-- Time passed, the events in `removed` left the queue, and the log tells the rest. -/
structure Passes (removed : List (BitVec 8)) (h k : Hardware) : Prop where
  turns : k.turns = h.turns
  now : h.now ≤ k.now
  records : ∃ new, Records h k new removed

theorem Passes.trans {h k l : Hardware} {r r' : List (BitVec 8)} (a : Passes r h k)
    (b : Passes r' k l) : Passes (r ++ r') h l := by
  obtain ⟨new, ha⟩ := a.records
  obtain ⟨new', hb⟩ := b.records
  exact ⟨b.turns.trans a.turns, a.now.trans b.now, _, ha.trans hb a.now b.now⟩

/-- A change of parts the log is not about, with entries that are not about them either. -/
theorem Passes.silent (new : List Entry) {h k : Hardware} (hturns : k.turns = h.turns)
    (hnow : k.now = h.now) (hlog : k.log = h.log ++ new)
    (hwithin : ∀ e ∈ new, e.within h.now h.now) (hkeys : keysOf new = []) (hpads : k.pads = h.pads)
    (hfifo : k.fifo = h.fifo) : Passes [] h k where
  turns := hturns
  now := hnow.ge
  records := by
    refine ⟨new, hlog, by rw [hnow]; exact hwithin, fun gpio before h₀ h₁ => ?_, ?_⟩
    · exact (pads_unchanged (by rw [hpads]) h₀ h₁).elim
    · rw [hkeys, hfifo]; exact Queue.Flow.idle _

instance : IsPreorder Hardware (Passes []) where
  refl _ := .silent [] rfl rfl (by simp) (by simp) rfl rfl rfl
  trans _ _ _ a b := a.trans b

/-- Time passed, whatever left the queue. -/
def Drifts (h k : Hardware) : Prop := ∃ removed, Passes removed h k

theorem Passes.drifts {h k : Hardware} {r : List (BitVec 8)} (hp : Passes r h k) : Drifts h k :=
  ⟨r, hp⟩

instance : IsPreorder Hardware Drifts where
  refl h := (refl_of (Passes []) h).drifts
  trans _ _ _ := fun ⟨_, a⟩ ⟨_, b⟩ => (a.trans b).drifts

theorem passes_stimulate (h : Hardware) (s : Stimulus) : Passes [] h (h.stimulate s) := by
  cases s with
  | elapse us =>
    refine ⟨rfl, by simp only [stimulate]; omega, [], by simp [stimulate], by simp, ?_,
      Queue.Flow.idle _⟩
    exact fun gpio before h₀ h₁ => (pads_unchanged rfl h₀ h₁).elim
  | key event =>
    by_cases hroom : h.fifo.events.length < 10
    · have hs : h.stimulate (.key event) =
          { h with fifo := h.fifo.push event, log := h.log ++ [.key h.now event] } := if_pos hroom
      rw [hs]
      refine ⟨rfl, le_rfl, [.key h.now event], rfl, ?_, ?_, ?_⟩
      · intro e he
        rw [List.mem_singleton] at he
        subst he
        exact ⟨le_rfl, le_rfl⟩
      · exact fun gpio before h₀ h₁ => (pads_unchanged rfl h₀ h₁).elim
      · have hpush : (h.fifo.push event).events = h.fifo.events ++ [event] := by
          rw [KeyFifo.push, dif_pos hroom]
        show Queue.Flow h.fifo.events [event] [] (h.fifo.push event).events
        rw [hpush]
        exact Queue.Flow.arrive _ _
    · have hs : h.stimulate (.key event) = h := if_neg hroom
      rw [hs]
      exact refl_of (Passes []) h
  | pad gpio high =>
    refine ⟨rfl, le_rfl, [.pad h.now gpio (h.pads gpio) high], rfl, ?_, ?_, ?_⟩
    · intro e he
      rw [List.mem_singleton] at he
      subst he
      exact ⟨le_rfl, le_rfl⟩
    · intro g before h₀ h₁
      by_cases hg : g = gpio
      · subst hg
        have hhigh : high = !before := by simpa [stimulate] using h₁
        exact ⟨h.now, by simp [h₀, hhigh]⟩
      · exact (pads_unchanged (by simp [stimulate, hg]) h₀ h₁).elim
    · exact Queue.Flow.idle _

/-- During a turn events arrive and none is removed. -/
theorem passes_waited (h : Hardware) : Passes [] h h.waited := by
  have hs := settle_induction passes_stimulate h (h.turns h.turn).stimuli
  obtain ⟨new, hr⟩ := hs.records
  exact ⟨hs.turns, hs.now, new, hr.log, hr.within, hr.pads, hr.fifo⟩

/-! ### Calls that succeed -/

/-- Every call from the turn of `h` up to that of `k` succeeds. -/
def Succeeds (h k : Hardware) : Prop :=
  ∀ n, h.turn ≤ n → n < k.turn → (h.turns n).outcome = .done

theorem Succeeds.first {h k : Hardware} (hs : Succeeds h k) (hlt : h.turn < k.turn) :
    h.outcome = .done := hs h.turn (Nat.le_refl _) hlt

theorem Succeeds.tail {h k l : Hardware} (hs : Succeeds h l) (hturns : k.turns = h.turns)
    (hle : h.turn ≤ k.turn) : Succeeds k l := by
  intro n hn hl
  rw [hturns]
  exact hs n (Nat.le_trans hle hn) hl

end Hardware

theorem transmitReceive_ok {α : Type} {read : Hardware → α × Hardware} {h h' : Hardware} {a : α}
    (hr : i2cMasterTransmitReceive read h = (.ok a, h')) :
    h.outcome = .done ∧ a = (read h.waited).1 ∧ h' = (read h.waited).2 := by
  unfold i2cMasterTransmitReceive at hr
  split at hr
  · rename_i hdone
    simp only [Prod.mk.injEq, Except.ok.injEq] at hr
    exact ⟨hdone, hr.1.symm, hr.2.symm⟩
  · simp at hr

end PicoFido2.Hal
