import Mathlib.Algebra.BigOperators.Intervals
import Mathlib.Algebra.Order.BigOperators.Group.Finset
import PicoFido2.M5boards.PressInWindow

/-! A wait with a time limit returns, and not late. The clock is told by the turns taken:
what they elapse is what it moves. A poll takes thirty turns at most, so where no turn is
longer than `τ` a wait returns within thirty-two turns of its deadline, whichever transfers
fail. -/

namespace PicoFido2.M5boards

open Effect Hal Hardware Transition

/-! ### The clock and the turns -/

/-- What a stimulus moves the clock. -/
def lasts : Stimulus → ℕ
  | .elapse us => us
  | _ => 0

def elapsed (t : Turn) : ℕ := (t.stimuli.map lasts).sum

/-- From `h` to `k` the clock moved by what the turns taken elapse. -/
structure Clocked (h k : Hardware) : Prop where
  turns : k.turns = h.turns
  turn : h.turn ≤ k.turn
  now : k.now = h.now + ∑ n ∈ Finset.Ico h.turn k.turn, elapsed (h.turns n)

theorem clocked_of_same {h k : Hardware} (hturns : k.turns = h.turns) (hturn : k.turn = h.turn)
    (hnow : k.now = h.now) : Clocked h k := ⟨hturns, hturn.ge, by rw [hturn, hnow]; simp⟩

instance : IsPreorder Hardware Clocked where
  refl _ := clocked_of_same rfl rfl rfl
  trans h k l a b := by
    refine ⟨b.turns.trans a.turns, a.turn.trans b.turn, ?_⟩
    rw [b.now, a.now, a.turns, ← Finset.sum_Ico_consecutive _ a.turn b.turn, Int.natCast_add,
      add_assoc]

theorem settle_now (h : Hardware) (stimuli : List Stimulus) :
    (h.settle stimuli).now = h.now + (stimuli.map lasts).sum := by
  induction stimuli generalizing h with
  | nil => simp [settle]
  | cons s rest ih =>
    have hs : (h.stimulate s).now = h.now + lasts s := by
      cases s with
      | elapse us => rfl
      | key event =>
        simp only [stimulate]
        split <;> simp [lasts]
      | pad gpio high => simp [stimulate, lasts]
    show ((h.stimulate s).settle rest).now = _
    rw [ih, hs, List.map_cons, List.sum_cons, Int.natCast_add, add_assoc]

theorem clocked_waited (h : Hardware) : Clocked h h.waited where
  turns := (sameChips_waited h).turns
  turn := Nat.le_succ _
  now := by
    have hone : Finset.Ico h.turn h.waited.turn = {h.turn} := Nat.Ico_succ_singleton h.turn
    rw [hone, Finset.sum_singleton]
    exact settle_now h (h.turns h.turn).stimuli

/-- Where every turn, those of the delay and of the clock too, elapses something and none
more than `τ`. -/
def Paced (τ : ℕ) (turns : ℕ → Turn) : Prop := ∀ n, 0 < elapsed (turns n) ∧ elapsed (turns n) ≤ τ

section Paced

variable {τ : ℕ} {h k : Hardware} (hp : Paced τ h.turns) (hc : Clocked h k)
include hp hc

theorem Clocked.now_le {n : ℕ} (hn : k.turn ≤ h.turn + n) : k.now ≤ h.now + n * τ := by
  have hsum := Finset.sum_le_card_nsmul (Finset.Ico h.turn k.turn)
    (fun i => elapsed (h.turns i)) τ fun i _ => (hp i).2
  rw [Nat.card_Ico, smul_eq_mul] at hsum
  have hturns : (k.turn - h.turn) * τ ≤ n * τ := Nat.mul_le_mul_right τ (by omega)
  rw [hc.now]
  exact_mod_cast Int.add_le_add_left (Int.ofNat_le.mpr (hsum.trans hturns)) h.now

theorem Clocked.le_now {n : ℕ} (hn : h.turn + n ≤ k.turn) : h.now + n ≤ k.now := by
  have hsum := Finset.card_nsmul_le_sum (Finset.Ico h.turn k.turn)
    (fun i => elapsed (h.turns i)) 1 fun i _ => (hp i).1
  rw [Nat.card_Ico, smul_eq_mul, Nat.mul_one] at hsum
  rw [hc.now]
  exact_mod_cast Int.add_le_add_left (Int.ofNat_le.mpr (le_trans (by omega) hsum)) h.now

end Paced

/-! ### The turns of a poll -/

/-- At most `n` turns are taken. -/
structure Within (n : ℕ) (h k : Hardware) : Prop where
  clocked : Clocked h k
  turn : k.turn ≤ h.turn + n

theorem Within.trans {m n : ℕ} {h k l : Hardware} (a : Within m h k) (b : Within n k l) :
    Within (m + n) h l where
  clocked := trans_of Clocked a.clocked b.clocked
  turn := by
    have hm := a.turn
    have hn := b.turn
    omega

theorem Within.mono {m n : ℕ} {h k : Hardware} (a : Within m h k) (hmn : m ≤ n) : Within n h k :=
  ⟨a.clocked, a.turn.trans (Nat.add_le_add_left hmn _)⟩

theorem within_same {h k : Hardware} (hturns : k.turns = h.turns) (hturn : k.turn = h.turn)
    (hnow : k.now = h.now) : Within 0 h k := ⟨clocked_of_same hturns hturn hnow, hturn.le⟩

theorem within_waited (h : Hardware) : Within 1 h h.waited := ⟨clocked_waited h, le_rfl⟩

theorem within_taken (h : Hardware) : Within 2 h (taken h) := by
  have hpopped : Within 0 (counted h).waited (taken h) := within_same rfl rfl rfl
  exact (within_waited h).trans ((within_waited (counted h)).trans hpopped)

theorem within_cleared (taken' : Bool) (h : Hardware) : Within 3 h
    (tcaWrite tca8418RegIntStat tca8418IntStatKInt taken' (taken h).waited) := by
  have hstored : Within 0 (taken h).waited
      (tcaWrite tca8418RegIntStat tca8418IntStatKInt taken' (taken h).waited) := by
    cases taken' <;> exact within_same rfl rfl rfl
  exact (within_taken h).trans ((within_waited (taken h)).trans hstored)

theorem ReadKeyEvent.within {w w' : World} {r : Except EspErr Unit} (h : ReadKeyEvent w r w') :
    Within 3 w.hw w'.hw := by
  cases h with
  | noDevice => exact (within_same rfl rfl rfl).mono (Nat.zero_le 3)
  | countFailed => exact (within_waited w.hw).mono (by omega)
  | empty => exact (within_waited w.hw).mono (by omega)
  | @popFailed f =>
    cases f.readTaken with
    | false =>
      exact ((within_waited w.hw).trans (within_waited (counted w.hw))).mono (by omega)
    | true => exact (within_taken w.hw).mono (by omega)
  | @clearFailed f => exact within_cleared f.writeTaken w.hw
  | event => exact within_cleared true w.hw

/-- A read takes three turns at most, and a scan makes as many reads as it may. -/
theorem Scan.within {n : ℕ} {w w' : World} {reads : List World} {b : Bool}
    (hs : Scan n w reads b w') : Within (3 * n) w.hw w'.hw := by
  induction hs with
  | out w => exact within_same rfl rfl rfl
  | failed hr => exact hr.within.mono (by omega)
  | empty hr _ => exact hr.within.mono (by omega)
  | press hr _ _ => exact hr.within.mono (by omega)
  | zeroCode hr _ _ => exact hr.within.mono (by omega)
  | next hr _ _ _ _ ih => exact (hr.within.trans ih).mono (by omega)

theorem within_gpioIsPressed (gpio : GpioNum) (activeLow : Bool) (w : World) :
    Within 1 w.hw (gpioIsPressed gpio activeLow w).2.hw := by
  unfold gpioIsPressed
  split
  · exact (within_same rfl rfl rfl).mono (Nat.zero_le 1)
  · exact within_waited w.hw

theorem within_keysPressed (board : BoardPtr) (w : World) :
    Within 2 w.hw (keysPressed board w).2.hw := by
  have ha := within_gpioIsPressed board.desc.userInput.gpioA board.desc.userInput.activeLow w
  unfold keysPressed
  rcases hr : gpioIsPressed board.desc.userInput.gpioA board.desc.userInput.activeLow w with
    ⟨_ | _, u⟩
  · rw [hr] at ha
    exact ha.trans (within_gpioIsPressed _ _ u)
  · rw [hr] at ha
    exact ha.mono (by omega)

theorem Poll.within {w w' : World} {b : Bool} (hp : Poll w b w') : Within 30 w.hw w'.hw := by
  cases hp with
  | noBoard => exact (within_same rfl rfl rfl).mono (Nat.zero_le 30)
  | scan _ _ hs => exact hs.within
  | @sample board now u _ _ hk =>
    have h := within_keysPressed board w
    rw [hk] at h
    exact h.mono (by omega)

/-! ### The wait -/

section Wait

variable {timeoutMs : BitVec 32} (ht : timeoutMs ≠ 0) {w : World} {τ : ℕ}
  (hp : Paced τ w.hw.turns)
include ht

/-- An iteration starts with the first poll or before the deadline. -/
theorem reached_before {u : World} (hu : (waiter timeoutMs w).Reached (ticked w) u) :
    u = ticked w ∨ u.hw.now < waitDeadline timeoutMs w := by
  cases hu with
  | refl => exact .inl rfl
  | tail _ hnext =>
    obtain ⟨v, -, -, hbefore⟩ := next_timed ht hnext
    exact .inr hbefore

theorem reached_clocked {u : World} (hu : (waiter timeoutMs w).Reached (ticked w) u) :
    Clocked w.hw u.hw := by
  induction hu with
  | refl => exact clocked_waited w.hw
  | @tail u t _ hnext ih =>
    obtain ⟨v, hpoll, rfl, -⟩ := next_timed ht hnext
    have hscan := (pf2UserPresencePoll_cases u).within
    rw [hpoll] at hscan
    exact trans_of Clocked ih (trans_of Clocked hscan.clocked
      (trans_of Clocked (clocked_waited v.hw) (clocked_waited v.hw.waited)))

include hp

/-- An iteration that goes on moves the clock, so the wait ends. -/
theorem wait_ends_paced : ∃ fuel r, pf2UserPresenceWait timeoutMs fuel w = some r := by
  have hend : ∃ r, (waiter timeoutMs w).loop
      ((waitDeadline timeoutMs w - (ticked w).hw.now).toNat + 1) (ticked w) = some r := by
    refine Poller.loop_potential (V := fun u : World => (waitDeadline timeoutMs w - u.hw.now).toNat)
      fun u t hreach hnext => ?_
    obtain ⟨v, hpoll, rfl, hbefore⟩ := next_timed ht hnext
    have hscan := (pf2UserPresencePoll_cases u).within
    rw [hpoll] at hscan
    have hturns := (trans_of Clocked (reached_clocked ht hreach) hscan.clocked).turns
    have hpolled : u.hw.now ≤ v.hw.now := by
      have hmoved : v.hw.now = _ := hscan.clocked.now
      omega
    have hticks : v.hw.now + (2 : ℕ) ≤ (ticked (ticked v)).hw.now := by
      apply Clocked.le_now (hturns ▸ hp)
        (trans_of Clocked (clocked_waited v.hw) (clocked_waited v.hw.waited))
      exact le_rfl
    omega
  obtain ⟨r, hr⟩ := hend
  exact ⟨_, r, by rw [pf2UserPresenceWait_eq]; exact hr⟩

/-- What a wait returns it returns within thirty-two turns of the deadline. -/
theorem wait_not_late (hnow : (ticked w).hw.now ≤ waitDeadline timeoutMs w) {fuel : ℕ} {b : Bool}
    {w' : World} (h : pf2UserPresenceWait timeoutMs fuel w = some (b, w')) :
    w'.hw.now ≤ waitDeadline timeoutMs w + 32 * τ := by
  rw [pf2UserPresenceWait_eq] at h
  obtain ⟨u, hu, hends⟩ := Poller.loop_iff.mp ⟨fuel, h⟩
  have hstart : u.hw.now ≤ waitDeadline timeoutMs w := by
    rcases reached_before ht hu with rfl | hbefore
    · exact hnow
    · exact hbefore.le
  have hturns := (reached_clocked ht hu).turns
  have hscan := (pf2UserPresencePoll_cases u).within
  have hwithin : Within 32 u.hw w'.hw := by
    cases b with
    | true =>
      cases hends with
      | hit hpoll =>
        rw [show pf2UserPresencePoll u = (true, w') from hpoll] at hscan
        exact hscan.mono (by omega)
    | false =>
      obtain ⟨-, v, hpoll, rfl, -⟩ := ends_false hends
      rw [hpoll] at hscan
      exact hscan.trans ((within_waited v.hw).trans (within_waited v.hw.waited))
  have hlast := Clocked.now_le (hturns ▸ hp) hwithin.clocked hwithin.turn
  push_cast at hlast
  omega

end Wait

/-- Once there is a board, a wait with a time limit that starts in the first `2 ^ 62`
microseconds returns, whichever transfers fail and whatever the keys do, if every turn takes
some time and none more than `τ`. A turn is one hardware call: a transfer, a read of a pad,
the delay of 10 ms or a reading of the clock. The wait gives up at the deadline at the
earliest, and it returns within thirty-two turns of it. -/
theorem wait_in_time (cfg : Kconfig) {timeoutMs : BitVec 32} (ht : timeoutMs ≠ 0) {w : World}
    (hboard : w.presence.sBoard.isSome) (h0 : 0 ≤ (espTimerGetTime w.hw).1)
    (hmax : (espTimerGetTime w.hw).1 ≤ 2 ^ 62) {τ : ℕ} (hp : Paced τ w.hw.turns) :
    (∃ fuel r, picoFido2PresenceWait cfg timeoutMs fuel w = some r) ∧
    ∀ fuel b w', picoFido2PresenceWait cfg timeoutMs fuel w = some (b, w') →
      (b = false → (espTimerGetTime w.hw).1 + timeoutMs.toNat * 1000 ≤ w'.hw.now) ∧
      w'.hw.now ≤ (espTimerGetTime w.hw).1 + timeoutMs.toNat * 1000 + 32 * τ := by
  have hguard : presenceGuard cfg w = (true, w) := by
    obtain ⟨board, hsome⟩ := Option.isSome_iff_exists.mp hboard
    rw [presenceGuard, hsome]
    rfl
  have hwait : ∀ fuel, picoFido2PresenceWait cfg timeoutMs fuel w =
      pf2UserPresenceWait timeoutMs fuel w := by
    intro fuel
    rw [picoFido2PresenceWait, hguard]
  simp only [hwait]
  have hdeadline := waitDeadline_eq timeoutMs h0 hmax
  refine ⟨wait_ends_paced ht hp, fun fuel b w' h => ⟨?_, ?_⟩⟩
  · rintro rfl
    rw [pf2UserPresenceWait_eq] at h
    obtain ⟨u, -, hends⟩ := Poller.loop_iff.mp ⟨fuel, h⟩
    obtain ⟨-, v, -, -, hlate⟩ := ends_false hends
    rw [← hdeadline]
    exact hlate
  · rw [← hdeadline]
    refine wait_not_late ht hp ?_ h
    rw [hdeadline]
    show (espTimerGetTime w.hw).1 ≤ _
    omega

/-- Where every turn takes five milliseconds, a wait of fifteen seconds gives up within 160
milliseconds of its deadline. -/
theorem wait_in_time_slow : ∃ fuel b w',
    picoFido2PresenceWait cardputerAdv 15000 fuel slowCardputer = some (b, w') ∧
      w'.hw.now ≤ (espTimerGetTime slowCardputer.hw).1 + 15160000 := by
  have ht : (15000 : BitVec 32) ≠ 0 := by decide
  have hp : Paced 5000 slowCardputer.hw.turns := by
    intro n
    rw [slowCardputer, turns_picoFido2PresenceInit]
    exact ⟨Nat.succ_pos 4999, le_rfl⟩
  obtain ⟨⟨fuel, ⟨b, w'⟩, hr⟩, hbound⟩ := wait_in_time cardputerAdv ht
    (w := slowCardputer) (by decide +kernel) (by decide +kernel) (by decide +kernel) hp
  refine ⟨fuel, b, w', hr, (hbound fuel b w' hr).2.trans ?_⟩
  have htimeout : (15000 : BitVec 32).toNat = 15000 := rfl
  omega

end PicoFido2.M5boards
