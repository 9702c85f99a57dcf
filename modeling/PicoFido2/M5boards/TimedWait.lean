import Mathlib.Algebra.Order.Floor.Div
import PicoFido2.M5boards.PresenceRuns
import PicoFido2.Transition.Polling

/-! A wait with a time limit ends, and not early. The loop of `pf2_user_presence_wait` is a
loop of the library of polling loops; what is left until the deadline is its potential. -/

namespace PicoFido2.M5boards

open Effect Hal Hardware Transition

/-! ### The loop -/

/-- The delay and the test at the end of an iteration: whether the loop ends there. -/
def timeUp (timeoutMs : BitVec 32) (deadlineUs : ℤ) (w : World) : Bool × World :=
  let w := { w with hw := vTaskDelay w.hw }
  if timeoutMs = 0 then (false, w)
  else
    let (now, h) := espTimerGetTime w.hw
    (decide (deadlineUs ≤ now), { w with hw := h })

def waitDeadline (timeoutMs : BitVec 32) (w : World) : ℤ :=
  int64 ((espTimerGetTime w.hw).1 + timeoutMs.toNat * 1000)

/-- The loop of the wait that starts in `w`; it polls first in `ticked w`. -/
def waiter (timeoutMs : BitVec 32) (w : World) : Poller World where
  poll := pf2UserPresencePoll
  stop := timeUp timeoutMs (waitDeadline timeoutMs w)

theorem pf2UserPresenceWait_eq (timeoutMs : BitVec 32) (fuel : ℕ) (w : World) :
    pf2UserPresenceWait timeoutMs fuel w = (waiter timeoutMs w).loop fuel (ticked w) := by
  show presenceWaitLoop timeoutMs (waitDeadline timeoutMs w) fuel (ticked w) = _
  generalize hs : ticked w = s
  clear hs
  induction fuel generalizing s with
  | zero => rfl
  | succ fuel ih =>
    have hpoll : (waiter timeoutMs w).poll = pf2UserPresencePoll := rfl
    have hstop : (waiter timeoutMs w).stop = timeUp timeoutMs (waitDeadline timeoutMs w) := rfl
    rw [presenceWaitLoop, Poller.loop, hpoll]
    rcases pf2UserPresencePoll s with ⟨_ | _, u⟩
    · dsimp only
      rw [hstop, timeUp]
      dsimp only
      by_cases ht : timeoutMs = 0
      · rw [if_pos ht, if_pos ht]
        exact ih _
      · rw [if_neg ht, if_neg ht]
        by_cases hlate : waitDeadline timeoutMs w ≤ (espTimerGetTime (vTaskDelay u.hw)).1
        · rw [if_neg (not_lt.mpr hlate), decide_eq_true hlate]
        · rw [if_pos (not_le.mp hlate), decide_eq_false hlate]
          exact ih _
    · rfl

/-- The answers of the polls a wait makes. -/
def waitAnswers (timeoutMs : BitVec 32) (fuel : ℕ) (w : World) : List Bool :=
  (waiter timeoutMs w).answers fuel (ticked w)

section Loop

variable {timeoutMs : BitVec 32} {w : World}

theorem stop_eq (ht : timeoutMs ≠ 0) (v : World) : (waiter timeoutMs w).stop v =
    (decide (waitDeadline timeoutMs w ≤ v.hw.waited.waited.now), ticked (ticked v)) := by
  show timeUp timeoutMs (waitDeadline timeoutMs w) v = _
  rw [timeUp, if_neg ht]
  rfl

/-- An iteration that goes on has not reached the deadline. -/
theorem next_timed (ht : timeoutMs ≠ 0) {u t : World} (h : (waiter timeoutMs w).Next u t) :
    ∃ v, pf2UserPresencePoll u = (false, v) ∧ t = ticked (ticked v) ∧
      t.hw.now < waitDeadline timeoutMs w := by
  obtain ⟨v, hpoll, hstop⟩ := h
  rw [stop_eq ht] at hstop
  obtain ⟨hlate, rfl⟩ := Prod.mk.inj hstop
  exact ⟨v, hpoll, rfl, not_le.mp (of_decide_eq_false hlate)⟩

/-- A wait that gives up has read the clock at the deadline or after it. -/
theorem ends_false {u t : World} (h : (waiter timeoutMs w).Ends u false t) :
    timeoutMs ≠ 0 ∧ ∃ v, pf2UserPresencePoll u = (false, v) ∧ t = ticked (ticked v) ∧
      waitDeadline timeoutMs w ≤ t.hw.now := by
  cases h with
  | @stopped v _ hpoll hstop =>
    by_cases ht : timeoutMs = 0
    · have hgo : ((waiter timeoutMs w).stop v).1 = false := by
        show (timeUp timeoutMs (waitDeadline timeoutMs w) v).1 = false
        rw [timeUp, if_pos ht]
      rw [hstop] at hgo
      cases hgo
    · rw [stop_eq ht] at hstop
      obtain ⟨hlate, rfl⟩ := Prod.mk.inj hstop
      exact ⟨ht, v, hpoll, rfl, of_decide_eq_true hlate⟩

end Loop

/-! ### The deadline -/

theorem int64_of_fits {x : ℤ} (hlow : -2 ^ 63 ≤ x) (hhigh : x < 2 ^ 63) : int64 x = x := by
  unfold int64
  apply Int.bmod_eq_of_le <;> omega

theorem waitDeadline_eq (timeoutMs : BitVec 32) {w : World}
    (h0 : 0 ≤ (espTimerGetTime w.hw).1) (hmax : (espTimerGetTime w.hw).1 ≤ 2 ^ 62) :
    waitDeadline timeoutMs w = (espTimerGetTime w.hw).1 + timeoutMs.toNat * 1000 := by
  have ht : timeoutMs.toNat < 2 ^ 32 := timeoutMs.isLt
  exact int64_of_fits (by omega) (by omega)

/-! ### The number of polls -/

/-- The readings of the clock grow by `d` in every iteration. The clock stands at the
reading before when an iteration starts. -/
def ReadingsGrow (timeoutMs : BitVec 32) (w : World) (d : ℕ) : Prop :=
  ∀ u v, (waiter timeoutMs w).Reached (ticked w) u → pf2UserPresencePoll u = (false, v) →
    u.hw.now + d ≤ (espTimerGetTime (vTaskDelay v.hw)).1

/-- The polls left after the next, when `left` is left until the deadline. -/
def pollsLeft (d : ℕ) (left : ℤ) : ℕ := (left.toNat - 1) / d

theorem pollsLeft_lt {d : ℕ} (hd : 0 < d) {left left' : ℤ} (hpos : 0 < left')
    (hle : left' + d ≤ left) : pollsLeft d left' < pollsLeft d left := by
  have hstep : left'.toNat - 1 + d ≤ left.toNat - 1 := by omega
  calc pollsLeft d left' < pollsLeft d left' + 1 := Nat.lt_succ_self _
    _ = (left'.toNat - 1 + d) / d := (Nat.add_div_right _ hd).symm
    _ ≤ pollsLeft d left := Nat.div_le_div_right hstep

/-- Rounded up, and one where nothing is left. -/
theorem pollsLeft_add_one {d : ℕ} (hd : 0 < d) (n : ℕ) :
    pollsLeft d n + 1 = max 1 (n ⌈/⌉ d) := by
  rw [pollsLeft, Int.toNat_natCast, Nat.ceilDiv_eq_add_pred_div]
  cases n with
  | zero =>
    have hlt : d - 1 < d := Nat.sub_lt hd Nat.one_pos
    simp [Nat.div_eq_of_lt hlt]
  | succ n =>
    have hsum : n + 1 + d - 1 = n + d := by omega
    rw [Nat.add_sub_cancel, hsum, Nat.add_div_right _ hd]
    exact (max_eq_right (Nat.succ_le_succ (Nat.zero_le _))).symm

/-- A wait that starts in `w` is the loop whose polls `waitAnswers` lists. With a limit it
ends after so many polls, it answers with its last poll, and it gives up no earlier than its
deadline; without a limit it never gives up. -/
structure TimedWait (timeoutMs : BitVec 32) (w : World) : Prop where
  loop : ∀ fuel, pf2UserPresenceWait timeoutMs fuel w = (waiter timeoutMs w).loop fuel (ticked w)
  deadline : waitDeadline timeoutMs w = (espTimerGetTime w.hw).1 + timeoutMs.toNat * 1000
  ends : timeoutMs ≠ 0 → ∀ d > 0, ReadingsGrow timeoutMs w d → ∃ fuel r,
    pf2UserPresenceWait timeoutMs fuel w = some r ∧ 1 ≤ (waitAnswers timeoutMs fuel w).length ∧
      (waitAnswers timeoutMs fuel w).length ≤ max 1 (timeoutMs.toNat * 1000 ⌈/⌉ d)
  answer : ∀ fuel b w', pf2UserPresenceWait timeoutMs fuel w = some (b, w') →
    (b = true ↔ true ∈ waitAnswers timeoutMs fuel w) ∧
      ∃ n, waitAnswers timeoutMs fuel w = List.replicate n false ++ [b]
  late : ∀ fuel w', pf2UserPresenceWait timeoutMs fuel w = some (false, w') →
    ∃ h, espTimerGetTime h = (w'.hw.now, w'.hw) ∧
      (espTimerGetTime w.hw).1 + timeoutMs.toNat * 1000 ≤ w'.hw.now
  forever : timeoutMs = 0 → ∀ fuel w', pf2UserPresenceWait timeoutMs fuel w ≠ some (false, w')

theorem wait_ends_not_early (timeoutMs : BitVec 32) {w : World}
    (h0 : 0 ≤ (espTimerGetTime w.hw).1) (hmax : (espTimerGetTime w.hw).1 ≤ 2 ^ 62) :
    TimedWait timeoutMs w := by
  have hdeadline := waitDeadline_eq timeoutMs h0 hmax
  have hgiveUp : ∀ fuel w', pf2UserPresenceWait timeoutMs fuel w = some (false, w') →
      timeoutMs ≠ 0 ∧ ∃ v, w' = ticked (ticked v) ∧ waitDeadline timeoutMs w ≤ w'.hw.now := by
    intro fuel w' h
    rw [pf2UserPresenceWait_eq] at h
    obtain ⟨u, -, hends⟩ := Poller.loop_iff.mp ⟨fuel, h⟩
    obtain ⟨ht, v, -, hv, hlate⟩ := ends_false hends
    exact ⟨ht, v, hv, hlate⟩
  have hanswers : ∀ {fuel b w'}, pf2UserPresenceWait timeoutMs fuel w = some (b, w') →
      ∃ n < fuel, waitAnswers timeoutMs fuel w = List.replicate n false ++ [b] := by
    intro fuel b w' h
    rw [pf2UserPresenceWait_eq] at h
    exact Poller.answers_eq h
  refine ⟨fun fuel => pf2UserPresenceWait_eq timeoutMs fuel w, hdeadline,
    fun ht d hd hgrow => ?_, fun fuel b w' h => ?_, fun fuel w' h => ?_,
    fun ht fuel w' h => (hgiveUp fuel w' h).1 ht⟩
  · -- the potential of an iteration is what is left of the time when it starts
    have hend : ∃ r, (waiter timeoutMs w).loop
        (pollsLeft d (waitDeadline timeoutMs w - (ticked w).hw.now) + 1) (ticked w) = some r := by
      refine Poller.loop_potential
        (V := fun u : World => pollsLeft d (waitDeadline timeoutMs w - u.hw.now))
        fun u t hreach hnext => ?_
      obtain ⟨v, hpoll, rfl, hbefore⟩ := next_timed ht hnext
      have hgrown : u.hw.now + d ≤ (ticked (ticked v)).hw.now := hgrow u v hreach hpoll
      exact pollsLeft_lt hd (by omega) (by omega)
    obtain ⟨⟨b, w'⟩, hend⟩ := hend
    have hleft : waitDeadline timeoutMs w - (ticked w).hw.now =
        ((timeoutMs.toNat * 1000 : ℕ) : ℤ) := by
      rw [hdeadline]
      show (ticked w).hw.now + timeoutMs.toNat * 1000 - (ticked w).hw.now = _
      push_cast
      omega
    rw [hleft, pollsLeft_add_one hd, ← pf2UserPresenceWait_eq] at hend
    obtain ⟨n, hn, hpolls⟩ := hanswers hend
    have hlength : (waitAnswers timeoutMs (max 1 (timeoutMs.toNat * 1000 ⌈/⌉ d)) w).length =
        n + 1 := by
      rw [hpolls, List.length_append, List.length_replicate, List.length_singleton]
    exact ⟨_, _, hend, by rw [hlength]; omega, by rw [hlength]; exact hn⟩
  · obtain ⟨n, -, hpolls⟩ := hanswers h
    refine ⟨?_, n, hpolls⟩
    rw [hpolls]
    simp [eq_comm]
  · obtain ⟨-, v, rfl, hlate⟩ := hgiveUp fuel w' h
    rw [hdeadline] at hlate
    exact ⟨v.hw.waited, rfl, hlate⟩

theorem drifts_timeUp (timeoutMs : BitVec 32) (deadlineUs : ℤ) (w : World) :
    Drifts w.hw (timeUp timeoutMs deadlineUs w).2.hw := by
  unfold timeUp
  split
  · exact drifts_tick w
  · exact trans_of Drifts (drifts_tick w) (drifts_tick (ticked w))

/-- Time passes up to the start of every iteration. -/
theorem drifts_reached {timeoutMs : BitVec 32} {w u : World}
    (h : (waiter timeoutMs w).Reached (ticked w) u) : Drifts w.hw u.hw := by
  induction h with
  | refl => exact drifts_tick w
  | @tail u t _ hnext ih =>
    obtain ⟨v, hpoll, hstop⟩ := hnext
    have hp := (pf2UserPresencePoll_cases u).drifts
    have hpoll : pf2UserPresencePoll u = (false, v) := hpoll
    rw [hpoll] at hp
    have hticks := drifts_timeUp timeoutMs (waitDeadline timeoutMs w) v
    have hstop : timeUp timeoutMs (waitDeadline timeoutMs w) v = (false, t) := hstop
    rw [hstop] at hticks
    exact trans_of Drifts ih (trans_of Drifts hp hticks)

/-- A Cardputer-Adv on which every call takes five milliseconds and no key is pressed. -/
def slowCardputer : World :=
  (picoFido2PresenceInit cardputerAdv (boot (.start fun _ => ⟨[.elapse 5000], .done⟩))).2

theorem readingsGrow_slowCardputer : ReadingsGrow 15000 slowCardputer 10000 := by
  intro u v hreach hpoll
  have hp := (pf2UserPresencePoll_cases u).drifts
  rw [hpoll] at hp
  obtain ⟨removed, hpasses⟩ := trans_of Drifts (drifts_reached hreach) hp
  obtain ⟨_, hpolled⟩ := hp
  have hturns : v.hw.turns = fun _ => ⟨[.elapse 5000], .done⟩ := hpasses.turns.trans rfl
  have htwo : v.hw.waited.waited.now = v.hw.now + 5000 + 5000 := by
    simp [waited, settle, stimulate, hturns]
  have hnow : u.hw.now ≤ v.hw.now := hpolled.now
  show u.hw.now + (10000 : ℕ) ≤ v.hw.waited.waited.now
  rw [htwo]
  omega

/-- Fifteen seconds without a key are at most 1500 polls. -/
theorem slow_wait_ends : ∃ fuel r, pf2UserPresenceWait 15000 fuel slowCardputer = some r ∧
    (waitAnswers 15000 fuel slowCardputer).length ≤ 1500 := by
  obtain ⟨fuel, r, hr, -, hmost⟩ :=
    (wait_ends_not_early 15000 (w := slowCardputer) (by decide +kernel) (by decide +kernel)).ends
      (by decide) 10000 (by decide) readingsGrow_slowCardputer
  exact ⟨fuel, r, hr, hmost.trans (by decide)⟩

end PicoFido2.M5boards
