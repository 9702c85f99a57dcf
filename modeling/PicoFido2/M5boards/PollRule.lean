import PicoFido2.M5boards.PresenceRuns

/-! The rule for polls. On the hardware a poll lets turns pass, takes events out of the
keyboard's queue and clears its interrupt, and a wait does no more. -/

namespace PicoFido2.M5boards

open Effect Hal Hardware Transition

/-- Kept by all of these. -/
structure KeptByPolls (R : Hardware → Hardware → Prop) : Prop where
  waited : ∀ h, R h h.waited
  popped : ∀ h, R h (popped h)
  cleared : ∀ taken h, R h (tcaWrite tca8418RegIntStat tca8418IntStatKInt taken h)

section KeptByPolls

variable {R : Hardware → Hardware → Prop} [IsPreorder Hardware R] (hR : KeptByPolls R)
include hR

theorem KeptByPolls.taken (h : Hardware) : R h (taken h) :=
  trans_of R (hR.waited h) (trans_of R (hR.waited (counted h)) (hR.popped _))

theorem KeptByPolls.readKeyEvent {w w' : World} {r : Except EspErr Unit}
    (h : ReadKeyEvent w r w') : R w.hw w'.hw := by
  have hclear : ∀ b, R w.hw
      (tcaWrite tca8418RegIntStat tca8418IntStatKInt b (M5boards.taken w.hw).waited) := fun b =>
    trans_of R (hR.taken w.hw) (trans_of R (hR.waited (M5boards.taken w.hw)) (hR.cleared b _))
  cases h with
  | noDevice => exact refl_of R w.hw
  | countFailed => exact hR.waited w.hw
  | empty => exact hR.waited w.hw
  | @popFailed f =>
    cases f.readTaken with
    | false => exact trans_of R (hR.waited w.hw) (hR.waited (counted w.hw))
    | true => exact hR.taken w.hw
  | @clearFailed f => exact hclear f.writeTaken
  | event => exact hclear true

theorem KeptByPolls.poll {w w' : World} {b : Bool} (hp : Poll w b w') : R w.hw w'.hw := by
  cases hp with
  | noBoard => exact refl_of R w.hw
  | scan _ _ hs =>
    refine hs.keeps (fun w w' => R w.hw w'.hw) (fun w => refl_of R w.hw) (trans_of R) ?_
    intro w w' r hr
    have hmoved : R (cleanLocals w).hw w'.hw := hR.readKeyEvent hr
    exact hmoved
  | @sample board now u _ _ hk =>
    have h := (onlyHw_keysPressed hR.waited board w).hw
    rw [hk] at h
    exact h

theorem KeptByPolls.asks {w w' : World} {b : Bool} (h : Asks w b w') : R w.hw w'.hw := by
  obtain ⟨hf, ht⟩ := h.rule (I := fun u => R w.hw u.hw)
    (fun u hu => trans_of R hu (hR.waited u.hw))
    (fun u v hu hp => trans_of R hu (hR.poll hp)) (refl_of R w.hw)
  cases b with
  | false => exact hf rfl
  | true =>
    obtain ⟨u, hu, hp⟩ := ht rfl
    exact trans_of R hu (hR.poll hp)

end KeptByPolls

end PicoFido2.M5boards
