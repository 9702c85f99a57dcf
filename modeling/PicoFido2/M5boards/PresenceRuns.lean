import PicoFido2.M5boards.Poll
import PicoFido2.Transition.Path

/-! Runs of the public presence calls. A poll or a wait first sees to it that there
is a board, then polls; a wait polls until a poll confirms or the time is up, so
what a failed poll and a turn keep, a wait keeps up to the poll that confirms. -/

namespace PicoFido2.M5boards

open Effect Hal Hardware Transition

/-! ### Waiting -/

/-- One turn in which the firmware only lets time pass. -/
def ticked (w : World) : World := { w with hw := w.hw.waited }

/-- The ways the loop of a wait goes, with either one or two turns between polls. -/
inductive Waiting : World → Bool → World → Prop where
  | hit {w w' : World} (hp : Poll w true w') : Waiting w true w'
  | timeout {w w' : World} (hp : Poll w false w') : Waiting w false (ticked (ticked w'))
  | again {w w' u v : World} {b : Bool} (hp : Poll w false w')
      (hu : u = ticked w' ∨ u = ticked (ticked w')) (rest : Waiting u b v) : Waiting w b v

theorem presenceWaitLoop_waiting {timeoutMs : BitVec 32} {deadlineUs : ℤ} {fuel : ℕ}
    {w w' : World} {b : Bool} (h : presenceWaitLoop timeoutMs deadlineUs fuel w = some (b, w')) :
    Waiting w b w' := by
  induction fuel generalizing w with
  | zero => simp [presenceWaitLoop] at h
  | succ fuel ih =>
    have hp := pf2UserPresencePoll_cases w
    rw [presenceWaitLoop] at h
    rcases hr : pf2UserPresencePoll w with ⟨_ | _, u⟩
    · rw [hr] at hp h
      by_cases ht : timeoutMs = 0
      · simp only [if_pos ht] at h
        exact .again hp (.inl rfl) (ih h)
      · simp only [if_neg ht] at h
        split at h
        · exact .again hp (.inr rfl) (ih h)
        · cases h
          exact .timeout hp
    · rw [hr] at hp h
      cases h
      exact .hit hp

/-- The loop rule: what turns and failed polls keep holds at the end of a wait that
timed out, and before the poll that confirmed one that did not. -/
theorem Waiting.rule {I : World → Prop} (htick : ∀ w, I w → I (ticked w))
    (hpoll : ∀ w w', I w → Poll w false w' → I w') {w w' : World} {b : Bool}
    (h : Waiting w b w') (hi : I w) :
    (b = false → I w') ∧ (b = true → ∃ u, I u ∧ Poll u true w') := by
  induction h with
  | hit hp => exact ⟨by simp, fun _ => ⟨_, hi, hp⟩⟩
  | timeout hp => exact ⟨fun _ => htick _ (htick _ (hpoll _ _ hi hp)), by simp⟩
  | again hp hu _ ih =>
    refine ih ?_
    rcases hu with rfl | rfl
    · exact htick _ (hpoll _ _ hi hp)
    · exact htick _ (htick _ (hpoll _ _ hi hp))

/-! ### Calls -/

/-- The polls of a call: the one of a poll, or those of a wait. -/
inductive Asks (w : World) (b : Bool) (w' : World) : Prop where
  | once (hp : Poll w b w')
  | loop (hw : Waiting (ticked w) b w')

theorem Asks.rule {I : World → Prop} (htick : ∀ w, I w → I (ticked w))
    (hpoll : ∀ w w', I w → Poll w false w' → I w') {w w' : World} {b : Bool}
    (h : Asks w b w') (hi : I w) :
    (b = false → I w') ∧ (b = true → ∃ u, I u ∧ Poll u true w') := by
  cases h with
  | once hp =>
    cases b with
    | false => exact ⟨fun _ => hpoll _ _ hi hp, by simp⟩
    | true => exact ⟨by simp, fun _ => ⟨w, hi, hp⟩⟩
  | loop hw => exact hw.rule htick hpoll (htick w hi)

/-- Everything `pico_fido2_presence_init` can do. -/
inductive PresenceInit (cfg : Kconfig) (w : World) : Except EspErr Unit → World → Prop where
  | noBoard (hb : pf2M5BoardGet cfg = none) : PresenceInit cfg w (.error .notSupported) w
  | earlyFailed {board : BoardPtr} {e : EspErr} {w' : World} (hb : pf2M5BoardGet cfg = some board)
      (he : pf2M5BoardInitEarly cfg w = (.error e, w')) : PresenceInit cfg w (.error e) w'
  | late {board : BoardPtr} {u w' : World} {r : Except EspErr Unit}
      (hb : pf2M5BoardGet cfg = some board) (he : pf2M5BoardInitEarly cfg w = (.ok (), u))
      (hi : UserInit cfg u (some board) r w') : PresenceInit cfg w r w'

theorem PresenceInit.of_eq {cfg : Kconfig} {w w' : World} {r : Except EspErr Unit}
    (h : picoFido2PresenceInit cfg w = (r, w')) : PresenceInit cfg w r w' := by
  unfold picoFido2PresenceInit at h
  cases hb : pf2M5BoardGet cfg with
  | none =>
    rw [hb] at h
    cases h
    exact .noBoard hb
  | some board =>
    rw [hb] at h
    dsimp only at h
    rcases he : pf2M5BoardInitEarly cfg w with ⟨e | a, u⟩
    · rw [Prog.bind_error he] at h
      cases h
      exact .earlyFailed hb he
    · rw [Prog.bind_ok he] at h
      exact .late hb he (UserInit.of_eq h)

/-- What becomes of the guard at the head of a poll or a wait. -/
inductive Guarded (cfg : Kconfig) (w : World) : Bool → World → Prop where
  | chosen {board : BoardPtr} (hb : w.presence.sBoard = some board) : Guarded cfg w true w
  | failed {e : EspErr} {w' : World} (hb : w.presence.sBoard = none)
      (hi : PresenceInit cfg w (.error e) w') : Guarded cfg w false w'
  | lazy {w' : World} (hb : w.presence.sBoard = none) (hi : PresenceInit cfg w (.ok ()) w') :
      Guarded cfg w true w'

theorem presenceGuard_cases (cfg : Kconfig) (w : World) :
    Guarded cfg w (presenceGuard cfg w).1 (presenceGuard cfg w).2 := by
  unfold presenceGuard
  split_ifs with hb
  · rw [Option.isNone_iff_eq_none] at hb
    rcases hr : picoFido2PresenceInit cfg w with ⟨e | a, u⟩
    · exact .failed hb (.of_eq hr)
    · exact .lazy hb (.of_eq hr)
  · obtain ⟨board, hsome⟩ := Option.ne_none_iff_exists'.mp (by simpa using hb)
    exact .chosen hsome

/-- The public calls. -/
inductive PresenceCall where
  | init
  | poll
  | wait (timeoutMs : BitVec 32)
  deriving DecidableEq, Repr

/-- One call that returned. -/
inductive PresenceStep (cfg : Kconfig) (w : World) : PresenceCall → Answer → World → Prop where
  | init {r : Except EspErr Unit} {w' : World} (h : picoFido2PresenceInit cfg w = (r, w')) :
      PresenceStep cfg w .init (.status r) w'
  | poll {b : Bool} {w' : World} (h : picoFido2PresencePoll cfg w = (b, w')) :
      PresenceStep cfg w .poll (.pressed b) w'
  | wait {timeoutMs : BitVec 32} {fuel : ℕ} {b : Bool} {w' : World}
      (h : picoFido2PresenceWait cfg timeoutMs fuel w = some (b, w')) :
      PresenceStep cfg w (.wait timeoutMs) (.pressed b) w'

/-- A call by its parts. -/
inductive PresenceMove (cfg : Kconfig) (w : World) : PresenceCall → Answer → World → Prop where
  | init {r : Except EspErr Unit} {w' : World} (hi : PresenceInit cfg w r w') :
      PresenceMove cfg w .init (.status r) w'
  | refused {call : PresenceCall} {w' : World} (hg : Guarded cfg w false w') :
      PresenceMove cfg w call (.pressed false) w'
  | asked {call : PresenceCall} {u w' : World} {b : Bool} (hg : Guarded cfg w true u)
      (ha : Asks u b w') : PresenceMove cfg w call (.pressed b) w'

theorem PresenceStep.move {cfg : Kconfig} {w w' : World} {call : PresenceCall} {ans : Answer}
    (h : PresenceStep cfg w call ans w') : PresenceMove cfg w call ans w' := by
  have hg := presenceGuard_cases cfg w
  cases h with
  | init h => exact .init (.of_eq h)
  | @poll b _ h =>
    unfold picoFido2PresencePoll at h
    rcases hr : presenceGuard cfg w with ⟨_ | _, u⟩
    · rw [hr] at hg h
      cases h
      exact .refused hg
    · rw [hr] at hg h
      have hp := pf2UserPresencePoll_cases u
      rw [show pf2UserPresencePoll u = (b, w') from h] at hp
      exact .asked hg (.once hp)
  | wait h =>
    unfold picoFido2PresenceWait at h
    rcases hr : presenceGuard cfg w with ⟨_ | _, u⟩
    · rw [hr] at hg h
      cases h
      exact .refused hg
    · rw [hr] at hg h
      exact .asked hg (.loop (presenceWaitLoop_waiting h))

/-! ### Time and the queue over a call -/

theorem drifts_tick (w : World) : Drifts w.hw (ticked w).hw := (passes_waited w.hw).drifts

theorem ReadKeyEvent.drifts {w w' : World} {r : Except EspErr Unit}
    (h : ReadKeyEvent (cleanLocals w) r w') : Drifts w.hw w'.hw := by
  obtain ⟨removed, hp, -⟩ := h.passes
  exact ⟨removed, hp⟩

theorem Scan.drifts {n : ℕ} {w w' : World} {reads : List World} {b : Bool}
    (hs : Scan n w reads b w') : Drifts w.hw w'.hw :=
  hs.keeps (fun w w' => Drifts w.hw w'.hw) (fun w => refl_of Drifts w.hw) (trans_of Drifts)
    fun hr => hr.drifts

theorem Poll.drifts {w w' : World} {b : Bool} (hp : Poll w b w') : Drifts w.hw w'.hw := by
  cases hp with
  | noBoard => exact refl_of Drifts w.hw
  | scan _ _ hs => exact hs.drifts
  | @sample board now u _ _ hk =>
    have h := (onlyHw_keysPressed passes_waited board w).hw
    rw [hk] at h
    exact Passes.drifts h

theorem Asks.drifts {w w' : World} {b : Bool} (h : Asks w b w') : Drifts w.hw w'.hw := by
  obtain ⟨hf, ht⟩ := h.rule (I := fun u => Drifts w.hw u.hw)
    (fun u hu => trans_of Drifts hu (drifts_tick u))
    (fun u v hu hp => trans_of Drifts hu hp.drifts) (refl_of Drifts w.hw)
  cases b with
  | false => exact hf rfl
  | true =>
    obtain ⟨u, hu, hp⟩ := ht rfl
    exact trans_of Drifts hu hp.drifts

theorem UserInit.elapses {cfg : Kconfig} {w w' : World} {board : Option BoardPtr}
    {r : Except EspErr Unit} (h : UserInit cfg w board r w') : Elapses w w' := by
  cases h with
  | noBoard => exact refl_of Elapses w
  | already => exact refl_of Elapses w
  | @failed board e _ _ hr =>
    have hb := keeps_presenceBringUp spares_elapses cfg board (selected board w)
    rw [hr] at hb
    exact hb
  | @done board u _ hr =>
    have hb := keeps_presenceBringUp spares_elapses cfg board (selected board w)
    rw [hr] at hb
    exact trans_of (Passes []) hb (finished_hw passes_waited board u)

theorem PresenceInit.elapses {cfg : Kconfig} {w w' : World} {r : Except EspErr Unit}
    (h : PresenceInit cfg w r w') : Elapses w w' := by
  have he := keeps_initEarly spares_elapses cfg w
  cases h with
  | noBoard => exact refl_of Elapses w
  | earlyFailed _ h => rw [h] at he; exact he
  | late _ h hi => rw [h] at he; exact trans_of Elapses he hi.elapses

theorem Guarded.elapses {cfg : Kconfig} {w w' : World} {b : Bool} (h : Guarded cfg w b w') :
    Elapses w w' := by
  cases h with
  | chosen => exact refl_of Elapses w
  | failed _ hi => exact hi.elapses
  | lazy _ hi => exact hi.elapses

theorem PresenceStep.drifts {cfg : Kconfig} {w w' : World} {call : PresenceCall} {ans : Answer}
    (h : PresenceStep cfg w call ans w') : Drifts w.hw w'.hw := by
  cases h.move with
  | init hi => exact Passes.drifts hi.elapses
  | refused hg => exact Passes.drifts hg.elapses
  | asked hg ha => exact trans_of Drifts (Passes.drifts hg.elapses) ha.drifts

/-! ### What polls leave alone, over a call -/

theorem Asks.setup {w w' : World} {b : Bool} (h : Asks w b w') : SameSetup w w' := by
  obtain ⟨hf, ht⟩ := h.rule (I := fun u => SameSetup w u)
    (fun u hu => trans_of SameSetup hu (show SameSetup u (ticked u) from ⟨rfl, rfl, rfl, rfl⟩))
    (fun u v hu hp => trans_of SameSetup hu hp.setup) (refl_of SameSetup w)
  cases b with
  | false => exact hf rfl
  | true =>
    obtain ⟨u, hu, hp⟩ := ht rfl
    exact trans_of SameSetup hu hp.setup

/-! ### A run -/

/-- The key goes down in the turn after the initialisation. -/
def keyTurns : ℕ → Turn := stimuliAt 12 [.key 0x81]

def initVisit : Visit World PresenceCall Answer :=
  ⟨boot (.start keyTurns), .init, .status (.ok ()),
    (picoFido2PresenceInit cardputerAdv (boot (.start keyTurns))).2⟩

def pollVisit : Visit World PresenceCall Answer :=
  ⟨initVisit.after, .poll, .pressed true, (picoFido2PresencePoll cardputerAdv initVisit.after).2⟩

theorem keyInit :
    PresenceStep cardputerAdv initVisit.before .init (.status (.ok ())) initVisit.after :=
  .init (Prod.ext (by decide +kernel) rfl)

theorem keyRun :
    Path (PresenceStep cardputerAdv) (boot (.start keyTurns)) [initVisit, pollVisit]
      pollVisit.after :=
  .snoc (.snoc .nil keyInit) (.poll (Prod.ext (by decide +kernel) rfl))

end PicoFido2.M5boards
