import PicoFido2.M5boards.KeyScan
import PicoFido2.Transition.Path

/-! When a key press is lost. A read takes the event out of the queue with its
second transfer and clears the interrupt with its third; where the third fails,
the event is gone and the caller learns nothing of it. That is the only way: with
no such failure a read that fails leaves everything as it was, and a scan that
takes a press returns true. -/

namespace PicoFido2.M5boards

open Effect Hal Hardware Queue Transition

/-- The interrupt clear of a read at `w` fails after its event was taken. -/
def ClearFails (w : World) : Prop :=
  w.presence.sKeyboard.dev.isSome ∧ w.hw.outcome = .done ∧ (counted w.hw).fifo.events ≠ [] ∧
    (counted w.hw).outcome = .done ∧ (taken w.hw).outcome ≠ .done

/-- No failed read takes an event. -/
def FailedReadKeeps (h : Hardware) : Prop :=
  ∀ n f, (h.turns n).outcome = .failed f → f.readTaken = false

theorem FailedReadKeeps.congr {h k : Hardware} (hk : FailedReadKeeps h) (ht : k.turns = h.turns) :
    FailedReadKeeps k := by
  intro n f hn
  rw [ht] at hn
  exact hk n f hn

/-- The queue (but for arrivals), the caller's locals and `last_event` as they were. -/
structure ReadUnchanged (w w' : World) : Prop where
  queue : Flows w.hw w'.hw []
  keyOut : w'.keyOut = w.keyOut
  lastEvent : w'.presence.sKeyboard.lastEvent = w.presence.sKeyboard.lastEvent

/-- A read that fails without losing its event to the interrupt clear changes nothing. -/
theorem ReadKeyEvent.error_unchanged {w w' : World} {e : EspErr}
    (hc : ReadKeyEvent w (.error e) w') (hk : FailedReadKeeps w.hw) (hno : ¬ ClearFails w) :
    ReadUnchanged w w' := by
  cases hc with
  | noDevice => exact ⟨flows_of_passes (refl_of (Passes []) _), rfl, rfl⟩
  | countFailed => exact ⟨flows_of_passes (passes_waited _), rfl, rfl⟩
  | @popFailed f hdev hcount hq hpop =>
    have hturns := (Hardware.sameChips_waited w.hw).turns
    have hf : f.readTaken = false := by
      refine hk (counted w.hw).turn f ?_
      rw [← hturns]
      exact hpop
    refine ⟨?_, rfl, rfl⟩
    rw [hf]
    exact flows_of_passes ((passes_waited _).trans (passes_waited _))
  | clearFailed hdev hcount hq hpop hclear =>
    exact absurd ⟨hdev, hcount, hq, hpop, by rw [hclear]; simp⟩ hno

/-- Where the interrupt clear fails, the read fails and its event is gone. -/
theorem clearFails_changed {w : World} (hw : ClearFails w) :
    ∃ e w', pf2Tca8418ReadKeyEvent w = (.error e, w') ∧ ¬ ReadUnchanged w w' := by
  obtain ⟨hdev, hcount, hq, hpop, hclear⟩ := hw
  obtain ⟨head, rest, he⟩ := List.exists_cons_of_ne_nil hq
  have hc := pf2Tca8418ReadKeyEvent_cases w
  rcases hr : pf2Tca8418ReadKeyEvent w with ⟨r, w'⟩
  rw [hr] at hc
  cases hc with
  | noDevice hd => rw [hd] at hdev; simp at hdev
  | countFailed _ hf => rw [hcount] at hf; cases hf
  | empty _ _ hq' => exact absurd hq' hq
  | popFailed _ _ _ hf => rw [hpop] at hf; cases hf
  | event _ _ _ _ hd => exact absurd hd hclear
  | @clearFailed f =>
    refine ⟨_, _, rfl, fun hu => ?_⟩
    have hlost := flows_of_passes
      (passes_cleared (h := w.hw) (e := head) f.writeTaken (by rw [he]; rfl))
    exact absurd (hu.queue.removed_unique hlost) (by simp)

/-- A failing read changes nothing exactly where its interrupt clear does not fail. -/
theorem readUnchanged_iff {w : World} (hk : FailedReadKeeps w.hw) :
    (∀ e w', pf2Tca8418ReadKeyEvent w = (.error e, w') → ReadUnchanged w w') ↔ ¬ ClearFails w := by
  constructor
  · intro h hfails
    obtain ⟨e, w', hr, hchanged⟩ := clearFails_changed hfails
    exact hchanged (h e w' hr)
  · intro hno e w' hr
    have hc := pf2Tca8418ReadKeyEvent_cases w
    rw [hr] at hc
    exact hc.error_unchanged hk hno

/-! ### Scans -/

theorem ReadKeyEvent.error_passes {w w' : World} {e : EspErr} (hc : ReadKeyEvent w (.error e) w')
    (hk : FailedReadKeeps w.hw) (hno : ¬ ClearFails w) : Passes [] w.hw w'.hw := by
  obtain ⟨removed, hp, _⟩ := hc.passes
  have hkept := (hc.error_unchanged hk hno).queue
  rw [(flows_of_passes hp).removed_unique hkept] at hp
  exact hp

/-- A scan whose reads lose nothing to the interrupt clear returns true once it took a press. -/
theorem Scan.confirms {n : ℕ} {w w' : World} {reads : List World} {b : Bool}
    (hs : Scan n w reads b w') (hk : FailedReadKeeps w.hw) (hno : ∀ u ∈ reads, ¬ ClearFails u) :
    ∃ removed, Passes removed w.hw w'.hw ∧ ∀ e ∈ removed, isPress e = true → b = true := by
  induction hs with
  | out w => exact ⟨[], refl_of (Passes []) _, by simp⟩
  | failed hr => exact ⟨[], hr.error_passes hk (hno _ (by simp)), by simp⟩
  | empty _ hf => exact ⟨[], hf, by simp⟩
  | press _ hf _ => exact ⟨_, hf, by simp⟩
  | @zeroCode _ _ _ event _ hf hz =>
    refine ⟨_, hf, fun e he hp => ?_⟩
    rw [List.mem_singleton] at he
    subst he
    exact absurd hz (isPress_code hp)
  | @next n w w' w'' event reads b hr hf hp _ _ ih =>
    obtain ⟨removed, hflow, htrue⟩ := ih (hk.congr hr.turns) fun u hu => hno u (by simp [hu])
    refine ⟨_, hf.trans hflow, fun e he hpe => ?_⟩
    rcases List.mem_append.mp he with he | he
    · rw [List.mem_singleton] at he
      rw [he, hp] at hpe
      simp at hpe
    · exact htrue e he hpe

/-! ### Runs of calls -/

def KeyStep (w : World) (_ : Unit) (b : Bool) (w' : World) : Prop :=
  pf2Tca8418AnyKeyPressed w = (b, w')

theorem KeyStep.scan {w w' : World} {i : Unit} {b : Bool} (h : KeyStep w i b w') :
    Scan 10 w (scanReads 10 w) b w' := by
  have hs := pf2Tca8418AnyKeyPressed_scan w
  rw [show pf2Tca8418AnyKeyPressed w = (b, w') from h] at hs
  exact hs

/-- A call returns true if it took a press, and its failing reads change nothing. -/
structure NoPressLost (v : Visit World Unit Bool) : Prop where
  confirms : ∀ removed, Flows v.before.hw v.after.hw removed →
    ∀ e ∈ removed, isPress e = true → v.ret = true
  unchanged : ∀ u ∈ scanReads 10 v.before, ∀ e u',
    pf2Tca8418ReadKeyEvent u = (.error e, u') → ReadUnchanged u u'

theorem scanReads_turns {n : ℕ} {w u : World} (hu : u ∈ scanReads n w) :
    u.hw.turns = w.hw.turns := by
  induction n generalizing w with
  | zero => simp [scanReads] at hu
  | succ n ih =>
    rw [scanReads, List.mem_cons] at hu
    rcases hu with rfl | hu
    · rfl
    · have hc := pf2Tca8418ReadKeyEvent_cases (cleanLocals w)
      rcases hr : pf2Tca8418ReadKeyEvent (cleanLocals w) with ⟨e | ⟨⟩, w'⟩
      · rw [hr] at hu; simp at hu
      · rw [hr] at hu hc
        dsimp only at hu
        split_ifs at hu
        · simp at hu
        · simp at hu
        · exact (ih hu).trans hc.turns

/-- A run of calls loses no press exactly where no read of it fails to clear the
interrupt after it took its event. -/
theorem no_press_lost_iff {w₀ w : World} {vs : List (Visit World Unit Bool)}
    (hk : FailedReadKeeps w₀.hw) (hp : Path KeyStep w₀ vs w) :
    (∀ v ∈ vs, NoPressLost v) ↔ ∀ v ∈ vs, ∀ u ∈ scanReads 10 v.before, ¬ ClearFails u := by
  have hkeep : ∀ v ∈ vs, FailedReadKeeps v.before.hw ∧ KeyStep v.before v.op v.ret v.after := by
    intro v hv
    have h := hp.invariant_visit (I := fun w => FailedReadKeeps w.hw) hk
      (fun _ _ _ _ hs hk => hk.congr hs.scan.turns) hv
    exact ⟨h.1, h.2.2⟩
  constructor
  · intro h v hv u hu
    have hku := (hkeep v hv).1.congr (scanReads_turns hu)
    exact (readUnchanged_iff hku).mp ((h v hv).unchanged u hu)
  · intro h v hv
    obtain ⟨hkv, hstep⟩ := hkeep v hv
    refine ⟨fun removed hflow => ?_, fun u hu => ?_⟩
    · obtain ⟨removed', hp', htrue⟩ := hstep.scan.confirms hkv (h v hv)
      rw [hflow.removed_unique (flows_of_passes hp')]
      exact htrue
    · exact (readUnchanged_iff (hkv.congr (scanReads_turns hu))).mpr (h v hv u hu)

/-- A registered keyboard whose queue holds one press. -/
def pressQueued (turns : ℕ → Turn) : World :=
  { boot { Hardware.start turns with fifo := KeyFifo.empty.push 0x81 } with
    presence :=
      { sBoard := none, sKeyboard := { dev := some 0, intGpio := 11, lastEvent := 0 }
        sGpioLastPressed := false, sPresenceInitialized := true } }

theorem no_press_lost_quiet : NoPressLost
    ⟨pressQueued quietTurns, (), true, (pf2Tca8418AnyKeyPressed (pressQueued quietTurns)).2⟩ := by
  have hstep : KeyStep (pressQueued quietTurns) () true
      (pf2Tca8418AnyKeyPressed (pressQueued quietTurns)).2 := Prod.ext (by decide +kernel) rfl
  have hkeeps : FailedReadKeeps (pressQueued quietTurns).hw := fun n f h => by cases h
  refine (no_press_lost_iff hkeeps (Path.snoc Path.nil hstep)).mpr ?_ _ (by simp)
  rintro v hv u hu ⟨-, -, -, -, hclear⟩
  rw [List.nil_append, List.mem_singleton] at hv
  subst hv
  refine hclear ?_
  have hturns : (taken u.hw).turns = quietTurns :=
    (Hardware.sameChips_waited (counted u.hw)).turns.trans
      ((Hardware.sameChips_waited u.hw).turns.trans (scanReads_turns hu))
  unfold Hardware.outcome
  rw [hturns]
  rfl

/-- The third transfer, which clears the interrupt, fails and the press is lost. -/
theorem press_lost_failsAt :
    FailedReadKeeps (pressQueued (failsAt 2)).hw ∧
      ∃ w, KeyStep (pressQueued (failsAt 2)) () false w ∧
        ¬ NoPressLost ⟨pressQueued (failsAt 2), (), false, w⟩ := by
  refine ⟨fun n f h => ?_, _, Prod.ext (by decide +kernel) rfl, fun h => ?_⟩
  · unfold pressQueued failsAt boot Hardware.start at h
    dsimp only at h
    split at h
    · cases h; rfl
    · cases h
  · have hlost : Flows (pressQueued (failsAt 2)).hw
        (pf2Tca8418AnyKeyPressed (pressQueued (failsAt 2))).2.hw [0x81] :=
      ⟨[], by decide +kernel, by unfold Queue.Flow; decide +kernel⟩
    exact absurd (h.confirms _ hlost 0x81 (by simp) (by decide)) (by simp)

end PicoFido2.M5boards
