import PicoFido2.M5boards.PresenceRuns

/-! When a confirmation comes from an input that was never brought up. The guard
of a poll looks at the board alone, and the board is assigned before the bring-up:
after a bring-up that failed, polls read pads that were never configured, or a
keyboard whose configuration stopped halfway. -/

namespace PicoFido2.M5boards

open Effect Hal Hardware Transition

/-- An initialisation at `w` goes through all its steps. -/
def Succeeds (cfg : Kconfig) (w : World) : Prop :=
  ∃ board u u', pf2M5BoardGet cfg = some board ∧ pf2M5BoardInitEarly cfg w = (.ok (), u) ∧
    ¬ alreadyInitialized board u ∧ presenceBringUp cfg board (selected board u) = (.ok (), u')

/-- The call initialises, by itself or through its guard, and goes through all the steps. -/
def BringsUp (cfg : Kconfig) (v : Visit World PresenceCall Answer) : Prop :=
  (v.op = .init ∨ v.before.presence.sBoard = none) ∧ Succeeds cfg v.before

/-- There is no board yet, or it is initialised, or it has a keyboard nothing can be
read from. -/
def Unexposed (w : World) : Prop :=
  w.presence.sBoard = none ∨ w.presence.sPresenceInitialized ∨
    ∃ board, w.presence.sBoard = some board ∧ board.desc.userInput.type = .tca8418 ∧
      w.presence.sKeyboard.dev = none

section Init

variable {cfg : Kconfig} {w w' : World}

/-- The flag goes up only in an initialisation that went through all its steps. -/
theorem PresenceInit.flag {r : Except EspErr Unit} (h : PresenceInit cfg w r w')
    (hf : w'.presence.sPresenceInitialized) :
    w.presence.sPresenceInitialized ∨ Succeeds cfg w := by
  cases h with
  | noBoard => exact .inl hf
  | earlyFailed hb he =>
    rw [(initEarly_flags hb he).2] at hf
    exact .inl hf
  | @late board u _ _ hb he hi =>
    have hpres := (initEarly_flags hb he).2
    cases hi with
    | already => rw [hpres] at hf; exact .inl hf
    | failed _ hr =>
      have hs := keeps_presenceBringUp spares_samePresence cfg board (selected board u)
      rw [hr] at hs
      rw [hs.sPresenceInitialized] at hf
      change u.presence.sPresenceInitialized = true at hf
      rw [hpres] at hf
      exact .inl hf
    | done ha hr => exact .inr ⟨board, u, _, hb, he, ha, hr⟩

theorem PresenceInit.succeeds (h : PresenceInit cfg w (.ok ()) w')
    (hnone : w.presence.sBoard = none) : Succeeds cfg w := by
  cases h with
  | @late board u _ _ hb he hi =>
    cases hi with
    | already ha =>
      have hsb := (alreadyInitialized_iff.mp ha).2
      rw [(initEarly_flags hb he).2, hnone] at hsb
      cases hsb
    | done ha hr => exact ⟨board, u, _, hb, he, ha, hr⟩

theorem Succeeds.ok (h : Succeeds cfg w) : (picoFido2PresenceInit cfg w).1 = .ok () := by
  obtain ⟨board, u, u', hb, he, ha, hr⟩ := h
  unfold picoFido2PresenceInit
  rw [hb]
  dsimp only
  rw [Prog.bind_ok he]
  have hc := pf2UserPresenceInit_cases cfg (some board) u
  rcases hi : pf2UserPresenceInit cfg (some board) u with ⟨r, v⟩
  rw [hi] at hc
  cases hc with
  | already => rfl
  | failed _ hf => rw [hr] at hf; cases hf
  | done => rfl

end Init

theorem ReadKeyEvent.dev_of_ok {w w' : World} (h : ReadKeyEvent w (.ok ()) w') :
    w.presence.sKeyboard.dev.isSome := by
  cases h with
  | empty hdev => exact hdev
  | event hdev => exact hdev

theorem Scan.dev_of_true {n : ℕ} {w w' : World} {reads : List World}
    (hs : Scan n w reads true w') : w.presence.sKeyboard.dev.isSome := by
  cases hs with
  | press hr => exact hr.dev_of_ok (w := cleanLocals w)
  | next hr => exact hr.dev_of_ok (w := cleanLocals w)

/-- Nothing confirms while the keyboard has no handle. -/
theorem Asks.false_of_no_dev {w w' : World} {b : Bool} {board : BoardPtr} (ha : Asks w b w')
    (hb : w.presence.sBoard = some board) (ht : board.desc.userInput.type = .tca8418)
    (hdev : w.presence.sKeyboard.dev = none) : b = false := by
  cases b with
  | false => rfl
  | true =>
    obtain ⟨u, ⟨hub, hud⟩, hp⟩ := (ha.rule
      (I := fun u => u.presence.sBoard = some board ∧ u.presence.sKeyboard.dev = none)
      (fun _ h => h) (fun u v h hp => ⟨hp.setup.sBoard.trans h.1, hp.setup.dev.trans h.2⟩)
      ⟨hb, hdev⟩).2 rfl
    generalize htrue : true = c at hp
    cases hp with
    | noBoard => cases htrue
    | scan hb' ht' hs =>
      subst htrue
      have h := hs.dev_of_true
      rw [hud] at h
      cases h
    | sample hb' ht' =>
      rw [hub] at hb'
      cases hb'
      rw [ht] at ht'
      cases ht'

/-- Where the flag is up, some call brought the input up. -/
def Justified (cfg : Kconfig) (vs : List (Visit World PresenceCall Answer)) (w : World) : Prop :=
  w.presence.sPresenceInitialized → ∃ u ∈ vs, BringsUp cfg u

theorem Justified.step {cfg : Kconfig} {vs : List (Visit World PresenceCall Answer)}
    {w w' : World} {call : PresenceCall} {ans : Answer} (h : Justified cfg vs w)
    (hs : PresenceStep cfg w call ans w') : Justified cfg (vs ++ [⟨w, call, ans, w'⟩]) w' := by
  intro hf
  have hold : w.presence.sPresenceInitialized →
      ∃ u ∈ vs ++ [(⟨w, call, ans, w'⟩ : Visit World PresenceCall Answer)], BringsUp cfg u := by
    intro hw
    obtain ⟨u, hu, hup⟩ := h hw
    exact ⟨u, List.mem_append_left _ hu, hup⟩
  have hnew : BringsUp cfg ⟨w, call, ans, w'⟩ →
      ∃ u ∈ vs ++ [(⟨w, call, ans, w'⟩ : Visit World PresenceCall Answer)], BringsUp cfg u :=
    fun hup => ⟨_, by simp, hup⟩
  cases hs.move with
  | init hi => exact (hi.flag hf).elim hold fun hsucc => hnew ⟨.inl rfl, hsucc⟩
  | refused hg =>
    cases hg with
    | failed hb hi => exact (hi.flag hf).elim hold fun hsucc => hnew ⟨.inr hb, hsucc⟩
  | asked hg ha =>
    rw [ha.setup.sPresenceInitialized] at hf
    cases hg with
    | chosen => exact hold hf
    | lazy hb hi => exact hnew ⟨.inr hb, hi.succeeds hb⟩

/-- In every run from boot, a poll or wait that starts unexposed returns true only
if its own or an earlier initialisation brought the input up. -/
theorem confirmed_only_when_brought_up {cfg : Kconfig} {h₀ : Hardware}
    {vs : List (Visit World PresenceCall Answer)} {w : World}
    (hp : Path (PresenceStep cfg) (boot h₀) vs w) (pre : List (Visit World PresenceCall Answer))
    (v : Visit World PresenceCall Answer) (post : List (Visit World PresenceCall Answer))
    (he : vs = pre ++ v :: post) (hv : Unexposed v.before) (htrue : v.ret = .pressed true) :
    ∃ u ∈ pre ++ [v], BringsUp cfg u := by
  obtain ⟨hpre, hstep⟩ := hp.visit pre v post he
  have hj : Justified cfg pre v.before :=
    hpre.history (I := Justified cfg) (fun hf => by simp [boot] at hf)
      fun _ _ _ _ _ hs h => h.step hs
  obtain ⟨w, call, ans, w'⟩ := v
  change PresenceStep cfg w call ans w' at hstep
  obtain rfl : ans = .pressed true := htrue
  rcases hv with hnone | hflag | ⟨board, hb, ht, hdev⟩
  · generalize hans : Answer.pressed true = a at hstep
    cases hstep.move with
    | init => cases hans
    | refused => cases hans
    | asked hg =>
      cases hg with
      | chosen hb => rw [hnone] at hb; cases hb
      | lazy hb hi =>
        exact ⟨_, List.mem_append_right pre (List.mem_singleton_self _), .inr hb, hi.succeeds hb⟩
  · obtain ⟨u, hu, hup⟩ := hj hflag
    exact ⟨u, List.mem_append_left _ hu, hup⟩
  · generalize hans : Answer.pressed true = a at hstep
    cases hstep.move with
    | init => cases hans
    | refused => cases hans
    | asked hg ha =>
      cases hans
      cases hg with
      | chosen => exact absurd (ha.false_of_no_dev hb ht hdev) (by simp)
      | lazy hnone => rw [hnone] at hb; cases hb

theorem confirmed_cardputer : ∃ u ∈ [initVisit] ++ [pollVisit], BringsUp cardputerAdv u :=
  confirmed_only_when_brought_up keyRun [initVisit] pollVisit [] rfl
    (.inr (.inl (by decide +kernel))) rfl

/-- The PM1 does not answer, so the pads are never configured; they read low, and
the next poll confirms. -/
theorem confirmed_uninitialised_stick :
    ∃ v₁ v₂ w, Path (PresenceStep stickS3)
        (boot { Hardware.start (failsAt 2) with pads := fun _ => false }) [v₁, v₂] w ∧
      v₂.ret = .pressed true ∧ ∀ u ∈ [v₁, v₂], ¬ BringsUp stickS3 u := by
  refine ⟨_, _, _, .snoc (.snoc .nil (.init (Prod.ext rfl rfl))) (.poll (Prod.ext rfl rfl)), ?_, ?_⟩
  · exact congrArg Answer.pressed (by decide +kernel)
  · intro u hu
    simp only [List.mem_cons, List.not_mem_nil, or_false] at hu
    rcases hu with rfl | rfl
    · rintro ⟨-, hs⟩
      exact absurd hs.ok (by decide +kernel)
    · rintro ⟨hop | hnone, -⟩
      · cases hop
      · exact absurd hnone (by decide +kernel)

end PicoFido2.M5boards
