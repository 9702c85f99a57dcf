import PicoFido2.M5boards.Poll
import PicoFido2.Transition.Path

/-! When `pf2_user_presence_init` is all or nothing. The board and the sample are
assigned before the steps that can fail, so a call whose bring-up fails leaves them
changed, unless they already were what it assigns; and after such a call for
another board the early exit answers for a bring-up that never succeeded. -/

namespace PicoFido2.M5boards

open Effect Hal Transition

/-! ### Runs of initialisations and polls -/

inductive UserCall where
  | initEarly
  | userPresenceInit (board : Option BoardPtr)
  | userPresencePoll
  deriving DecidableEq, Repr

inductive UserStep (cfg : Kconfig) (w : World) : UserCall → Answer → World → Prop where
  | initEarly {r : Except EspErr Unit} {w' : World} (h : pf2M5BoardInitEarly cfg w = (r, w')) :
      UserStep cfg w .initEarly (.status r) w'
  | userPresenceInit {board : Option BoardPtr} {r : Except EspErr Unit} {w' : World}
      (h : pf2UserPresenceInit cfg board w = (r, w')) :
      UserStep cfg w (.userPresenceInit board) (.status r) w'
  | userPresencePoll {b : Bool} {w' : World} (h : pf2UserPresencePoll w = (b, w')) :
      UserStep cfg w .userPresencePoll (.pressed b) w'

/-- A guarded poll is a run of these calls. -/
theorem picoFido2PresencePoll_path (cfg : Kconfig) (w : World) :
    ∃ vs, Path (UserStep cfg) w vs (picoFido2PresencePoll cfg w).2 := by
  have hpoll : ∀ {vs u}, Path (UserStep cfg) w vs u →
      ∃ vs, Path (UserStep cfg) w vs (pf2UserPresencePoll u).2 := fun hp =>
    ⟨_, .snoc hp (.userPresencePoll rfl)⟩
  unfold picoFido2PresencePoll presenceGuard
  split_ifs
  · unfold picoFido2PresenceInit
    cases hb : pf2M5BoardGet cfg with
    | none => exact ⟨[], .nil⟩
    | some board =>
      dsimp only
      rcases he : pf2M5BoardInitEarly cfg w with ⟨e | a, u⟩
      · rw [Prog.bind_error he]
        exact ⟨_, .snoc .nil (.initEarly he)⟩
      · rw [Prog.bind_ok he]
        have hearly := Path.snoc Path.nil (UserStep.initEarly he)
        rcases hi : pf2UserPresenceInit cfg (some board) u with ⟨e | a, v⟩
        · exact ⟨_, .snoc hearly (.userPresenceInit hi)⟩
        · exact hpoll (.snoc hearly (.userPresenceInit hi))
  · exact hpoll .nil

/-- A failed initialisation left the three variables as they were. -/
def Untouched (v : Visit World UserCall Answer) : Prop :=
  ∀ board e, v.op = .userPresenceInit board → v.ret = .status (.error e) →
    SamePresence v.before v.after

/-- The call went through all its steps for `board`. -/
def Completes (cfg : Kconfig) (board : BoardPtr) (v : Visit World UserCall Answer) : Prop :=
  v.op = .userPresenceInit (some board) ∧ v.ret = .status (.ok ()) ∧
    ∃ u, presenceBringUp cfg board (selected board v.before) = (.ok (), u) ∧
      v.after = finished board u

/-- A call among `vs` went through all its steps for `board`, and none after it
chose another board. -/
def Backed (cfg : Kconfig) (board : BoardPtr) (vs : List (Visit World UserCall Answer)) : Prop :=
  ∃ pre u post, vs = pre ++ u :: post ∧ Completes cfg board u ∧
    ∀ x ∈ post, x.after.presence.sBoard = some board

/-- Up to its last call, a run was all or nothing. -/
structure AllOrNothing (cfg : Kconfig) (pre : List (Visit World UserCall Answer))
    (v : Visit World UserCall Answer) : Prop where
  untouched : Untouched v
  backed : ∀ board, v.op = .userPresenceInit (some board) → v.ret = .status (.ok ()) →
    Backed cfg board (pre ++ [v])

/-- Nothing is left half done: there is no board, or it is initialised, or its
bring-up succeeds, or what the call assigns first is assigned already. -/
def Harmless (cfg : Kconfig) (call : UserCall) (w : World) : Prop :=
  ∀ board, call = .userPresenceInit (some board) →
    alreadyInitialized board w ∨
    (presenceBringUp cfg board (selected board w)).1 = .ok () ∨
    (w.presence.sBoard = some board ∧ w.presence.sGpioLastPressed = false)

section Step

variable {cfg : Kconfig}

/-- A failed call put the board and a cleared sample where they were. -/
theorem userInit_error {w w' : World} {board : Option BoardPtr} {e : EspErr}
    (h : UserInit cfg w board (.error e) w') :
    (board = none ∧ w' = w) ∨ ∃ b, board = some b ∧ ¬ alreadyInitialized b w ∧
      (∃ e, (presenceBringUp cfg b (selected b w)).1 = .error e) ∧
      SamePresence (selected b w) w' := by
  cases h with
  | noBoard => exact .inl ⟨rfl, rfl⟩
  | @failed b _ _ ha hr =>
    have hs := keeps_presenceBringUp spares_samePresence cfg b (selected b w)
    rw [hr] at hs
    exact .inr ⟨b, rfl, ha, ⟨e, by rw [hr]⟩, hs⟩

theorem untouched_iff {v : Visit World UserCall Answer}
    (hs : UserStep cfg v.before v.op v.ret v.after) : Untouched v ↔ Harmless cfg v.op v.before := by
  obtain ⟨w, call, ret, w'⟩ := v
  change UserStep cfg w call ret w' at hs
  constructor
  · rintro hu board rfl
    cases hs with
    | @userPresenceInit _ r _ h =>
      have hc := UserInit.of_eq h
      cases r with
      | ok a =>
        cases hc with
        | already ha => exact .inl ha
        | done ha hr => exact .inr (.inl (by rw [hr]))
      | error e =>
        rcases userInit_error hc with ⟨hn, -⟩ | ⟨b, hb, ha, -, hsel⟩
        · cases hn
        · cases hb
          have hsame := hu (some board) e rfl rfl
          refine .inr (.inr ⟨?_, ?_⟩)
          · rw [← hsame.sBoard]; exact hsel.sBoard
          · rw [← hsame.sGpioLastPressed]; exact hsel.sGpioLastPressed
  · rintro hh board e rfl rfl
    cases hs with
    | userPresenceInit h =>
      rcases userInit_error (UserInit.of_eq h) with ⟨-, rfl⟩ | ⟨b, rfl, ha, ⟨e', hr⟩, hsel⟩
      · exact refl_of SamePresence _
      · rcases hh b rfl with h | h | ⟨hb, hl⟩
        · exact absurd h ha
        · rw [hr] at h; cases h
        · exact ⟨hsel.sBoard.trans hb.symm, hsel.sGpioLastPressed.trans hl.symm,
            hsel.sPresenceInitialized⟩

/-- Where the early exit answers, some call is to be found that did the work. -/
def Answerable (cfg : Kconfig) (vs : List (Visit World UserCall Answer)) (w : World) : Prop :=
  ∀ board, alreadyInitialized board w → Backed cfg board vs

theorem Backed.snoc {board : BoardPtr} {vs : List (Visit World UserCall Answer)}
    {v : Visit World UserCall Answer} (h : Backed cfg board vs)
    (hv : v.after.presence.sBoard = some board) : Backed cfg board (vs ++ [v]) := by
  obtain ⟨pre, u, post, rfl, hu, hpost⟩ := h
  refine ⟨pre, u, post ++ [v], by simp, hu, fun x hx => ?_⟩
  rcases List.mem_append.mp hx with hx | hx
  · exact hpost x hx
  · rw [List.mem_singleton] at hx
    rw [hx]
    exact hv

/-- A step that keeps the board and the flag keeps every answer. -/
theorem Answerable.snoc_same {vs : List (Visit World UserCall Answer)}
    {v : Visit World UserCall Answer} (h : Answerable cfg vs v.before)
    (hb : v.after.presence.sBoard = v.before.presence.sBoard)
    (hi : v.after.presence.sPresenceInitialized = v.before.presence.sPresenceInitialized) :
    Answerable cfg (vs ++ [v]) v.after := by
  intro board ha
  rw [alreadyInitialized_iff] at ha
  have hbefore : alreadyInitialized board v.before :=
    alreadyInitialized_iff.mpr ⟨hi ▸ ha.1, hb ▸ ha.2⟩
  exact (h board hbefore).snoc ha.2

theorem Completes.backed {board : BoardPtr} {v : Visit World UserCall Answer}
    (h : Completes cfg board v) (vs : List (Visit World UserCall Answer)) :
    Backed cfg board (vs ++ [v]) := ⟨vs, v, [], rfl, h, by simp⟩

theorem answerable_step {vs : List (Visit World UserCall Answer)}
    {v : Visit World UserCall Answer} (hs : UserStep cfg v.before v.op v.ret v.after)
    (hh : Untouched v) (h : Answerable cfg vs v.before) : Answerable cfg (vs ++ [v]) v.after := by
  obtain ⟨w, call, ret, w'⟩ := v
  change UserStep cfg w call ret w' at hs
  cases hs with
  | initEarly he =>
    have hsame := keeps_initEarly spares_samePresence cfg w
    rw [he] at hsame
    exact h.snoc_same hsame.sBoard hsame.sPresenceInitialized
  | userPresencePoll hp =>
    have hpoll := (pf2UserPresencePoll_cases w).setup
    rw [hp] at hpoll
    exact h.snoc_same hpoll.sBoard hpoll.sPresenceInitialized
  | @userPresenceInit board r _ hr =>
    have hc := UserInit.of_eq hr
    cases r with
    | error e =>
      have hsame := hh board e rfl rfl
      exact h.snoc_same hsame.sBoard hsame.sPresenceInitialized
    | ok a =>
      cases hc with
      | already => exact h.snoc_same rfl rfl
      | @done b u ha hok =>
        have hcomp : Completes cfg b ⟨w, .userPresenceInit (some b), .status (.ok ()),
            finished b u⟩ := ⟨rfl, rfl, u, hok, rfl⟩
        intro board' ha'
        have hsel := keeps_presenceBringUp spares_samePresence cfg b (selected b w)
        rw [hok] at hsel
        have hb' : (finished b u).presence.sBoard = some board' := (alreadyInitialized_iff.mp ha').2
        rw [finished_sBoard, hsel.sBoard] at hb'
        cases hb'
        exact hcomp.backed vs

end Step

/-- A run is all or nothing at each of its calls exactly where every call is harmless. The
guarded polls are among these runs by `picoFido2PresencePoll_path`. -/
theorem all_or_nothing_iff {cfg : Kconfig} {h₀ : Hardware}
    {vs : List (Visit World UserCall Answer)} {w : World}
    (hp : Path (UserStep cfg) (boot h₀) vs w) :
    (∀ pre v post, vs = pre ++ v :: post → AllOrNothing cfg pre v) ↔
      ∀ v ∈ vs, Harmless cfg v.op v.before := by
  constructor
  · intro h v hv
    obtain ⟨pre, post, he⟩ := List.append_of_mem hv
    exact (untouched_iff (hp.visit pre v post he).2).mp (h pre v post he).untouched
  · intro hh pre v post he
    obtain ⟨hpre, hstep⟩ := hp.visit pre v post he
    have huntouched : ∀ u ∈ vs, ∀ {w call r w'}, u = ⟨w, call, r, w'⟩ →
        UserStep cfg w call r w' → Untouched u := by
      rintro u hu w call r w' rfl hs
      exact (untouched_iff hs).mpr (hh _ hu)
    -- the calls before `v` back what the early exit answers for
    have hansw : ∀ {us s}, Path (UserStep cfg) (boot h₀) us s → (∀ u ∈ us, u ∈ vs) →
        Answerable cfg us s := by
      intro us s hus
      induction hus with
      | nil =>
        intro _ board ha
        simp [boot, alreadyInitialized] at ha
      | snoc _ hr ih =>
        intro hsub
        exact answerable_step hr (huntouched _ (hsub _ (by simp)) rfl hr)
          (ih fun u hu => hsub u (by simp [hu]))
    have hv : Untouched v := (untouched_iff hstep).mpr (hh v (by simp [he]))
    have hbefore := hansw hpre fun u hu => by rw [he]; simp [hu]
    refine ⟨hv, fun board hop hret => ?_⟩
    obtain ⟨w, call, ret, w'⟩ := v
    change UserStep cfg w call ret w' at hstep
    obtain rfl : call = .userPresenceInit (some board) := hop
    obtain rfl : ret = .status (.ok ()) := hret
    cases hstep with
    | userPresenceInit hr =>
      cases UserInit.of_eq hr with
      | already ha => exact (hbefore board ha).snoc (alreadyInitialized_iff.mp ha).2
      | done ha hok => exact Completes.backed ⟨rfl, rfl, _, hok, rfl⟩ pre

/-- The bus cannot be created, then there is no board, then all steps succeed; the last two
calls are answered by the early exit and, without a board, with an error. -/
theorem all_or_nothing_cardputer :
    ∃ vs w, Path (UserStep cardputerAdv) (boot (.start (failsAt 0))) vs w ∧
      vs.map (fun v => (v.op, v.ret)) =
        [(.initEarly, .status (.error (.driver 0x103))),
          (.userPresenceInit none, .status (.error .invalidArg)),
          (.userPresenceInit (some ⟨1, cardputerAdvDesc⟩), .status (.ok ())),
          (.userPresenceInit (some ⟨1, cardputerAdvDesc⟩), .status (.ok ())),
          (.userPresenceInit none, .status (.error .invalidArg))] ∧
      ∀ pre v post, vs = pre ++ v :: post → AllOrNothing cardputerAdv pre v := by
  have hinit : ∀ board w, UserStep cardputerAdv w (.userPresenceInit board)
      (.status (pf2UserPresenceInit cardputerAdv board w).1)
      (pf2UserPresenceInit cardputerAdv board w).2 := fun _ _ => .userPresenceInit rfl
  have hp : Path (UserStep cardputerAdv) (boot (.start (failsAt 0))) _ _ :=
    Path.nil
      |>.snoc (.initEarly rfl)
      |>.snoc (hinit none _)
      |>.snoc (hinit (some ⟨1, cardputerAdvDesc⟩) _)
      |>.snoc (hinit (some ⟨1, cardputerAdvDesc⟩) _)
      |>.snoc (hinit none _)
  refine ⟨_, _, hp, rfl, (all_or_nothing_iff hp).mpr ?_⟩
  intro v hv board hop
  simp only [List.nil_append, List.cons_append, List.mem_cons, List.not_mem_nil, or_false] at hv
  rcases hv with rfl | rfl | rfl | rfl | rfl <;> cases hop
  · exact .inr (.inl (by decide +kernel))
  · exact .inl (by decide +kernel)

/-- The identifier of the PM1 cannot be read: the call fails and its board stays chosen. -/
theorem half_done_stick :
    ∃ w, UserStep stickS3 (boot (.start (failsAt 2)))
        (.userPresenceInit (some ⟨2, stickS3Desc⟩)) (.status (.error (.driver 0x103))) w ∧
      (boot (.start (failsAt 2))).presence.sBoard = none ∧
      w.presence.sBoard = some ⟨2, stickS3Desc⟩ ∧
      ¬ AllOrNothing stickS3 [] ⟨boot (.start (failsAt 2)),
        .userPresenceInit (some ⟨2, stickS3Desc⟩), .status (.error (.driver 0x103)), w⟩ := by
  refine ⟨_, .userPresenceInit (Prod.ext (by decide +kernel) rfl), rfl, by decide +kernel,
    fun h => ?_⟩
  have hsame := (h.untouched _ _ rfl rfl).sBoard
  exact absurd hsame (by decide +kernel)

end PicoFido2.M5boards
