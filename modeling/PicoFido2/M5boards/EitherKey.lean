import PicoFido2.M5boards.Poll
import PicoFido2.M5boards.Presses
import PicoFido2.Transition.Path

/-! Polls of a board with two keys on pads. A poll compares one bit, whether any key is
down, with the bit of the sample before. That tells a fresh press of either key except
where the other key was down in the sample before. -/

namespace PicoFido2.M5boards

open Effect Hal Transition

/-! ### Samples of two keys -/

/-- Which of the two keys a sample finds down. -/
structure KeySample where
  key1 : Bool
  key2 : Bool
  deriving DecidableEq, Repr

namespace KeySample

def any (s : KeySample) : Bool := s.key1 || s.key2

/-- From sample `p` to sample `q` a key went from released to pressed. -/
def Fresh (p q : KeySample) : Prop :=
  (p.key1 = false ∧ q.key1 = true) ∨ (p.key2 = false ∧ q.key2 = true)

/-- A key went from released to pressed, and the other one was down in the sample before. -/
def Masked (p q : KeySample) : Prop :=
  (p.key2 = true ∧ p.key1 = false ∧ q.key1 = true) ∨
    (p.key1 = true ∧ p.key2 = false ∧ q.key2 = true)

/-- The edge of the common bit is the edge of a key, but for the masked ones. -/
theorem edge_iff (p q : KeySample) :
    ((q.any && !p.any) = true ↔ Fresh p q) ↔ ¬ Masked p q := by
  obtain ⟨p₁, p₂⟩ := p
  obtain ⟨q₁, q₂⟩ := q
  cases p₁ <;> cases p₂ <;> cases q₁ <;> cases q₂ <;> simp [any, Fresh, Masked]

end KeySample

variable (board : BoardPtr)

/-- The level that the next read of the pad finds means its key is down. A number below
zero is no pad. -/
def foundDown (gpio : GpioNum) (w : World) : Bool :=
  decide (0 ≤ gpio) && isDown board (w.hw.waited.pads gpio)

/-- The keys as a sample finds them: KEY1 by the level of its pad, then KEY2 by the level
one read later. Where there is no pad of KEY1, or where KEY1 is down and the pad of KEY2 is
not read, KEY2 counts as it is at the first read. -/
def sampled (w : World) : KeySample where
  key1 := foundDown board board.desc.userInput.gpioA w
  key2 := foundDown board board.desc.userInput.gpioB
    (if 0 ≤ board.desc.userInput.gpioA ∧ foundDown board board.desc.userInput.gpioA w = false
      then ticked w else w)

/-- `gpio_is_pressed` decodes the level it reads. -/
theorem gpioIsPressed_eq (gpio : GpioNum) (w : World) :
    gpioIsPressed gpio board.desc.userInput.activeLow w =
      (foundDown board gpio w, if 0 ≤ gpio then ticked w else w) := by
  rcases hr : gpioIsPressed gpio board.desc.userInput.activeLow w with ⟨b, u⟩
  rcases gpioIsPressed_cases hr with ⟨hneg, rfl, rfl⟩ | ⟨hpos, rfl, rfl⟩
  · simp [foundDown, not_le.mpr hneg]
  · simp [foundDown, hpos]

theorem keysPressed_fst (w : World) : (keysPressed board w).1 = (sampled board w).any := by
  unfold keysPressed sampled KeySample.any
  rw [gpioIsPressed_eq]
  cases hfirst : foundDown board board.desc.userInput.gpioA w with
  | false =>
    dsimp only
    rw [gpioIsPressed_eq]
    simp
  | true => simp

/-- The sample an initialisation takes after it has brought the board up. -/
def initSample (cfg : Kconfig) (w : World) : KeySample :=
  sampled board (presenceBringUp cfg board (selected board w)).2

/-! ### Runs of polls -/

def PollStep (w : World) (_ : Unit) (b : Bool) (w' : World) : Prop :=
  pf2UserPresencePoll w = (b, w')

abbrev PollVisit := Visit World Unit Bool

/-- The sample before the next poll. -/
def lastSample (first : KeySample) (vs : List PollVisit) : KeySample :=
  vs.foldl (fun _ v => sampled board v.before) first

/-- Every poll answers whether a key is pressed in its sample and was released in the
sample before. -/
def EitherKeyConfirms (first : KeySample) (vs : List PollVisit) : Prop :=
  ∀ pre v post, vs = pre ++ v :: post →
    (v.ret = true ↔ (lastSample board first pre).Fresh (sampled board v.before))

/-- No poll samples a fresh press of one key where the sample before found the other down. -/
def NoOverlap (first : KeySample) (vs : List PollVisit) : Prop :=
  ∀ pre v post, vs = pre ++ v :: post →
    ¬ (lastSample board first pre).Masked (sampled board v.before)

/-- The board is chosen and the remembered bit is that of sample `s`. -/
def Remembers (s : KeySample) (w : World) : Prop :=
  w.presence.sBoard = some board ∧ w.presence.sGpioLastPressed = s.any

section Gpio

variable {board} (ht : board.desc.userInput.type = .gpio)
include ht

/-- A poll takes the edge of the common bit and remembers its own sample. -/
theorem Remembers.poll {s : KeySample} {w w' : World} {b : Bool} (hs : Remembers board s w)
    (hp : PollStep w () b w') :
    b = ((sampled board w).any && !s.any) ∧ Remembers board (sampled board w) w' := by
  obtain ⟨hb, hlast⟩ := hs
  have hkeys := onlyHw_keysPressed Hardware.sameChips_waited board w
  have hany := keysPressed_fst board w
  unfold PollStep pf2UserPresencePoll at hp
  rw [hb] at hp
  simp only [ht] at hp
  rcases hk : keysPressed board w with ⟨now, u⟩
  rw [hk] at hp hkeys hany
  have hnow : now = (sampled board w).any := hany
  have hpresence : u.presence = w.presence := hkeys.presence
  obtain ⟨rfl, rfl⟩ := Prod.mk.inj hp
  refine ⟨?_, ?_, hnow⟩
  · rw [hpresence, hlast, hnow]
  · show u.presence.sBoard = some board
    rw [hpresence, hb]

theorem remembers_run {first : KeySample} {w w' : World} {vs : List PollVisit}
    (h : Remembers board first w) (hp : Path PollStep w vs w') :
    Remembers board (lastSample board first vs) w' := by
  induction hp with
  | nil => exact h
  | snoc _ hr ih =>
    rw [lastSample, List.foldl_append]
    exact (ih.poll ht hr).2

/-- The initialisation remembers the sample it takes. -/
theorem remembers_init {cfg : Kconfig} {w w₀ : World} (hnew : ¬ alreadyInitialized board w)
    (hinit : pf2UserPresenceInit cfg (some board) w = (.ok (), w₀)) :
    Remembers board (initSample board cfg w) w₀ := by
  cases UserInit.of_eq hinit with
  | already ha => exact absurd ha hnew
  | @done _ u _ hr =>
    have hkept := keeps_presenceBringUp spares_samePresence cfg board (selected board w)
    rw [hr] at hkept
    have hsample : initSample board cfg w = sampled board u := by rw [initSample, hr]
    refine ⟨?_, ?_⟩
    · rw [finished_sBoard]
      exact hkept.sBoard
    · rw [hsample, ← keysPressed_fst]
      unfold finished
      rw [ht]

/-- After an initialisation that took a sample, the polls of a run tell the fresh presses
of both keys exactly when no fresh press of one key is masked by the other. -/
theorem either_key_confirms_iff {cfg : Kconfig} {w w₀ w' : World} {vs : List PollVisit}
    (hnew : ¬ alreadyInitialized board w)
    (hinit : pf2UserPresenceInit cfg (some board) w = (.ok (), w₀))
    (hp : Path PollStep w₀ vs w') :
    EitherKeyConfirms board (initSample board cfg w) vs ↔
      NoOverlap board (initSample board cfg w) vs := by
  refine forall_congr' fun pre => forall_congr' fun v => forall_congr' fun post =>
    forall_congr' fun he => ?_
  obtain ⟨hpre, hv⟩ := hp.visit pre v post he
  have hrem := remembers_run ht (remembers_init ht hnew hinit) hpre
  obtain ⟨hret, -⟩ := hrem.poll ht hv
  rw [hret]
  exact KeySample.edge_iff _ _

end Gpio

/-! ### Two runs on a StickS3 -/

def stickS3Board : BoardPtr := ⟨2, stickS3Desc⟩

/-- KEY1 goes down before the bring-up and stays down; KEY2 goes down before the first poll. -/
def heldTurns (n : ℕ) : Turn :=
  ⟨if n = 0 then [.pad 11 false] else if n = 14 then [.pad 12 false] else [], .done⟩

/-- KEY2 goes down before the first poll, and KEY1 is never touched. -/
def singleTurns : ℕ → Turn := stimuliAt 15 [.pad 12 false]

/-- The first poll after an initialisation from power-up. -/
def firstPoll (turns : ℕ → Turn) (b : Bool) : PollVisit :=
  let w := (pf2UserPresenceInit stickS3 (some stickS3Board) (boot (.start turns))).2
  ⟨w, (), b, (pf2UserPresencePoll w).2⟩

theorem single_run_confirms : EitherKeyConfirms stickS3Board
    (initSample stickS3Board stickS3 (boot (.start singleTurns))) [firstPoll singleTurns true] := by
  have hnew : ¬ alreadyInitialized stickS3Board (boot (.start singleTurns)) := by decide
  have hinit : pf2UserPresenceInit stickS3 (some stickS3Board) (boot (.start singleTurns)) =
      (.ok (), (firstPoll singleTurns true).before) := Prod.ext (by decide +kernel) rfl
  have hpoll : PollStep (firstPoll singleTurns true).before () true
      (firstPoll singleTurns true).after := Prod.ext (by decide +kernel) rfl
  refine (either_key_confirms_iff rfl hnew hinit (.snoc .nil hpoll)).mpr ?_
  rintro (_ | ⟨u, pre⟩) v post he
  · cases he
    show ¬ (initSample stickS3Board stickS3 (boot (.start singleTurns))).Masked
      (sampled stickS3Board (firstPoll singleTurns true).before)
    unfold KeySample.Masked
    decide +kernel
  · simp at he

/-- With KEY1 held all the time a fresh press of KEY2 is not confirmed. -/
theorem held_key_masks :
    (pf2UserPresenceInit stickS3 (some stickS3Board) (boot (.start heldTurns))).1 = .ok () ∧
      Path PollStep (firstPoll heldTurns false).before [firstPoll heldTurns false]
        (firstPoll heldTurns false).after ∧
      ¬ EitherKeyConfirms stickS3Board
        (initSample stickS3Board stickS3 (boot (.start heldTurns)))
        [firstPoll heldTurns false] := by
  have hpoll : PollStep (firstPoll heldTurns false).before () false
      (firstPoll heldTurns false).after := Prod.ext (by decide +kernel) rfl
  refine ⟨by decide +kernel, .snoc .nil hpoll, fun h => ?_⟩
  have hfresh : (initSample stickS3Board stickS3 (boot (.start heldTurns))).Fresh
      (sampled stickS3Board (firstPoll heldTurns false).before) := by
    unfold KeySample.Fresh
    decide +kernel
  cases (h [] _ [] rfl).mpr hfresh

end PicoFido2.M5boards
