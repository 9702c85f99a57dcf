import PicoFido2.Display.Faults
import PicoFido2.Transition.Simulation

/-! The calls of all tasks, the queue, the display task and the panel as one system. The
calls are interrupted between any two of their writes, the display task draws what it took
from the queue, and transfers fail. -/

namespace PicoFido2.Display

open M5boards Queue Raster Transition

variable {τ : Type} [DecidableEq τ]

/-- What the tasks share, and the panel of the display task. -/
abbrev DisplaySystem (τ : Type) := Handoff τ × LcdWorld

/-- The use of a state that was taken is its drawing. -/
inductive SystemStep (s : DisplaySystem τ) :
    MailAct DisplayCall FieldWrite τ → Unit → DisplaySystem τ → Prop where
  | handoff {a : MailAct DisplayCall FieldWrite τ} {m : Handoff τ} (hnot : a ≠ .use)
      (hm : HandoffStep s.1 a () m) : SystemStep s a () (m, s.2)
  | draw {state : Pf2DisplayState} {m : Handoff τ} (htaken : s.1.taken = some state)
      (hm : HandoffStep s.1 .use () m) : SystemStep s .use () (m, displayTaskDraw state s.2)

abbrev SystemRun (τ : Type) :=
  List (Visit (DisplaySystem τ) (MailAct DisplayCall FieldWrite τ) Unit)

theorem SystemStep.handoffStep {s t : DisplaySystem τ} {a : MailAct DisplayCall FieldWrite τ}
    {r : Unit} (h : SystemStep s a r t) : HandoffStep s.1 a r t.1 := by
  cases h with
  | handoff _ hm => exact hm
  | draw _ hm => exact hm

/-- The tasks and the queue run as if there were no panel. -/
theorem handoff_run {s₀ s : DisplaySystem τ} {vs : SystemRun τ} (hp : Path SystemStep s₀ vs s) :
    Path HandoffStep s₀.1 (vs.map (Visit.view Prod.fst)) s.1 :=
  hp.view fun _ _ _ _ h => h.handoffStep

/-- The states drawn in a run. -/
def drawn (vs : SystemRun τ) : List Pf2DisplayState :=
  vs.filterMap fun v => match v.op with
    | .use => v.before.1.taken
    | _ => none

omit [DecidableEq τ] in
theorem drawn_snoc (vs : SystemRun τ)
    (v : Visit (DisplaySystem τ) (MailAct DisplayCall FieldWrite τ) Unit) :
    drawn (vs ++ [v]) = drawn vs ++ drawn [v] := List.filterMap_append

omit [DecidableEq τ] in
theorem drawn_handoff {s t : DisplaySystem τ} {a : MailAct DisplayCall FieldWrite τ} {r : Unit}
    (ha : a ≠ .use) : drawn [(⟨s, a, r, t⟩ : Visit (DisplaySystem τ) _ _)] = [] := by
  cases a with
  | use => exact absurd rfl ha
  | _ => rfl

omit [DecidableEq τ] in
theorem drawn_use {s t : DisplaySystem τ} {r : Unit} {state : Pf2DisplayState}
    (h : s.1.taken = some state) :
    drawn [(⟨s, .use, r, t⟩ : Visit (DisplaySystem τ) _ _)] = [state] := by
  simp [drawn, h]

theorem SystemStep.sameStatics {s t : DisplaySystem τ} {a : MailAct DisplayCall FieldWrite τ}
    {r : Unit} (h : SystemStep s a r t) : SameStatics s.2 t.2 := by
  cases h with
  | handoff => exact ⟨rfl, rfl⟩
  | draw => exact sameStatics_displayTaskDraw _ s.2

/-- The fields written in a run. -/
def writtenIn (vs : SystemRun τ) : List FieldWrite :=
  Mailbox.written (vs.map (Visit.view Prod.fst))

omit [DecidableEq τ] in
theorem writtenIn_snoc (vs : SystemRun τ)
    (v : Visit (DisplaySystem τ) (MailAct DisplayCall FieldWrite τ) Unit) :
    writtenIn (vs ++ [v]) = writtenIn vs ++ writtenIn [v] := by
  unfold writtenIn
  rw [List.map_append]
  exact Mailbox.written_snoc _ _

/-! ### Drawn states -/

/-- Every field of the state is that of `s₀` or was written. -/
structure Composed (s₀ : Pf2DisplayState) (ws : List FieldWrite) (state : Pf2DisplayState) :
    Prop where
  status : state.status = s₀.status ∨ .status state.status ∈ ws
  line1 : state.line1 = s₀.line1 ∨ .line1 state.line1 ∈ ws
  line2 : state.line2 = s₀.line2 ∨ .line2 state.line2 ∈ ws

variable {s₀ state : Pf2DisplayState} {ws ws' : List FieldWrite}

theorem Composed.append (h : Composed s₀ ws state) (ws' : List FieldWrite) :
    Composed s₀ (ws ++ ws') state where
  status := h.status.imp_right (List.mem_append_left ws')
  line1 := h.line1.imp_right (List.mem_append_left ws')
  line2 := h.line2.imp_right (List.mem_append_left ws')

theorem Composed.apply (h : Composed s₀ ws state) (w : FieldWrite) :
    Composed s₀ (ws ++ [w]) (w.apply state) := by
  obtain ⟨hstatus, hline1, hline2⟩ := h.append [w]
  cases w with
  | status st => exact ⟨.inr (by simp [FieldWrite.apply]), hline1, hline2⟩
  | line1 l => exact ⟨hstatus, .inr (by simp [FieldWrite.apply]), hline2⟩
  | line2 l => exact ⟨hstatus, hline1, .inr (by simp [FieldWrite.apply])⟩

/-- The draft and its copies that are still to be drawn. -/
structure ComposedHandoff (s₀ : Pf2DisplayState) (ws : List FieldWrite) (m : Handoff τ) :
    Prop where
  draft : Composed s₀ ws m.draft
  slot : ∀ state, m.slot = some state → Composed s₀ ws state
  taken : ∀ state, m.taken = some state → Composed s₀ ws state

omit [DecidableEq τ] in
theorem ComposedHandoff.append {m : Handoff τ} (h : ComposedHandoff s₀ ws m)
    (ws' : List FieldWrite) : ComposedHandoff s₀ (ws ++ ws') m where
  draft := h.draft.append ws'
  slot state hs := (h.slot state hs).append ws'
  taken state hs := (h.taken state hs).append ws'

/-- A copy is made of the draft, and only a write changes the draft. -/
theorem ComposedHandoff.step {s t : DisplaySystem τ} {a : MailAct DisplayCall FieldWrite τ}
    {r : Unit} (h : ComposedHandoff s₀ ws s.1) (hs : SystemStep s a r t) :
    ComposedHandoff s₀ (ws ++ writtenIn [⟨s, a, r, t⟩]) t.1 := by
  have hm := hs.handoffStep
  generalize t.1 = m at hm
  obtain ⟨hdraft, hslot, htaken⟩ := h.append (writtenIn [⟨s, a, r, t⟩])
  cases hm with
  | call => exact ⟨hdraft, hslot, htaken⟩
  | @write _ w => exact ⟨h.draft.apply w, hslot, htaken⟩
  | post => exact ⟨hdraft, fun state hs => Option.some.inj hs ▸ hdraft, htaken⟩
  | take _ hfull =>
    exact ⟨hdraft, fun _ h => (by cases h), fun state ht => Option.some.inj ht ▸ hslot _ hfull⟩
  | use => exact ⟨hdraft, hslot, fun _ h => by cases h⟩

theorem composedHandoff_run {w₀ : LcdWorld} {vs : SystemRun τ} {s : DisplaySystem τ}
    (hp : Path SystemStep (initialized s₀, w₀) vs s) : ComposedHandoff s₀ (writtenIn vs) s.1 := by
  have hself : Composed s₀ (writtenIn ([] : SystemRun τ)) s₀ := ⟨.inl rfl, .inl rfl, .inl rfl⟩
  refine hp.history (I := fun us t => ComposedHandoff s₀ (writtenIn us) t.1)
    ⟨hself, fun state hs => ?_, fun _ h => by cases h⟩ fun us s a r t hs h => ?_
  · cases hs
    exact hself
  · rw [writtenIn_snoc]
    exact h.step hs

theorem composed_drawn {w₀ : LcdWorld} {vs : SystemRun τ} {s : DisplaySystem τ}
    (hp : Path SystemStep (initialized s₀, w₀) vs s) :
    ∀ state ∈ drawn vs, Composed s₀ (writtenIn vs) state := by
  induction hp with
  | nil => simp [drawn]
  | @snoc vs s t a r hp hs ih =>
    intro state hstate
    rw [writtenIn_snoc]
    rw [drawn_snoc] at hstate
    rcases List.mem_append.mp hstate with hold | hnew
    · exact (ih state hold).append _
    · cases hs with
      | handoff hnot =>
        rw [drawn_handoff hnot] at hnew
        cases hnew
      | draw htaken =>
        rw [drawn_use htaken, List.mem_singleton] at hnew
        subst hnew
        exact ((composedHandoff_run hp).taken _ htaken).append _

/-! ### The order of the drawings -/

/-- The states posted in a run. -/
def postedIn (vs : SystemRun τ) : List Pf2DisplayState :=
  Mailbox.posted (vs.map (Visit.view Prod.fst))

omit [DecidableEq τ] in
theorem drawn_eq_usedIn (vs : SystemRun τ) :
    drawn vs = Mailbox.usedIn (vs.map (Visit.view Prod.fst)) := by
  rw [drawn, Mailbox.usedIn, List.filterMap_map]
  congr 1
  funext v
  obtain ⟨before, op, ret, after⟩ := v
  cases op <;> rfl

/-- In every interleaving of calls with the display task: the states drawn are some of those
posted, in the order in which they were posted and none more often than it was posted; and
whenever the display task waits on the empty queue, within calls or between them, the state
posted last was drawn last. -/
theorem drawn_in_order {w₀ : LcdWorld} {vs : SystemRun τ} {s : DisplaySystem τ}
    (hp : Path SystemStep (initialized s₀, w₀) vs s) :
    (drawn vs).Sublist (s₀ :: postedIn vs) ∧
      (s.1.slot = none → s.1.taken = none →
        (drawn vs).getLast? = (s₀ :: postedIn vs).getLast?) := by
  have horder : Mailbox.InOrder (drawn vs) (s₀ :: postedIn vs) s.1 := by
    rw [drawn_eq_usedIn]
    exact Mailbox.inOrder_run (handoff_run hp) rfl
  obtain ⟨hsub, hlast⟩ := horder
  constructor
  · have hused : (drawn vs).Sublist (drawn vs ++ s.1.taken.toList ++ s.1.slot.toList) := by
      rw [List.append_assoc]
      exact List.sublist_append_left _ _
    exact hused.trans hsub
  · intro hempty hwaits
    rw [hempty, hwaits] at hlast
    simpa using hlast

/-- A state that is replaced in the queue is never drawn. -/
theorem drawn_in_order_replaced : ∃ vs : SystemRun Bool,
    postedIn vs = [⟨.authFailure, .empty, .empty⟩, ⟨.locked, .empty, .empty⟩] ∧
      drawn vs = [⟨.boot, .empty, .empty⟩, ⟨.locked, .empty, .empty⟩] ∧
      (drawn vs).getLast? = some ⟨.locked, .empty, .empty⟩ := by
  have hp : Path (SystemStep (τ := Bool)) (initialized ⟨.boot, .empty, .empty⟩, darkStick) _ _ :=
    Path.nil
      |>.snoc (.handoff (by simp) (.call (t := true) (.setStatus .authFailure) rfl))
      |>.snoc (.handoff (by simp) (.write (t := true) rfl))
      |>.snoc (.handoff (by simp) (.take rfl rfl))
      |>.snoc (.handoff (by simp) (.post (t := true) rfl))
      |>.snoc (.handoff (by simp) (.call (t := false) (.setStatus .locked) rfl))
      |>.snoc (.handoff (by simp) (.write (t := false) rfl))
      |>.snoc (.handoff (by simp) (.post (t := false) rfl))
      |>.snoc (.draw rfl (.use rfl))
      |>.snoc (.handoff (by simp) (.take rfl rfl))
      |>.snoc (.draw rfl (.use rfl))
  refine ⟨_, ?_, ?_, ((drawn_in_order hp).2 rfl rfl).trans ?_⟩
  · rfl
  · rfl
  · rfl

/-! ### Failing transfers -/

/-- The marks of the states in a list. -/
def marksOf (lcd : Pf2LcdDesc) (states : List Pf2DisplayState) : Set ((ℕ × ℕ) × BitVec 16) :=
  {a | ∃ state ∈ states, a ∈ stateMarks lcd state}

theorem stateMarks_subset {lcd : Pf2LcdDesc} {states : List Pf2DisplayState}
    {state : Pf2DisplayState} (h : state ∈ states) : stateMarks lcd state ⊆ marksOf lcd states :=
  fun _ ha => ⟨state, h, ha⟩

theorem marksOf_mono {lcd : Pf2LcdDesc} {l l' : List Pf2DisplayState} (h : l ⊆ l') :
    marksOf lcd l ⊆ marksOf lcd l' := by
  rintro a ⟨state, hstate, ha⟩
  exact ⟨state, h hstate, ha⟩

/-- What the panel shows after a run has marks of the drawn states only. -/
theorem stains_of_run {lcd : Pf2LcdDesc} (hw : 0 < lcd.width.toNat) (hh : 0 < lcd.height.toNat)
    {s₀ s : DisplaySystem τ} (hopened : Opened lcd s₀.2) {vs : SystemRun τ}
    (hp : Path SystemStep s₀ vs s) :
    Opened lcd s.2 ∧ Stains (marksOf lcd (drawn vs)) s₀.2.spi.panel.mem s.2.spi.panel.mem := by
  refine hp.history (I := fun us t => Opened lcd t.2 ∧
    Stains (marksOf lcd (drawn us)) s₀.2.spi.panel.mem t.2.spi.panel.mem)
    ⟨hopened, Stains.refl _ _⟩ ?_
  rintro us s a r t hs ⟨hopeneds, hstains⟩
  refine ⟨hopeneds.of_same hs.sameStatics, ?_⟩
  rw [drawn_snoc]
  have hold : Stains (marksOf lcd (drawn us ++ drawn [⟨s, a, r, t⟩])) s₀.2.spi.panel.mem
      s.2.spi.panel.mem := hstains.mono (marksOf_mono (List.subset_append_left _ _))
  cases hs with
  | handoff => exact hold
  | @draw state m htaken =>
    have hdraw := displayTaskDraw_marks hw hh state s.2 hopeneds.sLcd
    refine hold.trans (hdraw.mono (stateMarks_subset (List.mem_append_right _ ?_)))
    rw [drawn_use htaken]
    exact List.mem_singleton_self state

/-- In every interleaving of calls with the display task, with failing transfers at any
point of any drawing: a place of the panel has its first colour, or is on the screen and
has the status colour of a drawn state or is a white dot of its lines. And every drawn
state has only fields that were passed. -/
theorem no_wrong_dot {lcd : Pf2LcdDesc} (hw : 0 < lcd.width.toNat) (hh : 0 < lcd.height.toNat)
    {w₀ : LcdWorld} (hopened : Opened lcd w₀) {vs : SystemRun τ} {s : DisplaySystem τ}
    (hp : Path SystemStep (initialized s₀, w₀) vs s) :
    (∀ x y, s.2.spi.panel.mem x y = w₀.spi.panel.mem x y ∨
      (x, y) ∈ screen lcd ∧ ∃ state ∈ drawn vs,
        s.2.spi.panel.mem x y = statusColor state.status ∨
          ((x, y) ∈ stateLit lcd state ∧ s.2.spi.panel.mem x y = 0xffff)) ∧
    ∀ state ∈ drawn vs, Composed s₀ (writtenIn vs) state := by
  obtain ⟨-, hstains⟩ := stains_of_run hw hh hopened hp
  refine ⟨fun x y => (hstains x y).imp_right ?_, composed_drawn hp⟩
  rintro ⟨state, hstate, ⟨hscreen, hcolor⟩ | ⟨⟨hlit, hscreen⟩, hwhite⟩⟩
  · exact ⟨hscreen, state, hstate, .inl hcolor⟩
  · exact ⟨hscreen, state, hstate, .inr ⟨hlit, hwhite⟩⟩

/-- A stick on whose bus every second transfer fails after its first byte. -/
def flakyStick : LcdWorld :=
  { darkStick with
    spi.outcomes := fun n => if n % 2 = 0 then .done else .failed (.driver 0x107) 1 }

/-- Two tasks interleave on it; right of the screen the panel stays dark. -/
theorem no_wrong_dot_flaky : ∃ s : DisplaySystem Bool,
    s.1.used = some ⟨.boot, .empty, .empty⟩ ∧ ∀ x y, 135 ≤ x → s.2.spi.panel.mem x y = 0 := by
  have hp : Path (SystemStep (τ := Bool)) (initialized ⟨.boot, .empty, .empty⟩, flakyStick) _ _ :=
    Path.nil
      |>.snoc (.handoff (by simp) (.call (t := true) (.setMessage none none) rfl))
      |>.snoc (.handoff (by simp) (.call (t := false) (.setStatus .locked) rfl))
      |>.snoc (.handoff (by simp) (.write (t := true) rfl))
      |>.snoc (.handoff (by simp) (.take rfl rfl))
      |>.snoc (.handoff (by simp) (.write (t := false) rfl))
      |>.snoc (.draw rfl (.use rfl))
  have hopened : Opened stickS3Desc.lcd flakyStick := ⟨rfl, rfl⟩
  have hcolors := (no_wrong_dot (by decide) (by decide) hopened hp).1
  refine ⟨_, ?_, fun x y hx => (hcolors x y).resolve_right fun h => ?_⟩
  · rfl
  · have hlt : x < 135 := h.1.1
    omega

/-! ### The last drawing -/

/-- `s₀` with the fields written last. -/
def lastState (s₀ : Pf2DisplayState) (vs : SystemRun τ) : Pf2DisplayState where
  status := ((writtenIn vs).filterMap FieldWrite.status?).getLast?.getD s₀.status
  line1 := ((writtenIn vs).filterMap FieldWrite.line1?).getLast?.getD s₀.line1
  line2 := ((writtenIn vs).filterMap FieldWrite.line2?).getLast?.getD s₀.line2

theorem draft_eq_lastState {w₀ : LcdWorld} {vs : SystemRun τ} {s : DisplaySystem τ}
    (hp : Path SystemStep (initialized s₀, w₀) vs s) : s.1.draft = lastState s₀ vs := by
  have hdraft : s.1.draft = (writtenIn vs).foldl (fun s w => w.apply s) s₀ :=
    Mailbox.draft_eq (handoff_run hp)
  have hstatus := part_foldl (fun (w : FieldWrite) s => w.apply s) Pf2DisplayState.status
    FieldWrite.status? (fun w s => by cases w <;> rfl) (writtenIn vs) s₀
  have hline1 := part_foldl (fun (w : FieldWrite) s => w.apply s) Pf2DisplayState.line1
    FieldWrite.line1? (fun w s => by cases w <;> rfl) (writtenIn vs) s₀
  have hline2 := part_foldl (fun (w : FieldWrite) s => w.apply s) Pf2DisplayState.line2
    FieldWrite.line2? (fun w s => by cases w <;> rfl) (writtenIn vs) s₀
  rw [hdraft]
  generalize (writtenIn vs).foldl (fun s w => w.apply s) s₀ = last at hstatus hline1 hline2 ⊢
  unfold lastState
  rw [← hstatus, ← hline1, ← hline2]

/-- Steps that draw nothing leave the panel and the state drawn last. -/
theorem undrawn_run {s t : DisplaySystem τ} {vs : SystemRun τ} (hp : Path SystemStep s vs t)
    (h : ∀ v ∈ vs, v.op ≠ .use) : t.2 = s.2 ∧ t.1.used = s.1.used := by
  induction hp with
  | nil => exact ⟨rfl, rfl⟩
  | @snoc vs u t a r hp hs ih =>
    obtain ⟨hpanel, hused⟩ := ih fun v hv => h v (List.mem_append_left _ hv)
    have hnot : a ≠ .use := h ⟨u, a, r, t⟩ (by simp)
    rw [← hpanel, ← hused]
    cases hs with
    | draw => exact absurd rfl hnot
    | handoff _ hm =>
      cases hm with
      | use => exact absurd rfl hnot
      | _ => exact ⟨rfl, rfl⟩

/-- In every interleaving of calls with the display task: when all calls have returned and
the display task waits on the empty queue, and no transfer failed since its last drawing
began, the screen shows what was passed last and nothing else. -/
theorem screen_shows_last {lcd : Pf2LcdDesc} (hw : 0 < lcd.width.toNat)
    (hh : 0 < lcd.height.toNat) {w₀ : LcdWorld} (hopened : Opened lcd w₀) {vs : SystemRun τ}
    {s : DisplaySystem τ} (hp : Path SystemStep (initialized s₀, w₀) vs s)
    (hreturned : ∀ t, s.1.pending t = none) (hempty : s.1.slot = none)
    (hwaits : s.1.taken = none) {pre post : SystemRun τ}
    {v : Visit (DisplaySystem τ) (MailAct DisplayCall FieldWrite τ) Unit}
    (he : vs = pre ++ v :: post) (hdraw : v.op = .use) (hlast : ∀ u ∈ post, u.op ≠ .use)
    (hdone : ∀ n, v.before.2.spi.transfers ≤ n → v.before.2.spi.outcomes n = .done) :
    ∀ px py, px < lcd.width.toNat → py < lcd.height.toNat →
      ((px, py) ∈ stateLit lcd (lastState s₀ vs) → s.2.spi.panel.mem px py = 0xffff) ∧
      ((px, py) ∉ stateLit lcd (lastState s₀ vs) →
        s.2.spi.panel.mem px py = statusColor (lastState s₀ vs).status) := by
  intro px py hx hy
  have hsettled : s.1.Settled := (handoff_run hp).invariant (I := Mailbox.Settled) (fun _ => rfl)
    fun _ _ _ _ hs h => h.step hs
  have hused := hsettled.used_eq hreturned hempty hwaits
  obtain ⟨hpre, hstep⟩ := hp.visit pre v post he
  obtain ⟨hopenedv, -⟩ := stains_of_run hw hh hopened hpre
  obtain ⟨hpanel, hsame⟩ := undrawn_run (hp.suffix he) hlast
  obtain ⟨before, op, ret, after⟩ := v
  dsimp only at hdraw hstep hdone hopenedv hpanel hsame
  subst hdraw
  cases hstep with
  | handoff hnot => exact absurd rfl hnot
  | @draw state m htaken hm =>
    cases hm with
    | use htaken' =>
      rw [htaken] at htaken'
      cases htaken'
      -- the state drawn last is the draft, which has the fields written last
      have hstate : state = lastState s₀ vs := by
        rw [← draft_eq_lastState hp]
        exact Option.some.inj (hsame.symm.trans hused)
      rw [hpanel, ← hstate]
      exact displayTaskDraw_shows hw hh state ⟨hopenedv, hdone⟩ (px, py) ⟨hx, hy⟩

/-- Two tasks interleave, and the display task draws once, when both have returned. -/
theorem screen_shows_last_two_tasks : ∃ s : DisplaySystem Bool,
    s.1.used = some ⟨.locked, .empty, .empty⟩ ∧ s.2.spi.panel.mem 0 0 = 0x001f := by
  have hp : Path (SystemStep (τ := Bool)) (initialized ⟨.boot, .empty, .empty⟩, darkStick) _ _ :=
    Path.nil
      |>.snoc (.handoff (by simp) (.call (t := true) (.setMessage none none) rfl))
      |>.snoc (.handoff (by simp) (.call (t := false) (.setStatus .locked) rfl))
      |>.snoc (.handoff (by simp) (.write (t := true) rfl))
      |>.snoc (.handoff (by simp) (.write (t := false) rfl))
      |>.snoc (.handoff (by simp) (.post (t := false) rfl))
      |>.snoc (.handoff (by simp) (.write (t := true) rfl))
      |>.snoc (.handoff (by simp) (.post (t := true) rfl))
      |>.snoc (.handoff (by simp) (.take rfl rfl))
      |>.snoc (.draw rfl (.use rfl))
  have hopened : Opened stickS3Desc.lcd darkStick := ⟨rfl, rfl⟩
  have hshows := screen_shows_last (by decide) (by decide) hopened hp (by decide) rfl rfl rfl rfl
    (by simp) (fun _ _ => rfl) 0 0 (by decide) (by decide)
  have hunlit : ((0, 0) : ℕ × ℕ) ∉ stateLit stickS3Desc.lcd ⟨.locked, .empty, .empty⟩ := by
    simp [stateLit, Line.empty, textPlaces_nil]
  refine ⟨_, ?_, hshows.2 hunlit⟩
  rfl

end PicoFido2.Display
