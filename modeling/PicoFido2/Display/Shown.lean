import Mathlib.Data.Nat.Find
import PicoFido2.Display.Drawing
import PicoFido2.Display.Handoff

/-! What stands on the panel after a turn of the display task: the glyphs of the lines
passed last, cut to the buffer and to the panel, on the colour of the status passed
last, whatever the panel showed before. -/

namespace PicoFido2.Display

open M5boards Raster

/-- The characters of a string, none for a null pointer. -/
def charsOf (text : Option CString) : List (BitVec 8) :=
  match text with
  | none => []
  | some s => s.chars

/-- The largest `n` with `8 + 12 * n ≤ width`. -/
def fitting (width : ℕ) : ℕ := Nat.findGreatest (fun n => 8 + 12 * n ≤ width) width

/-- How many characters of a line the panel shows. -/
def shownCount (lcd : Pf2LcdDesc) (text : Option CString) : ℕ :=
  min (min (charsOf text).length 23) (fitting lcd.width.toNat)

/-- The lit places of both lines. -/
def litPlaces (lcd : Pf2LcdDesc) (line1 line2 : Option CString) : Set (ℕ × ℕ) :=
  textPlaces ((charsOf line1).take (shownCount lcd line1)) 8 12 2 ∪
    textPlaces ((charsOf line2).take (shownCount lcd line2)) 8 34 2

theorem fitting_eq (width : ℕ) : fitting width = (width - 8) / 12 := by
  rw [fitting, Nat.findGreatest_eq_iff]
  refine ⟨by omega, fun h => by omega, fun n hlt _ => by omega⟩

/-- The truncation to the buffer and the right edge leave the characters counted. -/
theorem take_snprintfLine (lcd : Pf2LcdDesc) (text : Option CString) :
    (snprintfLine text).chars.take ((lcd.width.toNat - 8) / 12) =
      (charsOf text).take (shownCount lcd text) := by
  have hbuffer : (snprintfLine text).chars = (charsOf text).take 23 := by
    cases text <;> rfl
  rw [hbuffer, List.take_take, shownCount, fitting_eq, List.take_eq_take_iff]
  omega

/-- One draw: the dots of the lines in white, the rest in the status colour. -/
theorem displayTaskDraw_shows {lcd : Pf2LcdDesc} (hw : 0 < lcd.width.toNat)
    (hh : 0 < lcd.height.toNat) (state : Pf2DisplayState) {w : LcdWorld} (hup : Up lcd w) :
    ∀ p ∈ screen lcd,
      let lit := textPlaces (state.line1.chars.take ((lcd.width.toNat - 8) / 12)) 8 12 2 ∪
        textPlaces (state.line2.chars.take ((lcd.width.toNat - 8) / 12)) 8 34 2
      (p ∈ lit → (displayTaskDraw state w).spi.panel.mem p.1 p.2 = 0xffff) ∧
        (p ∉ lit → (displayTaskDraw state w).spi.panel.mem p.1 p.2 = statusColor state.status) := by
  obtain ⟨hup', hfill⟩ := lcdFill_draws hw hh (statusColor state.status) w hup
  have hcolor : ∀ p ∈ screen lcd,
      (lcdFill (statusColor state.status) w).spi.panel.mem p.1 p.2 = statusColor state.status :=
    fun p hp => (hfill p.1 p.2).1 hp
  by_cases htext : state.line1.chars ≠ [] ∨ state.line2.chars ≠ []
  · have hline1 := lcdDrawText_draws lcd 12 0xffff 2 (by decide) (by decide) state.line1.chars 8
    have hline2 := lcdDrawText_draws lcd 34 0xffff 2 (by decide) (by decide) state.line2.chars 8
    have hlines := hline1.comp hline2
    obtain ⟨-, hpaint⟩ := hlines _ hup'
    rw [← Set.union_inter_distrib_right] at hpaint
    have hdraw : displayTaskDraw state w =
        lcdDrawText 8 34 state.line2.chars 0xffff 2 (lcdDrawText 8 12 state.line1.chars 0xffff 2
          (lcdFill (statusColor state.status) w)) := if_pos htext
    rw [hdraw]
    refine fun p hp => ⟨fun hlit => ?_, fun hlit => ?_⟩
    · exact (hpaint p.1 p.2).1 ⟨hlit, hp⟩
    · rw [(hpaint p.1 p.2).2 fun h => hlit h.1]
      exact hcolor p hp
  · have hdraw : displayTaskDraw state w = lcdFill (statusColor state.status) w := if_neg htext
    obtain ⟨hline1, hline2⟩ : state.line1.chars = [] ∧ state.line2.chars = [] := by
      simpa only [not_or, not_not] using htext
    rw [hdraw, hline1, hline2]
    simp only [List.take_nil, textPlaces_nil, Set.union_empty, Set.mem_empty_iff_false,
      false_implies, not_false_eq_true, true_implies, true_and]
    exact hcolor

/-! ### Runs of calls and turns -/

/-- What happens on the device after the initialisation. -/
inductive DisplayAct where
  | call (call : DisplayCall)
  | turn

abbrev DisplayWorld := DisplayStatics × LcdWorld

/-- The display task waits, and nothing changes, while the queue is empty. -/
def DisplayAct.run : DisplayAct → DisplayWorld → DisplayWorld
  | call c, s => (c.run s.1, s.2)
  | turn, s => (displayTaskTurn s.1 s.2).getD s

/-- The end of a `pf2_display_init` that succeeds: the queue is there and has the state. -/
def pf2DisplayInitQueue (d : DisplayStatics) : DisplayStatics :=
  displayQueueState
    { d with sStatus := .boot, sStatusQueue := some none, sDisplayState.status := .boot }

def DisplayAct.status? : DisplayAct → Option Pf2Status
  | call (.setStatus status) => some status
  | _ => none

def DisplayAct.message? : DisplayAct → Option (Option CString × Option CString)
  | call (.setMessage line1 line2) => some (line1, line2)
  | _ => none

/-- The queue is empty or has a copy of `s_display_state`. -/
def Current (d : DisplayStatics) : Prop :=
  d.sStatusQueue = some none ∨ d.sStatusQueue = some (some d.sDisplayState)

theorem displayTaskTurn_eq_some {d d' : DisplayStatics} {w w' : LcdWorld}
    (h : displayTaskTurn d w = some (d', w')) :
    ∃ state, d.sStatusQueue = some (some state) ∧ d' = { d with sStatusQueue := some none } ∧
      w' = displayTaskDraw state w := by
  unfold displayTaskTurn at h
  split at h
  · rename_i state hqueue
    simp only [Option.some.injEq, Prod.mk.injEq] at h
    exact ⟨state, hqueue, h.1.symm, h.2.symm⟩
  · simp at h

theorem DisplayAct.run_turn_cases (s : DisplayWorld) :
    DisplayAct.turn.run s = s ∨ ∃ state, s.1.sStatusQueue = some (some state) ∧
      DisplayAct.turn.run s =
        ({ s.1 with sStatusQueue := some none }, displayTaskDraw state s.2) := by
  cases hturn : displayTaskTurn s.1 s.2 with
  | none => exact .inl (by rw [DisplayAct.run, hturn, Option.getD_none])
  | some s' =>
    obtain ⟨state, hqueue, hd, hw⟩ := displayTaskTurn_eq_some hturn
    refine .inr ⟨state, hqueue, ?_⟩
    rw [DisplayAct.run, hturn, Option.getD_some]
    exact Prod.ext hd hw

theorem current_run {lcd : Pf2LcdDesc} {s : DisplayWorld} (hcurrent : Current s.1)
    (hopened : Opened lcd s.2) (act : DisplayAct) :
    Current (act.run s).1 ∧ Opened lcd (act.run s).2 := by
  cases act with
  | call c =>
    refine ⟨.inr ?_, hopened⟩
    show (c.run s.1).sStatusQueue = _
    rw [(c.run_eq s.1).2]
    cases hcurrent with
    | inl h => rw [h]; rfl
    | inr h => rw [h]; rfl
  | turn =>
    cases DisplayAct.run_turn_cases s with
    | inl hrun =>
      rw [hrun]
      exact ⟨hcurrent, hopened⟩
    | inr hrun =>
      obtain ⟨state, -, hrun⟩ := hrun
      rw [hrun]
      exact ⟨.inl rfl, hopened.of_same (sameStatics_displayTaskDraw state s.2)⟩

theorem current_foldl {lcd : Pf2LcdDesc} (acts : List DisplayAct) {s : DisplayWorld}
    (hcurrent : Current s.1) (hopened : Opened lcd s.2) :
    Current (acts.foldl (fun s a => a.run s) s).1 ∧
      Opened lcd (acts.foldl (fun s a => a.run s) s).2 := by
  induction acts generalizing s with
  | nil => exact ⟨hcurrent, hopened⟩
  | cons act acts ih =>
    obtain ⟨hcurrent', hopened'⟩ := current_run hcurrent hopened act
    exact ih hcurrent' hopened'

/-- A turn leaves `s_display_state` as it is. -/
theorem DisplayAct.run_turn_state (s : DisplayWorld) :
    (DisplayAct.turn.run s).1.sDisplayState = s.1.sDisplayState := by
  rcases DisplayAct.run_turn_cases s with hrun | ⟨state, -, hrun⟩ <;> rw [hrun]

theorem status_foldl (acts : List DisplayAct) (s : DisplayWorld) :
    (acts.foldl (fun s a => a.run s) s).1.sDisplayState.status =
      (acts.filterMap DisplayAct.status?).getLast?.getD s.1.sDisplayState.status := by
  apply Queue.part_foldl _ (fun s : DisplayWorld => s.1.sDisplayState.status)
  rintro (⟨_ | _⟩ | _) s
  · rfl
  · rfl
  · rw [DisplayAct.run_turn_state]
    rfl

theorem lines_foldl (acts : List DisplayAct) (s : DisplayWorld) :
    let state := (acts.foldl (fun s a => a.run s) s).1.sDisplayState
    (state.line1, state.line2) =
      ((acts.filterMap DisplayAct.message?).getLast?.map
        (Prod.map snprintfLine snprintfLine)).getD
          (s.1.sDisplayState.line1, s.1.sDisplayState.line2) := by
  rw [← List.getLast?_map, List.map_filterMap]
  apply Queue.part_foldl _
    (fun s : DisplayWorld => (s.1.sDisplayState.line1, s.1.sDisplayState.line2))
  rintro (⟨_ | _⟩ | _) s
  · rfl
  · rfl
  · rw [DisplayAct.run_turn_state]
    rfl

/-- In every run of calls and turns, whatever the panel showed and whichever transfers
failed before: after a turn none of whose transfers fails the panel shows the status and
the lines passed last, and nothing else. -/
theorem panel_shows_last {lcd : Pf2LcdDesc} (hw : 0 < lcd.width.toNat)
    (hh : 0 < lcd.height.toNat) {d₀ d d' : DisplayStatics} {w₀ w w' : LcdWorld}
    (hopened : Opened lcd w₀) {acts : List DisplayAct}
    (hrun : acts.foldl (fun s a => a.run s) (pf2DisplayInitQueue d₀, w₀) = (d, w))
    {status : Pf2Status} (hstatus : (acts.filterMap DisplayAct.status?).getLast? = some status)
    {line1 line2 : Option CString}
    (hmessage : (acts.filterMap DisplayAct.message?).getLast? = some (line1, line2))
    (hdone : ∀ n, w.spi.transfers ≤ n → w.spi.outcomes n = .done)
    (hturn : displayTaskTurn d w = some (d', w'))
    (px py : ℕ) (hx : px < lcd.width.toNat) (hy : py < lcd.height.toNat) :
    ((px, py) ∈ litPlaces lcd line1 line2 → w'.spi.panel.mem px py = 0xffff) ∧
      ((px, py) ∉ litPlaces lcd line1 line2 →
        w'.spi.panel.mem px py = statusColor status) := by
  obtain ⟨hcurrent, hopenedw⟩ := current_foldl acts (s := (pf2DisplayInitQueue d₀, w₀))
    (.inr rfl) hopened
  have hst := status_foldl acts (pf2DisplayInitQueue d₀, w₀)
  have hlines := lines_foldl acts (pf2DisplayInitQueue d₀, w₀)
  rw [hrun] at hcurrent hopenedw hst hlines
  rw [hstatus, Option.getD_some] at hst
  rw [hmessage, Option.map_some, Option.getD_some] at hlines
  obtain ⟨hline1, hline2⟩ : d.sDisplayState.line1 = snprintfLine line1 ∧
      d.sDisplayState.line2 = snprintfLine line2 := Prod.mk.inj hlines
  obtain ⟨state, hqueue, -, rfl⟩ := displayTaskTurn_eq_some hturn
  -- the queue holds a state, so it is the current one
  have hstate : state = d.sDisplayState := by
    cases hcurrent with
    | inl h => rw [hqueue] at h; simp at h
    | inr h => rw [hqueue] at h; simpa using h
  rw [hstate]
  have hshows := displayTaskDraw_shows hw hh d.sDisplayState ⟨hopenedw, hdone⟩ (px, py) ⟨hx, hy⟩
  rw [hline1, hline2, take_snprintfLine, take_snprintfLine, hst] at hshows
  exact hshows

/-- The statics before `pf2_display_init`. -/
def bootStatics : DisplayStatics where
  sStatus := .boot
  sLine1 := none
  sLine2 := none
  sStatusQueue := none
  sDisplayState := ⟨.boot, .empty, .empty⟩

def letterOnBlue : List DisplayAct :=
  [.call (.setMessage (some ⟨[0x41], by decide⟩) none), .call (.setStatus .locked)]

/-- A dot of the letter and the corner of the panel. -/
theorem panel_shows_last_stick : ∃ d w d' w',
    letterOnBlue.foldl (fun s a => a.run s) (pf2DisplayInitQueue bootStatics, darkStick) = (d, w) ∧
      displayTaskTurn d w = some (d', w') ∧
      w'.spi.panel.mem 10 12 = 0xffff ∧ w'.spi.panel.mem 0 0 = 0x001f := by
  have hopened : Opened stickS3Desc.lcd darkStick := ⟨rfl, rfl⟩
  have hrun : letterOnBlue.foldl (fun s a => a.run s) (pf2DisplayInitQueue bootStatics, darkStick) =
      (_, darkStick) := rfl
  have hshown := fun px py => panel_shows_last (by decide) (by decide) hopened hrun rfl rfl
    (fun _ _ => rfl) rfl px py
  refine ⟨_, _, _, _, hrun, rfl, (hshown 10 12 (by decide) (by decide)).1 ?_,
    (hshown 0 0 (by decide) (by decide)).2 ?_⟩
  · have hdot : ((10, 12) : ℕ × ℕ) ∈ charPlaces 0x41 8 12 2 :=
      ⟨1, 0, by decide, by decide, by decide, by decide, by decide, by decide⟩
    refine .inl ⟨0, 0x41, ?_, hdot⟩
    rw [← take_snprintfLine]
    rfl
  · rintro (⟨i, char, -, col, row, -, -, hp⟩ | ⟨i, char, -, col, row, -, -, hp⟩)
    · have := hp.1
      omega
    · have := hp.1
      omega

end PicoFido2.Display
