import Mathlib.Data.List.TakeWhile
import PicoFido2.Display.Init
import PicoFido2.Display.Legible
import PicoFido2.Display.System
import PicoFido2.M5boards.Operational

/-! What the firmware does at boot: `picokey_init` brings up the input, starts the display
and gives it the name of the board, while the display task already runs. -/

namespace PicoFido2.Fido2

open Display Effect Hal Hardware M5boards Queue Transition

/-- A string constant; a C string ends at its first zero. -/
def cString (s : String) : CString :=
  ⟨(s.toList.map fun c => BitVec.ofNat 8 c.toNat).takeWhile fun b => b ≠ 0, by
    intro b hb
    simpa using List.mem_takeWhile_imp hb⟩

/-! ### `picokey_init` -/

/-- The presence code with its hardware, and the display code with its own. -/
structure BootWorld where
  presence : World
  display : InitWorld

/-- Neither result is looked at, and the display is told the board whatever became of it. -/
def picokeyInit (cfg : Kconfig) (w : BootWorld) : ℤ × BootWorld :=
  match pf2M5BoardGet cfg with
  | none => (0, w)
  | some board =>
    let (_, presence) := picoFido2PresenceInit cfg w.presence
    let (_, display) := pf2DisplayInit (some board.desc.lcd) w.display
    let statics := pf2DisplaySetStatus .boot display.display
    let statics := pf2DisplaySetMessage (some (cString "Pico FIDO2"))
      (some (cString board.desc.name)) statics
    (0, ⟨presence, { display with display := statics }⟩)

/-- The two calls at its end. -/
def bootCalls (board : BoardPtr) : List DisplayCall :=
  [.setStatus .boot, .setMessage (some (cString "Pico FIDO2")) (some (cString board.desc.name))]

section picokeyInit

variable {cfg : Kconfig} {board : BoardPtr} (hb : pf2M5BoardGet cfg = some board)
include hb

theorem picokeyInit_presence (w : BootWorld) :
    (picokeyInit cfg w).2.presence = (picoFido2PresenceInit cfg w.presence).2 := by
  rw [picokeyInit, hb]

theorem picokeyInit_display (w : BootWorld) :
    (picokeyInit cfg w).2.display.display =
      (bootCalls board).foldl (fun d call => call.run d)
        (pf2DisplayInit (some board.desc.lcd) w.display).2.display := by
  rw [picokeyInit, hb]
  rfl

/-- Where `picokey_init` leaves the input: what holds in runs of calls from boot, the calls
that follow it keep. -/
theorem flagMeans_booted {h₀ : Hardware} (d : InitWorld) {w : World}
    {vs : List (Visit World PresenceCall Answer)}
    (hp : Path (PresenceStep cfg) (picokeyInit cfg ⟨boot h₀, d⟩).2.presence vs w) :
    FlagMeans board w := by
  rw [picokeyInit_presence hb] at hp
  have hinit : Path (PresenceStep cfg) (boot h₀) _ (picoFido2PresenceInit cfg (boot h₀)).2 :=
    Path.nil.snoc (.init rfl)
  exact flagMeans_run hb (hinit.append hp)

end picokeyInit

/-! ### One calling task -/

/-- Calls that are not interrupted leave `s_display_state` with their writes, in order. -/
theorem sDisplayState_calls (cs : List DisplayCall) (d : DisplayStatics) :
    (cs.foldl (fun d call => call.run d) d).sDisplayState =
      (cs.flatMap DisplayCall.writes).foldl (fun s w => w.apply s) d.sDisplayState := by
  rw [List.foldl_flatMap]
  exact (List.foldl_hom DisplayStatics.sDisplayState fun d call => (call.run_eq d).1.symm).symm

section OneCaller

variable {τ : Type} [DecidableEq τ]

/-- The queue and `s_display_state` where no call is under way and the display task is yet to
take its first state. -/
def handoffOf (d : DisplayStatics) : Handoff τ where
  draft := d.sDisplayState
  pending _ := none
  slot := d.sStatusQueue.join
  taken := none
  used := none

/-- The calls begun in a run, with their tasks. -/
def callsIn (vs : SystemRun τ) : List (τ × DisplayCall) :=
  Mailbox.calls (vs.map (Visit.view Prod.fst))

/-- Where one task makes all calls and has made them, `s_display_state` is what they leave
of it without a display task, and no other task is within a call. -/
theorem draft_of_one_caller {d : DisplayStatics} {w₀ : LcdWorld} {vs : SystemRun τ}
    {s : DisplaySystem τ} (hp : Path SystemStep (initialized d.sDisplayState, w₀) vs s) {t : τ}
    {cs : List DisplayCall} (hcalls : callsIn vs = cs.map fun c => (t, c))
    (hreturned : s.1.pending t = none) :
    (∀ u, s.1.pending u = none) ∧
      s.1.draft = (cs.foldl (fun d call => call.run d) d).sDisplayState := by
  have hrun := handoff_run hp
  have hone : ∀ c ∈ callsIn vs, c.1 = t := by
    rw [hcalls]
    simp
  obtain ⟨hothers, hwritten⟩ := Mailbox.written_of_one_caller hrun (fun _ => rfl) hone
  have hdraft : s.1.draft = (writtenIn vs).foldl (fun s w => w.apply s) d.sDisplayState :=
    Mailbox.draft_eq hrun
  have hwrites : writtenIn vs = cs.flatMap DisplayCall.writes := by
    rw [hreturned, Option.getD_none, List.append_nil] at hwritten
    refine hwritten.trans ?_
    show (callsIn vs).flatMap _ = _
    rw [hcalls, List.flatMap_map]
  refine ⟨fun u => ?_, by rw [hdraft, hwrites, sDisplayState_calls]⟩
  by_cases hu : u = t
  · rw [hu]
    exact hreturned
  · exact hothers u hu

variable {lcd : Pf2LcdDesc} (hw : 0 < lcd.width.toNat) (hh : 0 < lcd.height.toNat)
include hw hh

theorem displayTaskDraw_up (state : Pf2DisplayState) {w : LcdWorld} (hup : Up lcd w) :
    Up lcd (displayTaskDraw state w) := by
  have hfill := (lcdFill_draws hw hh (statusColor state.status) w hup).1
  have hline1 := lcdDrawText_draws lcd 12 0xffff 2 (by decide) (by decide) state.line1.chars 8
  have hline2 := lcdDrawText_draws lcd 34 0xffff 2 (by decide) (by decide) state.line2.chars 8
  unfold displayTaskDraw
  dsimp only
  split
  · exact (hline1.comp hline2 _ hfill).1
  · exact hfill

/-- While no transfer fails the screen shows the state drawn last. -/
theorem shows_used {s₀ : Pf2DisplayState} {w₀ : LcdWorld} (hup : Up lcd w₀) {vs : SystemRun τ}
    {s : DisplaySystem τ} (hp : Path SystemStep (initialized s₀, w₀) vs s) :
    Up lcd s.2 ∧ ∀ state, s.1.used = some state → Shows lcd state s.2.spi.panel.mem := by
  refine hp.invariant (I := fun t : DisplaySystem τ =>
    Up lcd t.2 ∧ ∀ state, t.1.used = some state → Shows lcd state t.2.spi.panel.mem)
    ⟨hup, fun _ h => (by cases h)⟩ ?_
  rintro s a r t hs ⟨hups, hshows⟩
  cases hs with
  | handoff hnot hm =>
    refine ⟨hups, ?_⟩
    cases hm with
    | use => exact absurd rfl hnot
    | _ => exact hshows
  | @draw state m htaken hm =>
    refine ⟨displayTaskDraw_up hw hh state hups, ?_⟩
    cases hm with
    | use htaken' =>
      rintro state' hused
      obtain rfl : state = state' := by
        rw [htaken] at htaken'
        exact (Option.some.inj htaken').trans (Option.some.inj hused)
      exact displayTaskDraw_shows hw hh state hups

end OneCaller

/-! ### The first screen -/

/-- A text in the cells of a line, as far as it fits, with spaces after its end. -/
def cells (lcd : Pf2LcdDesc) (text : String) : List (BitVec 8) :=
  (List.range (fitting lcd.width.toNat)).map fun k => (cString text).chars.getD k 0x20

theorem lineText_boot {cfg : Kconfig} {board : BoardPtr} (hb : pf2M5BoardGet cfg = some board) :
    lineText board.desc.lcd (snprintfLine (some (cString "Pico FIDO2"))) =
        cells board.desc.lcd "PICO FIDO2" ∧
      lineText board.desc.lcd (snprintfLine (some (cString board.desc.name))) =
        cells board.desc.lcd board.desc.name.toUpper := by
  rcases pf2M5BoardGet_cases hb with rfl | rfl
  · decide +kernel
  · decide +kernel

/-- What a `pf2_display_init` that returned `ESP_OK` hands over. -/
theorem handoffOf_started {lcd : Pf2LcdDesc} {w w' : InitWorld}
    (h : pf2DisplayInit (some lcd) w = (.ok (), w')) {τ : Type} :
    handoffOf (τ := τ) w'.display = initialized w'.display.sDisplayState ∧
      Opened lcd w'.lcd := by
  have hcases := pf2DisplayInit_cases lcd w
  rw [h] at hcases
  cases hcases with
  | started _ _ _ hdisplay hopened =>
    rw [hdisplay]
    exact ⟨rfl, hopened⟩

/-- Whatever became of the input and of the start-up commands of the panel, and however the
display task interleaves with the two calls at the end of `picokey_init`: when they have
returned and the display task waits on the empty queue, it drew what `picokey_init` leaves
in `s_display_state`, and if no transfer failed since the initialisation, the screen reads
as the boot status, the name of the firmware and the name of the board. -/
theorem boot_screen {cfg : Kconfig} {board : BoardPtr} (hb : pf2M5BoardGet cfg = some board)
    {w : BootWorld} {display : InitWorld}
    (hinit : pf2DisplayInit (some board.desc.lcd) w.display = (.ok (), display))
    {τ : Type} [DecidableEq τ] {vs : SystemRun τ} {s : DisplaySystem τ}
    (hp : Path SystemStep (handoffOf display.display, display.lcd) vs s) {t : τ}
    (hcalls : callsIn vs = (bootCalls board).map fun c => (t, c))
    (hreturned : s.1.pending t = none) (hempty : s.1.slot = none) (hwaits : s.1.taken = none) :
    s.1.used = some (picokeyInit cfg w).2.display.display.sDisplayState ∧
      ((∀ n, display.lcd.spi.transfers ≤ n → display.lcd.spi.outcomes n = .done) →
        readStatus s.2.spi.panel.mem = some .boot ∧
          readLine board.desc.lcd s.2.spi.panel.mem 12 = cells board.desc.lcd "PICO FIDO2" ∧
          readLine board.desc.lcd s.2.spi.panel.mem 34 =
            cells board.desc.lcd board.desc.name.toUpper) := by
  obtain ⟨hhandoff, hopened⟩ := handoffOf_started hinit
  rw [hhandoff] at hp
  obtain ⟨hidle, hdraft⟩ := draft_of_one_caller hp hcalls hreturned
  have hsettled : s.1.Settled := (handoff_run hp).invariant (I := Mailbox.Settled) (fun _ => rfl)
    fun _ _ _ _ hs h => h.step hs
  have hused := hsettled.used_eq hidle hempty hwaits
  rw [hdraft] at hused
  refine ⟨?_, fun hdone => ?_⟩
  · rw [picokeyInit_display hb, hinit]
    exact hused
  · have hsize : 0 < board.desc.lcd.width.toNat ∧ 48 ≤ board.desc.lcd.height.toNat := by
      rcases pf2M5BoardGet_cases hb with rfl | rfl <;> decide
    have hshows := (shows_used hsize.1 (by omega) ⟨hopened, hdone⟩ hp).2 _ hused
    obtain ⟨hstatus, hline1, hline2⟩ := hshows.read hsize.1 hsize.2
    obtain ⟨htext1, htext2⟩ := lineText_boot hb
    exact ⟨hstatus, hline1.trans htext1, hline2.trans htext2⟩

/-- The display of a stick after a start on which everything succeeds. -/
def startedStick : InitWorld :=
  (pf2DisplayInit (some stickS3Desc.lcd) (stickAtBoot allSucceed fun _ => .done)).2

/-- The name of the stick is cut at the edge of its screen. -/
theorem boot_screen_stick : ∃ s : DisplaySystem Bool,
    readLine stickS3Desc.lcd s.2.spi.panel.mem 34 = (cString "M5STACK-ST").chars := by
  have hb : pf2M5BoardGet stickS3 = some ⟨2, stickS3Desc⟩ := rfl
  have hinit : pf2DisplayInit (some stickS3Desc.lcd)
      (stickAtBoot allSucceed fun _ => .done) = (.ok (), startedStick) := rfl
  have hp : Path (SystemStep (τ := Bool))
      (handoffOf startedStick.display, startedStick.lcd) _ _ :=
    Path.nil
      |>.snoc (.handoff (by simp) (.call (t := true) (.setStatus .boot) rfl))
      |>.snoc (.handoff (by simp) (.take rfl rfl))
      |>.snoc (.handoff (by simp) (.write (t := true) rfl))
      |>.snoc (.draw rfl (.use rfl))
      |>.snoc (.handoff (by simp) (.post (t := true) rfl))
      |>.snoc (.handoff (by simp) (.call (t := true)
        (.setMessage (some (cString "Pico FIDO2")) (some (cString "m5stack-stick-s3"))) rfl))
      |>.snoc (.handoff (by simp) (.write (t := true) rfl))
      |>.snoc (.handoff (by simp) (.write (t := true) rfl))
      |>.snoc (.handoff (by simp) (.post (t := true) rfl))
      |>.snoc (.handoff (by simp) (.take rfl rfl))
      |>.snoc (.draw rfl (.use rfl))
  have hread := boot_screen (w := ⟨boot (Hardware.start quietTurns), _⟩) hb hinit hp rfl rfl rfl rfl
  refine ⟨_, (hread.2 fun _ _ => rfl).2.2.trans ?_⟩
  decide +kernel

end PicoFido2.Fido2
