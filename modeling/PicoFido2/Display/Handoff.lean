import PicoFido2.Display.State
import PicoFido2.Queue.Mailbox

/-! No update of the display is lost. The calls of all tasks write the fields of
`s_display_state` one by one and then post a copy of it to the queue of one slot;
the display task takes the slot and draws. This is a mailbox, and when every call
has returned and the display task waits, what it drew last is what was written. -/

namespace PicoFido2.Display

open Queue Transition

/-- A write of one field of `s_display_state`. -/
inductive FieldWrite where
  | status (status : Pf2Status)
  | line1 (line : Line)
  | line2 (line : Line)
  deriving DecidableEq

def FieldWrite.apply : FieldWrite → Pf2DisplayState → Pf2DisplayState
  | status st, s => { s with status := st }
  | line1 l, s => { s with line1 := l }
  | line2 l, s => { s with line2 := l }

inductive DisplayCall where
  | setStatus (status : Pf2Status)
  | setMessage (line1 line2 : Option CString)

/-- The field writes of a call before it posts. -/
def DisplayCall.writes : DisplayCall → List FieldWrite
  | setStatus status => [.status status]
  | setMessage line1 line2 => [.line1 (snprintfLine line1), .line2 (snprintfLine line2)]

def DisplayCall.run : DisplayCall → DisplayStatics → DisplayStatics
  | setStatus status => pf2DisplaySetStatus status
  | setMessage line1 line2 => pf2DisplaySetMessage line1 line2

/-- A call that is not interrupted makes these writes and posts what they gave. -/
theorem DisplayCall.run_eq (call : DisplayCall) (d : DisplayStatics) :
    (call.run d).sDisplayState = call.writes.foldl (fun s w => w.apply s) d.sDisplayState ∧
      (call.run d).sStatusQueue = d.sStatusQueue.map fun _ => some (call.run d).sDisplayState := by
  cases call <;> exact ⟨rfl, rfl⟩

variable {τ : Type} [DecidableEq τ]

/-- What the calls, the queue and the display task share. -/
abbrev Handoff (τ : Type) := Mailbox Pf2DisplayState FieldWrite τ

abbrev HandoffStep : Handoff τ → MailAct DisplayCall FieldWrite τ → Unit → Handoff τ → Prop :=
  Mailbox.Step DisplayCall.writes FieldWrite.apply

/-- After `pf2_display_init`, which posts `s_display_state` once. -/
def initialized (s : Pf2DisplayState) : Handoff τ where
  draft := s
  pending _ := none
  slot := some s
  taken := none
  used := none

abbrev HandoffRun (τ : Type) :=
  List (Visit (Handoff τ) (MailAct DisplayCall FieldWrite τ) Unit)

def FieldWrite.status? : FieldWrite → Option Pf2Status
  | status st => some st
  | _ => none

def FieldWrite.line1? : FieldWrite → Option Line
  | line1 l => some l
  | _ => none

def FieldWrite.line2? : FieldWrite → Option Line
  | line2 l => some l
  | _ => none

/-- The value a field was given last in a run. -/
def lastWritten {α : Type} (field : FieldWrite → Option α) (vs : HandoffRun τ) : Option α :=
  ((Mailbox.written vs).filterMap field).getLast?

/-- In every interleaving after the initialisation: when all calls have returned and
the display task waits on the empty queue, it drew `s_display_state` last, which has
the status and the lines written last. A call makes the writes of `DisplayCall.writes` one
by one and then posts; by `DisplayCall.run_eq` that is what `pf2_display_set_status` and
`pf2_display_set_message` do where nothing comes in between. -/
theorem last_update_drawn {s₀ : Pf2DisplayState} {vs : HandoffRun τ} {m : Handoff τ}
    (hp : Path HandoffStep (initialized s₀) vs m) (hreturned : ∀ t, m.pending t = none)
    (hempty : m.slot = none) (hwaits : m.taken = none) :
    m.used = some m.draft ∧
      m.draft.status = (lastWritten FieldWrite.status? vs).getD s₀.status ∧
      m.draft.line1 = (lastWritten FieldWrite.line1? vs).getD s₀.line1 ∧
      m.draft.line2 = (lastWritten FieldWrite.line2? vs).getD s₀.line2 := by
  have hsettled : m.Settled :=
    hp.invariant (I := Mailbox.Settled) (fun _ => rfl) fun _ _ _ _ hs h => h.step hs
  refine ⟨hsettled.used_eq hreturned hempty hwaits, ?_⟩
  rw [Mailbox.draft_eq hp]
  refine ⟨?_, ?_, ?_⟩
  · exact part_foldl _ Pf2DisplayState.status _ (fun w s => by cases w <;> rfl) _ s₀
  · exact part_foldl _ Pf2DisplayState.line1 _ (fun w s => by cases w <;> rfl) _ s₀
  · exact part_foldl _ Pf2DisplayState.line2 _ (fun w s => by cases w <;> rfl) _ s₀

/-- Two tasks interleave, and the display task draws a half-written copy in between. -/
theorem last_update_drawn_two_tasks :
    ∃ m : Handoff Bool, m.used = some m.draft ∧ m.draft.status = .locked := by
  have hp : Path (HandoffStep (τ := Bool)) (initialized ⟨.boot, .empty, .empty⟩) _ _ :=
    Path.nil
      |>.snoc (.call (t := true) (.setMessage none none) rfl)
      |>.snoc (.call (t := false) (.setStatus .locked) rfl)
      |>.snoc (.write (t := true) rfl)
      |>.snoc (.write (t := false) rfl)
      |>.snoc (.post (t := false) rfl)
      |>.snoc (.take rfl rfl)
      |>.snoc (.write (t := true) rfl)
      |>.snoc (.post (t := true) rfl)
      |>.snoc (.use rfl)
      |>.snoc (.take rfl rfl)
      |>.snoc (.use rfl)
  have h := last_update_drawn hp (by decide) rfl rfl
  exact ⟨_, h.1, h.2.1⟩

end PicoFido2.Display
