import Mathlib.Tactic.Common

/-! The state shown on the display, and the two calls of `pico_fido2_display.c` that
change it. -/

namespace PicoFido2.Display

/-- `pf2_status_t`. -/
inductive Pf2Status where
  | boot | waitingForTouch | authSuccess | authFailure | locked
  deriving DecidableEq, Repr

/-- The bytes of a C string before its terminator. -/
structure CString where
  chars : List (BitVec 8)
  ne_zero : ∀ c ∈ chars, c ≠ 0
  deriving DecidableEq

/-- The string in a buffer of 24 bytes. -/
structure Line where
  chars : List (BitVec 8)
  ne_zero : ∀ c ∈ chars, c ≠ 0
  le : chars.length ≤ 23
  deriving DecidableEq

def Line.empty : Line := ⟨[], by simp, by simp⟩

/-- `snprintf(line, sizeof(line), "%s", text ? text : "")`. -/
def snprintfLine (text : Option CString) : Line :=
  match text with
  | none => .empty
  | some s => ⟨s.chars.take 23, fun c hc => s.ne_zero c (List.mem_of_mem_take hc), by
    rw [List.length_take]
    omega⟩

/-- `pf2_display_state_t`. -/
structure Pf2DisplayState where
  status : Pf2Status
  line1 : Line
  line2 : Line
  deriving DecidableEq

/-- The statics of `pico_fido2_display.c` the status calls touch; `sStatusQueue` is the
queue with its one slot, or `none` before there is a queue. -/
structure DisplayStatics where
  sStatus : Pf2Status
  sLine1 : Option CString
  sLine2 : Option CString
  sStatusQueue : Option (Option Pf2DisplayState)
  sDisplayState : Pf2DisplayState
  deriving DecidableEq

/-- `xQueueOverwrite` of a copy of `s_display_state`, if there is a queue. -/
def displayQueueState (d : DisplayStatics) : DisplayStatics :=
  { d with sStatusQueue := d.sStatusQueue.map fun _ => some d.sDisplayState }

def pf2DisplaySetStatus (status : Pf2Status) (d : DisplayStatics) : DisplayStatics :=
  displayQueueState { d with sStatus := status, sDisplayState.status := status }

def pf2DisplaySetMessage (line1 line2 : Option CString) (d : DisplayStatics) : DisplayStatics :=
  displayQueueState
    { d with
      sLine1 := line1
      sLine2 := line2
      sDisplayState.line1 := snprintfLine line1
      sDisplayState.line2 := snprintfLine line2 }

end PicoFido2.Display
