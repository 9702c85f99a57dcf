import Mathlib.Tactic.IntervalCases
import PicoFido2.M5boards.Calls

/-! What one read of a key event can do to the keyboard's queue, and what a scan
of up to ten of them does. -/

namespace PicoFido2.M5boards

open Effect Hal Hardware Queue

/-! ### The queue -/

/-- From `h` to `k` the events in `removed` left the queue, and all others that
were there or arrived are still in it. -/
def Flows (h k : Hardware) (removed : List (BitVec 8)) : Prop :=
  ∃ new, k.log = h.log ++ new ∧ Queue.Flow h.fifo.events (keysOf new) removed k.fifo.events

theorem flows_of_passes {h k : Hardware} {r : List (BitVec 8)} (hp : Hardware.Passes r h k) :
    Flows h k r := by
  obtain ⟨new, hr⟩ := hp.records
  exact ⟨new, hr.log, hr.fifo⟩

/-- What was removed is determined by the two states. -/
theorem Flows.removed_unique {h k : Hardware} {r r' : List (BitVec 8)} (a : Flows h k r)
    (b : Flows h k r') : r = r' := by
  obtain ⟨new, hlog, hflow⟩ := a
  obtain ⟨new', hlog', hflow'⟩ := b
  have : new = new' := List.append_cancel_left (hlog.symm.trans hlog')
  subst this
  exact hflow.removed_unique hflow'

theorem waited_fifo_prefix (h : Hardware) : h.fifo.events <+: h.waited.fifo.events := by
  obtain ⟨new, _, hflow⟩ := flows_of_passes (Hardware.passes_waited h)
  exact ⟨keysOf new, hflow⟩

/-! ### One read -/

theorem count_eq_zero (lock : BitVec 8) (q : KeyFifo) :
    ((lock &&& 0xf0) ||| BitVec.ofNat 8 q.events.length) &&& 0x0f = 0 ↔ q.events = [] := by
  have hlen := q.le_ten
  rw [← List.length_eq_zero_iff]
  generalize q.events.length = n at hlen
  rw [BitVec.and_or_distrib_right, BitVec.and_assoc]
  interval_cases n <;> simp

/-- The head of the queue is gone. -/
def popped (h : Hardware) : Hardware := { h with fifo := h.fifo.pop }

theorem passes_popped {h : Hardware} {e : BitVec 8} {rest : List (BitVec 8)}
    (he : h.fifo.events = e :: rest) : Passes [e] h (popped h) := by
  refine ⟨rfl, le_rfl, [], by simp [popped], by simp, ?_, ?_⟩
  · exact fun gpio before h₀ h₁ => (pads_unchanged rfl h₀ h₁).elim
  · show Queue.Flow h.fifo.events [] [e] h.fifo.events.tail
    rw [he]
    exact Queue.Flow.remove e rest

/-- The state in which a read asks for the event, after the queue was counted. -/
abbrev counted (h : Hardware) : Hardware := h.waited

/-- The state in which a read clears the interrupt, with the event taken out. -/
abbrev taken (h : Hardware) : Hardware := popped (counted h).waited

/-- Everything a read of a key event can do, by the transfer it stopped at. -/
inductive ReadKeyEvent (w : World) : Except EspErr Unit → World → Prop where
  | noDevice (hdev : w.presence.sKeyboard.dev = none) : ReadKeyEvent w (.error .invalidArg) w
  | countFailed {f : Fault} (hdev : w.presence.sKeyboard.dev.isSome)
      (hcount : w.hw.outcome = .failed f) :
      ReadKeyEvent w (.error f.err) { w with hw := counted w.hw }
  | empty (hdev : w.presence.sKeyboard.dev.isSome) (hcount : w.hw.outcome = .done)
      (hq : (counted w.hw).fifo.events = []) :
      ReadKeyEvent w (.ok ())
        { w with hw := counted w.hw, keyOut := { keyEvent := 0, pressed := false } }
  | popFailed {f : Fault} (hdev : w.presence.sKeyboard.dev.isSome)
      (hcount : w.hw.outcome = .done) (hq : (counted w.hw).fifo.events ≠ [])
      (hpop : (counted w.hw).outcome = .failed f) :
      ReadKeyEvent w (.error f.err)
        { w with hw := if f.readTaken then taken w.hw else (counted w.hw).waited }
  | clearFailed {f : Fault} (hdev : w.presence.sKeyboard.dev.isSome)
      (hcount : w.hw.outcome = .done) (hq : (counted w.hw).fifo.events ≠ [])
      (hpop : (counted w.hw).outcome = .done) (hclear : (taken w.hw).outcome = .failed f) :
      ReadKeyEvent w (.error f.err)
        { w with
          hw := tcaWrite tca8418RegIntStat tca8418IntStatKInt f.writeTaken (taken w.hw).waited }
  | event {e : BitVec 8} (hdev : w.presence.sKeyboard.dev.isSome)
      (hcount : w.hw.outcome = .done) (hq : (counted w.hw).fifo.events.head? = some e)
      (hpop : (counted w.hw).outcome = .done) (hclear : (taken w.hw).outcome = .done) :
      ReadKeyEvent w (.ok ())
        { w with
          hw := tcaWrite tca8418RegIntStat tca8418IntStatKInt true (taken w.hw).waited
          keyOut :=
            { keyEvent := e &&& tca8418KeyEventCodeMask
              pressed := e &&& tca8418KeyEventPress != 0 }
          presence.sKeyboard.lastEvent := e }

theorem tca8418ReadU8_apply (ctx : Pf2Tca8418) (reg : BitVec 8) (h : Hardware) :
    tca8418ReadU8 ctx reg h =
      if ctx.dev.isSome then i2cMasterTransmitReceive (tcaRead reg) h
      else (.error .invalidArg, h) := by
  rw [tca8418ReadU8, Prog.require_bind]

theorem tca8418WriteU8_apply (ctx : Pf2Tca8418) (reg value : BitVec 8) (h : Hardware) :
    tca8418WriteU8 ctx reg value h =
      if ctx.dev.isSome then i2cMasterTransmit (tcaWrite reg value) h
      else (.error .invalidArg, h) := by
  rw [tca8418WriteU8, Prog.require_bind]

section Transfers

variable {ctx : Pf2Tca8418} (hdev : ctx.dev.isSome)
include hdev

theorem readCount (h : Hardware) :
    tca8418ReadU8 ctx tca8418RegKeyLckEc h = match h.outcome with
      | .done => (.ok ((h.waited.tca tca8418RegKeyLckEc &&& 0xf0) |||
          BitVec.ofNat 8 h.waited.fifo.events.length), counted h)
      | .failed f => (.error f.err, counted h) := by
  rw [tca8418ReadU8_apply, if_pos hdev]
  cases hc : h.outcome <;> simp [i2cMasterTransmitReceive, hc, tcaRead]

theorem readEvent (h : Hardware) :
    tca8418ReadU8 ctx tca8418RegKeyEventA h = match h.outcome with
      | .done => (.ok (h.waited.fifo.events.headD 0), popped h.waited)
      | .failed f => (.error f.err, if f.readTaken then popped h.waited else h.waited) := by
  rw [tca8418ReadU8_apply, if_pos hdev]
  cases hc : h.outcome <;>
    simp [i2cMasterTransmitReceive, hc, tcaRead, popped, tca8418RegKeyEventA, tca8418RegKeyLckEc]

theorem clearInterrupt (h : Hardware) :
    tca8418WriteU8 ctx tca8418RegIntStat tca8418IntStatKInt h = match h.outcome with
      | .done => (.ok (), tcaWrite tca8418RegIntStat tca8418IntStatKInt true h.waited)
      | .failed f =>
        (.error f.err, tcaWrite tca8418RegIntStat tca8418IntStatKInt f.writeTaken h.waited) := by
  rw [tca8418WriteU8_apply, if_pos hdev]
  rfl

end Transfers

theorem pf2Tca8418ReadKeyEvent_cases (w : World) :
    ReadKeyEvent w (pf2Tca8418ReadKeyEvent w).1 (pf2Tca8418ReadKeyEvent w).2 := by
  unfold pf2Tca8418ReadKeyEvent
  rw [Prog.bind_ok (Prog.get_apply w), Prog.bind_apply, hal_apply]
  by_cases hdev : w.presence.sKeyboard.dev.isSome
  · rw [readCount hdev]
    cases hcount : w.hw.outcome with
    | failed f => exact .countFailed hdev hcount
    | done =>
      simp only [count_eq_zero]
      by_cases hq : (counted w.hw).fifo.events = []
      · rw [if_pos hq]; exact .empty hdev hcount hq
      · rw [if_neg hq, Prog.bind_apply, hal_apply, readEvent hdev]
        cases hpop : (counted w.hw).outcome with
        | failed f => exact .popFailed hdev hcount hq hpop
        | done =>
          simp only [Prog.bind_apply, hal_apply, clearInterrupt hdev]
          cases hclear : (taken w.hw).outcome with
          | failed f => exact .clearFailed hdev hcount hq hpop hclear
          | done =>
            -- events arriving after the count go to the tail, so the head is the one counted
            obtain ⟨e, rest, he⟩ := List.exists_cons_of_ne_nil hq
            obtain ⟨new, hnew⟩ := waited_fifo_prefix (counted w.hw)
            have hhead : (counted w.hw).waited.fifo.events.headD 0 = e := by
              rw [← hnew, he]; rfl
            rw [hhead]
            exact .event hdev hcount (by rw [he]; rfl) hpop hclear
  · rw [tca8418ReadU8_apply, if_neg hdev]
    exact .noDevice (by simpa using hdev)

/-! ### What a read takes out of the queue -/

/-- A press of a key with a non-zero code. -/
def isPress (event : BitVec 8) : Bool :=
  event &&& tca8418KeyEventPress != 0 && event &&& tca8418KeyEventCodeMask != 0

theorem isPress_code {e : BitVec 8} (hp : isPress e = true) :
    e &&& tca8418KeyEventCodeMask ≠ 0 := by
  intro hz
  rw [isPress, hz] at hp
  simp at hp

/-- What a read reports of the event it took. -/
def reported (event : BitVec 8) : KeyOut where
  keyEvent := event &&& tca8418KeyEventCodeMask
  pressed := event &&& tca8418KeyEventPress != 0

theorem passes_taken {h : Hardware} {e : BitVec 8} (hq : (counted h).fifo.events.head? = some e) :
    Passes [e] h (taken h) := by
  obtain ⟨rest, he⟩ := List.head?_eq_some_iff.mp hq
  obtain ⟨new, hnew⟩ := waited_fifo_prefix (counted h)
  have hhead : (counted h).waited.fifo.events = e :: (rest ++ new) := by rw [← hnew, he]; rfl
  exact ((passes_waited h).trans (passes_waited (counted h))).trans (passes_popped hhead)

theorem passes_cleared {h : Hardware} {e : BitVec 8} (taken' : Bool)
    (hq : (counted h).fifo.events.head? = some e) :
    Passes [e] h (tcaWrite tca8418RegIntStat tca8418IntStatKInt taken' (taken h).waited) :=
  ((passes_taken hq).trans (passes_waited (taken h))).trans (passes_tcaWrite _ _ _ _)

/-- A read takes at most one event, and where it returns `ESP_OK` it reports it. -/
theorem ReadKeyEvent.passes {w w' : World} {r : Except EspErr Unit} (hc : ReadKeyEvent w r w') :
    ∃ removed, Passes removed w.hw w'.hw ∧
      (r = .ok () → (removed = [] ∧ w'.keyOut = { keyEvent := 0, pressed := false }) ∨
        ∃ e, removed = [e] ∧ w'.keyOut = reported e) := by
  cases hc with
  | noDevice => exact ⟨[], refl_of (Passes []) _, by simp⟩
  | countFailed => exact ⟨[], passes_waited _, by simp⟩
  | empty => exact ⟨[], passes_waited _, fun _ => .inl ⟨rfl, rfl⟩⟩
  | @popFailed f hdev hcount hq hpop =>
    obtain ⟨e, rest, he⟩ := List.exists_cons_of_ne_nil hq
    cases hf : f.readTaken
    · exact ⟨[], (passes_waited _).trans (passes_waited _), by simp⟩
    · exact ⟨[e], passes_taken (by rw [he]; rfl), by simp⟩
  | @clearFailed f _ _ hq =>
    obtain ⟨e, rest, he⟩ := List.exists_cons_of_ne_nil hq
    exact ⟨[e], passes_cleared f.writeTaken (by rw [he]; rfl), by simp⟩
  | @event e _ _ hq => exact ⟨[e], passes_cleared true hq, fun _ => .inr ⟨e, rfl, rfl⟩⟩

theorem ReadKeyEvent.turns {w w' : World} {r : Except EspErr Unit} (hc : ReadKeyEvent w r w') :
    w'.hw.turns = w.hw.turns := by
  obtain ⟨_, hp, _⟩ := hc.passes
  exact hp.turns

/-- A read takes one turn where it finds the queue empty and three where it takes an event. -/
theorem ReadKeyEvent.turn_le {w w' : World} {r : Except EspErr Unit} (hc : ReadKeyEvent w r w') :
    w.hw.turn ≤ w'.hw.turn := by
  cases hc with
  | noDevice => exact le_rfl
  | countFailed => exact Nat.le_succ _
  | empty => exact Nat.le_succ _
  | @popFailed f =>
    cases f.readTaken
    · exact Nat.le_add_right _ 2
    · exact Nat.le_add_right _ 2
  | @clearFailed f =>
    cases f.writeTaken
    · exact Nat.le_add_right _ 3
    · exact Nat.le_add_right _ 3
  | event => exact Nat.le_add_right _ 3

/-- With a device and no failed transfer a read returns `ESP_OK`. -/
theorem ReadKeyEvent.ok {w w' : World} {r : Except EspErr Unit} (hc : ReadKeyEvent w r w')
    (hdev : w.presence.sKeyboard.dev.isSome) (hs : Hardware.Succeeds w.hw w'.hw) : r = .ok () := by
  cases hc with
  | noDevice hnone => rw [hnone] at hdev; cases hdev
  | countFailed _ hcount => rw [hs.first (Nat.lt_succ_self _)] at hcount; cases hcount
  | empty => rfl
  | @popFailed f _ _ _ hpop =>
    have hturn : w.hw.turn + 1 <
        (if f.readTaken then taken w.hw else (counted w.hw).waited).turn := by
      cases f.readTaken <;> exact Nat.lt_succ_self _
    have hdone := hs (w.hw.turn + 1) (Nat.le_succ _) hturn
    rw [← (sameChips_waited w.hw).turns] at hdone
    rw [show (counted w.hw).outcome = _ from hdone] at hpop
    cases hpop
  | @clearFailed f _ _ _ _ hclear =>
    have hturn : w.hw.turn + 2 <
        (tcaWrite tca8418RegIntStat tca8418IntStatKInt f.writeTaken (taken w.hw).waited).turn := by
      cases f.writeTaken <;> exact Nat.lt_succ_self _
    have hdone := hs (w.hw.turn + 2) (Nat.le_add_right _ 2) hturn
    rw [← (sameChips_waited w.hw).turns, ← (sameChips_waited (counted w.hw)).turns] at hdone
    rw [show (taken w.hw).outcome = _ from hdone] at hclear
    cases hclear
  | event => rfl

/-! ### Scans -/

/-- The states in which the reads of a scan start. -/
def scanReads : ℕ → World → List World
  | 0, _ => []
  | n + 1, w => cleanLocals w ::
    match pf2Tca8418ReadKeyEvent (cleanLocals w) with
    | (.error _, _) => []
    | (.ok (), w) =>
      if w.keyOut.pressed && w.keyOut.keyEvent != 0 then []
      else if w.keyOut.keyEvent = 0 then []
      else scanReads n w

/-- The ways a scan of at most `n` reads goes, with the states its reads start in. -/
inductive Scan : ℕ → World → List World → Bool → World → Prop where
  | out (w : World) : Scan 0 w [] false w
  | failed {n : ℕ} {w w' : World} {e : EspErr}
      (hr : ReadKeyEvent (cleanLocals w) (.error e) w') : Scan (n + 1) w [cleanLocals w] false w'
  | empty {n : ℕ} {w w' : World} (hr : ReadKeyEvent (cleanLocals w) (.ok ()) w')
      (hf : Passes [] w.hw w'.hw) : Scan (n + 1) w [cleanLocals w] false w'
  | press {n : ℕ} {w w' : World} {event : BitVec 8}
      (hr : ReadKeyEvent (cleanLocals w) (.ok ()) w') (hf : Passes [event] w.hw w'.hw)
      (hp : isPress event = true) : Scan (n + 1) w [cleanLocals w] true w'
  | zeroCode {n : ℕ} {w w' : World} {event : BitVec 8}
      (hr : ReadKeyEvent (cleanLocals w) (.ok ()) w') (hf : Passes [event] w.hw w'.hw)
      (hz : event &&& tca8418KeyEventCodeMask = 0) : Scan (n + 1) w [cleanLocals w] false w'
  | next {n : ℕ} {w w' w'' : World} {event : BitVec 8} {reads : List World} {b : Bool}
      (hr : ReadKeyEvent (cleanLocals w) (.ok ()) w') (hf : Passes [event] w.hw w'.hw)
      (hp : isPress event = false) (hz : event &&& tca8418KeyEventCodeMask ≠ 0)
      (rest : Scan n w' reads b w'') : Scan (n + 1) w (cleanLocals w :: reads) b w''

theorem isPress_eq (event : BitVec 8) :
    isPress event = ((reported event).pressed && (reported event).keyEvent != 0) := rfl

theorem anyKeyPressedLoop_scan (n : ℕ) (w : World) :
    Scan n w (scanReads n w) (anyKeyPressedLoop n w).1 (anyKeyPressedLoop n w).2 := by
  induction n generalizing w with
  | zero => exact .out w
  | succ n ih =>
    have hc := pf2Tca8418ReadKeyEvent_cases (cleanLocals w)
    rw [anyKeyPressedLoop, scanReads]
    rcases hr : pf2Tca8418ReadKeyEvent (cleanLocals w) with ⟨e | ⟨⟩, w'⟩
    · rw [hr] at hc
      exact .failed hc
    · rw [hr] at hc
      obtain ⟨removed, hflow, hok⟩ := hc.passes
      rcases hok rfl with ⟨rfl, hout⟩ | ⟨event, rfl, hout⟩ <;> change w'.keyOut = _ at hout
      · simp only [hout, Bool.false_and, Bool.false_eq_true, if_false, if_true]
        exact .empty hc hflow
      · simp only [hout, ← isPress_eq]
        cases hp : isPress event
        · by_cases hz : event &&& tca8418KeyEventCodeMask = 0
          · simp only [reported, hz, Bool.false_eq_true, if_false, if_true]
            exact .zeroCode hc hflow hz
          · simp only [reported, hz, Bool.false_eq_true, if_false]
            exact .next hc hflow hp hz (ih w')
        · exact .press hc hflow hp

/-- What every read keeps, a scan keeps. -/
theorem Scan.keeps (R : World → World → Prop) (hrefl : ∀ w, R w w)
    (htrans : ∀ {u v w}, R u v → R v w → R u w)
    (hread : ∀ {w w' r}, ReadKeyEvent (cleanLocals w) r w' → R w w') {n : ℕ} {w w' : World}
    {reads : List World} {b : Bool} (hs : Scan n w reads b w') : R w w' := by
  induction hs with
  | out w => exact hrefl w
  | failed hr => exact hread hr
  | empty hr _ => exact hread hr
  | press hr _ _ => exact hread hr
  | zeroCode hr _ _ => exact hread hr
  | next hr _ _ _ _ ih => exact htrans (hread hr) ih

theorem Scan.turns {n : ℕ} {w w' : World} {reads : List World} {b : Bool}
    (hs : Scan n w reads b w') : w'.hw.turns = w.hw.turns :=
  hs.keeps (fun w w' => w'.hw.turns = w.hw.turns) (fun _ => rfl) (fun a b => b.trans a)
    fun hr => hr.turns

theorem Scan.turn_le {n : ℕ} {w w' : World} {reads : List World} {b : Bool}
    (hs : Scan n w reads b w') : w.hw.turn ≤ w'.hw.turn :=
  hs.keeps (fun w w' => w.hw.turn ≤ w'.hw.turn) (fun _ => le_rfl) (fun a b => a.trans b)
    fun hr => hr.turn_le

theorem pf2Tca8418AnyKeyPressed_scan (w : World) :
    Scan 10 w (scanReads 10 w) (pf2Tca8418AnyKeyPressed w).1 (pf2Tca8418AnyKeyPressed w).2 :=
  anyKeyPressedLoop_scan 10 w

end PicoFido2.M5boards
