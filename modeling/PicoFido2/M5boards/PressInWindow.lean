import PicoFido2.M5boards.FirstPress
import PicoFido2.M5boards.TimedWait

/-! A press that comes to an empty queue during a wait. A poll that counts the queue after
the press answers true, so only a press that comes after the last count of the iteration in
which the time is up is missed; it stays queued. -/

namespace PicoFido2.M5boards

open Effect Hal Hardware Queue Transition

/-! ### Presses at the head of the queue -/

def HeadPress (h : Hardware) : Prop := ∃ e, h.fifo.events.head? = some e ∧ isPress e = true

/-- In the turn that starts in `h` a press is appended to an empty queue, before the deadline. -/
def PressArrives (deadlineUs : ℤ) (h : Hardware) : Prop :=
  ∃ pre e post, (h.turns h.turn).stimuli = pre ++ .key e :: post ∧ isPress e = true ∧
    (h.settle pre).fifo.events = [] ∧ (h.settle pre).now < deadlineUs

theorem settle_fifo_prefix (h : Hardware) (stimuli : List Stimulus) :
    h.fifo.events <+: (h.settle stimuli).fifo.events := by
  obtain ⟨new, -, hflow⟩ := flows_of_passes (settle_induction passes_stimulate h stimuli)
  exact ⟨keysOf new, hflow⟩

theorem HeadPress.mono {h k : Hardware} (hp : HeadPress h)
    (hkept : h.fifo.events <+: k.fifo.events) : HeadPress k := by
  obtain ⟨e, he, hpress⟩ := hp
  obtain ⟨rest, hrest⟩ := List.head?_eq_some_iff.mp he
  obtain ⟨new, hnew⟩ := hkept
  refine ⟨e, ?_, hpress⟩
  rw [← hnew, hrest]
  rfl

theorem HeadPress.waited {h : Hardware} (hp : HeadPress h) : HeadPress h.waited := by
  have hkept := waited_fifo_prefix h
  exact hp.mono hkept

/-- A press that came to an empty queue is at its head when the call takes effect. -/
theorem PressArrives.head {deadlineUs : ℤ} {h : Hardware} (hp : PressArrives deadlineUs h) :
    HeadPress h.waited := by
  obtain ⟨pre, e, post, hstimuli, hpress, hempty, -⟩ := hp
  have hpushed : ((h.settle pre).stimulate (.key e)).fifo.events = [e] := by
    have hroom : (h.settle pre).fifo.events.length < 10 := by
      rw [hempty]
      decide
    rw [stimulate, if_pos hroom, KeyFifo.push, dif_pos hroom]
    show (h.settle pre).fifo.events ++ [e] = [e]
    rw [hempty]
    rfl
  have hrest := settle_fifo_prefix ((h.settle pre).stimulate (.key e)) post
  have hall : h.waited.fifo = (((h.settle pre).stimulate (.key e)).settle post).fifo := by
    show (h.settle (h.turns h.turn).stimuli).fifo = _
    rw [hstimuli]
    simp only [settle, List.foldl_append, List.foldl_cons]
  have hhead : HeadPress ((h.settle pre).stimulate (.key e)) := ⟨e, by rw [hpushed]; rfl, hpress⟩
  refine hhead.mono ?_
  rw [hall]
  exact hrest

/-- An empty queue was empty when the turn began. -/
theorem PressArrives.empty {deadlineUs : ℤ} {h : Hardware} (hp : PressArrives deadlineUs h) :
    h.fifo.events = [] := by
  obtain ⟨pre, -, -, -, -, hempty, -⟩ := hp
  have hkept := settle_fifo_prefix h pre
  rw [hempty] at hkept
  exact List.prefix_nil.mp hkept

/-! ### Polls -/

/-- The states in which the turns of a read start: the count, and where there is an event
its removal and the clearing of the interrupt. -/
def readTurns (h : Hardware) : List Hardware :=
  if (counted h).fifo.events = [] then [h] else [h, counted h, taken h]

section Read

variable {w w' : World} (hr : ReadKeyEvent w (.ok ()) w') {e : BitVec 8}
include hr

/-- A read takes the head of the queue it counted. -/
theorem ReadKeyEvent.takes (he : (counted w.hw).fifo.events.head? = some e) :
    Passes [e] w.hw w'.hw ∧ w'.hw.fifo = (taken w.hw).waited.fifo := by
  cases hr with
  | empty hdev hcount hq =>
    rw [hq] at he
    cases he
  | @event e' hdev hcount hq =>
    rw [hq] at he
    cases he
    exact ⟨passes_cleared true hq, rfl⟩

/-- Every turn of a read is one of them. -/
theorem ReadKeyEvent.covers {k : ℕ} (hle : w.hw.turn ≤ k) (hlt : k < w'.hw.turn) :
    ∃ h ∈ readTurns w.hw, h.turn = k := by
  unfold readTurns
  cases hr with
  | empty hdev hcount hq =>
    have hturn : (counted w.hw).turn = w.hw.turn + 1 := rfl
    rw [if_pos hq]
    exact ⟨w.hw, List.mem_singleton_self _, by dsimp only at hlt; omega⟩
  | event hdev hcount hq =>
    have hturn : (tcaWrite tca8418RegIntStat tca8418IntStatKInt true (taken w.hw).waited).turn =
        w.hw.turn + 3 := rfl
    have hne : (counted w.hw).fifo.events ≠ [] := by
      intro hnil
      rw [hnil] at hq
      cases hq
    rw [if_neg hne]
    dsimp only at hlt
    obtain rfl | rfl | rfl : k = w.hw.turn ∨ k = w.hw.turn + 1 ∨ k = w.hw.turn + 2 := by omega
    · exact ⟨w.hw, by simp, rfl⟩
    · exact ⟨counted w.hw, by simp, rfl⟩
    · exact ⟨taken w.hw, by simp, rfl⟩

theorem ReadKeyEvent.event_eq (he : (counted w.hw).fifo.events.head? = some e) {event : BitVec 8}
    (hf : Passes [event] w.hw w'.hw) : event = e :=
  List.singleton_injective
    ((flows_of_passes hf).removed_unique (flows_of_passes (hr.takes he).1))

end Read

section Scans

variable {n : ℕ} {w w' : World} {reads : List World} {b : Bool}

/-- A scan whose first count finds a press at the head of the queue answers true. -/
theorem Scan.headPress (hs : Scan (n + 1) w reads b w') (hdev : w.presence.sKeyboard.dev.isSome)
    (hdone : Hardware.Succeeds w.hw w'.hw) (hp : HeadPress (counted w.hw)) : b = true := by
  obtain ⟨e, he, hpress⟩ := hp
  cases hs with
  | failed hr => cases hr.ok hdev hdone
  | empty hr hf =>
    have hnil : (counted w.hw).fifo.events = [] := (hr.counted_eq hf).1
    rw [hnil] at he
    cases he
  | press => rfl
  | zeroCode hr hf hz => exact absurd (hr.event_eq he hf ▸ hz) (isPress_code hpress)
  | next hr hf hp =>
    rw [hr.event_eq he hf, hpress] at hp
    cases hp

/-- A press that a scan counts at the head of the queue makes it answer true. -/
theorem Scan.counts (hs : Scan n w reads b w') (hdev : w.presence.sKeyboard.dev.isSome)
    (hdone : Hardware.Succeeds w.hw w'.hw) {r : World} (hr : r ∈ reads)
    (hp : HeadPress (counted r.hw)) : b = true := by
  induction hs with
  | out w => cases hr
  | failed hread => cases hread.ok hdev hdone
  | @empty n w w' hread hf =>
    rw [List.mem_singleton] at hr
    subst hr
    have hs : Scan (n + 1) w _ false w' := .empty hread hf
    exact hs.headPress hdev hdone hp
  | press => rfl
  | @zeroCode n w w' event hread hf hz =>
    rw [List.mem_singleton] at hr
    subst hr
    have hs : Scan (n + 1) w _ false w' := .zeroCode hread hf hz
    exact hs.headPress hdev hdone hp
  | next hread hf hno hz rest ih =>
    rcases List.mem_cons.mp hr with rfl | hr
    · exact (Scan.next hread hf hno hz rest).headPress hdev hdone hp
    · refine ih ?_ (hdone.tail hread.turns hread.turn_le) hr
      rw [hread.setup.dev]
      exact hdev

/-- A press at the head of the queue when a read has taken its event is counted by the next
read, unless it is the last. -/
theorem Scan.takes_last (hs : Scan n w reads b w') (hdev : w.presence.sKeyboard.dev.isSome)
    (hdone : Hardware.Succeeds w.hw w'.hw) {r : World} (hr : r ∈ reads)
    (hcounted : (counted r.hw).fifo.events ≠ []) (hp : HeadPress (taken r.hw).waited) :
    b = true ∨ (reads.getLast? = some r ∧ HeadPress w'.hw) := by
  induction hs with
  | out w => cases hr
  | failed hread => cases hread.ok hdev hdone
  | empty hread hf =>
    rw [List.mem_singleton] at hr
    subst hr
    exact absurd (hread.counted_eq hf).1 hcounted
  | press => exact .inl rfl
  | @zeroCode n w w' event hread hf hz =>
    rw [List.mem_singleton] at hr
    subst hr
    obtain ⟨e, rest, he⟩ := List.exists_cons_of_ne_nil hcounted
    have hleft := (hread.takes (by rw [he]; rfl)).2
    refine .inr ⟨rfl, hp.mono ?_⟩
    rw [hleft]
  | @next n w u w' event reads b hread hf hno hz rest ih =>
    have hdev' : u.presence.sKeyboard.dev.isSome := by rw [hread.setup.dev]; exact hdev
    have hdone' := hdone.tail hread.turns hread.turn_le
    rcases List.mem_cons.mp hr with rfl | hr
    · obtain ⟨e, l, he⟩ := List.exists_cons_of_ne_nil hcounted
      have hleft := (hread.takes (by rw [he]; rfl)).2
      have hhead : HeadPress u.hw := hp.mono (by rw [hleft])
      cases n with
      | zero =>
        cases rest
        exact .inr ⟨rfl, hhead⟩
      | succ n => exact .inl (rest.headPress hdev' hdone' hhead.waited)
    · rcases ih hdev' hdone' hr with hb | ⟨hlast, hleft⟩
      · exact .inl hb
      · exact .inr ⟨by rw [List.getLast?_cons, hlast]; rfl, hleft⟩

/-- Every turn of a scan is a turn of one of its reads. -/
theorem Scan.covers (hs : Scan n w reads b w') (hdev : w.presence.sKeyboard.dev.isSome)
    (hdone : Hardware.Succeeds w.hw w'.hw) {k : ℕ} (hle : w.hw.turn ≤ k) (hlt : k < w'.hw.turn) :
    ∃ r ∈ reads, ∃ h ∈ readTurns r.hw, h.turn = k := by
  induction hs with
  | out w => omega
  | failed hread => cases hread.ok hdev hdone
  | empty hread => exact ⟨_, List.mem_singleton_self _, hread.covers hle hlt⟩
  | press hread => exact ⟨_, List.mem_singleton_self _, hread.covers hle hlt⟩
  | zeroCode hread => exact ⟨_, List.mem_singleton_self _, hread.covers hle hlt⟩
  | @next n w u w' event reads b hread hf hno hz rest ih =>
    by_cases hk : k < u.hw.turn
    · exact ⟨_, List.mem_cons_self .., hread.covers hle hk⟩
    · have hdev' : u.presence.sKeyboard.dev.isSome := by rw [hread.setup.dev]; exact hdev
      obtain ⟨r, hr, h, hh, hturn⟩ :=
        ih hdev' (hdone.tail hread.turns hread.turn_le) (not_lt.mp hk) hlt
      exact ⟨r, List.mem_cons_of_mem _ hr, h, hh, hturn⟩

end Scans

/-! ### The wait -/

/-- The board is one with a keyboard, and the keyboard was registered. -/
structure KeyboardUp (w : World) : Prop where
  board : ∃ board, w.presence.sBoard = some board ∧ board.desc.userInput.type = .tca8418
  dev : w.presence.sKeyboard.dev.isSome

section Keyboard

variable {w u v : World} {b : Bool}

theorem KeyboardUp.of_setup (hw : KeyboardUp w) (hsetup : SameSetup w u) : KeyboardUp u where
  board := by rw [hsetup.sBoard]; exact hw.board
  dev := by rw [hsetup.dev]; exact hw.dev

theorem KeyboardUp.tick (hw : KeyboardUp w) : KeyboardUp (ticked w) :=
  hw.of_setup ⟨rfl, rfl, rfl, rfl⟩

/-- With a keyboard a poll is a scan. -/
theorem KeyboardUp.scan (hw : KeyboardUp w) (hpoll : pf2UserPresencePoll w = (b, v)) :
    Scan 10 w (scanReads 10 w) b v := by
  obtain ⟨board, hboard, htype⟩ := hw.board
  have hs := pf2Tca8418AnyKeyPressed_scan w
  have heq : pf2UserPresencePoll w = pf2Tca8418AnyKeyPressed w := by
    rw [pf2UserPresencePoll, hboard]
    dsimp only
    rw [htype]
  rw [← heq, hpoll] at hs
  exact hs

theorem KeyboardUp.poll (hw : KeyboardUp w) (hpoll : pf2UserPresencePoll w = (b, v)) :
    KeyboardUp v := hw.of_setup (hw.scan hpoll).setup

/-- A poll that starts with a press at the head of the queue answers true. -/
theorem KeyboardUp.hit (hw : KeyboardUp w)
    (hdone : Hardware.Succeeds w.hw (pf2UserPresencePoll w).2.hw) (hp : HeadPress w.hw) :
    (pf2UserPresencePoll w).1 = true :=
  (hw.scan rfl).headPress hw.dev hdone hp.waited

end Keyboard

variable {timeoutMs : BitVec 32} {w : World}

theorem KeyboardUp.reached (ht : timeoutMs ≠ 0) (hw : KeyboardUp w) {u : World}
    (hu : (waiter timeoutMs w).Reached (ticked w) u) : KeyboardUp u := by
  induction hu with
  | refl => exact hw.tick
  | tail _ hnext ih =>
    obtain ⟨v, hpoll, rfl, -⟩ := next_timed ht hnext
    exact (ih.poll hpoll).tick.tick

/-- No transfer of the polls of a wait fails. -/
def PollsSucceed (timeoutMs : BitVec 32) (w : World) : Prop :=
  ∀ u, (waiter timeoutMs w).Reached (ticked w) u →
    Hardware.Succeeds u.hw (pf2UserPresencePoll u).2.hw

theorem pollsSucceed_of_turns (h : ∀ n, (w.hw.turns n).outcome = .done) :
    PollsSucceed timeoutMs w := by
  intro u hu n _ _
  obtain ⟨removed, hpasses⟩ := drifts_reached hu
  rw [hpasses.turns]
  exact h n

/-- The states in which the turns of a wait start: the first reading of the clock, then
the transfers of the polls, the delays and the readings after them. -/
inductive WaitTurn (timeoutMs : BitVec 32) (w : World) : Hardware → Prop
  | start : WaitTurn timeoutMs w w.hw
  | poll {u r : World} {h : Hardware} (hu : (waiter timeoutMs w).Reached (ticked w) u)
      (hr : r ∈ scanReads 10 u) (hh : h ∈ readTurns r.hw) : WaitTurn timeoutMs w h
  | pause {u v : World} {h : Hardware} (hu : (waiter timeoutMs w).Reached (ticked w) u)
      (hpoll : pf2UserPresencePoll u = (false, v)) (hh : h ∈ [v.hw, v.hw.waited]) :
      WaitTurn timeoutMs w h

/-- Every turn up to the start of an iteration, and to the end of its poll, is one of them. -/
theorem waitTurn_covers (ht : timeoutMs ≠ 0) (hw : KeyboardUp w)
    (hok : PollsSucceed timeoutMs w) {u : World}
    (hu : (waiter timeoutMs w).Reached (ticked w) u) {k : ℕ} (hle : w.hw.turn ≤ k)
    (hlt : k < (pf2UserPresencePoll u).2.hw.turn) : ∃ h, WaitTurn timeoutMs w h ∧ h.turn = k := by
  have hpolled : ∀ {u : World}, (waiter timeoutMs w).Reached (ticked w) u → u.hw.turn ≤ k →
      k < (pf2UserPresencePoll u).2.hw.turn → ∃ h, WaitTurn timeoutMs w h ∧ h.turn = k := by
    intro u hu hle hlt
    have hup := hw.reached ht hu
    obtain ⟨r, hr, h, hh, hturn⟩ := (hup.scan rfl).covers hup.dev (hok u hu) hle hlt
    exact ⟨h, .poll hu hr hh, hturn⟩
  by_cases hk : u.hw.turn ≤ k
  · exact hpolled hu hk hlt
  · clear hlt
    induction hu with
    | refl =>
      have hturn : (ticked w).hw.turn = w.hw.turn + 1 := rfl
      exact ⟨w.hw, .start, by omega⟩
    | @tail u t hu hnext ih =>
      obtain ⟨v, hpoll, rfl, -⟩ := next_timed ht hnext
      have hone : v.hw.waited.turn = v.hw.turn + 1 := rfl
      have htwo : (ticked (ticked v)).hw.turn = v.hw.turn + 2 := rfl
      by_cases hstart : u.hw.turn ≤ k
      · by_cases hend : k < v.hw.turn
        · exact hpolled hu hstart (by rw [hpoll]; exact hend)
        · obtain hk | hk : k = v.hw.turn ∨ k = v.hw.turn + 1 := by omega
          · exact ⟨v.hw, .pause hu hpoll (by simp), hk.symm⟩
          · exact ⟨v.hw.waited, .pause hu hpoll (by simp), by omega⟩
      · exact ih hstart

/-- The turns of an iteration after its last count of the queue. -/
def lateTurns (u : World) : List Hardware :=
  ((scanReads 10 u).getLast?.elim [] fun r => (readTurns r.hw).tail) ++
    [(pf2UserPresencePoll u).2.hw, (pf2UserPresencePoll u).2.hw.waited]

/-- Every press that comes to an empty queue before the deadline makes the wait return
true. -/
def PressConfirms (timeoutMs : BitVec 32) (w : World) : Prop :=
  ∀ h, WaitTurn timeoutMs w h → PressArrives (waitDeadline timeoutMs w) h →
    ∃ fuel w', pf2UserPresenceWait timeoutMs fuel w = some (true, w')

/-- In the iteration in which the time is up such a press comes after the last count. -/
def Overlooks (timeoutMs : BitVec 32) (w : World) : Prop :=
  ∃ u v, (waiter timeoutMs w).Reached (ticked w) u ∧ pf2UserPresencePoll u = (false, v) ∧
    waitDeadline timeoutMs w ≤ (espTimerGetTime (vTaskDelay v.hw)).1 ∧
    ∃ h ∈ lateTurns u, PressArrives (waitDeadline timeoutMs w) h

/-- A poll misses only presses that come after its last count, and leaves them queued. -/
theorem press_in_poll {u v r : World} {b : Bool} {h : Hardware} {deadlineUs : ℤ}
    (hu : KeyboardUp u) (hdone : Hardware.Succeeds u.hw (pf2UserPresencePoll u).2.hw)
    (hpoll : pf2UserPresencePoll u = (b, v)) (hr : r ∈ scanReads 10 u) (hh : h ∈ readTurns r.hw)
    (hp : PressArrives deadlineUs h) : b = true ∨ (h ∈ lateTurns u ∧ HeadPress v.hw) := by
  have hs := hu.scan hpoll
  rw [hpoll] at hdone
  unfold readTurns at hh
  split at hh
  · rw [List.mem_singleton] at hh
    subst hh
    exact .inl (hs.counts hu.dev hdone hr hp.head)
  · rename_i hcounted
    simp only [List.mem_cons, List.not_mem_nil, or_false] at hh
    rcases hh with rfl | rfl | rfl
    · exact .inl (hs.counts hu.dev hdone hr hp.head)
    · exact absurd hp.empty hcounted
    · rcases hs.takes_last hu.dev hdone hr hcounted hp.head with hb | ⟨hlast, hleft⟩
      · exact .inl hb
      · refine .inr ⟨List.mem_append_left _ ?_, hleft⟩
        rw [hlast]
        show taken r.hw ∈ (readTurns r.hw).tail
        rw [readTurns, if_neg hcounted]
        simp

section Timed

variable (ht : timeoutMs ≠ 0) (hw : KeyboardUp w) (hok : PollsSucceed timeoutMs w) {u : World}
  (hu : (waiter timeoutMs w).Reached (ticked w) u)
include hu

omit ht hw hok in
theorem returns_true {v : World} (hpoll : pf2UserPresencePoll u = (true, v)) :
    ∃ fuel w', pf2UserPresenceWait timeoutMs fuel w = some (true, w') := by
  obtain ⟨fuel, h⟩ := Poller.loop_iff.mpr ⟨u, hu, .hit hpoll⟩
  exact ⟨fuel, v, by rw [pf2UserPresenceWait_eq]; exact h⟩

include ht hw hok

/-- A press at the head of the queue after a poll is found by the next, if there is one. -/
theorem found_next {v : World} (hpoll : pf2UserPresencePoll u = (false, v))
    (hbefore : (espTimerGetTime (vTaskDelay v.hw)).1 < waitDeadline timeoutMs w)
    (hp : HeadPress v.hw.waited.waited) :
    ∃ fuel w', pf2UserPresenceWait timeoutMs fuel w = some (true, w') := by
  have hstop : (waiter timeoutMs w).stop v = (false, ticked (ticked v)) := by
    rw [stop_eq ht]
    exact Prod.ext (decide_eq_false (not_le.mpr hbefore)) rfl
  have hnext : (waiter timeoutMs w).Next u (ticked (ticked v)) := ⟨v, hpoll, hstop⟩
  have hreach := hu.tail hnext
  have hhit := (hw.reached ht hreach).hit (hok _ hreach) hp
  exact returns_true hreach (Prod.ext hhit rfl)

omit hw hok in
theorem gives_up {v : World} (hpoll : pf2UserPresencePoll u = (false, v))
    (hlate : waitDeadline timeoutMs w ≤ (espTimerGetTime (vTaskDelay v.hw)).1) :
    ∃ fuel, pf2UserPresenceWait timeoutMs fuel w = some (false, ticked (ticked v)) := by
  have hstop : (waiter timeoutMs w).stop v = (true, ticked (ticked v)) := by
    rw [stop_eq ht]
    exact Prod.ext (decide_eq_true hlate) rfl
  obtain ⟨fuel, h⟩ := Poller.loop_iff.mpr ⟨u, hu, .stopped hpoll hstop⟩
  exact ⟨fuel, by rw [pf2UserPresenceWait_eq]; exact h⟩

end Timed

theorem wait_unique {fuel fuel' : ℕ} {r r' : Bool × World}
    (h : pf2UserPresenceWait timeoutMs fuel w = some r)
    (h' : pf2UserPresenceWait timeoutMs fuel' w = some r') : r = r' := by
  rw [pf2UserPresenceWait_eq] at h h'
  exact Poller.loop_unique h h'

/-- The late turns are turns of the last read, or follow the poll. -/
theorem mem_lateTurns {u v : World} {b : Bool} {h : Hardware}
    (hpoll : pf2UserPresencePoll u = (b, v)) (hh : h ∈ lateTurns u) :
    (∃ r ∈ scanReads 10 u, h ∈ readTurns r.hw) ∨ h ∈ [v.hw, v.hw.waited] := by
  rcases List.mem_append.mp hh with hread | hpause
  · cases hlast : (scanReads 10 u).getLast? with
    | none =>
      rw [hlast] at hread
      cases hread
    | some r =>
      rw [hlast] at hread
      exact .inl ⟨r, List.mem_of_getLast? hlast, List.mem_of_mem_tail hread⟩
  · rw [hpoll] at hpause
    exact .inr hpause

/-- A press that comes in the delay or in the reading of the clock is at the head after
both. -/
theorem PressArrives.pause {deadlineUs : ℤ} {h k : Hardware} (hp : PressArrives deadlineUs h)
    (hh : h ∈ [k, k.waited]) : HeadPress k.waited.waited := by
  simp only [List.mem_cons, List.not_mem_nil, or_false] at hh
  rcases hh with rfl | rfl
  · exact hp.head.waited
  · exact hp.head

/-- A press that is overlooked stays at the head of the queue. -/
theorem overlooked_stays (ht : timeoutMs ≠ 0) (hw : KeyboardUp w)
    (hok : PollsSucceed timeoutMs w) (h : Overlooks timeoutMs w) :
    ∃ fuel w', pf2UserPresenceWait timeoutMs fuel w = some (false, w') ∧ HeadPress w'.hw := by
  obtain ⟨u, v, hu, hpoll, hlate, h, hh, hp⟩ := h
  obtain ⟨fuel, hmissed⟩ := gives_up ht hu hpoll hlate
  refine ⟨fuel, _, hmissed, ?_⟩
  rcases mem_lateTurns hpoll hh with ⟨r, hr, hread⟩ | hpause
  · rcases press_in_poll (hw.reached ht hu) (hok u hu) hpoll hr hread hp with hb | ⟨-, hleft⟩
    · cases hb
    · exact hleft.waited.waited
  · exact hp.pause hpause

/-- With a keyboard and no failed transfer no press is missed exactly where the iteration
in which the time is up has none after its last count of the queue. -/
theorem press_confirms_iff (ht : timeoutMs ≠ 0) (hw : KeyboardUp w)
    (hok : PollsSucceed timeoutMs w) : PressConfirms timeoutMs w ↔ ¬ Overlooks timeoutMs w := by
  constructor
  · intro hconfirms hover
    obtain ⟨fuel, w', hmissed, -⟩ := overlooked_stays ht hw hok hover
    obtain ⟨u, v, hu, hpoll, -, h, hh, hp⟩ := hover
    have hturn : WaitTurn timeoutMs w h := by
      rcases mem_lateTurns hpoll hh with ⟨r, hr, hread⟩ | hpause
      · exact .poll hu hr hread
      · exact .pause hu hpoll hpause
    obtain ⟨fuel', w'', hfound⟩ := hconfirms h hturn hp
    cases wait_unique hfound hmissed
  · intro hnone h hturn hp
    -- in an iteration with a late press the loop goes on, and the next poll finds it
    have hgoesOn : ∀ {u v}, (waiter timeoutMs w).Reached (ticked w) u →
        pf2UserPresencePoll u = (false, v) → h ∈ lateTurns u → HeadPress v.hw.waited.waited →
        ∃ fuel w', pf2UserPresenceWait timeoutMs fuel w = some (true, w') := by
      intro u v hu hpoll hlate hhead
      refine found_next ht hw hok hu hpoll (not_le.mp fun htime => hnone ?_) hhead
      exact ⟨u, v, hu, hpoll, htime, h, hlate, hp⟩
    cases hturn with
    | start =>
      have hhit := hw.tick.hit (hok _ .refl) hp.head
      exact returns_true .refl (Prod.ext hhit rfl)
    | @poll u r _ hu hr hh =>
      rcases hpoll : pf2UserPresencePoll u with ⟨b, v⟩
      rcases press_in_poll (hw.reached ht hu) (hok u hu) hpoll hr hh hp with rfl | ⟨hlate, hleft⟩
      · exact returns_true hu hpoll
      · cases b with
        | true => exact returns_true hu hpoll
        | false => exact hgoesOn hu hpoll hlate hleft.waited.waited
    | @pause u v _ hu hpoll hh =>
      have hlate : h ∈ lateTurns u := by
        refine List.mem_append_right _ ?_
        rw [hpoll]
        exact hh
      exact hgoesOn hu hpoll hlate (hp.pause hh)

/-- An initialised Cardputer-Adv; a key goes down in the delay of the first iteration of a
wait, before whatever else happens in it. -/
def pressInDelay (after : List Stimulus) : World :=
  (picoFido2PresenceInit cardputerAdv
    (boot (.start (stimuliAt 14 (.key 0x81 :: after))))).2

theorem turns_picoFido2PresenceInit (cfg : Kconfig) (w : World) :
    (picoFido2PresenceInit cfg w).2.hw.turns = w.hw.turns := by
  have hinit := PresenceInit.of_eq (Prod.mk.eta (p := picoFido2PresenceInit cfg w)).symm
  exact hinit.elapses.turns

theorem pollsSucceed_pressInDelay (timeoutMs : BitVec 32) (after : List Stimulus) :
    PollsSucceed timeoutMs (pressInDelay after) := by
  refine pollsSucceed_of_turns fun n => ?_
  rw [pressInDelay, turns_picoFido2PresenceInit]
  rfl

theorem press_confirms_early :
    PressConfirms 15000 (pressInDelay []) ∧ ¬ Overlooks 15000 (pressInDelay []) := by
  have hfound : (pf2UserPresenceWait 15000 2 (pressInDelay [])).map Prod.fst = some true := by
    decide +kernel
  obtain ⟨⟨b, w'⟩, hr, rfl⟩ := Option.map_eq_some_iff.mp hfound
  have hconfirms : PressConfirms 15000 (pressInDelay []) := fun _ _ _ => ⟨2, w', hr⟩
  have hboard : (pressInDelay []).presence.sBoard = some ⟨1, cardputerAdvDesc⟩ := by
    decide +kernel
  have hup : KeyboardUp (pressInDelay []) := ⟨⟨_, hboard, rfl⟩, by decide +kernel⟩
  have hok := pollsSucceed_pressInDelay 15000 []
  exact ⟨hconfirms, (press_confirms_iff (by decide) hup hok).mp hconfirms⟩

/-- With a time limit of one millisecond the press comes in time, and the wait ends without
another poll. -/
theorem late_press_missed : KeyboardUp (pressInDelay [.elapse 10000]) ∧
    PollsSucceed 1 (pressInDelay [.elapse 10000]) ∧
    waitDeadline 1 (pressInDelay [.elapse 10000]) = 1000 ∧
    ¬ PressConfirms 1 (pressInDelay [.elapse 10000]) := by
  have hboard : (pressInDelay [.elapse 10000]).presence.sBoard =
      some ⟨1, cardputerAdvDesc⟩ := by decide +kernel
  refine ⟨⟨⟨_, hboard, rfl⟩, by decide +kernel⟩, pollsSucceed_pressInDelay 1 _,
    by decide +kernel, fun h => ?_⟩
  have hpoll : (pf2UserPresencePoll (ticked (pressInDelay [.elapse 10000]))).1 = false := by
    decide +kernel
  obtain ⟨fuel, w', hfound⟩ := h _ (.pause .refl (Prod.ext hpoll rfl) (List.mem_cons_self ..))
    ⟨[], 0x81, [.elapse 10000], rfl, by decide, by decide +kernel, by decide +kernel⟩
  have hmissed : (pf2UserPresenceWait 1 1 (pressInDelay [.elapse 10000])).map Prod.fst =
      some false := by decide +kernel
  obtain ⟨r, hr, hfalse⟩ := Option.map_eq_some_iff.mp hmissed
  rw [← wait_unique hfound hr] at hfalse
  cases hfalse

end PicoFido2.M5boards
