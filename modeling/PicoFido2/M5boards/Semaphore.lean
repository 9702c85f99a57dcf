import PicoFido2.M5boards.Operational
import PicoFido2.M5boards.PressInWindow
import PicoFido2.Queue.Semaphore

/-! The keyboard as a counting semaphore: a press posts, and every poll tries to acquire
once. As long as no transfer fails and no event has key code zero the calls do what these
operations do, one after the other. -/

namespace PicoFido2.M5boards

open Effect Hal Hardware Queue Transition

/-! ### What arrives -/

/-- The count of the semaphore. -/
def queuedPresses (h : Hardware) : ℕ := h.fifo.events.countP isPress

/-- The events that arrived from `h` to `k`. -/
def arrived (h k : Hardware) : List (BitVec 8) := keysOf (k.log.drop h.log.length)

def arrivedPresses (h k : Hardware) : ℕ := (arrived h k).countP isPress

theorem arrived_flow {h k : Hardware} {removed : List (BitVec 8)} (hp : Passes removed h k) :
    Queue.Flow h.fifo.events (arrived h k) removed k.fifo.events := by
  obtain ⟨new, hr⟩ := hp.records
  have hnew : arrived h k = keysOf new := by rw [arrived, hr.log, List.drop_left]
  rw [hnew]
  exact hr.fifo

/-- Time passes and turns are taken. -/
structure Later (h k : Hardware) : Prop where
  drifts : Drifts h k
  turn : h.turn ≤ k.turn

instance : IsPreorder Hardware Later where
  refl h := ⟨refl_of Drifts h, le_rfl⟩
  trans _ _ _ a b := ⟨trans_of Drifts a.drifts b.drifts, a.turn.trans b.turn⟩

theorem later_waited (h : Hardware) : Later h h.waited := ⟨(passes_waited h).drifts, Nat.le_succ _⟩

section Later

variable {h k l : Hardware} (hk : Later h k) (hl : Later k l)
include hk hl

theorem arrived_append : arrived h l = arrived h k ++ arrived k l := by
  obtain ⟨⟨_, hp⟩, -⟩ := hk
  obtain ⟨⟨_, hq⟩, -⟩ := hl
  obtain ⟨new, hr⟩ := hp.records
  obtain ⟨new', hr'⟩ := hq.records
  have hall : l.log = h.log ++ (new ++ new') := by rw [hr'.log, hr.log, List.append_assoc]
  unfold arrived
  rw [hall, List.drop_left, ← hall, hr'.log, List.drop_left, hr.log, List.drop_left, keysOf_append]

theorem arrivedPresses_add : arrivedPresses h l = arrivedPresses h k + arrivedPresses k l := by
  unfold arrivedPresses
  rw [arrived_append hk hl, List.countP_append]

end Later

/-- From `h` to `k` no transfer fails, and no event has key code zero. -/
structure Undisturbed (h k : Hardware) : Prop where
  done : Hardware.Succeeds h k
  coded : ∀ e ∈ h.fifo.events ++ arrived h k, e &&& tca8418KeyEventCodeMask ≠ 0

section Undisturbed

variable {h k l : Hardware} (hu : Undisturbed h l) (hk : Later h k) (hl : Later k l)
include hu hk hl

theorem Undisturbed.init : Undisturbed h k where
  done n hn hlt := hu.done n hn (hlt.trans_le hl.turn)
  coded e he := by
    apply hu.coded e
    rw [arrived_append hk hl, ← List.append_assoc]
    exact List.mem_append_left _ he

theorem Undisturbed.tail : Undisturbed k l := by
  obtain ⟨removed, hp⟩ := hk.drifts
  refine ⟨hu.done.tail hp.turns hk.turn, fun e he => hu.coded e ?_⟩
  -- what is queued in the middle was queued at the start or arrived
  have hflow : h.fifo.events ++ arrived h k = removed ++ k.fifo.events := arrived_flow hp
  rw [arrived_append hk hl, ← List.append_assoc, hflow, List.append_assoc]
  exact List.mem_append_right _ he

end Undisturbed

/-! ### One poll -/

/-- Nothing leaves the queue: the presses that arrive are posted. -/
theorem semRun_passes {h k : Hardware} (hp : Passes [] h k) :
    ∃ us, SemRun (queuedPresses h) (queuedPresses k) (arrivedPresses h k) [] us := by
  have hcount := (arrived_flow hp).countP isPress
  rw [List.countP_nil, Nat.zero_add] at hcount
  obtain ⟨us, hus⟩ := semRun_posts (queuedPresses h) (arrivedPresses h k)
  refine ⟨us, ?_⟩
  rwa [show queuedPresses k = queuedPresses h + arrivedPresses h k from hcount]

/-- A scan that takes no press started with none queued. -/
theorem semRun_refusal {h k : Hardware} {removed : List (BitVec 8)} (hp : Passes removed h k)
    (hno : ∀ e ∈ removed, isPress e = false) (hall : h.fifo.events <+: removed) :
    ∃ us, SemRun (queuedPresses h) (queuedPresses k) (arrivedPresses h k) [false] us := by
  have hcount := (arrived_flow hp).countP isPress
  have hremoved : removed.countP isPress = 0 :=
    List.countP_eq_zero.mpr fun e he => not_isPress hno he
  have hqueued : queuedPresses h = 0 := by
    refine List.countP_eq_zero.mpr fun e he => not_isPress hno ?_
    exact hall.subset he
  have hleft : queuedPresses k = arrivedPresses h k := by
    rw [queuedPresses] at hqueued
    rw [hremoved, hqueued, Nat.zero_add, Nat.zero_add] at hcount
    exact hcount
  obtain ⟨us, hus⟩ := semRun_posts 0 (arrivedPresses h k)
  have hrun := semRun_refused.append hus
  rw [Nat.zero_add] at hrun
  rw [hqueued, hleft]
  exact ⟨_, hrun⟩

/-- A press that is taken was queued or arrived before it was taken. -/
theorem semRun_grant {h k : Hardware} {pre : List (BitVec 8)} {p : BitVec 8}
    (hp : Passes (pre ++ [p]) h k) (hpre : ∀ e ∈ pre, isPress e = false)
    (hpress : isPress p = true) :
    ∃ us, SemRun (queuedPresses h) (queuedPresses k) (arrivedPresses h k) [true] us := by
  have hcount := (arrived_flow hp).countP isPress
  have hremoved : (pre ++ [p]).countP isPress = 1 := by
    rw [List.countP_append, List.countP_eq_zero.mpr fun e he => not_isPress hpre he]
    simp [hpress]
  obtain ⟨us, hus⟩ := semRun_posts (queuedPresses h) (arrivedPresses h k)
  have hsum : queuedPresses h + arrivedPresses h k = queuedPresses k + 1 := by
    rw [hremoved, Nat.add_comm] at hcount
    exact hcount.symm
  rw [hsum] at hus
  exact ⟨_, hus.append (semRun_granted _)⟩

/-- Ten reads are enough for the queue: a scan takes the first press of what was queued,
and answers false only where none was queued. -/
theorem Scan.semRun {w w' : World} {reads : List World} {b : Bool} (hs : Scan 10 w reads b w')
    (hdev : w.presence.sKeyboard.dev.isSome) (hu : Undisturbed w.hw w'.hw) :
    ∃ us, SemRun (queuedPresses w.hw) (queuedPresses w'.hw) (arrivedPresses w.hw w'.hw) [b] us := by
  obtain ⟨removed, hp, hdrained⟩ := hs.drained hdev hu.done
  have hflow : w.hw.fifo.events ++ arrived w.hw w'.hw = removed ++ w'.hw.fifo.events :=
    arrived_flow hp
  generalize hrest : w'.hw.fifo.events = rest at hdrained
  cases hdrained with
  | press pre hpre hpress => exact semRun_grant hp hpre hpress
  | out hno hlen =>
    refine semRun_refusal hp hno ?_
    have hle := w.hw.fifo.le_ten
    refine List.prefix_of_prefix_length_le (List.prefix_append _ (arrived w.hw w'.hw)) ?_ ?_
    · rw [hflow]
      exact List.prefix_append _ _
    · omega
  | empty hno =>
    refine semRun_refusal hp hno ⟨arrived w.hw w'.hw, ?_⟩
    rw [hflow, hrest, List.append_nil]
  | @zeroCode pre _ z hz =>
    refine absurd hz (hu.coded z ?_)
    rw [hflow]
    simp

/-! ### Waits -/

section Keyboard

variable {w w' : World} {b : Bool}

theorem KeyboardUp.scanned (hw : KeyboardUp w) (hp : Poll w b w') :
    ∃ reads, Scan 10 w reads b w' := by
  obtain ⟨board, hboard, htype⟩ := hw.board
  cases hp with
  | noBoard hb => rw [hboard] at hb; cases hb
  | scan hb ht hs => exact ⟨_, hs⟩
  | sample hb ht hk =>
    rw [hboard] at hb
    cases hb
    rw [htype] at ht
    cases ht

theorem KeyboardUp.later (hw : KeyboardUp w) (hp : Poll w b w') : Later w.hw w'.hw := by
  obtain ⟨reads, hs⟩ := hw.scanned hp
  exact ⟨hs.drifts, hs.turn_le⟩

theorem KeyboardUp.semRun (hw : KeyboardUp w) (hp : Poll w b w') (hu : Undisturbed w.hw w'.hw) :
    ∃ us, SemRun (queuedPresses w.hw) (queuedPresses w'.hw) (arrivedPresses w.hw w'.hw) [b] us := by
  obtain ⟨reads, hs⟩ := hw.scanned hp
  exact hs.semRun hw.dev hu

end Keyboard

/-- Two stretches of a call one after the other. -/
theorem semRun_append {h k l : Hardware} {as bs : List Bool} (hk : Later h k) (hl : Later k l)
    (ha : ∃ us, SemRun (queuedPresses h) (queuedPresses k) (arrivedPresses h k) as us)
    (hb : ∃ us, SemRun (queuedPresses k) (queuedPresses l) (arrivedPresses k l) bs us) :
    ∃ us, SemRun (queuedPresses h) (queuedPresses l) (arrivedPresses h l) (as ++ bs) us := by
  obtain ⟨us, hus⟩ := ha
  obtain ⟨us', hus'⟩ := hb
  rw [arrivedPresses_add hk hl]
  exact ⟨_, hus.append hus'⟩

theorem Waiting.later {w w' : World} {b : Bool} (h : Waiting w b w') (hw : KeyboardUp w) :
    Later w.hw w'.hw := by
  have htwo : ∀ u : World, Later u.hw (ticked (ticked u)).hw := fun u =>
    trans_of Later (later_waited u.hw) (later_waited u.hw.waited)
  induction h with
  | hit hp => exact hw.later hp
  | timeout hp => exact trans_of Later (hw.later hp) (htwo _)
  | @again w u' u v b hp hu _ ih =>
    have hup := hw.of_setup hp.setup
    rcases hu with rfl | rfl
    · exact trans_of Later (hw.later hp)
        (trans_of Later (later_waited u'.hw) (ih hup.tick))
    · exact trans_of Later (hw.later hp) (trans_of Later (htwo u') (ih hup.tick.tick))

theorem semRun_pause {w u : World} (hu : u = ticked w ∨ u = ticked (ticked w)) :
    Later w.hw u.hw ∧
      ∃ us, SemRun (queuedPresses w.hw) (queuedPresses u.hw) (arrivedPresses w.hw u.hw) [] us := by
  have hone := passes_waited w.hw
  rcases hu with rfl | rfl
  · exact ⟨later_waited w.hw, semRun_passes hone⟩
  · exact ⟨trans_of Later (later_waited w.hw) (later_waited w.hw.waited),
      semRun_passes (trans_of (Passes []) hone (passes_waited w.hw.waited))⟩

/-- A wait tries until it acquires or the time is up. -/
theorem Waiting.semRun {w w' : World} {b : Bool} (h : Waiting w b w') (hw : KeyboardUp w)
    (hu : Undisturbed w.hw w'.hw) :
    ∃ k us, SemRun (queuedPresses w.hw) (queuedPresses w'.hw) (arrivedPresses w.hw w'.hw)
      (List.replicate k false ++ [b]) us := by
  induction h with
  | hit hp => exact ⟨0, hw.semRun hp hu⟩
  | @timeout w v hp =>
    obtain ⟨hlater, hpause⟩ := semRun_pause (w := v) (.inr rfl)
    have hrun := semRun_append (hw.later hp) hlater
      (hw.semRun hp (hu.init (hw.later hp) hlater)) hpause
    exact ⟨0, hrun⟩
  | @again w v u w' b hp hpause rest ih =>
    have hup := hw.of_setup hp.setup
    have hupu : KeyboardUp u := by
      rcases hpause with rfl | rfl
      · exact hup.tick
      · exact hup.tick.tick
    obtain ⟨hlater, hposts⟩ := semRun_pause hpause
    have hpoll := hw.later hp
    have hrest := rest.later hupu
    have hafter : Later v.hw w'.hw := trans_of Later hlater hrest
    obtain ⟨k, hk⟩ := ih hupu ((hu.tail hpoll hafter).tail hlater hrest)
    have hrun := semRun_append hpoll hafter (hw.semRun hp (hu.init hpoll hafter))
      (semRun_append hlater hrest hposts hk)
    exact ⟨k + 1, hrun⟩

/-! ### Calls -/

/-- What a call that gave this answer asked of the semaphore. -/
inductive AsksFor : PresenceCall → Answer → List Bool → Prop where
  | init (r : Except EspErr Unit) : AsksFor .init (.status r) []
  | poll (b : Bool) : AsksFor .poll (.pressed b) [b]
  | wait (timeoutMs : BitVec 32) (k : ℕ) (b : Bool) :
      AsksFor (.wait timeoutMs) (.pressed b) (List.replicate k false ++ [b])

/-- The operations on the semaphore a call is told by. -/
structure Told (v : Visit World PresenceCall Answer) (us : SemVisits) : Prop where
  posted : posts us = arrivedPresses v.before.hw v.after.hw
  answered : AsksFor v.op v.ret (acquired us)

/-- Ready to be asked. -/
structure Serving (board : BoardPtr) (w : World) : Prop where
  ready : Ready board w
  flag : FlagMeans board w

section Calls

variable {cfg : Kconfig} {board : BoardPtr} (hb : pf2M5BoardGet cfg = some board)
  (ht : board.desc.userInput.type = .tca8418)
include hb ht

omit hb in
theorem Serving.keyboardUp {w : World} (h : Serving board w) : KeyboardUp w where
  board := ⟨board, h.ready.sBoard, ht⟩
  dev := ((h.flag h.ready.sPresenceInitialized).keyboard ht).1

omit hb in
/-- Every call is told by operations on the semaphore. -/
theorem Serving.told {w w' : World} {call : PresenceCall} {ans : Answer} (h : Serving board w)
    (hs : PresenceStep cfg w call ans w') (hu : Undisturbed w.hw w'.hw) :
    ∃ us, Path SemStep (queuedPresses w.hw) us (queuedPresses w'.hw) ∧
      Told ⟨w, call, ans, w'⟩ us := by
  have hup := h.keyboardUp ht
  have hguard : presenceGuard cfg w = (true, w) := by
    unfold presenceGuard
    rw [h.ready.sBoard]
    rfl
  cases hs with
  | @init r _ hr =>
    obtain ⟨us, hus⟩ := semRun_passes (PresenceInit.of_eq hr).elapses
    exact ⟨us, hus.path, hus.posted, by rw [hus.answered]; exact .init r⟩
  | @poll b _ hr =>
    have hp := pf2UserPresencePoll_cases w
    rw [picoFido2PresencePoll, hguard] at hr
    rw [show pf2UserPresencePoll w = (b, w') from hr] at hp
    obtain ⟨us, hus⟩ := hup.semRun hp hu
    exact ⟨us, hus.path, hus.posted, by rw [hus.answered]; exact .poll b⟩
  | @wait timeoutMs fuel b _ hr =>
    rw [picoFido2PresenceWait, hguard] at hr
    have hwaiting : Waiting (ticked w) b w' := presenceWaitLoop_waiting hr
    have hfirst := later_waited w.hw
    have hrest : Later w.hw.waited w'.hw := hwaiting.later hup.tick
    obtain ⟨k, hk⟩ := hwaiting.semRun hup.tick (hu.tail hfirst hrest)
    obtain ⟨us, hus⟩ := semRun_append hfirst hrest (semRun_passes (passes_waited w.hw)) hk
    rw [List.nil_append] at hus
    exact ⟨us, hus.path, hus.posted, by rw [hus.answered]; exact .wait timeoutMs k b⟩

omit ht in
theorem Serving.step {w w' : World} {call : PresenceCall} {ans : Answer} (h : Serving board w)
    (hs : PresenceStep cfg w call ans w') : Serving board w' :=
  ⟨h.ready.step hb hs, h.flag.step hb hs⟩

omit ht in
/-- A successful initialisation in a run from boot leaves the keyboard serving. -/
theorem serving_of_init {h₀ : Hardware} {pre : List (Visit World PresenceCall Answer)}
    {w w' : World} (hp : Path (PresenceStep cfg) (boot h₀) pre w)
    (hs : PresenceStep cfg w .init (.status (.ok ())) w') : Serving board w' := by
  refine ⟨?_, (flagMeans_run hb hp).step hb hs⟩
  cases hs with
  | init h => exact ready_of_init_ok hb (.of_eq h)

theorem simulates_semaphore : Simulates
    (fun w call ans w' => PresenceStep cfg w call ans w' ∧ Undisturbed w.hw w'.hw) SemStep
    (fun w n => Serving board w ∧ n = queuedPresses w.hw) Told := by
  rintro w call ans w' n ⟨hserving, rfl⟩ ⟨hs, hu⟩
  obtain ⟨us, hpath, htold⟩ := hserving.told ht hs hu
  exact ⟨us, _, hpath, ⟨hserving.step hb hs, rfl⟩, htold⟩

end Calls

/-! ### Runs -/

section Told

variable {v : Visit World PresenceCall Answer} {vs : List (Visit World PresenceCall Answer)}
  {us : SemVisits} {parts : List SemVisits}

theorem AsksFor.count {call : PresenceCall} {ans : Answer} {as : List Bool}
    (h : AsksFor call ans as) : as.count true = if ans.confirms then 1 else 0 := by
  cases h with
  | init => rfl
  | poll b => cases b <;> rfl
  | wait _ k b =>
    have hfalse : (List.replicate k false).count true = 0 := by
      rw [List.count_eq_zero]
      simp
    rw [List.count_append, hfalse]
    cases b <;> rfl

theorem posts_told (h : List.Forall₂ Told vs parts) : posts parts.flatten =
    (vs.map fun v => arrivedPresses v.before.hw v.after.hw).sum := by
  induction h with
  | nil => rfl
  | @cons v us vs parts htold _ ih =>
    have happend : posts (us ++ parts.flatten) = posts us + posts parts.flatten :=
      List.countP_append
    rw [List.flatten_cons, happend, ih, htold.posted, List.map_cons, List.sum_cons]

theorem acquired_told (h : List.Forall₂ Told vs parts) :
    (acquired parts.flatten).count true = vs.countP fun v => v.ret.confirms := by
  induction h with
  | nil => rfl
  | @cons v us vs parts htold _ ih =>
    have happend : acquired (us ++ parts.flatten) = acquired us ++ acquired parts.flatten :=
      List.filterMap_append
    rw [List.flatten_cons, happend, List.count_append, ih, htold.answered.count,
      List.countP_cons, Nat.add_comm]

end Told

/-- In every run from boot, from a successful initialisation of a board with a keyboard on,
as long as no transfer fails and no event has key code zero, the calls are those of a
counting semaphore: presses post, a poll tries to acquire once, and a wait tries until it
acquires or gives up. So a try fails only while no press is queued, and every press is
confirmed once or is still queued. -/
theorem presses_as_semaphore {cfg : Kconfig} {board : BoardPtr}
    (hb : pf2M5BoardGet cfg = some board) (ht : board.desc.userInput.type = .tca8418)
    {h₀ : Hardware} {vs : List (Visit World PresenceCall Answer)} {w : World}
    (hp : Path (PresenceStep cfg) (boot h₀) vs w)
    {pre post : List (Visit World PresenceCall Answer)} {v : Visit World PresenceCall Answer}
    (he : vs = pre ++ v :: post) (hop : v.op = .init) (hret : v.ret = .status (.ok ()))
    (hquiet : ∀ u ∈ post, Undisturbed u.before.hw u.after.hw) :
    (∃ parts, List.Forall₂ Told post parts ∧
      Path SemStep (queuedPresses v.after.hw) parts.flatten (queuedPresses w.hw)) ∧
    queuedPresses v.after.hw + (post.map fun u => arrivedPresses u.before.hw u.after.hw).sum =
      queuedPresses w.hw + post.countP fun u => u.ret.confirms := by
  obtain ⟨hpre, hs⟩ := hp.visit pre v post he
  rw [hop, hret] at hs
  have hserving := serving_of_init hb hpre hs
  have hrun := (hp.suffix he).restrict (P := fun u u' => Undisturbed u.hw u'.hw) hquiet
  obtain ⟨parts, n, hpath, ⟨-, rfl⟩, htold⟩ :=
    hrun.simulate (simulates_semaphore hb ht) ⟨hserving, rfl⟩
  refine ⟨⟨parts, htold, hpath⟩, ?_⟩
  rw [← posts_told htold, ← acquired_told htold]
  exact semPath_balance hpath

/-- The one press is the one that is confirmed. -/
theorem presses_as_semaphore_cardputer :
    queuedPresses initVisit.after.hw + arrivedPresses initVisit.after.hw pollVisit.after.hw =
      queuedPresses pollVisit.after.hw + 1 := by
  have hb : pf2M5BoardGet cardputerAdv = some ⟨1, cardputerAdvDesc⟩ := rfl
  have he : [initVisit, pollVisit] = [] ++ initVisit :: [pollVisit] := rfl
  have hquiet : ∀ u ∈ [pollVisit], Undisturbed u.before.hw u.after.hw := by
    intro u hu
    rw [List.mem_singleton] at hu
    subst hu
    exact ⟨fun _ _ _ => rfl, by decide +kernel⟩
  exact (presses_as_semaphore hb rfl keyRun he rfl rfl hquiet).2

end PicoFido2.M5boards
