import PicoFido2.M5boards.Presses
import PicoFido2.M5boards.Uninitialised
import PicoFido2.Queue.Matching

/-! At most one confirmation per press. Every confirmation is paid for by a press:
on a keyboard by the event the scan took out of the queue, on pads by the press
that turned the sample from released to pressed. What is still in the queue, or
was pressed since the last confirmation, is credit for later ones. -/

namespace PicoFido2.M5boards

open Effect Hal Hardware Queue Transition

/-! ### Credit -/

/-- A scan that returns true took a press, whatever failed. -/
theorem Scan.takes {n : ℕ} {w w' : World} {reads : List World} {b : Bool}
    (hs : Scan n w reads b w') : ∃ removed, Passes removed w.hw w'.hw ∧
      (b = true → ∃ e ∈ removed, isPress e = true) := by
  induction hs with
  | out w => exact ⟨[], refl_of (Passes []) _, by simp⟩
  | failed hr =>
    obtain ⟨removed, hp⟩ := hr.drifts
    exact ⟨removed, hp, by simp⟩
  | empty _ hf => exact ⟨_, hf, by simp⟩
  | press _ hf hp => exact ⟨_, hf, fun _ => ⟨_, List.mem_singleton_self _, hp⟩⟩
  | zeroCode _ hf _ => exact ⟨_, hf, by simp⟩
  | next _ hf _ _ _ ih =>
    obtain ⟨removed, hp, htrue⟩ := ih
    refine ⟨_, hf.trans hp, fun hb => ?_⟩
    obtain ⟨e, he, hpress⟩ := htrue hb
    exact ⟨e, List.mem_append_right _ he, hpress⟩

/-- With `k` confirmations paid for, the queue's presses are still to be spent. -/
structure QueueCredit (board : BoardPtr) (n k : ℕ) (h : Hardware) : Prop where
  le : n ≤ h.log.length
  paid : k + h.fifo.events.countP isPress ≤ presses board n h

/-- With `k` confirmations paid for, the presses from `m` on are still to be spent. -/
structure PadCredit (board : BoardPtr) (n k : ℕ) (last : Bool) (h : Hardware) (m : ℕ) : Prop where
  le : n ≤ h.log.length
  since : m ≤ h.log.length
  paid : k + presses board m h ≤ presses board n h
  armed : last = false → Armed board m h

def Credit (board : BoardPtr) (n k : ℕ) (w : World) : Prop :=
  match board.desc.userInput.type with
  | .tca8418 => QueueCredit board n k w.hw
  | .gpio => ∃ m, PadCredit board n k w.presence.sGpioLastPressed w.hw m

variable {board : BoardPtr} {n k : ℕ}

theorem credit_tca8418 (ht : board.desc.userInput.type = .tca8418) {w : World} :
    Credit board n k w ↔ QueueCredit board n k w.hw := by
  unfold Credit
  rw [ht]

theorem credit_gpio (ht : board.desc.userInput.type = .gpio) {w : World} :
    Credit board n k w ↔ ∃ m, PadCredit board n k w.presence.sGpioLastPressed w.hw m := by
  unfold Credit
  rw [ht]

theorem Credit.le {w : World} (hc : Credit board n k w) : n ≤ w.hw.log.length := by
  unfold Credit at hc
  split at hc
  · exact hc.le
  · obtain ⟨m, hm⟩ := hc
    exact hm.le

theorem Credit.paid {w : World} (hc : Credit board n k w) : k ≤ presses board n w.hw := by
  unfold Credit at hc
  split at hc
  · have := hc.paid
    omega
  · obtain ⟨m, hm⟩ := hc
    have := hm.paid
    omega

/-- The presses taken out of the queue pay for as many confirmations. -/
theorem QueueCredit.passes (ht : board.desc.userInput.type = .tca8418) {h h' : Hardware}
    (hc : QueueCredit board n k h) {removed : List (BitVec 8)} (hp : Passes removed h h') :
    QueueCredit board n (k + removed.countP isPress) h' := by
  obtain ⟨new, hr⟩ := hp.records
  have hpresses : presses board n h' = presses board n h + (keysOf new).countP isPress := by
    rw [presses_append hr.log hc.le, countP_isPressOn ht]
  have hflow := hr.fifo.countP isPress
  have hpaid := hc.paid
  refine ⟨?_, by omega⟩
  rw [hr.log, List.length_append]
  have := hc.le
  omega

theorem QueueCredit.mono {j : ℕ} {h : Hardware} (hc : QueueCredit board n k h) (hj : j ≤ k) :
    QueueCredit board n j h := ⟨hc.le, by have := hc.paid; omega⟩

theorem PadCredit.drifts (ht : board.desc.userInput.type = .gpio) {last last' : Bool}
    {h h' : Hardware} {m : ℕ} (hc : PadCredit board n k last h m) (hd : Drifts h h')
    (hlast : last' = false → last = false ∨ Armed board m h') :
    PadCredit board n k last' h' m := by
  obtain ⟨removed, hp⟩ := id hd
  obtain ⟨new, hr⟩ := hp.records
  have hlen : h'.log.length = h.log.length + new.length := by rw [hr.log, List.length_append]
  have hle := hc.le
  have hsince := hc.since
  refine ⟨by omega, by omega, ?_, fun hl => ?_⟩
  · rw [presses_append hr.log hsince, presses_append hr.log hle]
    have := hc.paid
    omega
  · rcases hlast hl with hl' | ha
    · exact (hc.armed hl').drifts ht hd hsince
    · exact ha

/-- Time passing costs nothing. -/
theorem Credit.elapses {w w' : World} (hc : Credit board n k w) (he : Elapses w w')
    (hlast : w'.presence.sGpioLastPressed = w.presence.sGpioLastPressed) :
    Credit board n k w' := by
  cases ht : board.desc.userInput.type with
  | tca8418 =>
    rw [credit_tca8418 ht] at hc ⊢
    exact hc.passes ht he
  | gpio =>
    rw [credit_gpio ht] at hc ⊢
    obtain ⟨m, hm⟩ := hc
    exact ⟨m, hm.drifts ht (Passes.drifts he) fun hl => .inl (hlast ▸ hl)⟩

/-- A sample that finds a key down for the first time spends its press. -/
theorem PadCredit.spend (ht : board.desc.userInput.type = .gpio) {h h' : Hardware} {m : ℕ}
    (hc : PadCredit board n k false h m) (hd : Drifts h h')
    (hdown : ∃ gpio ∈ keys board, isDown board (h'.pads gpio)) :
    PadCredit board n (k + 1) true h' h'.log.length := by
  have hc' : PadCredit board n k false h' m := hc.drifts ht hd fun _ => .inl rfl
  obtain ⟨gpio, hg, hgd⟩ := hdown
  obtain ⟨e, he, hpress⟩ := hc'.armed rfl gpio hg hgd
  have hpos : 0 < presses board m h' := List.countP_pos_iff.mpr ⟨e, he, hpress⟩
  have hnone : presses board h'.log.length h' = 0 := by simp [presses]
  have hpaid := hc'.paid
  exact ⟨hc'.le, le_rfl, by omega, by simp⟩

/-- A poll that confirms spends credit, and no other does. -/
theorem Credit.poll {w w' : World} {b : Bool} (hc : Credit board n k w)
    (hb : w.presence.sBoard = some board) (hp : Poll w b w') :
    Credit board n (k + b.toNat) w' := by
  cases hp with
  | noBoard hnone => rw [hb] at hnone; cases hnone
  | scan hb' ht hs =>
    rw [hb] at hb'
    cases hb'
    rw [credit_tca8418 ht] at hc ⊢
    obtain ⟨removed, hpass, htrue⟩ := hs.takes
    refine (hc.passes ht hpass).mono (Nat.add_le_add_left ?_ k)
    cases b with
    | false => exact Nat.zero_le _
    | true => exact List.countP_pos_iff.mpr (htrue rfl)
  | @sample board' now u hb' ht hk =>
    rw [hb] at hb'
    cases hb'
    rw [credit_gpio ht] at hc ⊢
    obtain ⟨m, hm⟩ := hc
    have hframe := onlyHw_keysPressed passes_waited board w
    rw [hk] at hframe
    have hd : Drifts w.hw u.hw := Passes.drifts hframe.hw
    have hlast : u.presence.sGpioLastPressed = w.presence.sGpioLastPressed := by
      rw [hframe.presence]
    cases now with
    | false =>
      have hn : m ≤ w.hw.waited.log.length := by
        obtain ⟨new, hr⟩ := (passes_waited w.hw).records
        rw [hr.log, List.length_append]
        have := hm.since
        omega
      exact ⟨m, hm.drifts ht hd fun _ => .inr (armed_of_released ht hk hn)⟩
    | true =>
      rw [hlast]
      cases hl : w.presence.sGpioLastPressed with
      | false =>
        rw [hl] at hm
        have hspent := hm.spend ht hd (down_of_pressed hk)
        exact ⟨_, hspent⟩
      | true => exact ⟨m, hm.drifts ht hd (by simp)⟩

/-- A call spends credit once, if it confirms. -/
theorem Credit.asks {w w' : World} {b : Bool} (hc : Credit board n k w)
    (hb : w.presence.sBoard = some board) (ha : Asks w b w') :
    Credit board n (k + b.toNat) w' := by
  obtain ⟨hf, ht⟩ := ha.rule
    (I := fun u => u.presence.sBoard = some board ∧ Credit board n k u)
    (fun u hu => ⟨hu.1, hu.2.elapses (passes_waited u.hw) rfl⟩)
    (fun u v hu hp => ⟨hp.setup.sBoard.trans hu.1, hu.2.poll hu.1 hp⟩) ⟨hb, hc⟩
  cases b with
  | false => exact (hf rfl).2
  | true =>
    obtain ⟨u, hu, hp⟩ := ht rfl
    exact hu.2.poll hu.1 hp

/-! ### After an initialisation -/

/-- The board is chosen and its input brought up. -/
structure Ready (board : BoardPtr) (w : World) : Prop where
  sBoard : w.presence.sBoard = some board
  sPresenceInitialized : w.presence.sPresenceInitialized

theorem Ready.setup {w w' : World} (hr : Ready board w) (hs : SameSetup w w') : Ready board w' :=
  ⟨hs.sBoard.trans hr.sBoard, hs.sPresenceInitialized.trans hr.sPresenceInitialized⟩

section Init

variable {cfg : Kconfig} (hb : pf2M5BoardGet cfg = some board)
include hb

/-- A later initialisation changes nothing the presence code looks at. -/
theorem Ready.init {w w' : World} {r : Except EspErr Unit} (hr : Ready board w)
    (hi : PresenceInit cfg w r w') : w'.presence = w.presence := by
  cases hi with
  | noBoard => rfl
  | earlyFailed hb' he => exact (initEarly_flags hb' he).2
  | @late board' u _ _ hb' he hu =>
    rw [hb] at hb'
    cases hb'
    have hpres := (initEarly_flags hb he).2
    have ha : alreadyInitialized board u := by
      rw [alreadyInitialized_iff, hpres]
      exact ⟨hr.sPresenceInitialized, hr.sBoard⟩
    cases hu with
    | already => exact hpres
    | failed hno => exact absurd ha hno
    | done hno => exact absurd ha hno

/-- Which entries of the log count as presses for the confirmations that follow an
initialisation at `w`: on a keyboard all, on pads those after the first key was
read for the initial sample. -/
def countedFrom (cfg : Kconfig) (board : BoardPtr) (w : World) : ℕ :=
  match board.desc.userInput.type with
  | .tca8418 => 0
  | .gpio =>
    (presenceBringUp cfg board
      (selected board (pf2M5BoardInitEarly cfg w).2)).2.hw.waited.log.length

omit hb in
/-- The initial sample leaves no confirmation and, where no key is down, arms. -/
theorem padCredit_finished (ht : board.desc.userInput.type = .gpio)
    (hA : 0 ≤ board.desc.userInput.gpioA) (w : World) :
    PadCredit board w.hw.waited.log.length 0 (finished board w).presence.sGpioLastPressed
      (finished board w).hw w.hw.waited.log.length := by
  have hle : w.hw.waited.log.length ≤ (keysPressed board w).2.hw.log.length := by
    obtain ⟨_, hp⟩ := drifts_sample hA w
    obtain ⟨new, hr⟩ := hp.records
    rw [hr.log, List.length_append]
    omega
  rcases hk : keysPressed board w with ⟨now, u⟩
  have hf : finished board w =
      { u with presence.sGpioLastPressed := now, presence.sPresenceInitialized := true } := by
    unfold finished
    rw [ht]
    dsimp only
    rw [hk]
  rw [hk] at hle
  rw [hf]
  refine ⟨hle, hle, by simp, fun hnow => ?_⟩
  change now = false at hnow
  subst hnow
  exact armed_of_released ht hk le_rfl

/-- The initialisation that brings the input up ends ready, with no confirmation and
its credit. -/
theorem ready_of_succeeds {w w' : World} {r : Except EspErr Unit}
    (hq : board.desc.userInput.type = .tca8418 → QueueCredit board 0 0 w.hw)
    (hs : Succeeds cfg w) (hi : PresenceInit cfg w r w') :
    r = .ok () ∧ Ready board w' ∧ Credit board (countedFrom cfg board w) 0 w' := by
  have helapses := hi.elapses
  obtain ⟨board', u, u', hb', he, ha, hup⟩ := hs
  rw [hb] at hb'
  cases hb'
  cases hi with
  | noBoard hnone => rw [hb] at hnone; cases hnone
  | earlyFailed _ hf => rw [he] at hf; cases hf
  | late hb₂ he₂ hu =>
    rw [hb] at hb₂
    cases hb₂
    rw [he] at he₂
    cases he₂
    cases hu with
    | already hyes => exact absurd hyes ha
    | failed _ hf => rw [hup] at hf; cases hf
    | @done _ v _ hd =>
      rw [hup] at hd
      cases hd
      have hsel := keeps_presenceBringUp spares_samePresence cfg board (selected board u)
      rw [hup] at hsel
      have hboard := (finished_sBoard board u').trans hsel.sBoard
      refine ⟨rfl, ⟨hboard, finished_initialized board u'⟩, ?_⟩
      cases ht : board.desc.userInput.type with
      | tca8418 =>
        rw [credit_tca8418 ht, show countedFrom cfg board w = 0 by unfold countedFrom; rw [ht]]
        exact (hq ht).passes ht helapses
      | gpio =>
        have hn : countedFrom cfg board w = u'.hw.waited.log.length := by
          unfold countedFrom
          rw [ht]
          dsimp only
          rw [he]
          dsimp only
          rw [hup]
        have hA : 0 ≤ board.desc.userInput.gpioA := by
          rcases pf2M5BoardGet_cases hb with rfl | rfl
          · cases ht
          · decide
        rw [credit_gpio ht, hn]
        exact ⟨_, padCredit_finished ht hA u'⟩

theorem Ready.step {w w' : World} {call : PresenceCall} {ans : Answer} (hr : Ready board w)
    (hs : PresenceStep cfg w call ans w') : Ready board w' := by
  cases hs.move with
  | init hi =>
    have hpres := hr.init hb hi
    exact ⟨hpres ▸ hr.sBoard, hpres ▸ hr.sPresenceInitialized⟩
  | refused hg =>
    cases hg with
    | failed hnone => rw [hr.sBoard] at hnone; cases hnone
  | asked hg ha =>
    cases hg with
    | chosen => exact hr.setup ha.setup
    | lazy hnone => rw [hr.sBoard] at hnone; cases hnone

/-- A call in a ready state spends credit once, if it confirms. -/
theorem Credit.step {w w' : World} {call : PresenceCall} {ans : Answer}
    (hc : Credit board n k w) (hr : Ready board w) (hs : PresenceStep cfg w call ans w') :
    Credit board n (k + ans.confirms.toNat) w' := by
  cases hs.move with
  | init hi => exact hc.elapses hi.elapses (by rw [hr.init hb hi])
  | refused hg =>
    cases hg with
    | failed hnone => rw [hr.sBoard] at hnone; cases hnone
  | asked hg ha =>
    cases hg with
    | chosen => exact hc.asks hr.sBoard ha
    | lazy hnone => rw [hr.sBoard] at hnone; cases hnone

/-- The call that brings the input up ends ready, its own answer paid for. -/
theorem ready_of_bringsUp {w w' : World} {call : PresenceCall} {ans : Answer}
    (hq : board.desc.userInput.type = .tca8418 → QueueCredit board 0 0 w.hw)
    (hv : BringsUp cfg ⟨w, call, ans, w'⟩) (hs : PresenceStep cfg w call ans w') :
    Ready board w' ∧ Credit board (countedFrom cfg board w) ans.confirms.toNat w' := by
  obtain ⟨hwhen, hsucc⟩ := hv
  cases hs.move with
  | init hi =>
    obtain ⟨rfl, hready, hcredit⟩ := ready_of_succeeds hb hq hsucc hi
    exact ⟨hready, hcredit⟩
  | refused hg =>
    cases hg with
    | failed _ hi =>
      obtain ⟨hok, -⟩ := ready_of_succeeds hb hq hsucc hi
      cases hok
  | asked hg ha =>
    cases hg with
    | chosen hsome =>
      rcases hwhen with rfl | hnone
      · cases hs
      · rw [hsome] at hnone; cases hnone
    | lazy _ hi =>
      obtain ⟨-, hready, hcredit⟩ := ready_of_succeeds hb hq hsucc hi
      have hspent := hcredit.asks hready.sBoard ha
      rw [Nat.zero_add] at hspent
      exact ⟨hready.setup ha.setup, hspent⟩

end Init

/-! ### Runs -/

/-- The calls that returned true. -/
def trues (vs : List (Visit World PresenceCall Answer)) : List (Visit World PresenceCall Answer) :=
  vs.filter (·.ret.confirms)

theorem trues_snoc (vs : List (Visit World PresenceCall Answer))
    (v : Visit World PresenceCall Answer) :
    trues (vs ++ [v]) = trues vs ++ if v.ret.confirms then [v] else [] := by
  unfold trues
  rw [List.filter_append, List.filter_cons, List.filter_nil]

theorem length_trues_snoc (vs : List (Visit World PresenceCall Answer))
    (v : Visit World PresenceCall Answer) :
    (trues (vs ++ [v])).length = (trues vs).length + v.ret.confirms.toNat := by
  rw [trues_snoc]
  cases v.ret.confirms <;> simp

/-- Where the log from entry `n` ended when each confirmation was given. -/
def deadlines (n : ℕ) (vs : List (Visit World PresenceCall Answer)) : List ℕ :=
  (trues vs).map fun v => v.after.hw.log.length - n

/-- Before each confirmation there were presses enough for it and those before it. -/
def Timely (board : BoardPtr) (n : ℕ) (vs : List (Visit World PresenceCall Answer)) (h : Hardware) :
    Prop :=
  ∀ i d, (deadlines n vs)[i]? = some d → i < ((h.log.drop n).take d).countP (isPressOn board)

theorem Timely.snoc {vs : List (Visit World PresenceCall Answer)}
    {v : Visit World PresenceCall Answer} {h : Hardware} (hv : Timely board n vs h)
    (hd : Drifts h v.after.hw) (hn : n ≤ h.log.length)
    (hc : Credit board n (trues (vs ++ [v])).length v.after) :
    Timely board n (vs ++ [v]) v.after.hw := by
  obtain ⟨removed, hp⟩ := hd
  obtain ⟨new, hr⟩ := hp.records
  intro i d hi
  unfold deadlines at hi
  rw [trues_snoc, List.map_append, List.getElem?_append] at hi
  split at hi
  · have hlt := hv i d hi
    rw [hr.log, List.drop_append_of_le_length hn, List.take_append, List.countP_append]
    omega
  · cases hb : v.ret.confirms with
    | false => rw [hb] at hi; simp at hi
    | true =>
      rw [hb, List.getElem?_eq_some_iff] at hi
      obtain ⟨hlen, hd⟩ := hi
      simp only [if_true, List.map_cons, List.map_nil, List.length_singleton,
        List.getElem_singleton, List.length_map] at hlen hd
      have hpaid := hc.paid
      rw [length_trues_snoc, hb, Bool.toNat_true] at hpaid
      rw [List.take_of_length_le (by rw [List.length_drop]; omega)]
      exact lt_of_lt_of_le (by omega) hpaid

/-- What a run keeps once the input is brought up. -/
structure PaidFor (board : BoardPtr) (n : ℕ) (vs : List (Visit World PresenceCall Answer))
    (w : World) : Prop where
  ready : Ready board w
  credit : Credit board n (trues vs).length w
  timely : Timely board n vs w.hw

theorem PaidFor.step {cfg : Kconfig} (hb : pf2M5BoardGet cfg = some board)
    {vs : List (Visit World PresenceCall Answer)} {w w' : World} {call : PresenceCall}
    {ans : Answer} (h : PaidFor board n vs w) (hs : PresenceStep cfg w call ans w') :
    PaidFor board n (vs ++ [⟨w, call, ans, w'⟩]) w' := by
  have hcredit := h.credit.step hb h.ready hs
  rw [← length_trues_snoc vs ⟨w, call, ans, w'⟩] at hcredit
  exact ⟨h.ready.step hb hs, hcredit, h.timely.snoc hs.drifts h.credit.le hcredit⟩

theorem queueCredit_boot {cfg : Kconfig} {turns : ℕ → Turn}
    {vs : List (Visit World PresenceCall Answer)} {w : World}
    (hp : Path (PresenceStep cfg) (boot (.start turns)) vs w)
    (ht : board.desc.userInput.type = .tca8418) : QueueCredit board 0 0 w.hw := by
  refine hp.invariant (I := fun w => QueueCredit board 0 0 w.hw) ⟨Nat.zero_le _, ?_⟩ ?_
  · simp [boot, Hardware.start, KeyFifo.empty]
  · rintro w call ans w' hs hq
    obtain ⟨removed, hpass⟩ := hs.drifts
    exact (hq.passes ht hpass).mono (Nat.zero_le _)

/-- In every run from power-up, the calls that return true from the one that brings
the input up on have presses of their own, in order and each made before its
call returned, so they are never more than the presses. -/
theorem one_confirmation_per_press {cfg : Kconfig} (hb : pf2M5BoardGet cfg = some board)
    {turns : ℕ → Turn} {vs : List (Visit World PresenceCall Answer)} {w : World}
    (hp : Path (PresenceStep cfg) (boot (.start turns)) vs w)
    (pre : List (Visit World PresenceCall Answer)) (v : Visit World PresenceCall Answer)
    (post : List (Visit World PresenceCall Answer)) (he : vs = pre ++ v :: post)
    (hv : BringsUp cfg v) :
    (trues (v :: post)).length ≤ presses board (countedFrom cfg board v.before) w.hw ∧
    ∃ f : ℕ → ℕ,
      (∀ i u, (trues (v :: post))[i]? = some u →
        countedFrom cfg board v.before ≤ f i ∧ f i < u.after.hw.log.length ∧
          ∃ e, w.hw.log[f i]? = some e ∧ isPressOn board e = true) ∧
      ∀ i j, i < j → j < (trues (v :: post)).length → f i < f j := by
  obtain ⟨hpre, hstep⟩ := hp.visit pre v post he
  have hpost := hp.suffix he
  generalize hn : countedFrom cfg board v.before = n
  obtain ⟨hready, hcredit⟩ := ready_of_bringsUp hb (queueCredit_boot hpre) hv hstep
  rw [hn] at hcredit
  have hfirst : (trues [v]).length = v.ret.confirms.toNat := by
    have h := length_trues_snoc [] v
    simpa [trues] using h
  rw [← hfirst] at hcredit
  have htimely : Timely board n [v] v.after.hw := by
    intro i d hi
    cases hc : v.ret.confirms with
    | false => simp [deadlines, trues, hc] at hi
    | true =>
      have hpaid := hcredit.paid
      rw [hfirst, hc, Bool.toNat_true] at hpaid
      simp only [deadlines, trues, List.filter_cons, hc, if_true, List.filter_nil, List.map_cons,
        List.map_nil, List.getElem?_eq_some_iff, List.length_singleton,
        List.getElem_singleton] at hi
      obtain ⟨hi, rfl⟩ := hi
      rw [List.take_of_length_le (by rw [List.length_drop])]
      exact lt_of_lt_of_le hi hpaid
  have hpaidFor : PaidFor board n (v :: post) w := by
    have h := hpost.history (I := fun us s => PaidFor board n (v :: us) s)
      ⟨hready, hcredit, htimely⟩ fun us s call ans t hs h => by
        have := h.step hb hs
        rwa [List.cons_append] at this
    exact h
  refine ⟨hpaidFor.credit.paid, ?_⟩
  obtain ⟨f, hf, hmono⟩ := exists_matching (isPressOn board) (w.hw.log.drop n)
    (deadlines n (v :: post)) hpaidFor.timely
  refine ⟨fun i => n + f i, fun i u hu => ?_, fun i j hij hj => ?_⟩
  · obtain ⟨hlt, hmarked⟩ := hf i (u.after.hw.log.length - n) (by
      rw [deadlines, List.getElem?_map, hu]; rfl)
    obtain ⟨e, he, hpress⟩ := (marked_iff _).mp hmarked
    rw [List.getElem?_drop] at he
    exact ⟨Nat.le_add_right n _, by dsimp only; omega, e, he, hpress⟩
  · have := hmono i j hij (by rw [deadlines, List.length_map]; exact hj)
    dsimp only
    omega

theorem one_confirmation_cardputer :
    (trues [initVisit, pollVisit]).length ≤
      presses ⟨1, cardputerAdvDesc⟩
        (countedFrom cardputerAdv ⟨1, cardputerAdvDesc⟩ initVisit.before) pollVisit.after.hw := by
  have hup : BringsUp cardputerAdv initVisit :=
    ⟨.inl rfl, ⟨1, cardputerAdvDesc⟩, _, _, rfl, Prod.ext (by decide +kernel) rfl,
      by decide +kernel, Prod.ext (by decide +kernel) rfl⟩
  exact (one_confirmation_per_press rfl keyRun [] initVisit [pollVisit] rfl hup).1

end PicoFido2.M5boards
