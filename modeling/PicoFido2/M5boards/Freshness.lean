import PicoFido2.M5boards.Confirmations

/-! When a confirmed wait saw a fresh press. A wait starts from what earlier events
and polls left behind: an undrained press in the queue, or a key that went down
after the last sample, confirms it at once. Where neither is left over, a wait
that returns true saw a press of its own. -/

namespace PicoFido2.M5boards

open Effect Hal Hardware Queue Transition

/-- Between `w` and `w'` a press happened, and the log tells when. -/
def FreshPress (board : BoardPtr) (w w' : World) : Prop :=
  ∃ e ∈ w'.hw.log.drop w.hw.log.length, isPressOn board e = true ∧ e.within w.hw.now w'.hw.now

/-- No press is left over: none is queued, and no key is down that was up at the
last sample. -/
def NothingLeftOver (board : BoardPtr) (w : World) : Prop :=
  match board.desc.userInput.type with
  | .tca8418 => ∀ event ∈ w.hw.fifo.events, isPress event = false
  | .gpio => w.presence.sGpioLastPressed = true ∨
      ∀ gpio ∈ keys board, isDown board (w.hw.pads gpio) = false

variable {board : BoardPtr}

theorem freshPress_of_drifts {w w' : World} (hd : Drifts w.hw w'.hw)
    (hpress : ∃ e ∈ w'.hw.log.drop w.hw.log.length, isPressOn board e = true) :
    FreshPress board w w' := by
  obtain ⟨removed, hp⟩ := hd
  obtain ⟨new, hr⟩ := hp.records
  obtain ⟨e, he, hon⟩ := hpress
  refine ⟨e, he, hon, hr.within e ?_⟩
  rwa [hr.log, List.drop_left] at he

/-- Where nothing is left over, nothing is left to spend on a confirmation. -/
theorem NothingLeftOver.credit {w : World} (hq : NothingLeftOver board w) :
    Credit board w.hw.log.length 0 w := by
  unfold NothingLeftOver at hq
  cases ht : board.desc.userInput.type with
  | tca8418 =>
    rw [ht] at hq
    have hnone : w.hw.fifo.events.countP isPress = 0 :=
      List.countP_eq_zero.mpr fun event he => by simp [hq event he]
    exact (credit_tca8418 ht).mpr ⟨le_rfl, by rw [hnone]; exact Nat.zero_le _⟩
  | gpio =>
    rw [ht] at hq
    refine (credit_gpio ht).mpr ⟨_, le_rfl, le_rfl, by simp, fun hl gpio hg hdown => ?_⟩
    rcases hq with hlast | hup
    · rw [hlast] at hl; cases hl
    · rw [hup gpio hg] at hdown; cases hdown

/-- So the polls of a call that confirms saw a press. -/
theorem NothingLeftOver.asks {w w' : World} (hq : NothingLeftOver board w)
    (hb : w.presence.sBoard = some board) (ha : Asks w true w') : FreshPress board w w' := by
  have hpaid := (hq.credit.asks hb ha).paid
  rw [Bool.toNat_true] at hpaid
  exact freshPress_of_drifts ha.drifts (List.countP_pos_iff.mp hpaid)

theorem NothingLeftOver.wait {cfg : Kconfig} {w w' : World} {timeoutMs : BitVec 32}
    (hr : Ready board w) (hq : NothingLeftOver board w)
    (hs : PresenceStep cfg w (.wait timeoutMs) (.pressed true) w') : FreshPress board w w' := by
  generalize hans : Answer.pressed true = ans at hs
  cases hs.move with
  | refused => cases hans
  | asked hg ha =>
    cases hans
    cases hg with
    | chosen => exact hq.asks hr.sBoard ha
    | lazy hnone => rw [hr.sBoard] at hnone; cases hnone

/-- A successful initialisation ends ready. -/
theorem ready_of_init_ok {cfg : Kconfig} (hb : pf2M5BoardGet cfg = some board) {w w' : World}
    (hi : PresenceInit cfg w (.ok ()) w') : Ready board w' := by
  cases hi with
  | @late board' u _ _ hb' he hu =>
    rw [hb] at hb'
    cases hb'
    cases hu with
    | already ha =>
      obtain ⟨hinit, hsb⟩ := alreadyInitialized_iff.mp ha
      exact ⟨hsb, hinit⟩
    | @done _ v ha hup =>
      have hsel := keeps_presenceBringUp spares_samePresence cfg board (selected board u)
      rw [hup] at hsel
      exact ⟨(finished_sBoard board v).trans hsel.sBoard, finished_initialized board v⟩

/-- In every run from boot, a wait after a successful initialisation that starts
with no press left over returns true only if a press happened during it. -/
theorem wait_confirms_fresh_press {cfg : Kconfig} (hb : pf2M5BoardGet cfg = some board)
    {h₀ : Hardware} {vs : List (Visit World PresenceCall Answer)} {w : World}
    (hp : Path (PresenceStep cfg) (boot h₀) vs w) (pre : List (Visit World PresenceCall Answer))
    (v : Visit World PresenceCall Answer) (post : List (Visit World PresenceCall Answer))
    (he : vs = pre ++ v :: post)
    (hinit : ∃ u ∈ pre, u.op = .init ∧ u.ret = .status (.ok ())) (timeoutMs : BitVec 32)
    (hop : v.op = .wait timeoutMs) (hq : NothingLeftOver board v.before)
    (htrue : v.ret = .pressed true) : FreshPress board v.before v.after := by
  obtain ⟨hpre, hstep⟩ := hp.visit pre v post he
  have hready : Ready board v.before := by
    have h := hpre.history (I := fun us s => (∃ u ∈ us, u.op = .init ∧ u.ret = .status (.ok ())) →
        Ready board s) (by simp) ?_
    · exact h hinit
    · rintro us s call ans t hs ih ⟨u, hu, hcall, hans⟩
      rcases List.mem_append.mp hu with hu | hu
      · exact (ih ⟨u, hu, hcall, hans⟩).step hb hs
      · rw [List.mem_singleton] at hu
        subst hu
        obtain rfl : call = .init := hcall
        obtain rfl : ans = .status (.ok ()) := hans
        generalize hr : Answer.status (.ok ()) = r at hs
        cases hs with
        | init h =>
          cases hr
          exact ready_of_init_ok hb (.of_eq h)
  rw [hop, htrue] at hstep
  exact hq.wait hready hstep

/-! ### Runs on the keyboard -/

/-- The state after a wait that polls at most twice. -/
def afterWait (timeoutMs : BitVec 32) (w : World) : World :=
  ((picoFido2PresenceWait cardputerAdv timeoutMs 2 w).getD (false, w)).2

theorem wait_returns (timeoutMs : BitVec 32) (w : World) {b : Bool}
    (h : (picoFido2PresenceWait cardputerAdv timeoutMs 2 w).map Prod.fst = some b) :
    PresenceStep cardputerAdv w (.wait timeoutMs) (.pressed b) (afterWait timeoutMs w) := by
  refine .wait (?_ : picoFido2PresenceWait cardputerAdv timeoutMs 2 w = _)
  unfold afterWait
  cases hr : picoFido2PresenceWait cardputerAdv timeoutMs 2 w with
  | none => rw [hr] at h; cases h
  | some r => rw [hr] at h; cases h; rfl

theorem fresh_press_cardputer : FreshPress ⟨1, cardputerAdvDesc⟩ initVisit.after
    (afterWait 15000 initVisit.after) := by
  have hwait := wait_returns 15000 initVisit.after (b := true) (by decide +kernel)
  have hquiet : NothingLeftOver ⟨1, cardputerAdvDesc⟩ initVisit.after := by
    change ∀ event ∈ initVisit.after.hw.fifo.events, isPress event = false
    decide +kernel
  exact wait_confirms_fresh_press rfl (.snoc (.snoc .nil keyInit) hwait) [initVisit]
    ⟨initVisit.after, .wait 15000, .pressed true, afterWait 15000 initVisit.after⟩ [] rfl
    ⟨initVisit, by simp, rfl, rfl⟩ 15000 rfl hquiet rfl

/-- A key goes down as a first wait runs out of time. -/
def staleTurns : ℕ → Turn := stimuliAt 14 [.elapse 10000, .key 0x81]

def staleStart : World := (picoFido2PresenceInit cardputerAdv (boot (.start staleTurns))).2

/-- The second wait returns true at once, though nothing happens during it. -/
theorem stale_press_confirms :
    ∃ vs v w, Path (PresenceStep cardputerAdv) (boot (.start staleTurns)) (vs ++ [v]) w ∧
      (∃ u ∈ vs, u.op = .init ∧ u.ret = .status (.ok ())) ∧ v.op = .wait 15000 ∧
      v.ret = .pressed true ∧ ¬ FreshPress ⟨1, cardputerAdvDesc⟩ v.before v.after := by
  have hinit : PresenceStep cardputerAdv (boot (.start staleTurns)) .init (.status (.ok ()))
      staleStart := .init (Prod.ext (by decide +kernel) rfl)
  have hfirst := wait_returns 1 staleStart (b := false) (by decide +kernel)
  have hsecond := wait_returns 15000 (afterWait 1 staleStart) (b := true) (by decide +kernel)
  refine ⟨_, _, _, .snoc (.snoc (.snoc .nil hinit) hfirst) hsecond,
    ⟨⟨boot (.start staleTurns), .init, .status (.ok ()), staleStart⟩, ?_, rfl, rfl⟩, rfl, rfl, ?_⟩
  · exact List.mem_append_left _ (List.mem_singleton_self _)
  · rintro ⟨e, he, -, -⟩
    have hnone : (afterWait 15000 (afterWait 1 staleStart)).hw.log.drop
        (afterWait 1 staleStart).hw.log.length = [] := by decide +kernel
    rw [hnone] at he
    cases he

end PicoFido2.M5boards
