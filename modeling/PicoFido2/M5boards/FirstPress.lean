import PicoFido2.M5boards.Poll

/-! What a scan that no transfer stopped takes out of the keyboard's queue. It takes
events up to the first press, and gives up after ten of them or at the first count of
an empty queue; events that arrive between its transfers are taken in their order. -/

namespace PicoFido2.M5boards

open Effect Hal Hardware Queue

/-- One of the reads counted an empty queue. -/
def SawEmpty (reads : List World) : Prop := ∃ r ∈ reads, (counted r.hw).fifo.events = []

theorem sawEmpty_cons {r : World} {reads : List World} (hr : (counted r.hw).fifo.events ≠ []) :
    SawEmpty (r :: reads) ↔ SawEmpty reads := by
  simp [SawEmpty, hr]

/-- How a scan of at most `n` reads ended: its answer, the events it took and the queue
it left. -/
inductive Drained (n : ℕ) (reads : List World) :
    Bool → List (BitVec 8) → List (BitVec 8) → Prop where
  | press (pre : List (BitVec 8)) {rest : List (BitVec 8)} {p : BitVec 8}
      (hpre : ∀ e ∈ pre, isPress e = false) (hp : isPress p = true) (hlt : pre.length < n)
      (he : ¬ SawEmpty reads) :
      Drained n reads true (pre ++ [p]) rest
  | out {removed rest : List (BitVec 8)} (hno : ∀ e ∈ removed, isPress e = false)
      (hlen : removed.length = n) (he : ¬ SawEmpty reads) : Drained n reads false removed rest
  | empty {removed : List (BitVec 8)} (hno : ∀ e ∈ removed, isPress e = false)
      (hlt : removed.length < n) (he : SawEmpty reads) : Drained n reads false removed []
  | zeroCode (pre : List (BitVec 8)) {rest : List (BitVec 8)} {z : BitVec 8}
      (hz : z &&& tca8418KeyEventCodeMask = 0) : Drained n reads false (pre ++ [z]) rest

/-- A read that took an event which is not a press comes before the rest of the scan. -/
theorem Drained.cons {n : ℕ} {reads : List World} {b : Bool} {removed rest : List (BitVec 8)}
    (h : Drained n reads b removed rest) {e : BitVec 8} (he : isPress e = false) {r : World}
    (hr : (counted r.hw).fifo.events ≠ []) :
    Drained (n + 1) (r :: reads) b (e :: removed) rest := by
  have hall : ∀ {l : List (BitVec 8)}, (∀ x ∈ l, isPress x = false) →
      ∀ x ∈ e :: l, isPress x = false := by
    intro l hl x hx
    rcases List.mem_cons.mp hx with rfl | hx
    · exact he
    · exact hl x hx
  cases h with
  | press pre hpre hp hlt hne =>
    exact .press (e :: pre) (hall hpre) hp (by rw [List.length_cons]; omega)
      ((sawEmpty_cons hr).not.mpr hne)
  | out hno hlen hne =>
    exact .out (hall hno) (by rw [List.length_cons]; omega) ((sawEmpty_cons hr).not.mpr hne)
  | empty hno hlt hs =>
    exact .empty (hall hno) (by rw [List.length_cons]; omega) ((sawEmpty_cons hr).mpr hs)
  | zeroCode pre hz => exact .zeroCode (e :: pre) hz

/-! ### One read -/

section Read

variable {w w' : World} (hr : ReadKeyEvent w (.ok ()) w')
include hr

/-- A read that took an event had counted it. -/
theorem ReadKeyEvent.counted_ne {e : BitVec 8} (hf : Passes [e] w.hw w'.hw) :
    (counted w.hw).fifo.events ≠ [] := by
  cases hr with
  | empty hdev hcount hq =>
    have hun := (flows_of_passes hf).removed_unique (flows_of_passes (passes_waited w.hw))
    cases hun
  | event hdev hcount hq =>
    intro hnil
    rw [hnil] at hq
    cases hq

/-- A read that took no event had counted none, and left the queue empty. -/
theorem ReadKeyEvent.counted_eq (hf : Passes [] w.hw w'.hw) :
    (counted w.hw).fifo.events = [] ∧ w'.hw.fifo.events = [] := by
  cases hr with
  | empty hdev hcount hq => exact ⟨hq, hq⟩
  | event hdev hcount hq =>
    have hun := (flows_of_passes hf).removed_unique (flows_of_passes (passes_cleared true hq))
    cases hun

end Read

/-! ### The whole scan -/

/-- With a device and no failed transfer every scan ends in one of these ways. -/
theorem Scan.drained {n : ℕ} {w w' : World} {reads : List World} {b : Bool}
    (hs : Scan n w reads b w') (hdev : w.presence.sKeyboard.dev.isSome)
    (hdone : Hardware.Succeeds w.hw w'.hw) :
    ∃ removed, Passes removed w.hw w'.hw ∧ Drained n reads b removed w'.hw.fifo.events := by
  induction hs with
  | out w => exact ⟨[], refl_of (Passes []) w.hw, .out (by simp) rfl (by simp [SawEmpty])⟩
  | failed hr => cases hr.ok hdev hdone
  | empty hr hf =>
    obtain ⟨hcounted, hleft⟩ := hr.counted_eq hf
    refine ⟨[], hf, ?_⟩
    rw [hleft]
    exact .empty (by simp) (Nat.succ_pos _) ⟨_, List.mem_singleton_self _, hcounted⟩
  | press hr hf hp =>
    refine ⟨_, hf, .press [] (by simp) hp (Nat.succ_pos _) ?_⟩
    rw [sawEmpty_cons (hr.counted_ne hf)]
    simp [SawEmpty]
  | zeroCode hr hf hz => exact ⟨_, hf, .zeroCode [] hz⟩
  | @next n w u w' event reads b hr hf hp hz rest ih =>
    have hdev' : u.presence.sKeyboard.dev.isSome := by rw [hr.setup.dev]; exact hdev
    obtain ⟨removed, hpass, hdrained⟩ := ih hdev' (hdone.tail hr.turns hr.turn_le)
    exact ⟨event :: removed, hf.trans hpass, hdrained.cons hp (hr.counted_ne hf)⟩

theorem not_isPress {l : List (BitVec 8)} (hno : ∀ e ∈ l, isPress e = false) {e : BitVec 8}
    (he : e ∈ l) : ¬ isPress e = true := by
  rw [hno e he]
  simp

section Drained

variable {n : ℕ} {reads : List World} {b : Bool} {removed rest : List (BitVec 8)}
  (h : Drained n reads b removed rest) (hcode : ∀ e ∈ removed, e &&& tca8418KeyEventCodeMask ≠ 0)
include h hcode

/-- A scan that answers true took a press last. -/
theorem Drained.true_iff : b = true ↔ ∃ pre p, removed = pre ++ [p] ∧
    (∀ e ∈ pre, isPress e = false) ∧ isPress p = true ∧ pre.length < n ∧ ¬ SawEmpty reads := by
  cases h with
  | @press pre rest p hpre hp hlt hne =>
    exact ⟨fun _ => ⟨pre, p, rfl, hpre, hp, hlt, hne⟩, fun _ => rfl⟩
  | out hno hlen hne =>
    refine ⟨by simp, ?_⟩
    rintro ⟨pre, p, rfl, -, hp, -⟩
    exact (not_isPress hno (by simp) hp).elim
  | empty hno hlt hsaw =>
    refine ⟨by simp, ?_⟩
    rintro ⟨pre, p, rfl, -, hp, -⟩
    exact (not_isPress hno (by simp) hp).elim
  | @zeroCode pre rest z hz => exact absurd hz (hcode z (by simp))

/-- A scan that answers false took no press, and had no more reads or no more events. -/
theorem Drained.false_iff : b = false ↔
    (∀ e ∈ removed, isPress e = false) ∧ (removed.length = n ∨ SawEmpty reads) := by
  cases h with
  | @press pre rest p hpre hp hlt hne =>
    refine ⟨by simp, ?_⟩
    rintro ⟨hno, -⟩
    exact (not_isPress hno (by simp) hp).elim
  | out hno hlen hne => exact ⟨fun _ => ⟨hno, .inl hlen⟩, fun _ => rfl⟩
  | empty hno hlt hsaw => exact ⟨fun _ => ⟨hno, .inr hsaw⟩, fun _ => rfl⟩
  | @zeroCode pre rest z hz => exact absurd hz (hcode z (by simp))

/-- With at most as many events as reads a scan finds a press at any place, or takes all. -/
theorem Drained.short (hle : (removed ++ rest).length ≤ n) :
    (b = true ↔ ∃ e ∈ removed ++ rest, isPress e = true) ∧ (b = false → rest = []) := by
  cases h with
  | @press pre rest p hpre hp hlt hne =>
    exact ⟨⟨fun _ => ⟨p, by simp, hp⟩, fun _ => rfl⟩, by simp⟩
  | out hno hlen hne =>
    have hrest : rest = [] := by
      rw [List.length_append, hlen] at hle
      exact List.length_eq_zero_iff.mp (by omega)
    refine ⟨⟨by simp, ?_⟩, fun _ => hrest⟩
    rintro ⟨e, he, hp⟩
    rw [hrest, List.append_nil] at he
    exact (not_isPress hno he hp).elim
  | empty hno hlt hsaw =>
    refine ⟨⟨by simp, ?_⟩, fun _ => rfl⟩
    rintro ⟨e, he, hp⟩
    rw [List.append_nil] at he
    exact (not_isPress hno he hp).elim
  | @zeroCode pre rest z hz => exact absurd hz (hcode z (by simp))

end Drained

/-- With no failed transfer and no event of key code zero a scan answers whether it took a
press out of the queue before ten other events and before it counted an empty queue. It
takes the events up to that press in their order and leaves the rest in theirs; where
nothing arrives it finds a press at any position of the queue, or empties the queue. -/
theorem pf2Tca8418AnyKeyPressed_firstPress {w w' : World} {b : Bool} {new : List Entry}
    (h : pf2Tca8418AnyKeyPressed w = (b, w')) (hdev : w.presence.sKeyboard.dev.isSome)
    (hdone : Hardware.Succeeds w.hw w'.hw) (hlog : w'.hw.log = w.hw.log ++ new)
    (hcode : ∀ e ∈ w.hw.fifo.events ++ keysOf new, e &&& tca8418KeyEventCodeMask ≠ 0) :
    ∃ removed, w.hw.fifo.events ++ keysOf new = removed ++ w'.hw.fifo.events ∧
      (b = true ↔ ∃ pre p, removed = pre ++ [p] ∧ (∀ e ∈ pre, isPress e = false) ∧
        isPress p = true ∧ pre.length < 10 ∧ ¬ SawEmpty (scanReads 10 w)) ∧
      (b = false ↔ (∀ e ∈ removed, isPress e = false) ∧
        (removed.length = 10 ∨ SawEmpty (scanReads 10 w))) ∧
      (keysOf new = [] → (b = true ↔ ∃ e ∈ w.hw.fifo.events, isPress e = true) ∧
        (b = false → w'.hw.fifo.events = [])) := by
  have hs := pf2Tca8418AnyKeyPressed_scan w
  rw [h] at hs
  obtain ⟨removed, hpass, hdrained⟩ := hs.drained hdev hdone
  obtain ⟨new', hlog', hflow⟩ := flows_of_passes hpass
  have hnew : new' = new := List.append_cancel_left (hlog'.symm.trans hlog)
  subst hnew
  have hle := w.hw.fifo.le_ten
  refine ⟨removed, hflow, ?_⟩
  have heq : w.hw.fifo.events ++ keysOf new' = removed ++ w'.hw.fifo.events := hflow
  rw [heq] at hcode
  have hcode' : ∀ e ∈ removed, e &&& tca8418KeyEventCodeMask ≠ 0 := fun e he =>
    hcode e (List.mem_append_left _ he)
  refine ⟨hdrained.true_iff hcode', hdrained.false_iff hcode', fun hnone => ?_⟩
  rw [hnone, List.append_nil] at heq
  rw [heq]
  exact hdrained.short hcode' (by rw [← heq]; exact hle)

/-- A registered keyboard with a release, a press and another release queued. -/
def threeQueued : World :=
  { boot { Hardware.start quietTurns with fifo := ⟨[0x05, 0x81, 0x06], by decide⟩ } with
    presence.sKeyboard.dev := some 0 }

/-- The scan takes the release and the press, answers true and leaves the last event. -/
theorem pf2Tca8418AnyKeyPressed_firstPress_threeQueued :
    ∃ removed,
      [0x05, 0x81, 0x06] = removed ++ (pf2Tca8418AnyKeyPressed threeQueued).2.hw.fifo.events ∧
      ∃ pre p, removed = pre ++ [p] ∧ (∀ e ∈ pre, isPress e = false) ∧ isPress p = true := by
  have hb : (pf2Tca8418AnyKeyPressed threeQueued).1 = true := by decide +kernel
  have hlog : (pf2Tca8418AnyKeyPressed threeQueued).2.hw.log = threeQueued.hw.log ++ [] := by
    decide +kernel
  obtain ⟨removed, hflow, htrue, -, -⟩ :=
    pf2Tca8418AnyKeyPressed_firstPress (Prod.ext hb rfl) rfl (fun _ _ _ => rfl) hlog (by decide)
  obtain ⟨pre, p, hremoved, hpre, hp, -, -⟩ := htrue.mp rfl
  exact ⟨removed, hflow, pre, p, hremoved, hpre, hp⟩

end PicoFido2.M5boards
