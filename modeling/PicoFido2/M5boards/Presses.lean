import PicoFido2.M5boards.PresenceRuns

/-! Presses. On a board with a keyboard a press is an event put into the queue; on
a board with keys on pads it is a pad of a key going from released to pressed. An
armed state is one in which a key that is down was pressed since a given entry of
the log: a sample that finds no key down arms, and time passing keeps armed. -/

namespace PicoFido2.M5boards

open Effect Hal Hardware

/-- The pads that are keys. -/
def keys (board : BoardPtr) : List GpioNum :=
  [board.desc.userInput.gpioA, board.desc.userInput.gpioB].filter (0 ≤ ·)

theorem mem_keys {board : BoardPtr} {gpio : GpioNum} : gpio ∈ keys board ↔
    (gpio = board.desc.userInput.gpioA ∨ gpio = board.desc.userInput.gpioB) ∧ 0 ≤ gpio := by
  simp [keys]

/-- The level of a pad means its key is down. -/
def isDown (board : BoardPtr) (high : Bool) : Bool := high != board.desc.userInput.activeLow

def isPressOn (board : BoardPtr) (e : Entry) : Bool :=
  match board.desc.userInput.type, e with
  | .tca8418, .key _ event => isPress event
  | .gpio, .pad _ gpio before after =>
    decide (gpio ∈ keys board) && !isDown board before && isDown board after
  | _, _ => false

/-- The presses recorded from entry `n` of the log on. -/
def presses (board : BoardPtr) (n : ℕ) (h : Hardware) : ℕ :=
  (h.log.drop n).countP (isPressOn board)

theorem presses_append {board : BoardPtr} {n : ℕ} {h k : Hardware} {new : List Entry}
    (hlog : k.log = h.log ++ new) (hn : n ≤ h.log.length) :
    presses board n k = presses board n h + new.countP (isPressOn board) := by
  unfold presses
  rw [hlog, List.drop_append_of_le_length hn, List.countP_append]

/-- On a board with a keyboard the presses are those among the events. -/
theorem countP_isPressOn {board : BoardPtr} (ht : board.desc.userInput.type = .tca8418)
    (log : List Entry) : log.countP (isPressOn board) = (keysOf log).countP isPress := by
  induction log with
  | nil => rfl
  | cons e log ih =>
    rw [List.countP_cons, ih]
    cases e <;> simp [isPressOn, ht, keysOf, List.countP_cons]

/-! ### Samples of the keys -/

theorem gpioIsPressed_cases {board : BoardPtr} {gpio : GpioNum} {w w' : World} {b : Bool}
    (h : gpioIsPressed gpio board.desc.userInput.activeLow w = (b, w')) :
    (gpio < 0 ∧ b = false ∧ w' = w) ∨
      (0 ≤ gpio ∧ b = isDown board (w.hw.waited.pads gpio) ∧ w' = ticked w) := by
  unfold gpioIsPressed at h
  split at h
  · rename_i hneg
    cases h
    exact .inl ⟨hneg, rfl, rfl⟩
  · rename_i hpos
    refine .inr ⟨not_lt.mp hpos, ?_⟩
    simp only [gpioGetLevel, Prod.mk.injEq] at h
    obtain ⟨hb, hw⟩ := h
    refine ⟨?_, hw.symm⟩
    rw [← hb]
    rcases Bool.eq_false_or_eq_true (w.hw.waited.pads gpio) with hl | hl <;>
      cases ha : board.desc.userInput.activeLow <;> simp [isDown, hl, ha]

/-- A sample starts with the turn in which the first key is read. -/
theorem drifts_sample {board : BoardPtr} (hA : 0 ≤ board.desc.userInput.gpioA) (w : World) :
    Drifts w.hw.waited (keysPressed board w).2.hw := by
  unfold keysPressed
  rcases hr : gpioIsPressed board.desc.userInput.gpioA board.desc.userInput.activeLow w with
    ⟨_ | _, u⟩
  · rcases gpioIsPressed_cases hr with ⟨hneg, -, -⟩ | ⟨-, -, rfl⟩
    · exact absurd hA (not_le.mpr hneg)
    · exact Passes.drifts (onlyHw_gpioIsPressed passes_waited _ _ (ticked w)).hw
  · rcases gpioIsPressed_cases hr with ⟨hneg, -, -⟩ | ⟨-, -, rfl⟩
    · exact absurd hA (not_le.mpr hneg)
    · exact refl_of Drifts w.hw.waited

/-- A key that is down was pressed at entry `n` of the log or later. -/
def Armed (board : BoardPtr) (n : ℕ) (h : Hardware) : Prop :=
  ∀ gpio ∈ keys board, isDown board (h.pads gpio) →
    ∃ e ∈ h.log.drop n, isPressOn board e

section Pads

variable {board : BoardPtr} (ht : board.desc.userInput.type = .gpio)
include ht

/-- A key that is down after time passed was down before, or its press is told. -/
theorem pressed_of_passes {h k : Hardware} {new : List Entry} {r : List (BitVec 8)}
    (hr : Records h k new r) {gpio : GpioNum} (hg : gpio ∈ keys board)
    (hdown : isDown board (k.pads gpio)) :
    isDown board (h.pads gpio) ∨ ∃ e ∈ new, isPressOn board e := by
  by_cases hp : k.pads gpio = h.pads gpio
  · rw [hp] at hdown
    exact .inl hdown
  · obtain ⟨time, htime⟩ := hr.pads gpio (h.pads gpio) rfl (Bool.eq_not_of_ne hp)
    rw [Bool.eq_not_of_ne hp] at hdown
    refine .inr ⟨_, htime, ?_⟩
    simp only [isPressOn, ht, hdown, Bool.and_true, Bool.and_eq_true, decide_eq_true_eq, hg,
      true_and]
    unfold isDown at hdown ⊢
    cases hh : h.pads gpio <;> cases ha : board.desc.userInput.activeLow <;> simp_all

theorem Armed.drifts {n : ℕ} {h k : Hardware} (ha : Armed board n h) (hd : Drifts h k)
    (hn : n ≤ h.log.length) : Armed board n k := by
  obtain ⟨removed, hp⟩ := hd
  obtain ⟨new, hr⟩ := hp.records
  intro gpio hg hdown
  rw [hr.log, List.drop_append_of_le_length hn]
  rcases pressed_of_passes ht hr hg hdown with hbefore | ⟨e, he, hpress⟩
  · obtain ⟨e, he, hpress⟩ := ha gpio hg hbefore
    exact ⟨e, List.mem_append_left new he, hpress⟩
  · exact ⟨e, List.mem_append_right _ he, hpress⟩

/-- A sample that finds no key down arms from its first read on. -/
theorem armed_of_released {w w' : World} (hk : keysPressed board w = (false, w')) {n : ℕ}
    (hn : n ≤ w.hw.waited.log.length) : Armed board n w'.hw := by
  have hup : ∀ {h : Hardware} {gpio : GpioNum}, false = isDown board (h.pads gpio) →
      isDown board (h.pads gpio) = true → False := by
    intro h gpio hf htrue
    rw [← hf] at htrue
    cases htrue
  unfold keysPressed at hk
  rcases hA : gpioIsPressed board.desc.userInput.gpioA board.desc.userInput.activeLow w with
    ⟨_ | _, u⟩
  · rw [hA] at hk
    rcases gpioIsPressed_cases hA with ⟨hneg, -, rfl⟩ | ⟨hpos, hua, rfl⟩
    · rcases gpioIsPressed_cases hk with ⟨hneg', -, rfl⟩ | ⟨hpos', hub, rfl⟩
      · intro gpio hg
        rcases mem_keys.mp hg with ⟨rfl | rfl, h0⟩
        · exact absurd h0 (not_le.mpr hneg)
        · exact absurd h0 (not_le.mpr hneg')
      · intro gpio hg hdown
        rcases mem_keys.mp hg with ⟨rfl | rfl, h0⟩
        · exact absurd h0 (not_le.mpr hneg)
        · exact (hup hub hdown).elim
    · rcases gpioIsPressed_cases hk with ⟨hneg', -, rfl⟩ | ⟨hpos', hub, rfl⟩
      · intro gpio hg hdown
        rcases mem_keys.mp hg with ⟨rfl | rfl, h0⟩
        · exact (hup hua hdown).elim
        · exact absurd h0 (not_le.mpr hneg')
      · -- the first key was up at its own read, and a later press of it is in the log
        obtain ⟨new, hr⟩ := (passes_waited w.hw.waited).records
        intro gpio hg hdown
        rcases (mem_keys.mp hg).1 with rfl | rfl
        · rcases pressed_of_passes ht hr hg hdown with hbefore | ⟨e, he, hpress⟩
          · exact (hup hua hbefore).elim
          · refine ⟨e, ?_, hpress⟩
            change e ∈ w.hw.waited.waited.log.drop n
            rw [hr.log, List.drop_append_of_le_length hn]
            exact List.mem_append_right _ he
        · exact (hup hub hdown).elim
  · rw [hA] at hk
    cases hk

omit ht in
theorem down_of_pressed {w w' : World} (hk : keysPressed board w = (true, w')) :
    ∃ gpio ∈ keys board, isDown board (w'.hw.pads gpio) := by
  have hkey : ∀ {gpio : GpioNum} {u v : World},
      gpio = board.desc.userInput.gpioA ∨ gpio = board.desc.userInput.gpioB →
      gpioIsPressed gpio board.desc.userInput.activeLow u = (true, v) →
      ∃ gpio ∈ keys board, isDown board (v.hw.pads gpio) := by
    intro gpio u v hg h
    rcases gpioIsPressed_cases h with ⟨-, hf, -⟩ | ⟨hpos, hdown, rfl⟩
    · cases hf
    · exact ⟨gpio, mem_keys.mpr ⟨hg, hpos⟩, hdown.symm⟩
  unfold keysPressed at hk
  rcases hA : gpioIsPressed board.desc.userInput.gpioA board.desc.userInput.activeLow w with
    ⟨_ | _, u⟩
  · rw [hA] at hk
    exact hkey (.inr rfl) hk
  · rw [hA] at hk
    cases hk
    exact hkey (.inl rfl) hA

end Pads

end PicoFido2.M5boards
