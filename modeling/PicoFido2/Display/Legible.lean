import PicoFido2.Display.Faults

/-! What can be read off the screen. A reader looks at the corner for the status and at the
dots of every cell for a character. It reads back the status and both lines that were
drawn, up to what the glyphs do not tell: case, dash from underscore, the characters
without a glyph from each other, and spaces at the end of a line. -/

namespace PicoFido2.Display

open M5boards Raster

/-! ### Characters -/

/-- The character a glyph is read as: letters in upper case, a dash for an underscore, a
question mark for everything without a glyph of its own. -/
def appearance (c : BitVec 8) : BitVec 8 :=
  let u := upperCase c.toNat
  if u = 0x5f then 0x2d
  else if 0x30 ≤ u ∧ u ≤ 0x39 ∨ 0x41 ≤ u ∧ u ≤ 0x5a ∨ u ∈ [0x20, 0x2d, 0x2e, 0x2f, 0x3a] then
    BitVec.ofNat 8 u
  else 0x3f

/-- The characters that are read as themselves. -/
def readable : List (BitVec 8) :=
  ((List.range 256).map (BitVec.ofNat 8)).filter fun c => appearance c = c

theorem glyphFor_appearance : ∀ c : BitVec 8, glyphFor (appearance c) = glyphFor c := by
  decide +kernel

/-- No two readable characters have one glyph. -/
theorem find_glyph : ∀ c : BitVec 8,
    readable.find? (fun d => glyphFor d = glyphFor c) = some (appearance c) := by
  decide +kernel

/-- A glyph has seven rows. -/
theorem lit_bottom : ∀ (c : BitVec 8) (col : Fin 5), (glyphFor c).lit col 7 = false := by
  decide +kernel

/-- The glyph of `c` has the dots `dots`. -/
def HasDots (dots : Fin 5 → ℕ → Bool) (c : BitVec 8) : Prop :=
  ∀ col, ∀ row < 7, (glyphFor c).lit col row = dots col row

instance (dots : Fin 5 → ℕ → Bool) : DecidablePred (HasDots dots) := fun c =>
  inferInstanceAs (Decidable (∀ col, ∀ row < 7, (glyphFor c).lit col row = dots col row))

theorem glyphFor_eq_iff {c d : BitVec 8} :
    glyphFor c = glyphFor d ↔ HasDots (glyphFor d).lit c := by
  constructor
  · intro h col row _
    rw [h]
  · intro h
    apply Vector.ext
    intro i hi
    apply BitVec.eq_of_getLsbD_eq
    intro row hrow
    by_cases hseven : row < 7
    · exact h ⟨i, hi⟩ row hseven
    · obtain rfl : row = 7 := by omega
      exact (lit_bottom c ⟨i, hi⟩).trans (lit_bottom d ⟨i, hi⟩).symm

/-- The character whose dots are `dots`. -/
def readCell (dots : Fin 5 → ℕ → Bool) : BitVec 8 :=
  (readable.find? fun d => HasDots dots d).getD 0x3f

theorem readCell_eq {dots : Fin 5 → ℕ → Bool} {c : BitVec 8} (h : HasDots dots c) :
    readCell dots = appearance c := by
  have hsame : ∀ d, HasDots dots d ↔ glyphFor d = glyphFor c := by
    intro d
    rw [glyphFor_eq_iff]
    constructor
    · intro hd col row hrow
      rw [hd col row hrow, h col row hrow]
    · intro hd col row hrow
      rw [hd col row hrow, h col row hrow]
  simp only [readCell, hsame, find_glyph, Option.getD_some]

/-! ### Lines -/

/-- The dots of the cells of a line; a cell without a character is a space. -/
theorem mem_textPlaces_iff (text : List (BitVec 8)) (y : ℕ) (p : ℕ × ℕ) :
    p ∈ textPlaces text 8 y 2 ↔ ∃ k : ℕ, ∃ col : Fin 5, ∃ row < 7,
      (glyphFor (text.getD k 0x20)).lit col row ∧
        p ∈ rectPlaces (8 + 12 * k + 2 * col) (y + 2 * row) 2 2 := by
  have hcell : ∀ (k : ℕ) (col : Fin 5) (row : ℕ),
      rectPlaces (8 + k * (6 * 2) + col * 2) (y + row * 2) 2 2 =
        rectPlaces (8 + 12 * k + 2 * col) (y + 2 * row) 2 2 := by
    intro k col row
    congr 1 <;> omega
  constructor
  · rintro ⟨k, c, hget, col, row, hrow, hlit, hp⟩
    refine ⟨k, col, row, hrow, ?_, by rw [← hcell]; exact hp⟩
    rw [List.getD_eq_getElem?_getD, hget, Option.getD_some]
    exact hlit
  · rintro ⟨k, col, row, hrow, hlit, hp⟩
    rw [List.getD_eq_getElem?_getD] at hlit
    cases hget : text[k]? with
    | none =>
      rw [hget, Option.getD_none] at hlit
      have hspace : ∀ col : Fin 5, ∀ row < 7, (glyphFor 0x20).lit col row = false := by decide
      rw [hspace col row hrow] at hlit
      cases hlit
    | some c =>
      rw [hget, Option.getD_some] at hlit
      exact ⟨k, c, hget, col, row, hrow, hlit, by rw [hcell]; exact hp⟩

theorem textPlaces_row {text : List (BitVec 8)} {y : ℕ} {p : ℕ × ℕ}
    (hp : p ∈ textPlaces text 8 y 2) : 8 ≤ p.1 ∧ y ≤ p.2 ∧ p.2 < y + 14 := by
  obtain ⟨k, col, row, hrow, -, hx, -, hy, hy'⟩ := (mem_textPlaces_iff text y p).mp hp
  omega

/-- The dots of one cell are those of its character. -/
theorem mem_textPlaces_cell (text : List (BitVec 8)) (y k : ℕ) (col : Fin 5) {row : ℕ}
    (hrow : row < 7) : (8 + 12 * k + 2 * col.val, y + 2 * row) ∈ textPlaces text 8 y 2 ↔
      (glyphFor (text.getD k 0x20)).lit col row := by
  rw [mem_textPlaces_iff]
  constructor
  · rintro ⟨k', col', row', hrow', hlit, hx, hx', hy, hy'⟩
    have hcol := col.isLt
    have hcol' := col'.isLt
    obtain rfl : k = k' := by omega
    obtain rfl : row = row' := by omega
    obtain rfl : col = col' := by
      apply Fin.ext
      omega
    exact hlit
  · intro hlit
    exact ⟨k, col, row, hrow, hlit, le_refl _, Nat.lt_add_of_pos_right (by decide), le_refl _,
      Nat.lt_add_of_pos_right (by decide)⟩

/-- What is read of a line: as many characters as fit, with spaces after its end. -/
def lineText (lcd : Pf2LcdDesc) (line : Line) : List (BitVec 8) :=
  (List.range (fitting lcd.width.toNat)).map fun k => appearance (line.chars.getD k 0x20)

def readLine (lcd : Pf2LcdDesc) (m : Picture (BitVec 16)) (y : ℕ) : List (BitVec 8) :=
  (List.range (fitting lcd.width.toNat)).map fun k =>
    readCell fun col row => m (8 + 12 * k + 2 * col) (y + 2 * row) = 0xffff

def readStatus (m : Picture (BitVec 16)) : Option Pf2Status :=
  [Pf2Status.boot, .waitingForTouch, .authSuccess, .authFailure, .locked].find? fun status =>
    statusColor status = m 0 0

/-! ### Screens -/

/-- The screen shows the state and nothing else. -/
def Shows (lcd : Pf2LcdDesc) (state : Pf2DisplayState) (m : Picture (BitVec 16)) : Prop :=
  ∀ p ∈ screen lcd, (p ∈ stateLit lcd state → m p.1 p.2 = 0xffff) ∧
    (p ∉ stateLit lcd state → m p.1 p.2 = statusColor state.status)

theorem statusColor_ne_white (status : Pf2Status) : statusColor status ≠ 0xffff := by
  cases status <;> decide

section Shows

variable {lcd : Pf2LcdDesc} {state : Pf2DisplayState} {m : Picture (BitVec 16)}
  (hshows : Shows lcd state m)
include hshows

theorem Shows.white_iff {p : ℕ × ℕ} (hp : p ∈ screen lcd) :
    m p.1 p.2 = 0xffff ↔ p ∈ stateLit lcd state := by
  constructor
  · intro hwhite
    by_contra hunlit
    rw [(hshows p hp).2 hunlit] at hwhite
    exact statusColor_ne_white state.status hwhite
  · exact (hshows p hp).1

theorem Shows.readStatus_eq (hw : 0 < lcd.width.toNat) (hh : 0 < lcd.height.toNat) :
    readStatus m = some state.status := by
  have hcorner : ((0, 0) : ℕ × ℕ) ∉ stateLit lcd state := by
    rintro (hp | hp)
    · have := (textPlaces_row hp).1
      omega
    · have := (textPlaces_row hp).1
      omega
  rw [readStatus, (hshows (0, 0) ⟨hw, hh⟩).2 hcorner]
  cases state.status <;> rfl

/-- A line is read off its rows when the dots of its cells are the only ones there. -/
theorem Shows.readLine_eq (line : Line) {y : ℕ} (hh : y + 14 ≤ lcd.height.toNat)
    (hdots : ∀ k < fitting lcd.width.toNat, ∀ (col : Fin 5), ∀ row < 7,
      ((8 + 12 * k + 2 * col.val, y + 2 * row) ∈ stateLit lcd state ↔
        (glyphFor (line.chars.getD k 0x20)).lit col row)) :
    readLine lcd m y = lineText lcd line := by
  unfold readLine lineText
  apply List.map_congr_left
  intro k hk
  have hk' : k < fitting lcd.width.toNat := List.mem_range.mp hk
  have hfit := hk'
  rw [fitting_eq] at hfit
  apply readCell_eq
  intro col row hrow
  have hcol := col.isLt
  have hscreen : (8 + 12 * k + 2 * col.val, y + 2 * row) ∈ screen lcd := by
    constructor
    · show 8 + 12 * k + 2 * col.val < lcd.width.toNat
      omega
    · show y + 2 * row < lcd.height.toNat
      omega
  rw [Bool.eq_iff_iff, decide_eq_true_iff, hshows.white_iff hscreen]
  exact (hdots k hk' col row hrow).symm

end Shows

section stateLit

variable {lcd : Pf2LcdDesc} (state : Pf2DisplayState) {k : ℕ} (hk : k < fitting lcd.width.toNat)
  (col : Fin 5) {row : ℕ} (hrow : row < 7)
include hk hrow

theorem mem_fitting_cell (text : List (BitVec 8)) (y : ℕ) :
    (8 + 12 * k + 2 * col.val, y + 2 * row) ∈
        textPlaces (text.take ((lcd.width.toNat - 8) / 12)) 8 y 2 ↔
      (glyphFor (text.getD k 0x20)).lit col row := by
  rw [fitting_eq] at hk
  rw [mem_textPlaces_cell _ y k col hrow, List.getD_eq_getElem?_getD, List.getD_eq_getElem?_getD,
    List.getElem?_take_of_lt hk]

/-- The rows of the lines do not overlap. -/
theorem mem_stateLit_line1 : (8 + 12 * k + 2 * col.val, 12 + 2 * row) ∈ stateLit lcd state ↔
    (glyphFor (state.line1.chars.getD k 0x20)).lit col row := by
  rw [← mem_fitting_cell hk col hrow]
  apply or_iff_left
  intro hp
  have hrows := textPlaces_row hp
  omega

theorem mem_stateLit_line2 : (8 + 12 * k + 2 * col.val, 34 + 2 * row) ∈ stateLit lcd state ↔
    (glyphFor (state.line2.chars.getD k 0x20)).lit col row := by
  rw [← mem_fitting_cell hk col hrow]
  apply or_iff_right
  intro hp
  have hrows := textPlaces_row hp
  omega

end stateLit

/-- What a screen shows is read off it. -/
theorem Shows.read {lcd : Pf2LcdDesc} (hw : 0 < lcd.width.toNat) (hh : 48 ≤ lcd.height.toNat)
    {state : Pf2DisplayState} {m : Picture (BitVec 16)} (h : Shows lcd state m) :
    readStatus m = some state.status ∧ readLine lcd m 12 = lineText lcd state.line1 ∧
      readLine lcd m 34 = lineText lcd state.line2 := by
  refine ⟨h.readStatus_eq hw (by omega), ?_, ?_⟩
  · apply h.readLine_eq state.line1 (by omega)
    intro k hk col row hrow
    exact mem_stateLit_line1 state hk col hrow
  · apply h.readLine_eq state.line2 hh
    intro k hk col row hrow
    exact mem_stateLit_line2 state hk col hrow

theorem Shows.congr {lcd : Pf2LcdDesc} {state : Pf2DisplayState} {m m' : Picture (BitVec 16)}
    (h : Shows lcd state m) (hm : ∀ p ∈ screen lcd, m p.1 p.2 = m' p.1 p.2) :
    Shows lcd state m' := by
  intro p hp
  rw [← hm p hp]
  exact h p hp

/-- What was passed is read back off the screen: whatever the panel showed before, after a
drawing without a failed transfer the corner gives the status, and the cells of the two
lines give their characters as far as they fit, in the spelling of the glyphs. -/
theorem read_back {lcd : Pf2LcdDesc} (hw : 0 < lcd.width.toNat) (hh : 48 ≤ lcd.height.toNat)
    (state : Pf2DisplayState) {w : LcdWorld} (hup : Up lcd w) :
    let m := (displayTaskDraw state w).spi.panel.mem
    readStatus m = some state.status ∧ readLine lcd m 12 = lineText lcd state.line1 ∧
      readLine lcd m 34 = lineText lcd state.line2 := by
  have hshows : Shows lcd state (displayTaskDraw state w).spi.panel.mem :=
    displayTaskDraw_shows hw (by omega) state hup
  exact hshows.read hw hh

def greeting : Pf2DisplayState where
  status := .waitingForTouch
  line1 := ⟨[0x54, 0x6f, 0x75, 0x63, 0x68, 0x5f, 0x21], by decide, by decide⟩
  line2 := .empty

/-- "Touch_!" is read as "TOUCH-?" on the stick. -/
theorem read_back_greeting :
    let m := (displayTaskDraw greeting darkStick).spi.panel.mem
    readStatus m = some .waitingForTouch ∧
      (readLine stickS3Desc.lcd m 12).take 7 = [0x54, 0x4f, 0x55, 0x43, 0x48, 0x2d, 0x3f] := by
  have hup : Up stickS3Desc.lcd darkStick := ⟨⟨rfl, rfl⟩, fun _ _ => rfl⟩
  have hread := read_back (by decide) (by decide) greeting hup
  refine ⟨hread.1, ?_⟩
  rw [hread.2.1]
  decide +kernel

/-! ### What two drawings have in common -/

theorem mem_take_textPlaces_iff (lcd : Pf2LcdDesc) (line : Line) (y : ℕ) (p : ℕ × ℕ) :
    p ∈ textPlaces (line.chars.take ((lcd.width.toNat - 8) / 12)) 8 y 2 ↔
      ∃ k < fitting lcd.width.toNat, ∃ col : Fin 5, ∃ row < 7,
        (glyphFor (appearance (line.chars.getD k 0x20))).lit col row ∧
          p ∈ rectPlaces (8 + 12 * k + 2 * col) (y + 2 * row) 2 2 := by
  simp only [glyphFor_appearance]
  rw [mem_textPlaces_iff, ← fitting_eq]
  simp only [List.getD_eq_getElem?_getD]
  constructor
  · rintro ⟨k, col, row, hrow, hlit, hp⟩
    by_cases hk : k < fitting lcd.width.toNat
    · rw [List.getElem?_take_of_lt hk] at hlit
      exact ⟨k, hk, col, row, hrow, hlit, hp⟩
    · rw [List.getElem?_take_eq_none (not_lt.mp hk), Option.getD_none] at hlit
      have hspace : ∀ col : Fin 5, ∀ row < 7, (glyphFor 0x20).lit col row = false := by decide
      rw [hspace col row hrow] at hlit
      cases hlit
  · rintro ⟨k, hk, col, row, hrow, hlit, hp⟩
    refine ⟨k, col, row, hrow, ?_, hp⟩
    rw [List.getElem?_take_of_lt hk]
    exact hlit

theorem textPlaces_congr {lcd : Pf2LcdDesc} {line line' : Line}
    (h : lineText lcd line = lineText lcd line') (y : ℕ) :
    textPlaces (line.chars.take ((lcd.width.toNat - 8) / 12)) 8 y 2 =
      textPlaces (line'.chars.take ((lcd.width.toNat - 8) / 12)) 8 y 2 := by
  have hcells : ∀ k < fitting lcd.width.toNat,
      appearance (line.chars.getD k 0x20) = appearance (line'.chars.getD k 0x20) := by
    intro k hk
    exact List.map_inj_left.mp h k (List.mem_range.mpr hk)
  ext p
  rw [mem_take_textPlaces_iff, mem_take_textPlaces_iff]
  apply exists_congr
  intro k
  apply and_congr_right
  intro hk
  rw [hcells k hk]

/-- Two drawings look alike on the screen exactly when the statuses are the same and every
cell of either line has characters of one glyph; so no two statuses look alike, and texts
look alike that differ in case or beyond the edge of the screen. -/
theorem same_screen_iff {lcd : Pf2LcdDesc} (hw : 0 < lcd.width.toNat)
    (hh : 48 ≤ lcd.height.toNat) (s t : Pf2DisplayState) {v w : LcdWorld} (hv : Up lcd v)
    (hup : Up lcd w) :
    (∀ px py, px < lcd.width.toNat → py < lcd.height.toNat →
      (displayTaskDraw s v).spi.panel.mem px py = (displayTaskDraw t w).spi.panel.mem px py) ↔
      s.status = t.status ∧ lineText lcd s.line1 = lineText lcd t.line1 ∧
        lineText lcd s.line2 = lineText lcd t.line2 := by
  have hs : Shows lcd s (displayTaskDraw s v).spi.panel.mem :=
    displayTaskDraw_shows hw (by omega) s hv
  have ht : Shows lcd t (displayTaskDraw t w).spi.panel.mem :=
    displayTaskDraw_shows hw (by omega) t hup
  constructor
  · intro hsame
    -- the second screen shows both states, and one reading of it gives them back
    obtain ⟨hstatus, hline1, hline2⟩ :=
      (hs.congr fun p hp => hsame p.1 p.2 hp.1 hp.2).read hw hh
    obtain ⟨hstatus', hline1', hline2'⟩ := ht.read hw hh
    refine ⟨?_, hline1.symm.trans hline1', hline2.symm.trans hline2'⟩
    exact Option.some.inj (hstatus.symm.trans hstatus')
  · rintro ⟨hstatus, hline1, hline2⟩ px py hx hy
    have hlit : stateLit lcd s = stateLit lcd t := by
      unfold stateLit
      rw [textPlaces_congr hline1, textPlaces_congr hline2]
    have hshows := hs (px, py) ⟨hx, hy⟩
    have hshows' := ht (px, py) ⟨hx, hy⟩
    rw [hlit, hstatus] at hshows
    by_cases hp : (px, py) ∈ stateLit lcd t
    · exact (hshows.1 hp).trans (hshows'.1 hp).symm
    · exact (hshows.2 hp).trans (hshows'.2 hp).symm

def blankGreeting : Pf2DisplayState where
  status := .waitingForTouch
  line1 := .empty
  line2 := .empty

/-- With the same status, the text makes the difference. -/
theorem same_screen_iff_greeting :
    ¬∀ px py, px < stickS3Desc.lcd.width.toNat → py < stickS3Desc.lcd.height.toNat →
      (displayTaskDraw greeting darkStick).spi.panel.mem px py =
        (displayTaskDraw blankGreeting darkStick).spi.panel.mem px py := by
  have hup : Up stickS3Desc.lcd darkStick := ⟨⟨rfl, rfl⟩, fun _ _ => rfl⟩
  rw [same_screen_iff (by decide) (by decide) greeting blankGreeting hup hup]
  decide +kernel

end PicoFido2.Display
