import Mathlib.Data.List.Flatten
import PicoFido2.Raster.Window

/-! The LCD controller. Commands `0x2a` and `0x2b` take four bytes each and set the
columns and rows of the window, `0x2c` moves the write pointer to the window's start,
and from then on every two bytes colour one pixel. -/

namespace PicoFido2.Display

open Raster

structure Panel where
  mem : Picture (BitVec 16)
  command : BitVec 8
  params : List (BitVec 8)
  window : Window
  pointer : ℕ × ℕ

namespace Panel

/-- The controller reads a byte with the D/C pin low. -/
def onCommand (p : Panel) (c : BitVec 8) : Panel :=
  { p with
    command := c
    params := []
    pointer := if c = 0x2c then (p.window.xs, p.window.ys) else p.pointer }

/-- `n` pixels of one colour from the pointer on. -/
def write (c : BitVec 16) (n : ℕ) (p : Panel) : Panel :=
  { p with
    mem := ((p.window.put c)^[n] (p.mem, p.pointer)).1
    pointer := ((p.window.put c)^[n] (p.mem, p.pointer)).2 }

/-- What the bytes after a command do once they are complete. -/
def finish (p : Panel) (params : List (BitVec 8)) : Panel :=
  match params with
  | [hi, lo] =>
    if p.command = 0x2c then { p.write (hi ++ lo) 1 with params := [] }
    else { p with params }
  | [b₀, b₁, b₂, b₃] =>
    if p.command = 0x2a then
      { p with
        params := []
        window := { p.window with xs := (b₀ ++ b₁).toNat, xe := (b₂ ++ b₃).toNat } }
    else if p.command = 0x2b then
      { p with
        params := []
        window := { p.window with ys := (b₀ ++ b₁).toNat, ye := (b₂ ++ b₃).toNat } }
    else { p with params }
  | _ => { p with params }

/-- The controller reads a byte with the D/C pin high. -/
def onData (p : Panel) (b : BitVec 8) : Panel := p.finish (p.params ++ [b])

/-- Ready for the first byte of a pixel. -/
def Receiving (p : Panel) : Prop := p.command = 0x2c ∧ p.params = []

/-- The window is set and the pointer is at its start. -/
def aimed (x₀ y₀ x₁ y₁ : BitVec 16) (p : Panel) : Panel where
  mem := p.mem
  command := 0x2c
  params := []
  window := ⟨x₀.toNat, x₁.toNat, y₀.toNat, y₁.toNat⟩
  pointer := (x₀.toNat, y₀.toNat)

theorem receiving_aimed (x₀ y₀ x₁ y₁ : BitVec 16) (p : Panel) :
    (p.aimed x₀ y₀ x₁ y₁).Receiving := ⟨rfl, rfl⟩

theorem write_zero (c : BitVec 16) (p : Panel) : p.write c 0 = p := rfl

theorem write_add (c : BitVec 16) (n k : ℕ) (p : Panel) :
    (p.write c n).write c k = p.write c (n + k) := by
  simp only [write, Nat.add_comm n k, Function.iterate_add_apply]

theorem Receiving.write {p : Panel} (h : p.Receiving) (c : BitVec 16) (n : ℕ) :
    (p.write c n).Receiving := h

/-- The bytes of one pixel, high byte first. -/
def pixelBytes (c : BitVec 16) : List (BitVec 8) := [(c >>> 8).setWidth 8, c.setWidth 8]

theorem append_toNat (hi lo : BitVec 8) : (hi ++ lo).toNat = hi.toNat * 256 + lo.toNat := by
  rw [BitVec.toNat_append, ← Nat.shiftLeft_add_eq_or_of_lt lo.isLt, Nat.shiftLeft_eq]

theorem high_append_low (c : BitVec 16) : (c >>> 8).setWidth 8 ++ c.setWidth 8 = c := by
  apply BitVec.eq_of_toNat_eq
  have hc := c.isLt
  rw [append_toNat]
  simp only [BitVec.toNat_setWidth, BitVec.toNat_ushiftRight, Nat.shiftRight_eq_div_pow]
  omega

theorem pixel_received {p : Panel} (h : p.Receiving) (c : BitVec 16) :
    (pixelBytes c).foldl onData p = p.write c 1 := by
  obtain ⟨hcommand, hparams⟩ := h
  cases p
  simp only at hcommand hparams
  subst hcommand hparams
  simp [pixelBytes, onData, finish, write, high_append_low]

/-- A stream of pixels of one colour. -/
theorem pixels_received (c : BitVec 16) : ∀ n {p : Panel}, p.Receiving →
    (List.replicate n (pixelBytes c)).flatten.foldl onData p = p.write c n
  | 0, p, _ => (write_zero c p).symm
  | n + 1, p, h => by
    rw [List.replicate_succ, List.flatten_cons, List.foldl_append, pixel_received h,
      pixels_received c n (h.write c 1), write_add, Nat.add_comm]

/-- The whole window in one colour. -/
theorem paints_area {p : Panel} {x₀ y₀ x₁ y₁ : BitVec 16} (hx : x₀.toNat ≤ x₁.toNat)
    (hy : y₀.toNat ≤ y₁.toNat) (c : BitVec 16) :
    Paints (Window.mk x₀.toNat x₁.toNat y₀.toNat y₁.toNat).places c p.mem
      ((p.aimed x₀ y₀ x₁ y₁).write c
        (Window.mk x₀.toNat x₁.toNat y₀.toNat y₁.toNat).area).mem :=
  (Window.fill c hx hy p.mem).1

end Panel

end PicoFido2.Display
