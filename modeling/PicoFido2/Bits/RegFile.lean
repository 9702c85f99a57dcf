import Mathlib.Data.Set.Basic
import Mathlib.Logic.Function.Basic
import Mathlib.Tactic.Common

/-! A register file as a memory of single bits. A bit is addressed by its
register and its position, and a masked write changes exactly the addressed bits
of its mask. Frames are sets of bit addresses, so that writes to different
registers and to different fields of one register are compared alike. -/

namespace PicoFido2.Bits

variable {κ : Type} {w : ℕ}

/-- A register and a position in it. -/
abbrev BitAddr (κ : Type) := κ × ℕ

def bitAt (f : κ → BitVec w) (a : BitAddr κ) : Bool := (f a.1).getLsbD a.2

/-- The bits of `mask` in register `r`. -/
def field (r : κ) (mask : BitVec w) : Set (BitAddr κ) := {a | a.1 = r ∧ mask.getLsbD a.2 = true}

/-- `f` and `g` agree at every bit off `S`. -/
def SameOff (S : Set (BitAddr κ)) (f g : κ → BitVec w) : Prop := ∀ a, a ∉ S → bitAt g a = bitAt f a

variable {S T : Set (BitAddr κ)} {f g h : κ → BitVec w}

theorem SameOff.rfl : SameOff S f f := fun _ _ => Eq.refl _

theorem SameOff.trans (hfg : SameOff S f g) (hgh : SameOff S g h) : SameOff S f h :=
  fun a ha => (hgh a ha).trans (hfg a ha)

theorem SameOff.mono (hfg : SameOff S f g) (hST : S ⊆ T) : SameOff T f g :=
  fun a ha => hfg a (fun hs => ha (hST hs))

instance : IsPreorder (κ → BitVec w) (SameOff S) where
  refl _ := SameOff.rfl
  trans _ _ _ := SameOff.trans

/-- A register none of whose bits is in the frame is the same as a whole. -/
theorem SameOff.register (hfg : SameOff S f g) {r : κ} (hr : ∀ i, i < w → (r, i) ∉ S) :
    g r = f r := by
  apply BitVec.eq_of_getLsbD_eq
  intro i hi
  exact hfg (r, i) (hr i hi)

/-- The masked value: `value` on the bits of `mask`, `old` elsewhere. -/
def merge (old mask value : BitVec w) : BitVec w := (old &&& ~~~mask) ||| (value &&& mask)

theorem getLsbD_merge (old mask value : BitVec w) (i : ℕ) :
    (merge old mask value).getLsbD i =
      if mask.getLsbD i then value.getLsbD i else old.getLsbD i := by
  by_cases hi : i < w
  · simp only [merge, BitVec.getLsbD_or, BitVec.getLsbD_and, BitVec.getLsbD_not, hi, decide_true]
    cases mask.getLsbD i <;> simp
  · simp [BitVec.getLsbD_of_ge _ _ (Nat.le_of_not_lt hi)]

/-- A value already there under the mask changes nothing. -/
theorem merge_eq_self {old mask value : BitVec w}
    (h : ∀ i, mask.getLsbD i = true → value.getLsbD i = old.getLsbD i) :
    merge old mask value = old := by
  apply BitVec.eq_of_getLsbD_eq
  intro i _
  rw [getLsbD_merge]
  split
  · rename_i hm
    exact h i hm
  · rfl

variable [DecidableEq κ]

/-- A masked write: the mask's bits of one register take the value, and no other bit moves. -/
theorem bitAt_update_merge (f : κ → BitVec w) (r : κ) (mask value : BitVec w) (a : BitAddr κ) :
    bitAt (Function.update f r (merge (f r) mask value)) a =
      if a.1 = r ∧ mask.getLsbD a.2 = true then value.getLsbD a.2 else bitAt f a := by
  obtain ⟨k, i⟩ := a
  by_cases hk : k = r
  · subst hk
    by_cases hm : mask.getLsbD i = true <;> simp [bitAt, getLsbD_merge, hm]
  · simp [bitAt, hk]

theorem sameOff_update_merge (f : κ → BitVec w) (r : κ) (mask value : BitVec w) :
    SameOff (field r mask) f (Function.update f r (merge (f r) mask value)) := by
  intro a ha
  rw [bitAt_update_merge]
  exact if_neg ha

end PicoFido2.Bits
