import Mathlib.Data.Set.Prod
import PicoFido2.Raster.Window

/-! Pictures that may have been painted on in part. A mark is a place with a colour; where
a picture is stained by a set of marks every place is as it was or bears one of them. -/

namespace PicoFido2.Raster

variable {α : Type}

/-- Every place of `m'` is as in `m`, or has a colour that `A` allows there. -/
def Stains (A : Set ((ℕ × ℕ) × α)) (m m' : Picture α) : Prop :=
  ∀ x y, m' x y = m x y ∨ ((x, y), m' x y) ∈ A

variable {A B : Set ((ℕ × ℕ) × α)} {m m' m'' : Picture α}

theorem Stains.refl (A : Set ((ℕ × ℕ) × α)) (m : Picture α) : Stains A m m := fun _ _ => .inl rfl

theorem Stains.trans (h : Stains A m m') (k : Stains A m' m'') : Stains A m m'' := by
  intro x y
  rcases k x y with hk | hk
  · rw [hk]
    exact h x y
  · exact .inr hk

theorem Stains.mono (h : Stains A m m') (hAB : A ⊆ B) : Stains B m m' := fun x y =>
  (h x y).imp_right fun hA => hAB hA

namespace Window

variable {W : Window}

theorem next_mem {p : ℕ × ℕ} (hp : p ∈ W.places) : W.next p ∈ W.places := by
  simp only [places, Set.mem_ofPred_eq] at hp ⊢
  unfold next
  split
  · dsimp only
    omega
  · split
    · dsimp only
      omega
    · dsimp only
      omega

/-- A write under a pointer in the window stains one of its places. -/
theorem put_stains (c : α) (m : Picture α) {p : ℕ × ℕ} (hp : p ∈ W.places) :
    Stains (W.places ×ˢ {c}) m (W.put c (m, p)).1 := by
  intro x y
  rw [put_apply]
  split
  · rename_i hxy
    obtain ⟨rfl, rfl⟩ := hxy
    exact .inr ⟨hp, rfl⟩
  · exact .inl rfl

end Window

end PicoFido2.Raster
