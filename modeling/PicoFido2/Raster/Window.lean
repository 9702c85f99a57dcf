import Mathlib.Data.Set.Lattice
import Mathlib.Logic.Function.Iterate
import Mathlib.Tactic.Common

/-! Pixel memories. A picture gives every place of the grid a colour; painting a set
gives its places one colour and leaves the rest. A window writes its places row by
row through a pointer that starts over at its end, so as many writes as it has
places paint exactly the window. -/

namespace PicoFido2.Raster

variable {α ι : Type}

abbrev Picture (α : Type) := ℕ → ℕ → α

/-- `m'` is `m` with the places in `S` coloured `c`. -/
def Paints (S : Set (ℕ × ℕ)) (c : α) (m m' : Picture α) : Prop :=
  ∀ x y, ((x, y) ∈ S → m' x y = c) ∧ ((x, y) ∉ S → m' x y = m x y)

namespace Paints

variable {S T : Set (ℕ × ℕ)} {c : α} {m m' m'' : Picture α}

theorem refl (c : α) (m : Picture α) : Paints ∅ c m m := fun _ _ => ⟨by simp, fun _ => rfl⟩

theorem trans (h : Paints S c m m') (k : Paints T c m' m'') : Paints (S ∪ T) c m m'' := by
  intro x y
  obtain ⟨hin, hout⟩ := h x y
  obtain ⟨kin, kout⟩ := k x y
  constructor
  · intro hp
    by_cases hT : (x, y) ∈ T
    · exact kin hT
    · rw [kout hT]
      exact hin (hp.resolve_right hT)
  · intro hp
    rw [Set.mem_union, not_or] at hp
    rw [kout hp.2, hout hp.1]

/-- Painting one set after another paints their union. -/
theorem foldl {σ : Type} {view : σ → Picture α} {I : σ → Prop} {f : ι → σ → σ}
    {S : ι → Set (ℕ × ℕ)} (l : List ι)
    (h : ∀ i ∈ l, ∀ s, I s → I (f i s) ∧ Paints (S i) c (view s) (view (f i s))) (s : σ)
    (hs : I s) : I (l.foldl (fun s i => f i s) s) ∧
      Paints (⋃ i ∈ l, S i) c (view s) (view (l.foldl (fun s i => f i s) s)) := by
  induction l generalizing s with
  | nil => exact ⟨hs, by simpa using refl c (view s)⟩
  | cons i l ih =>
    obtain ⟨hi, hp⟩ := h i (by simp) s hs
    obtain ⟨hl, hq⟩ := ih (fun j hj => h j (by simp [hj])) (f i s) hi
    refine ⟨hl, ?_⟩
    have hall := hp.trans hq
    simpa [Set.iUnion_or, Set.iUnion_union_distrib] using hall

end Paints

/-! ### Windows -/

/-- The columns `xs` to `xe` and the rows `ys` to `ye`, all included. -/
structure Window where
  xs : ℕ
  xe : ℕ
  ys : ℕ
  ye : ℕ
  deriving DecidableEq, Repr

namespace Window

variable (W : Window) (c : α)

def places : Set (ℕ × ℕ) := {p | W.xs ≤ p.1 ∧ p.1 ≤ W.xe ∧ W.ys ≤ p.2 ∧ p.2 ≤ W.ye}

/-- The place after `p` in the window's order. -/
def next (p : ℕ × ℕ) : ℕ × ℕ :=
  if p.1 < W.xe then (p.1 + 1, p.2)
  else if p.2 < W.ye then (W.xs, p.2 + 1)
  else (W.xs, W.ys)

/-- Colour the place under the pointer and move the pointer on. -/
def put (s : Picture α × (ℕ × ℕ)) : Picture α × (ℕ × ℕ) :=
  (Function.update s.1 s.2.1 (Function.update (s.1 s.2.1) s.2.2 c), W.next s.2)

theorem put_apply (m : Picture α) (p : ℕ × ℕ) (x y : ℕ) :
    (W.put c (m, p)).1 x y = if x = p.1 ∧ y = p.2 then c else m x y := by
  by_cases hx : x = p.1
  · subst hx
    by_cases hy : y = p.2
    · subst hy; simp [put]
    · simp [put, hy]
  · simp [put, hx]

variable {W}

/-- The first `i` writes of a row colour its first `i` places. -/
theorem row_prefix (m : Picture α) (y : ℕ) :
    ∀ i, W.xs + i ≤ W.xe → (W.put c)^[i] (m, (W.xs, y)) =
      (fun px py => if W.xs ≤ px ∧ px < W.xs + i ∧ py = y then c else m px py, (W.xs + i, y))
  | 0, _ => by
    simp only [Function.iterate_zero, id_eq, Nat.add_zero, Prod.mk.injEq, and_true]
    funext px py
    rw [if_neg (by omega)]
  | i + 1, hi => by
    rw [Function.iterate_succ_apply', row_prefix m y i (by omega)]
    refine Prod.ext ?_ ?_
    · funext px py
      rw [put_apply]
      dsimp only
      rw [← ite_or]
      exact if_congr (by omega) rfl rfl
    · simp only [put, next, if_pos (show W.xs + i < W.xe by omega)]
      rw [Nat.add_assoc]

/-- The writes of a whole row colour the row and move on to the next, or start over. -/
theorem row_fill (hx : W.xs ≤ W.xe) (m : Picture α) (y : ℕ) :
    (W.put c)^[W.xe - W.xs + 1] (m, (W.xs, y)) =
      (fun px py => if W.xs ≤ px ∧ px ≤ W.xe ∧ py = y then c else m px py,
        if y < W.ye then (W.xs, y + 1) else (W.xs, W.ys)) := by
  rw [Function.iterate_succ_apply', row_prefix c m y _ (by omega)]
  refine Prod.ext ?_ ?_
  · funext px py
    rw [put_apply]
    dsimp only
    rw [← ite_or]
    exact if_congr (by omega) rfl rfl
  · simp only [put, next, if_neg (show ¬ W.xs + (W.xe - W.xs) < W.xe by omega)]

/-- The writes of the first `j` rows colour these rows. -/
theorem rows_prefix (hx : W.xs ≤ W.xe) (m : Picture α) :
    ∀ j, W.ys + j ≤ W.ye → ((W.put c)^[W.xe - W.xs + 1])^[j] (m, (W.xs, W.ys)) =
      (fun px py =>
        if W.xs ≤ px ∧ px ≤ W.xe ∧ W.ys ≤ py ∧ py < W.ys + j then c else m px py,
        (W.xs, W.ys + j))
  | 0, _ => by
    simp only [Function.iterate_zero, id_eq, Nat.add_zero, Prod.mk.injEq, and_true]
    funext px py
    rw [if_neg (by omega)]
  | j + 1, hj => by
    rw [Function.iterate_succ_apply', rows_prefix hx m j (by omega), row_fill c hx]
    refine Prod.ext ?_ ?_
    · funext px py
      dsimp only
      rw [← ite_or]
      exact if_congr (by omega) rfl rfl
    · rw [if_pos (show W.ys + j < W.ye by omega), Nat.add_assoc]

def area (W : Window) : ℕ := (W.xe - W.xs + 1) * (W.ye - W.ys + 1)

/-- As many writes as the window has places paint it, and the pointer is at its start. -/
theorem fill (hx : W.xs ≤ W.xe) (hy : W.ys ≤ W.ye) (m : Picture α) :
    Paints W.places c m ((W.put c)^[W.area] (m, (W.xs, W.ys))).1 ∧
      ((W.put c)^[W.area] (m, (W.xs, W.ys))).2 = (W.xs, W.ys) := by
  have hrows : (W.put c)^[W.area] (m, (W.xs, W.ys)) =
      (fun px py => if W.xs ≤ px ∧ px ≤ W.xe ∧ W.ys ≤ py ∧ py ≤ W.ye then c else m px py,
        (W.xs, W.ys)) := by
    rw [area, Function.iterate_mul, Function.iterate_succ_apply',
      rows_prefix c hx m _ (by omega), row_fill c hx]
    refine Prod.ext ?_ ?_
    · funext px py
      dsimp only
      rw [← ite_or]
      exact if_congr (by omega) rfl rfl
    · rw [if_neg (show ¬ W.ys + (W.ye - W.ys) < W.ye by omega)]
  rw [hrows]
  exact ⟨fun x y => ⟨fun hp => if_pos hp, fun hp => if_neg hp⟩, rfl⟩

/-- Before the window is full, the pointer stands at the place next in row order. -/
theorem pointer_after (hx : W.xs ≤ W.xe) (m : Picture α) : ∀ k, k < W.area →
    ((W.put c)^[k] (m, (W.xs, W.ys))).2 =
      (W.xs + k % (W.xe - W.xs + 1), W.ys + k / (W.xe - W.xs + 1))
  | 0, _ => by simp
  | k + 1, hk => by
    have hput : ∀ s : Picture α × (ℕ × ℕ), (W.put c s).2 = W.next s.2 := fun _ => rfl
    rw [Function.iterate_succ_apply', hput, pointer_after hx m k (by omega)]
    have hsplit := Nat.div_add_mod k (W.xe - W.xs + 1)
    have hmod := Nat.mod_lt k (show 0 < W.xe - W.xs + 1 by omega)
    generalize k % (W.xe - W.xs + 1) = r at hsplit hmod ⊢
    generalize k / (W.xe - W.xs + 1) = q at hsplit ⊢
    have hnext : k + 1 = (r + 1) + (W.xe - W.xs + 1) * q := by omega
    rw [hnext, Nat.add_mul_mod_self_left, Nat.add_mul_div_left _ _ (by omega)]
    by_cases hr : r + 1 < W.xe - W.xs + 1
    · rw [Nat.mod_eq_of_lt hr, Nat.div_eq_of_lt hr]
      simp only [next, if_pos (show W.xs + r < W.xe by omega), Nat.zero_add, Nat.add_assoc]
    · -- the row is complete, and it is not the last one
      have hrow : r + 1 = W.xe - W.xs + 1 := by omega
      have hlast : W.ys + q < W.ye := by
        rw [area, hnext, hrow] at hk
        have : q + 1 < W.ye - W.ys + 1 := by
          refine Nat.lt_of_mul_lt_mul_left (a := W.xe - W.xs + 1) ?_
          rw [Nat.mul_succ]
          omega
        omega
      rw [hrow, Nat.mod_self, Nat.div_self (by omega)]
      simp only [next, if_neg (show ¬ W.xs + r < W.xe by omega), if_pos hlast, Nat.add_zero]
      rw [Nat.add_comm 1 q, Nat.add_assoc]

end Window

end PicoFido2.Raster
