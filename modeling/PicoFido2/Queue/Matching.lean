import Mathlib.Data.Nat.Nth
import Mathlib.Tactic.Common

/-! An order-preserving matching from counts: where before the `i`-th deadline at
least `i + 1` marked places of a list occur, the deadlines can be given marked
places of their own, in order and each in time. -/

namespace PicoFido2.Queue

variable {α : Type} (p : α → Bool)

/-- A place of `l` whose element is marked. -/
def Marked (l : List α) (i : ℕ) : Prop := l[i]?.any p = true

instance (l : List α) : DecidablePred (Marked p l) := fun i =>
  inferInstanceAs (Decidable (l[i]?.any p = true))

theorem marked_iff {l : List α} {i : ℕ} : Marked p l i ↔ ∃ e, l[i]? = some e ∧ p e = true :=
  Option.any_eq_true p l[i]?

theorem count_marked (l : List α) (n : ℕ) : Nat.count (Marked p l) n = (l.take n).countP p := by
  induction n with
  | zero => simp
  | succ n ih =>
    rw [Nat.count_succ, ih, List.take_add_one, List.countP_append]
    congr 1
    rw [if_congr (show Marked p l n ↔ l[n]?.any p = true from Iff.rfl) rfl rfl]
    cases l[n]? with
    | none => simp
    | some e => cases hp : p e <;> simp [hp]

theorem exists_matching (l : List α) (deadlines : List ℕ)
    (h : ∀ i d, deadlines[i]? = some d → i < (l.take d).countP p) :
    ∃ f : ℕ → ℕ, (∀ i d, deadlines[i]? = some d → f i < d ∧ Marked p l (f i)) ∧
      ∀ i j, i < j → j < deadlines.length → f i < f j := by
  have hcard : ∀ i, i < deadlines.length → ∀ hf : (Set.ofPred (Marked p l)).Finite,
      i < hf.toFinset.card := by
    intro i hi hf
    have hlt := h i deadlines[i] (List.getElem?_eq_getElem hi)
    rw [← count_marked] at hlt
    exact hlt.trans_le (Nat.count_le_card hf _)
  refine ⟨Nat.nth (Marked p l), fun i d hd => ?_, fun i j hij hj => ?_⟩
  · have hi : i < deadlines.length := (List.getElem?_eq_some_iff.mp hd).1
    have hlt := h i d hd
    rw [← count_marked] at hlt
    exact ⟨Nat.nth_lt_of_lt_count hlt, Nat.nth_mem i (hcard i hi)⟩
  · exact Nat.nth_lt_nth' hij (hcard j hj)

end PicoFido2.Queue
