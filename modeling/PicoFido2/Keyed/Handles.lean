import Mathlib.Data.List.Induction
import Mathlib.Logic.Function.Basic
import Mathlib.Tactic.Common

/-! Handles on a keyed store. Every handle has a key, and data goes under keys. A handle
has contents of its own when what is under its key is what was last written through it;
over a run this is so for all handles exactly when those that share a key would hold
the same if each were alone. -/

namespace PicoFido2.Keyed

variable {ι κ α : Type} (key : ι → κ)

/-- Write `w.2` through the handle `w.1`. -/
def write [DecidableEq κ] (s : κ → α) (w : ι × α) : κ → α := Function.update s (key w.1) w.2

def writes [DecidableEq κ] (s : κ → α) (ws : List (ι × α)) : κ → α := ws.foldl (write key) s

/-- What handle `i` would hold if no other handle wrote. -/
def own [DecidableEq ι] (s : κ → α) (ws : List (ι × α)) (i : ι) : α :=
  ws.foldl (fun v w => if w.1 = i then w.2 else v) (s (key i))

theorem writes_snoc [DecidableEq κ] (s : κ → α) (ws : List (ι × α)) (w : ι × α) :
    writes key s (ws ++ [w]) = write key (writes key s ws) w := by
  simp [writes, List.foldl_append]

theorem own_snoc [DecidableEq ι] (s : κ → α) (ws : List (ι × α)) (w : ι × α) (i : ι) :
    own key s (ws ++ [w]) i = if w.1 = i then w.2 else own key s ws i := by
  simp [own, List.foldl_append]

variable [DecidableEq ι] [DecidableEq κ]

/-- What is under a key was put there through a handle with that key, or was there before. -/
theorem exists_own (s : κ → α) (ws : List (ι × α)) (i : ι) :
    ∃ j, key j = key i ∧ writes key s ws (key i) = own key s ws j := by
  induction ws using List.reverseRecOn with
  | nil => exact ⟨i, rfl, rfl⟩
  | append_singleton ws w ih =>
    rw [writes_snoc, write, Function.update_apply]
    by_cases hw : key i = key w.1
    · refine ⟨w.1, hw.symm, ?_⟩
      rw [if_pos hw, own_snoc, if_pos rfl]
    · obtain ⟨j, hj, hread⟩ := ih
      refine ⟨j, hj, ?_⟩
      have hne : w.1 ≠ j := fun h => hw (by rw [h, hj])
      rw [if_neg hw, own_snoc, if_neg hne, hread]

/-- All handles have their own contents exactly when those of one key agree. -/
theorem reads_own_iff (s : κ → α) (ws : List (ι × α)) :
    (∀ i, writes key s ws (key i) = own key s ws i) ↔
      ∀ i j, key i = key j → own key s ws i = own key s ws j := by
  constructor
  · intro h i j hij
    rw [← h i, ← h j, hij]
  · intro h i
    obtain ⟨j, hj, hread⟩ := exists_own key s ws i
    rw [hread]
    exact h j i hj

end PicoFido2.Keyed
