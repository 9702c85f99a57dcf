import Mathlib.Data.List.Basic
import Mathlib.Tactic.Common

/-! Conservation in a first-in first-out queue: what was queued, followed by what
arrived, is what was removed, followed by what is still queued. -/

namespace PicoFido2.Queue

variable {α : Type}

def Flow (before arrived removed after : List α) : Prop := before ++ arrived = removed ++ after

variable {q q' q'' a a' r r' : List α}

theorem Flow.idle (q : List α) : Flow q [] [] q := by simp [Flow]

theorem Flow.arrive (q a : List α) : Flow q a [] (q ++ a) := by simp [Flow]

theorem Flow.remove (e : α) (q : List α) : Flow (e :: q) [] [e] q := by simp [Flow]

theorem Flow.trans (h : Flow q a r q') (h' : Flow q' a' r' q'') :
    Flow q (a ++ a') (r ++ r') q'' := by
  unfold Flow at h h' ⊢
  rw [← List.append_assoc, h, List.append_assoc, h', List.append_assoc]

/-- Nothing of a kind is lost or made: the removed and the queued are accounted for. -/
theorem Flow.countP (h : Flow q a r q') (p : α → Bool) :
    r.countP p + q'.countP p = q.countP p + a.countP p := by
  rw [← List.countP_append, ← List.countP_append, h]

/-- What was removed is determined by the rest. -/
theorem Flow.removed_unique (h : Flow q a r q') (h' : Flow q a r' q') : r = r' :=
  List.append_cancel_right (h.symm.trans h')

end PicoFido2.Queue
