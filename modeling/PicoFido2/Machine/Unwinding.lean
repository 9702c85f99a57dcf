import Mathlib.Tactic.Common

/-! Deterministic machines that answer inputs. The outputs of a run are kept apart from
the state it ends in, so that two runs of the same inputs can be compared: where every
step answers alike from related states and leaves them related, so does every run. -/

namespace PicoFido2.Machine

variable {σ ι ο : Type}

section Runs

variable (step : ι → σ → ο × σ)

/-- What the machine answers to a sequence of inputs. -/
def outputs : List ι → σ → List ο
  | [], _ => []
  | i :: is, s => (step i s).1 :: outputs is (step i s).2

/-- The state after a sequence of inputs. -/
def final : List ι → σ → σ
  | [], s => s
  | i :: is, s => final is (step i s).2

end Runs

variable {step : ι → σ → ο × σ}

/-- Steps that answer alike from related states, and leave them related, make runs that
answer alike. -/
theorem outputs_eq {R : σ → σ → Prop} {is : List ι}
    (h : ∀ i ∈ is, ∀ s t, R s t → (step i s).1 = (step i t).1 ∧ R (step i s).2 (step i t).2)
    {s t : σ} (hst : R s t) : outputs step is s = outputs step is t := by
  induction is generalizing s t with
  | nil => rfl
  | cons i is ih =>
    obtain ⟨hanswer, hrelated⟩ := h i List.mem_cons_self s t hst
    have hrest := ih (fun j hj => h j (List.mem_cons_of_mem i hj)) hrelated
    rw [outputs, outputs, hanswer, hrest]

/-- What one input of the run brings about, and every step keeps, holds at the end. -/
theorem final_of_mem {P : σ → Prop} (hkeep : ∀ i s, P s → P (step i s).2) {is : List ι} {i : ι}
    (hi : i ∈ is) (hset : ∀ s, P (step i s).2) (s : σ) : P (final step is s) := by
  have hstays : ∀ (js : List ι) (t : σ), P t → P (final step js t) := by
    intro js
    induction js with
    | nil => exact fun _ h => h
    | cons k js ih => exact fun t ht => ih _ (hkeep k t ht)
  induction is generalizing s with
  | nil => simp at hi
  | cons j is ih =>
    cases List.mem_cons.1 hi with
    | inl heq => exact heq ▸ hstays is _ (hset s)
    | inr hmem => exact ih hmem (step j s).2

theorem final_of_fixed {is : List ι} (h : ∀ i ∈ is, ∀ s, (step i s).2 = s) (s : σ) :
    final step is s = s := by
  induction is with
  | nil => rfl
  | cons i is ih =>
    rw [final, h i List.mem_cons_self, ih fun j hj => h j (List.mem_cons_of_mem i hj)]

/-- A machine that stays in its state answers every input from there. -/
theorem outputs_of_fixed {is : List ι} (h : ∀ i ∈ is, ∀ s, (step i s).2 = s) (s : σ) :
    outputs step is s = is.map fun i => (step i s).1 := by
  induction is with
  | nil => rfl
  | cons i is ih =>
    rw [outputs, h i List.mem_cons_self, ih fun j hj => h j (List.mem_cons_of_mem i hj),
      List.map_cons]

/-- What a run answers to one of its inputs is told by the state the inputs before it lead to. -/
theorem outputs_at (is js : List ι) (i : ι) (s : σ) :
    (outputs step (is ++ i :: js) s)[is.length]? = some (step i (final step is s)).1 := by
  induction is generalizing s with
  | nil => rfl
  | cons j is ih =>
    rw [List.cons_append, outputs, List.length_cons, List.getElem?_cons_succ, ih]
    rfl

end PicoFido2.Machine
