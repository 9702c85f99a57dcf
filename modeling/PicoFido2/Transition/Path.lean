import Mathlib.Tactic.Common

/-! Finite runs of a labelled transition relation, kept with every visit: the
state before a step, the operation, its result and the state after. -/

namespace PicoFido2.Transition

/-- One step of a run, with what it started from and what it led to. -/
structure Visit (σ ι ρ : Type) where
  before : σ
  op : ι
  ret : ρ
  after : σ

variable {σ ι ρ : Type}

/-- A run from `s₀`: its visits in order and the state reached. -/
inductive Path (R : σ → ι → ρ → σ → Prop) (s₀ : σ) : List (Visit σ ι ρ) → σ → Prop where
  | nil : Path R s₀ [] s₀
  | snoc {vs : List (Visit σ ι ρ)} {s t : σ} {i : ι} {r : ρ} :
      Path R s₀ vs s → R s i r t → Path R s₀ (vs ++ [⟨s, i, r, t⟩]) t

variable {R : σ → ι → ρ → σ → Prop} {s₀ : σ}

/-- A property that holds at the start and is kept by every step holds at the end. -/
theorem Path.invariant {I : σ → Prop} (h0 : I s₀) (hs : ∀ s i r t, R s i r t → I s → I t)
    {vs : List (Visit σ ι ρ)} {t : σ} (h : Path R s₀ vs t) : I t := by
  induction h with
  | nil => exact h0
  | snoc _ hr ih => exact hs _ _ _ _ hr ih

/-- The same for a property of the visits made so far and the state reached. -/
theorem Path.history {I : List (Visit σ ι ρ) → σ → Prop} (h0 : I [] s₀)
    (hs : ∀ vs s i r t, R s i r t → I vs s → I (vs ++ [⟨s, i, r, t⟩]) t)
    {vs : List (Visit σ ι ρ)} {t : σ} (h : Path R s₀ vs t) : I vs t := by
  induction h with
  | nil => exact h0
  | snoc _ hr ih => exact hs _ _ _ _ _ hr ih

/-- Every visit of a run is a step, from a state reached by the visits before it. -/
theorem Path.visit {vs : List (Visit σ ι ρ)} {t : σ} (h : Path R s₀ vs t) :
    ∀ pre v post, vs = pre ++ v :: post →
      Path R s₀ pre v.before ∧ R v.before v.op v.ret v.after := by
  induction h with
  | nil => intro pre v post he; simp at he
  | snoc hp hr ih =>
    intro pre v post he
    rcases List.eq_nil_or_concat post with rfl | ⟨post, u, rfl⟩
    · obtain ⟨rfl, hv⟩ := List.append_inj' he rfl
      simp only [List.cons.injEq, and_true] at hv
      subst hv
      exact ⟨hp, hr⟩
    · rw [List.concat_eq_append, ← List.cons_append, ← List.append_assoc] at he
      exact ih pre v post (List.append_inj' he rfl).1

/-- What follows a visit is a run from the state it left. -/
theorem Path.suffix {vs : List (Visit σ ι ρ)} {t : σ} (h : Path R s₀ vs t)
    {pre post : List (Visit σ ι ρ)} {v : Visit σ ι ρ} (he : vs = pre ++ v :: post) :
    Path R v.after post t := by
  induction h generalizing post with
  | nil => simp at he
  | snoc hp hr ih =>
    rcases List.eq_nil_or_concat post with rfl | ⟨post, u, rfl⟩
    · obtain ⟨-, hv⟩ := List.append_inj' he rfl
      simp only [List.cons.injEq, and_true] at hv
      subst hv
      exact .nil
    · rw [List.concat_eq_append, ← List.cons_append, ← List.append_assoc] at he
      obtain ⟨hvs, hu⟩ := List.append_inj' he rfl
      simp only [List.cons.injEq, and_true] at hu
      subst hu
      rw [List.concat_eq_append]
      exact .snoc (ih hvs) hr

/-- An invariant holds before and after every visit. -/
theorem Path.invariant_visit {I : σ → Prop} (h0 : I s₀)
    (hs : ∀ s i r t, R s i r t → I s → I t) {vs : List (Visit σ ι ρ)} {t : σ}
    (h : Path R s₀ vs t) {v : Visit σ ι ρ} (hv : v ∈ vs) :
    I v.before ∧ I v.after ∧ R v.before v.op v.ret v.after := by
  obtain ⟨pre, post, rfl⟩ := List.append_of_mem hv
  obtain ⟨hp, hr⟩ := h.visit pre v post rfl
  have hb : I v.before := hp.invariant h0 hs
  exact ⟨hb, hs _ _ _ _ hr hb, hr⟩

end PicoFido2.Transition
