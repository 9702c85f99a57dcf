import Mathlib.Data.List.Forall2
import PicoFido2.Transition.Path

/-! Runs of one transition relation told by runs of another: by a function of the state, or
by a simulation relation under which every step is told by a run of its own. -/

namespace PicoFido2.Transition

variable {σ τ ι κ ρ χ : Type}

/-- A visit with its states seen through `f`. -/
def Visit.view (f : σ → τ) (v : Visit σ ι ρ) : Visit τ ι ρ := ⟨f v.before, v.op, v.ret, f v.after⟩

theorem Path.view {R : σ → ι → ρ → σ → Prop} {S : τ → ι → ρ → τ → Prop} {f : σ → τ}
    (h : ∀ s i r t, R s i r t → S (f s) i r (f t)) {s₀ s : σ} {vs : List (Visit σ ι ρ)}
    (hp : Path R s₀ vs s) : Path S (f s₀) (vs.map (Visit.view f)) (f s) := by
  induction hp with
  | nil => exact .nil
  | snoc _ hr ih =>
    rw [List.map_append]
    exact .snoc ih (h _ _ _ _ hr)

theorem Path.append {R : σ → ι → ρ → σ → Prop} {s t u : σ} {vs ws : List (Visit σ ι ρ)}
    (hp : Path R s vs t) (hq : Path R t ws u) : Path R s (vs ++ ws) u := by
  induction hq with
  | nil => rwa [List.append_nil]
  | snoc _ hr ih =>
    rw [← List.append_assoc]
    exact .snoc ih hr

/-- A run all of whose visits have a property is one of the steps that have it. -/
theorem Path.restrict {R : σ → ι → ρ → σ → Prop} {P : σ → σ → Prop} {s₀ s : σ}
    {vs : List (Visit σ ι ρ)} (hp : Path R s₀ vs s) (h : ∀ v ∈ vs, P v.before v.after) :
    Path (fun s i r t => R s i r t ∧ P s t) s₀ vs s := by
  induction hp with
  | nil => exact .nil
  | @snoc vs s t i r _ hr ih =>
    exact .snoc (ih fun v hv => h v (List.mem_append_left _ hv)) ⟨hr, h ⟨s, i, r, t⟩ (by simp)⟩

/-- Every step from a related state is told by a run to a related state, and `M` says what
the run tells of the step. -/
def Simulates (R : σ → ι → ρ → σ → Prop) (S : τ → κ → χ → τ → Prop) (rel : σ → τ → Prop)
    (M : Visit σ ι ρ → List (Visit τ κ χ) → Prop) : Prop :=
  ∀ s i r t a, rel s a → R s i r t →
    ∃ us b, Path S a us b ∧ rel t b ∧ M ⟨s, i, r, t⟩ us

/-- A run is told by the runs of its steps one after the other. -/
theorem Path.simulate {R : σ → ι → ρ → σ → Prop} {S : τ → κ → χ → τ → Prop} {rel : σ → τ → Prop}
    {M : Visit σ ι ρ → List (Visit τ κ χ) → Prop} (h : Simulates R S rel M) {s₀ s : σ} {a₀ : τ}
    (h₀ : rel s₀ a₀) {vs : List (Visit σ ι ρ)} (hp : Path R s₀ vs s) :
    ∃ parts a, Path S a₀ parts.flatten a ∧ rel s a ∧ List.Forall₂ M vs parts := by
  induction hp with
  | nil => exact ⟨[], a₀, .nil, h₀, .nil⟩
  | @snoc vs s t i r _ hr ih =>
    obtain ⟨parts, a, hpath, hrel, hall⟩ := ih
    obtain ⟨us, b, hus, hrel', hM⟩ := h s i r t a hrel hr
    refine ⟨parts ++ [us], b, ?_, hrel', ?_⟩
    · rw [List.flatten_append, List.flatten_singleton]
      exact hpath.append hus
    · exact List.rel_append hall (.cons hM .nil)

end PicoFido2.Transition
