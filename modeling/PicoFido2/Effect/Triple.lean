import PicoFido2.Effect.Prog

/-! Pre- and postconditions of programs that may stop with an error. A triple says what
holds of the value and the state where the program returns, and what holds of the state
where it stops: the errors of every part of a sequence end the whole, so they share one
condition. -/

namespace PicoFido2.Effect.Prog

variable {σ τ ε α β : Type}

/-- From a state in `P` the program returns as `Q` says, or stops in a state of `E`. -/
def Triple (P : σ → Prop) (x : Prog σ ε α) (Q : α → σ → Prop) (E : σ → Prop) : Prop :=
  ∀ s, P s → (∀ a t, x s = (.ok a, t) → Q a t) ∧ ∀ e t, x s = (.error e, t) → E t

namespace Triple

variable {P P' : σ → Prop} {Q Q' : α → σ → Prop} {E E' : σ → Prop} {x : Prog σ ε α}

theorem mono (h : Triple P x Q E) (hP : ∀ s, P' s → P s) (hQ : ∀ a s, Q a s → Q' a s)
    (hE : ∀ s, E s → E' s) : Triple P' x Q' E' := fun s hs =>
  ⟨fun a t hr => hQ a t ((h s (hP s hs)).1 a t hr), fun e t hr => hE t ((h s (hP s hs)).2 e t hr)⟩

theorem pre (h : Triple P x Q E) (hP : ∀ s, P' s → P s) : Triple P' x Q E :=
  h.mono hP (fun _ _ hq => hq) fun _ he => he

theorem pure {a : α} (h : ∀ s, P s → Q a s) : Triple P (Pure.pure a : Prog σ ε α) Q E := by
  intro s hs
  refine ⟨fun b t hr => ?_, fun e t hr => by cases hr⟩
  cases hr
  exact h _ hs

theorem bind {f : α → Prog σ ε β} {R : β → σ → Prop} (hx : Triple P x Q E)
    (hf : ∀ a, Triple (Q a) (f a) R E) : Triple P (x >>= f) R E := by
  intro s hs
  obtain ⟨hok, herr⟩ := hx s hs
  rw [bind_apply]
  rcases hr : x s with ⟨e | a, t⟩
  · refine ⟨fun b u h => (by cases h), fun e' u h => ?_⟩
    cases h
    exact herr e t hr
  · exact hf a t (hok a t hr)

/-- What holds at both ends holds of the state left. -/
theorem final {R : σ → Prop} (h : Triple P x Q E) (hQ : ∀ a s, Q a s → R s)
    (hE : ∀ s, E s → R s) {s : σ} (hs : P s) : R (x s).2 := by
  obtain ⟨hok, herr⟩ := h s hs
  rcases hr : x s with ⟨e | a, t⟩
  · exact hE t (herr e t hr)
  · exact hQ a t (hok a t hr)

end Triple

end PicoFido2.Effect.Prog
