import Mathlib.Order.Defs.Unbundled
import Mathlib.Tactic.Common

/-! Programs over a state that may stop with an error. The state reached at the
error is kept, as in a C function that returns early after some of its writes.
A relation on states is kept by a program when every run, failed or not, moves
the state along it; for a preorder this passes from the parts to the whole. -/

namespace PicoFido2.Effect

/-- A program ends with a value or with an error, and leaves a state either way. -/
def Prog (σ ε α : Type) : Type := σ → Except ε α × σ

namespace Prog

variable {σ τ ε α β : Type}

instance : Monad (Prog σ ε) where
  pure a := fun s => (.ok a, s)
  bind x f := fun s => match x s with
    | (.ok a, t) => f a t
    | (.error e, t) => (.error e, t)

def fail (e : ε) : Prog σ ε α := fun s => (.error e, s)

def get : Prog σ ε σ := fun s => (.ok s, s)

def modify (f : σ → σ) : Prog σ ε Unit := fun s => (.ok (), f s)

/-- A check that stops the program with `e` where `b` is false. -/
def require (b : Bool) (e : ε) : Prog σ ε Unit := if b then pure () else fail e

/-- `x` where `c` holds, nothing elsewhere. -/
def onlyIf (c : Prop) [Decidable c] (x : Prog σ ε Unit) : Prog σ ε Unit := if c then x else pure ()

/-- A computation that cannot fail, as a program. -/
def total (f : σ → α × σ) : Prog σ ε α := fun s => (.ok (f s).1, (f s).2)

/-- A program that hands on how `x` ended, for callers that keep a result in a variable. -/
def attempt (x : Prog σ ε α) : Prog σ ε (Except ε α) := fun s => (.ok (x s).1, (x s).2)

/-- A program on a part of the state. -/
def zoom (view : σ → τ) (put : τ → σ → σ) (x : Prog τ ε α) : Prog σ ε α :=
  fun s => ((x (view s)).1, put (x (view s)).2 s)

theorem pure_apply (a : α) (s : σ) : (pure a : Prog σ ε α) s = (.ok a, s) := rfl

theorem get_apply (s : σ) : (get : Prog σ ε σ) s = (.ok s, s) := rfl

theorem modify_apply (f : σ → σ) (s : σ) : (modify f : Prog σ ε Unit) s = (.ok (), f s) := rfl

theorem bind_apply (x : Prog σ ε α) (f : α → Prog σ ε β) (s : σ) :
    (x >>= f) s = match x s with
      | (.ok a, t) => f a t
      | (.error e, t) => (.error e, t) := rfl

theorem bind_assoc {γ : Type} (x : Prog σ ε α) (f : α → Prog σ ε β) (g : β → Prog σ ε γ) :
    (x >>= f >>= g) = (x >>= fun a => f a >>= g) := by
  funext s
  rw [bind_apply, bind_apply, bind_apply]
  rcases x s with ⟨e | a, t⟩
  · rfl
  · rfl

theorem bind_ok {x : Prog σ ε α} {s t : σ} {a : α} (h : x s = (.ok a, t))
    (f : α → Prog σ ε β) : (x >>= f) s = f a t := by
  rw [bind_apply, h]

theorem bind_error {x : Prog σ ε α} {s t : σ} {e : ε} (h : x s = (.error e, t))
    (f : α → Prog σ ε β) : (x >>= f) s = (.error e, t) := by
  rw [bind_apply, h]

/-- A sequence that returned went through its first part. -/
theorem of_bind_ok {x : Prog σ ε α} {f : α → Prog σ ε β} {s u : σ} {b : β}
    (h : (x >>= f) s = (.ok b, u)) : ∃ a t, x s = (.ok a, t) ∧ f a t = (.ok b, u) := by
  rw [bind_apply] at h
  rcases hx : x s with ⟨e | a, t⟩
  · rw [hx] at h; simp at h
  · rw [hx] at h; exact ⟨a, t, rfl, h⟩

theorem require_bind (b : Bool) (e : ε) (f : Unit → Prog σ ε β) (s : σ) :
    (require b e >>= f) s = if b then f () s else (.error e, s) := by
  cases b <;> rfl

theorem onlyIf_pos {c : Prop} [Decidable c] (hc : c) (x : Prog σ ε Unit) : onlyIf c x = x :=
  if_pos hc

theorem onlyIf_neg {c : Prop} [Decidable c] (hc : ¬ c) (x : Prog σ ε Unit) :
    onlyIf c x = pure () := if_neg hc

/-! ### Kept relations -/

/-- Every run of `x` moves the state along `R`. -/
def Keeps (R : σ → σ → Prop) (x : Prog σ ε α) : Prop := ∀ s, R s (x s).2

section Preorder

variable {R : σ → σ → Prop} [IsPreorder σ R]

theorem keeps_pure (a : α) : Keeps R (pure a : Prog σ ε α) := fun s => refl_of R s

theorem keeps_fail (e : ε) : Keeps R (fail e : Prog σ ε α) := fun s => refl_of R s

theorem keeps_get : Keeps R (get : Prog σ ε σ) := fun s => refl_of R s

theorem keeps_require (b : Bool) (e : ε) : Keeps R (require b e : Prog σ ε Unit) := by
  cases b
  · exact keeps_fail e
  · exact keeps_pure ()

theorem keeps_onlyIf (c : Prop) [Decidable c] {x : Prog σ ε Unit} (hx : Keeps R x) :
    Keeps R (onlyIf c x) := by
  unfold onlyIf
  split
  · exact hx
  · exact keeps_pure ()

theorem keeps_bind {x : Prog σ ε α} {f : α → Prog σ ε β} (hx : Keeps R x)
    (hf : ∀ a, Keeps R (f a)) : Keeps R (x >>= f) := by
  intro s
  have h := hx s
  rw [bind_apply]
  rcases hs : x s with ⟨e | a, t⟩
  · rw [hs] at h; exact h
  · rw [hs] at h; exact trans_of R h (hf a t)

end Preorder

theorem keeps_modify {R : σ → σ → Prop} {f : σ → σ} (h : ∀ s, R s (f s)) :
    Keeps R (modify f : Prog σ ε Unit) := h

theorem Keeps.mono {R S : σ → σ → Prop} {x : Prog σ ε α} (h : Keeps R x)
    (hRS : ∀ s t, R s t → S s t) : Keeps S x := fun s => hRS _ _ (h s)

/-- What a program does to a part of the state, the whole program may be told by. -/
theorem keeps_zoom {S : τ → τ → Prop} {R : σ → σ → Prop} {view : σ → τ} {put : τ → σ → σ}
    {x : Prog τ ε α} (hx : Keeps S x) (h : ∀ s t, S (view s) t → R s (put t s)) :
    Keeps R (zoom view put x) := fun s => h s _ (hx (view s))

end Prog

end PicoFido2.Effect
