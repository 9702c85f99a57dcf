import Mathlib.Logic.Relation
import Mathlib.Tactic.Common

/-! Loops that poll until a poll succeeds or a test made after each failed poll says to
stop. What such a loop returns is told by the iteration it leaves in, and a potential that
every iteration that goes on lowers bounds the number of polls. -/

namespace PicoFido2.Transition

variable {σ : Type}

/-- The two parts of an iteration; `stop` is asked only where the poll failed. -/
structure Poller (σ : Type) where
  poll : σ → Bool × σ
  stop : σ → Bool × σ

namespace Poller

/-- The loop for at most `fuel` iterations; `none` where it would go on after them. -/
def loop (p : Poller σ) : ℕ → σ → Option (Bool × σ)
  | 0, _ => none
  | fuel + 1, s =>
    match p.poll s with
    | (true, s) => some (true, s)
    | (false, s) =>
      match p.stop s with
      | (true, s) => some (false, s)
      | (false, s) => p.loop fuel s

/-- The answers of the polls made in at most `fuel` iterations. -/
def answers (p : Poller σ) : ℕ → σ → List Bool
  | 0, _ => []
  | fuel + 1, s =>
    match p.poll s with
    | (true, _) => [true]
    | (false, s) =>
      match p.stop s with
      | (true, _) => [false]
      | (false, s) => false :: p.answers fuel s

variable (p : Poller σ)

/-- An iteration after which the loop goes on. -/
def Next (s t : σ) : Prop := ∃ u, p.poll s = (false, u) ∧ p.stop u = (false, t)

/-- The states in which the iterations of a loop start. -/
abbrev Reached : σ → σ → Prop := Relation.ReflTransGen p.Next

/-- An iteration in which the loop ends. -/
inductive Ends (s : σ) : Bool → σ → Prop
  | hit {t : σ} (hpoll : p.poll s = (true, t)) : Ends s true t
  | stopped {u t : σ} (hpoll : p.poll s = (false, u)) (hstop : p.stop u = (true, t)) :
      Ends s false t

variable {p}

theorem loop_ends {s t : σ} {b : Bool} (h : p.Ends s b t) (fuel : ℕ) :
    p.loop (fuel + 1) s = some (b, t) := by
  cases h with
  | hit hpoll => rw [loop, hpoll]
  | stopped hpoll hstop => rw [loop, hpoll]; dsimp only; rw [hstop]

theorem loop_next {s t : σ} (h : p.Next s t) (fuel : ℕ) :
    p.loop (fuel + 1) s = p.loop fuel t := by
  obtain ⟨u, hpoll, hstop⟩ := h
  rw [loop, hpoll]
  dsimp only
  rw [hstop]

theorem answers_ends {s t : σ} {b : Bool} (h : p.Ends s b t) (fuel : ℕ) :
    p.answers (fuel + 1) s = [b] := by
  cases h with
  | hit hpoll => rw [answers, hpoll]
  | stopped hpoll hstop => rw [answers, hpoll]; dsimp only; rw [hstop]

theorem answers_next {s t : σ} (h : p.Next s t) (fuel : ℕ) :
    p.answers (fuel + 1) s = false :: p.answers fuel t := by
  obtain ⟨u, hpoll, hstop⟩ := h
  rw [answers, hpoll]
  dsimp only
  rw [hstop]

/-- An iteration ends the loop or leads to the next. -/
theorem ends_or_next (p : Poller σ) (s : σ) : (∃ b t, p.Ends s b t) ∨ ∃ t, p.Next s t := by
  rcases hpoll : p.poll s with ⟨_ | _, u⟩
  · rcases hstop : p.stop u with ⟨_ | _, t⟩
    · exact .inr ⟨t, u, hpoll, hstop⟩
    · exact .inl ⟨false, t, .stopped hpoll hstop⟩
  · exact .inl ⟨true, u, .hit hpoll⟩

/-- The loop returns what the iteration it ends in gives. -/
theorem loop_iff {s t : σ} {b : Bool} :
    (∃ fuel, p.loop fuel s = some (b, t)) ↔ ∃ u, p.Reached s u ∧ p.Ends u b t := by
  constructor
  · rintro ⟨fuel, h⟩
    induction fuel generalizing s with
    | zero => cases h
    | succ fuel ih =>
      rcases ends_or_next p s with ⟨b', t', hends⟩ | ⟨v, hnext⟩
      · rw [loop_ends hends] at h
        cases h
        exact ⟨s, .refl, hends⟩
      · rw [loop_next hnext] at h
        obtain ⟨u, hu, hends⟩ := ih h
        exact ⟨u, .head hnext hu, hends⟩
  · rintro ⟨u, hu, hends⟩
    induction hu using Relation.ReflTransGen.head_induction_on with
    | refl => exact ⟨1, loop_ends hends 0⟩
    | head hnext _ ih =>
      obtain ⟨fuel, h⟩ := ih
      exact ⟨fuel + 1, by rw [loop_next hnext, h]⟩

/-- A loop that returned returns the same with more iterations to spare. -/
theorem loop_more {fuel : ℕ} {s : σ} {r : Bool × σ} (h : p.loop fuel s = some r) (more : ℕ) :
    p.loop (fuel + more) s = some r := by
  induction fuel generalizing s with
  | zero => cases h
  | succ fuel ih =>
    rw [Nat.add_right_comm]
    rcases ends_or_next p s with ⟨b, t, hends⟩ | ⟨t, hnext⟩
    · rw [loop_ends hends] at h ⊢
      exact h
    · rw [loop_next hnext] at h ⊢
      exact ih h

theorem loop_unique {s : σ} {r r' : Bool × σ} {fuel fuel' : ℕ} (h : p.loop fuel s = some r)
    (h' : p.loop fuel' s = some r') : r = r' := by
  have hm := loop_more h fuel'
  rw [Nat.add_comm, loop_more h' fuel] at hm
  exact (Option.some.inj hm).symm

/-- All polls of a loop that returned failed, but for the last, whose answer it returns. -/
theorem answers_eq {fuel : ℕ} {s t : σ} {b : Bool} (h : p.loop fuel s = some (b, t)) :
    ∃ n < fuel, p.answers fuel s = List.replicate n false ++ [b] := by
  induction fuel generalizing s with
  | zero => cases h
  | succ fuel ih =>
    rcases ends_or_next p s with ⟨b', t', hends⟩ | ⟨u, hnext⟩
    · rw [loop_ends hends] at h
      cases h
      exact ⟨0, Nat.succ_pos fuel, answers_ends hends fuel⟩
    · rw [loop_next hnext] at h
      obtain ⟨n, hn, hanswers⟩ := ih h
      exact ⟨n + 1, Nat.succ_lt_succ hn, by rw [answers_next hnext, hanswers]; rfl⟩

/-- The potential rule: what is left after an iteration that goes on bounds the rest. -/
theorem loop_potential {V : σ → ℕ} {s : σ}
    (hV : ∀ u v, p.Reached s u → p.Next u v → V v < V u) :
    ∃ r, p.loop (V s + 1) s = some r := by
  suffices ∀ fuel u, V u ≤ fuel → p.Reached s u → ∃ r, p.loop (fuel + 1) u = some r from
    this (V s) s (Nat.le_refl _) .refl
  intro fuel
  induction fuel with
  | zero =>
    intro u hu hreach
    rcases ends_or_next p u with ⟨b, t, hends⟩ | ⟨v, hnext⟩
    · exact ⟨_, loop_ends hends 0⟩
    · have := hV u v hreach hnext
      omega
  | succ fuel ih =>
    intro u hu hreach
    rcases ends_or_next p u with ⟨b, t, hends⟩ | ⟨v, hnext⟩
    · exact ⟨_, loop_ends hends (fuel + 1)⟩
    · rw [loop_next hnext]
      have := hV u v hreach hnext
      exact ih v (by omega) (hreach.tail hnext)

end Poller

end PicoFido2.Transition
