import PicoFido2.Transition.Simulation

/-! A counting semaphore. A post raises the count, an acquisition that answers true lowers
it, and one answers false only where the count is zero. -/

namespace PicoFido2.Queue

open Transition

inductive SemAct where
  | post
  | acquire
  deriving DecidableEq

inductive SemStep : ℕ → SemAct → Bool → ℕ → Prop where
  | post (n : ℕ) : SemStep n .post true (n + 1)
  | granted (n : ℕ) : SemStep (n + 1) .acquire true n
  | refused : SemStep 0 .acquire false 0

abbrev SemVisits := List (Visit ℕ SemAct Bool)

def posts (us : SemVisits) : ℕ := us.countP fun u => u.op = .post

/-- The answers of the acquisitions. -/
def acquired (us : SemVisits) : List Bool :=
  us.filterMap fun u => if u.op = .acquire then some u.ret else none

/-- A run from `n` to `m` with `k` posts and these answers. -/
structure SemRun (n m k : ℕ) (answers : List Bool) (us : SemVisits) : Prop where
  path : Path SemStep n us m
  posted : posts us = k
  answered : acquired us = answers

variable {n m l k k' : ℕ} {answers answers' : List Bool} {us us' : SemVisits}

theorem SemRun.nil (n : ℕ) : SemRun n n 0 [] [] := ⟨.nil, rfl, rfl⟩

theorem SemRun.append (h : SemRun n m k answers us) (h' : SemRun m l k' answers' us') :
    SemRun n l (k + k') (answers ++ answers') (us ++ us') where
  path := h.path.append h'.path
  posted := by rw [← h.posted, ← h'.posted]; exact List.countP_append
  answered := by rw [← h.answered, ← h'.answered]; exact List.filterMap_append

theorem semRun_granted (n : ℕ) :
    SemRun (n + 1) n 0 [true] [⟨n + 1, .acquire, true, n⟩] := ⟨.snoc .nil (.granted n), rfl, rfl⟩

theorem semRun_refused : SemRun 0 0 0 [false] [⟨0, .acquire, false, 0⟩] :=
  ⟨.snoc .nil .refused, rfl, rfl⟩

theorem semRun_posts (n k : ℕ) : ∃ us, SemRun n (n + k) k [] us := by
  induction k with
  | zero => exact ⟨[], .nil n⟩
  | succ k ih =>
    obtain ⟨us, hus⟩ := ih
    have hpost : SemRun (n + k) (n + k + 1) 1 [] [⟨n + k, .post, true, n + k + 1⟩] :=
      ⟨.snoc .nil (.post _), rfl, rfl⟩
    exact ⟨_, hus.append hpost⟩

/-- What was there and what was posted is what was granted and what is left. -/
theorem semPath_balance (h : Path SemStep n us m) :
    n + posts us = m + (acquired us).count true := by
  induction h with
  | nil => rfl
  | @snoc us s t act r _ hs ih =>
    have hposts : posts (us ++ [⟨s, act, r, t⟩]) = posts us + posts [⟨s, act, r, t⟩] :=
      List.countP_append
    have hacquired : acquired (us ++ [⟨s, act, r, t⟩]) =
        acquired us ++ acquired [⟨s, act, r, t⟩] := List.filterMap_append
    rw [hposts, hacquired, List.count_append]
    cases hs with
    | post => simp only [posts, acquired] at ih ⊢; simp; omega
    | granted => simp only [posts, acquired] at ih ⊢; simp; omega
    | refused => simp only [posts, acquired] at ih ⊢; simp; omega

end PicoFido2.Queue
