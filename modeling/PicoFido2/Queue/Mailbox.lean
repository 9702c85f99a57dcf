import Mathlib.Data.List.Induction
import Mathlib.Logic.Function.Basic
import PicoFido2.Transition.Path

/-! Updates through a shared draft and a mailbox with one slot. A call writes the
draft piece by piece and then posts a copy of the whole draft, replacing what is in
the slot; one reader takes the slot and then uses what it took. Calls of any number
of tasks and the reader interleave freely. A copy may be taken half written, but
when no call is pending, the newest copy is the draft. -/

namespace PicoFido2.Queue

open Transition

/-- `pending` holds the writes a task's call has still to make before it posts. -/
structure Mailbox (σ ω τ : Type) where
  draft : σ
  pending : τ → Option (List ω)
  slot : Option σ
  taken : Option σ
  used : Option σ

inductive MailAct (κ ω τ : Type) where
  | call (task : τ) (call : κ)
  | write (task : τ) (w : ω)
  | post (task : τ)
  | take
  | use

namespace Mailbox

variable {σ κ ω τ : Type} [DecidableEq τ]

/-- The steps, where a call of kind `k` makes the writes `writes k` and a write `w`
changes the draft by `apply w`. -/
inductive Step (writes : κ → List ω) (apply : ω → σ → σ) (m : Mailbox σ ω τ) :
    MailAct κ ω τ → Unit → Mailbox σ ω τ → Prop where
  | call {t : τ} (k : κ) (hidle : m.pending t = none) :
      Step writes apply m (.call t k) ()
        { m with pending := Function.update m.pending t (some (writes k)) }
  | write {t : τ} {w : ω} {rest : List ω} (hw : m.pending t = some (w :: rest)) :
      Step writes apply m (.write t w) ()
        { m with
          draft := apply w m.draft, pending := Function.update m.pending t (some rest) }
  | post {t : τ} (hdone : m.pending t = some []) :
      Step writes apply m (.post t) ()
        { m with slot := some m.draft, pending := Function.update m.pending t none }
  | take {s : σ} (hwaits : m.taken = none) (hs : m.slot = some s) :
      Step writes apply m .take () { m with slot := none, taken := some s }
  | use {s : σ} (hs : m.taken = some s) :
      Step writes apply m .use () { m with taken := none, used := some s }

variable {writes : κ → List ω} {apply : ω → σ → σ}

/-- The copy made last, wherever it is by now. -/
def newest (m : Mailbox σ ω τ) : Option σ := m.slot.or (m.taken.or m.used)

/-- With no call pending, the newest copy is the draft. -/
def Settled (m : Mailbox σ ω τ) : Prop :=
  (∀ t, m.pending t = none) → m.newest = some m.draft

theorem Settled.step {m m' : Mailbox σ ω τ} {a : MailAct κ ω τ} (hs : m.Settled)
    (h : Step writes apply m a () m') : m'.Settled := by
  intro hidle
  cases h with
  | @call t k =>
    have ht := hidle t
    simp at ht
  | @write t w rest =>
    have ht := hidle t
    simp at ht
  | post => rfl
  | take hwaits hslot =>
    have h := hs hidle
    simp only [newest, hslot, Option.some_or] at h
    simpa [newest] using h
  | use htaken =>
    have h := hs hidle
    cases hslot : m.slot with
    | none =>
      simp only [newest, hslot, htaken, Option.none_or, Option.some_or] at h
      simpa [newest, hslot] using h
    | some s =>
      simp only [newest, hslot, Option.some_or] at h
      simpa [newest, hslot] using h

omit [DecidableEq τ] in
/-- When no call is pending and the reader waits on an empty slot, it used the draft last. -/
theorem Settled.used_eq {m : Mailbox σ ω τ} (hs : m.Settled) (hidle : ∀ t, m.pending t = none)
    (hslot : m.slot = none) (hwaits : m.taken = none) : m.used = some m.draft := by
  have h := hs hidle
  simpa [newest, hslot, hwaits] using h

/-- The writes made in a run, in order. -/
def written (vs : List (Visit (Mailbox σ ω τ) (MailAct κ ω τ) Unit)) : List ω :=
  vs.filterMap fun v => match v.op with
    | .write _ w => some w
    | _ => none

omit [DecidableEq τ] in
theorem written_snoc (vs : List (Visit (Mailbox σ ω τ) (MailAct κ ω τ) Unit))
    (v : Visit (Mailbox σ ω τ) (MailAct κ ω τ) Unit) :
    written (vs ++ [v]) = written vs ++ written [v] := List.filterMap_append

theorem draft_eq {m₀ m : Mailbox σ ω τ} {vs : List (Visit (Mailbox σ ω τ) (MailAct κ ω τ) Unit)}
    (hp : Path (Step writes apply) m₀ vs m) :
    m.draft = (written vs).foldl (fun s w => apply w s) m₀.draft := by
  refine hp.history (I := fun vs m => m.draft = (written vs).foldl (fun s w => apply w s) m₀.draft)
    rfl ?_
  rintro us s a r t hs ih
  rw [written_snoc, List.foldl_append, ← ih]
  cases hs <;> rfl

/-- The copies posted in a run, in order. -/
def posted (vs : List (Visit (Mailbox σ ω τ) (MailAct κ ω τ) Unit)) : List σ :=
  vs.filterMap fun v => match v.op with
    | .post _ => some v.before.draft
    | _ => none

/-- The copies used in a run, in order. -/
def usedIn (vs : List (Visit (Mailbox σ ω τ) (MailAct κ ω τ) Unit)) : List σ :=
  vs.filterMap fun v => match v.op with
    | .use => v.before.taken
    | _ => none

omit [DecidableEq τ] in
theorem posted_snoc (vs : List (Visit (Mailbox σ ω τ) (MailAct κ ω τ) Unit))
    (v : Visit (Mailbox σ ω τ) (MailAct κ ω τ) Unit) :
    posted (vs ++ [v]) = posted vs ++ posted [v] := List.filterMap_append

omit [DecidableEq τ] in
theorem usedIn_snoc (vs : List (Visit (Mailbox σ ω τ) (MailAct κ ω τ) Unit))
    (v : Visit (Mailbox σ ω τ) (MailAct κ ω τ) Unit) :
    usedIn (vs ++ [v]) = usedIn vs ++ usedIn [v] := List.filterMap_append

/-- The copies that were used, then the one that was taken and the one in the slot, are
some of those that were posted, in their order, and the last of these is among them. -/
def InOrder (us ps : List σ) (m : Mailbox σ ω τ) : Prop :=
  (us ++ m.taken.toList ++ m.slot.toList).Sublist ps ∧
    (us ++ m.taken.toList ++ m.slot.toList).getLast? = ps.getLast?

theorem inOrder_run {m₀ m : Mailbox σ ω τ}
    {vs : List (Visit (Mailbox σ ω τ) (MailAct κ ω τ) Unit)}
    (hp : Path (Step writes apply) m₀ vs m) (hwaits : m₀.taken = none) :
    InOrder (usedIn vs) (m₀.slot.toList ++ posted vs) m := by
  refine hp.history (I := fun us m => InOrder (usedIn us) (m₀.slot.toList ++ posted us) m) ?_ ?_
  · simp [InOrder, usedIn, posted, hwaits]
  rintro us m a r n hs h
  rw [usedIn_snoc, posted_snoc, ← List.append_assoc]
  generalize m₀.slot.toList ++ posted us = ps at h ⊢
  generalize usedIn us = used at h ⊢
  cases hs with
  | call | write =>
    show InOrder (used ++ []) (ps ++ []) _
    rw [List.append_nil, List.append_nil]
    exact h
  | post =>
    -- the new copy takes the place of the one in the slot
    show InOrder (used ++ []) (ps ++ [m.draft]) _
    have hkept : (used ++ m.taken.toList).Sublist ps := (List.sublist_append_left _ _).trans h.1
    rw [List.append_nil]
    refine ⟨hkept.append (List.Sublist.refl [m.draft]), ?_⟩
    simp
  | take hempty hfull =>
    show InOrder (used ++ []) (ps ++ []) _
    simpa [InOrder, hempty, hfull] using h
  | @use s hfull =>
    have hused : usedIn [(⟨m, .use, (), { m with taken := none, used := some s }⟩ :
        Visit (Mailbox σ ω τ) (MailAct κ ω τ) Unit)] = [s] := by
      simp [usedIn, hfull]
    show InOrder (used ++ usedIn _) (ps ++ []) _
    rw [hused]
    simpa [InOrder, hfull] using h

/-- The calls begun in a run, in order, with their tasks. -/
def calls (vs : List (Visit (Mailbox σ ω τ) (MailAct κ ω τ) Unit)) : List (τ × κ) :=
  vs.filterMap fun v => match v.op with
    | .call t k => some (t, k)
    | _ => none

omit [DecidableEq τ] in
theorem calls_snoc (vs : List (Visit (Mailbox σ ω τ) (MailAct κ ω τ) Unit))
    (v : Visit (Mailbox σ ω τ) (MailAct κ ω τ) Unit) :
    calls (vs ++ [v]) = calls vs ++ calls [v] := List.filterMap_append

/-- Where one task makes all calls, no other task is ever within one, and what was written
and is still to be written are the writes of the calls, in order. -/
theorem written_of_one_caller {m₀ m : Mailbox σ ω τ}
    {vs : List (Visit (Mailbox σ ω τ) (MailAct κ ω τ) Unit)} (hp : Path (Step writes apply) m₀ vs m)
    (hidle : ∀ t, m₀.pending t = none) {t : τ} (hone : ∀ c ∈ calls vs, c.1 = t) :
    (∀ u, u ≠ t → m.pending u = none) ∧
      written vs ++ (m.pending t).getD [] = (calls vs).flatMap fun c => writes c.2 := by
  refine hp.history (I := fun us m => (∀ c ∈ calls us, c.1 = t) →
    (∀ u, u ≠ t → m.pending u = none) ∧
      written us ++ (m.pending t).getD [] = (calls us).flatMap fun c => writes c.2)
    (fun _ => ⟨fun u _ => hidle u, by rw [hidle t]; rfl⟩) ?_ hone
  rintro us m a r n hs ih hone
  rw [calls_snoc] at hone
  obtain ⟨hothers, hwritten⟩ := ih fun c hc => hone c (List.mem_append_left _ hc)
  have hmine : ∀ u ws, m.pending u = some ws → u = t := by
    intro u ws hu
    by_contra h
    rw [hothers u h] at hu
    cases hu
  have hkept : ∀ ws u, u ≠ t → Function.update m.pending t ws u = none := by
    intro ws u hu
    rw [Function.update_of_ne hu]
    exact hothers u hu
  rw [written_snoc, calls_snoc, List.flatMap_append, ← hwritten]
  cases hs with
  | @call u k hu =>
    obtain rfl : u = t := hone (u, k) (by simp [calls])
    exact ⟨hkept _, by simp [written, calls, hu]⟩
  | write hu =>
    obtain rfl := hmine _ _ hu
    exact ⟨hkept _, by simp [written, calls, hu]⟩
  | post hu =>
    obtain rfl := hmine _ _ hu
    exact ⟨hkept _, by simp [written, calls, hu]⟩
  | take => exact ⟨hothers, by simp [written, calls]⟩
  | use => exact ⟨hothers, by simp [written, calls]⟩

end Mailbox

/-- Writes that may set a part of the draft leave in it what was set last. -/
theorem part_foldl {σ ω α : Type} (apply : ω → σ → σ) (part : σ → α) (sets : ω → Option α)
    (h : ∀ w s, part (apply w s) = (sets w).getD (part s)) (ws : List ω) (s : σ) :
    part (ws.foldl (fun s w => apply w s) s) = (ws.filterMap sets).getLast?.getD (part s) := by
  induction ws using List.reverseRecOn with
  | nil => rfl
  | append_singleton ws w ih =>
    rw [List.foldl_append, List.foldl_cons, List.foldl_nil, h, List.filterMap_append]
    cases hw : sets w with
    | none => simpa [hw] using ih
    | some a => simp [hw]

end PicoFido2.Queue
