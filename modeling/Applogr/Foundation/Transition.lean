import Mathlib.Logic.Relation
import Mathlib.Tactic.Common

/-!
# Transition systems

A system is a relation `step s a t`: the action `a` leads from the state `s` to the state `t`.
What every step keeps holds in every state that is reached.
-/

namespace Transition

variable {σ α : Type*}

/-- The states that are reached from a state. -/
def Reachable (step : σ → α → σ → Prop) : σ → σ → Prop :=
  Relation.ReflTransGen (fun s t => ∃ a, step s a t)

/-- The steps by actions that are allowed in the state. -/
def Guarded (allowed : σ → α → Prop) (step : σ → α → σ → Prop) (s : σ) (a : α) (t : σ) : Prop :=
  allowed s a ∧ step s a t

/-- The state after the actions of a list, when each is allowed and possible. -/
def run (allowed : σ → α → Prop) [∀ s a, Decidable (allowed s a)] (f : σ → α → Option σ) (s : σ)
    (as : List α) : Option σ :=
  as.foldlM (fun s a => if allowed s a then f s a else none) s

section Reachable

variable {step : σ → α → σ → Prop} {s t u : σ}

theorem Reachable.init (s : σ) :
  Reachable step s s
  := Relation.ReflTransGen.refl

theorem Reachable.head {a : α} (hs : step s a t) (h : Reachable step t u) :
  Reachable step s u
  := Relation.ReflTransGen.head ⟨a, hs⟩ h

theorem Reachable.of_run {allowed : σ → α → Prop} [∀ s a, Decidable (allowed s a)]
    {f : σ → α → Option σ} {as : List α} (h : run allowed f s as = some t) :
  Reachable (Guarded allowed (fun s a t => f s a = some t)) s t
  := by
  induction as generalizing s with
  | nil =>
      cases h
      apply Reachable.init
  | cons a as ih =>
      obtain ⟨u, hu, ht⟩ := Option.bind_eq_some_iff.mp (List.foldlM_cons.symm.trans h)
      obtain ⟨hallowed, hstep⟩ := Option.ite_none_right_eq_some.mp hu
      exact Reachable.head ⟨hallowed, hstep⟩ (ih ht)

/-- What every step keeps holds in every state that is reached. -/
theorem Reachable.invariant {I : σ → Prop} (hstep : ∀ {s a t}, I s → step s a t → I t)
    (h : Reachable step s t) (hs : I s) :
  I t
  := by
  induction h with
  | refl => apply hs
  | tail _ ht ih =>
      obtain ⟨a, ht⟩ := ht
      apply hstep ih ht

end Reachable

end Transition
