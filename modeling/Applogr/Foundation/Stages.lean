import Mathlib.Tactic.Common

/-!
# Stages

An object is created, it gets a view, it is resumed any number of times while it has the view, it
loses the view and may get another one, and it is destroyed when it has no view.  The system calls
the methods of the object in this order.  A method may fail.
-/

/-- The stages of the life of an object. -/
inductive Stage (α : Type*) where
  | absent
  | created (object : α)
  | viewed (object : α)

/-- What the system tells an object. -/
inductive Callback where
  | create
  | createView
  | resume
  | destroyView
  | destroy

/-- The methods of an object, which give `none` when they fail. -/
structure Methods (α : Type*) where
  create : Option α
  createView : α → Option α
  resume : α → Option α

namespace Stage

variable {α β : Type*}

/-- The next stage, or `none` if a method fails.  At other stages the system does not call a
method. -/
def call (methods : Methods α) : Callback → Stage α → Option (Stage α)
  | .create, .absent => methods.create.map .created
  | .createView, .created a => (methods.createView a).map .viewed
  | .resume, .viewed a => (methods.resume a).map .viewed
  | .destroyView, .viewed a => some (.created a)
  | .destroy, .created _ => some .absent
  | _, stage => some stage

/-- The next stage, if an object remembers what there was when it was created or resumed last. -/
def next (now : β) : Callback → Stage β → Stage β
  | .create, .absent => .created now
  | .createView, .created b => .viewed b
  | .resume, .viewed _ => .viewed now
  | .destroyView, .viewed b => .created b
  | .destroy, .created _ => .absent
  | _, stage => stage

/-- The objects are at the same stage, and they are related as it is right for the stage. -/
def Related (createdAs viewedAs : α → β → Prop) : Stage α → Stage β → Prop
  | .absent, .absent => True
  | .created a, .created b => createdAs a b
  | .viewed a, .viewed b => viewedAs a b
  | _, _ => False

theorem Related.mono {createdAs viewedAs createdAs' viewedAs' : α → β → Prop} {s : Stage α}
    {t : Stage β} (h : Related createdAs viewedAs s t)
    (hcreated : ∀ a b, createdAs a b → createdAs' a b)
    (hviewed : ∀ a b, viewedAs a b → viewedAs' a b) :
  Related createdAs' viewedAs' s t
  := by
  cases s with
  | absent => cases t <;> exact h
  | created a =>
      cases t with
      | created b => apply hcreated a b h
      | _ => exact h
  | viewed a =>
      cases t with
      | viewed b => apply hviewed a b h
      | _ => exact h

/-- The objects stay related if the methods that do not fail keep them related. -/
theorem Related.call {methods : Methods α} {now : β} {createdAs viewedAs : α → β → Prop}
    (hcreate : ∀ a, methods.create = some a → createdAs a now)
    (hview : ∀ a b, createdAs a b → ∀ a', methods.createView a = some a' → viewedAs a' b)
    (hresume : ∀ a b, viewedAs a b → ∀ a', methods.resume a = some a' → viewedAs a' now)
    (hdrop : ∀ a b, viewedAs a b → createdAs a b)
    {s s' : Stage α} {t : Stage β} (h : Related createdAs viewedAs s t) {c : Callback}
    (hcall : Stage.call methods c s = some s') :
  Related createdAs viewedAs s' (next now c t)
  := by
  cases s with
  | absent =>
      cases t with
      | absent =>
          cases c with
          | create =>
              obtain ⟨a, ha, rfl⟩ := Option.map_eq_some_iff.mp hcall
              apply hcreate a ha
          | _ =>
              cases hcall
              exact h
      | _ => exact absurd h id
  | created a =>
      cases t with
      | created b =>
          cases c with
          | createView =>
              obtain ⟨a', ha, rfl⟩ := Option.map_eq_some_iff.mp hcall
              apply hview a b h a' ha
          | destroy =>
              cases hcall
              trivial
          | _ =>
              cases hcall
              exact h
      | _ => exact absurd h id
  | viewed a =>
      cases t with
      | viewed b =>
          cases c with
          | resume =>
              obtain ⟨a', ha, rfl⟩ := Option.map_eq_some_iff.mp hcall
              apply hresume a b h a' ha
          | destroyView =>
              cases hcall
              apply hdrop a b h
          | _ =>
              cases hcall
              exact h
      | _ => exact absurd h id

/-- A call fails only if the method for the stage fails. -/
theorem call_eq_none {methods : Methods α} {c : Callback} {s : Stage α}
    (h : Stage.call methods c s = none) :
  (s = .absent ∧ methods.create = none) ∨
    (∃ a, s = .created a ∧ methods.createView a = none) ∨
    ∃ a, s = .viewed a ∧ methods.resume a = none
  := by
  cases s with
  | absent =>
      cases c with
      | create => exact Or.inl ⟨rfl, Option.map_eq_none_iff.mp h⟩
      | _ => cases h
  | created a =>
      cases c with
      | createView => exact Or.inr (Or.inl ⟨a, rfl, Option.map_eq_none_iff.mp h⟩)
      | _ => cases h
  | viewed a =>
      cases c with
      | resume => exact Or.inr (Or.inr ⟨a, rfl, Option.map_eq_none_iff.mp h⟩)
      | _ => cases h

end Stage
