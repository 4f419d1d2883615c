import Mathlib.Logic.Function.Basic
import Mathlib.Data.Nat.Notation

/-!
# Objects with identity

A heap holds the objects created so far.  A reference is the number of the object, so
two references are equal exactly when they are references to the same object, whatever
its fields hold.  Creating an object takes the next number.
-/

/-- A reference to an object of a heap. -/
abbrev Ref : Type := ℕ

/-- The objects created so far: `get r` is the object with number `r`, for `r < next`. -/
structure Heap (α : Type*) where
  next : ℕ
  get : Ref → α

namespace Heap

variable {α : Type*} (h : Heap α)

/-- The heap without objects. -/
def empty [Inhabited α] : Heap α := ⟨0, fun _ => default⟩

/-- The heap with a new object `a`, whose reference is `h.next`. -/
def alloc (a : α) : Heap α := ⟨h.next + 1, Function.update h.get h.next a⟩

/-- The heap in which the fields of the object `r` have been changed by `f`. -/
def modify (r : Ref) (f : α → α) : Heap α := ⟨h.next, Function.update h.get r (f (h.get r))⟩

@[simp]
theorem next_alloc (a : α) :
  (h.alloc a).next = h.next + 1
  := rfl

@[simp]
theorem next_modify (r : Ref) (f : α → α) :
  (h.modify r f).next = h.next
  := rfl

@[simp]
theorem get_alloc_next (a : α) :
  (h.alloc a).get h.next = a
  := by
  apply Function.update_self

/-- Creating an object changes no other object. -/
theorem get_alloc_of_ne {r : Ref} (hr : r ≠ h.next) (a : α) :
  (h.alloc a).get r = h.get r
  := by
  apply Function.update_of_ne hr

/-- Creating an object changes no object created before. -/
theorem get_alloc_of_lt {r : Ref} (hr : r < h.next) (a : α) :
  (h.alloc a).get r = h.get r
  := h.get_alloc_of_ne (Nat.ne_of_lt hr) a

@[simp]
theorem get_modify_self (r : Ref) (f : α → α) :
  (h.modify r f).get r = f (h.get r)
  := by
  apply Function.update_self

/-- Changing an object changes no other object. -/
theorem get_modify_of_ne {r r' : Ref} (hr : r' ≠ r) (f : α → α) :
  (h.modify r f).get r' = h.get r'
  := by
  apply Function.update_of_ne hr

/-- Only the value of the object matters for the change. -/
theorem modify_congr {r : Ref} {f g : α → α} (hfg : f (h.get r) = g (h.get r)) :
  h.modify r f = h.modify r g
  := by
  rw [modify, hfg, modify]

/-- Two changes of one object are one change. -/
theorem modify_modify (r : Ref) (f g : α → α) :
  (h.modify r f).modify r g = h.modify r (fun a => g (f a))
  := by
  rw [modify, get_modify_self, modify, modify, Function.update_idem]

/-- Changing several objects, in the same way, when a second change of an object keeps it. -/
theorem get_foldl_modify {f : α → α} (hf : ∀ a, f (f a) = f a) (refs : List Ref) (r : Ref) :
  (refs.foldl (fun h r => h.modify r f) h).get r = if r ∈ refs then f (h.get r) else h.get r
  := by
  induction refs generalizing h with
  | nil => rfl
  | cons r' refs ih =>
      rw [List.foldl_cons, ih]
      by_cases hr : r = r'
      · subst hr
        rw [get_modify_self, hf, ite_self, if_pos List.mem_cons_self]
      · rw [get_modify_of_ne h hr]
        simp only [List.mem_cons, hr, false_or]

/-- A change that keeps the object changes nothing. -/
theorem modify_eq_self {r : Ref} {f : α → α} (hf : f (h.get r) = h.get r) :
  h.modify r f = h
  := by
  rw [modify, hf, Function.update_eq_self]

/-- A field that `f` does not change is not changed by changing an object by `f`. -/
theorem get_modify_field {β : Type*} (field : α → β) {f : α → α}
    (hf : ∀ a, field (f a) = field a) (r r' : Ref) :
  field ((h.modify r f).get r') = field (h.get r')
  := by
  by_cases hr : r' = r
  · subst hr
    rw [get_modify_self, hf]
  · rw [get_modify_of_ne h hr]

end Heap
