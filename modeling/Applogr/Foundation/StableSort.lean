import Mathlib.Algebra.Ring.Int.Defs
import Mathlib.Data.List.Pairwise
import Mathlib.Data.List.Sort
import Mathlib.Tactic.Common

/-!
# Stable sorting

A list is sorted by a comparison that need not be total and transitive, except on the elements of
the list.
-/

namespace StableSort

variable {α : Type*} {r : α → α → Prop} [DecidableRel r] {l : List α}

/-- The comparison is total and transitive on the elements of the list. -/
structure OrderOn (r : α → α → Prop) (l : List α) : Prop where
  total : ∀ a ∈ l, ∀ b ∈ l, r a b ∨ r b a
  trans : ∀ a ∈ l, ∀ b ∈ l, ∀ c ∈ l, r a b → r b c → r a c

/-- The sorted list is sorted. -/
theorem pairwise_insertionSort (h : OrderOn r l) :
  (l.insertionSort r).Pairwise r
  := by
  let rel : {a // a ∈ l} → {a // a ∈ l} → Prop := fun a b => r a.val b.val
  have htotal : Std.Total rel := ⟨fun a b => h.total a.val a.property b.val b.property⟩
  have htrans : IsTrans _ rel :=
    ⟨fun a b c => h.trans a.val a.property b.val b.property c.val c.property⟩
  have hsorted := List.pairwise_insertionSort rel l.attach
  have hmap := List.map_insertionSort rel r Subtype.val l.attach (fun _ _ _ _ => Iff.rfl)
  rw [List.attach_map_subtype_val] at hmap
  rw [← hmap]
  apply List.pairwise_map.mpr hsorted

/-- Elements that are related to each other keep their order. -/
theorem filter_insertionSort (p : α → Bool)
    (h : ∀ a ∈ l, ∀ b ∈ l, p a = true → p b = true → r a b) :
  (l.insertionSort r).filter p = l.filter p
  := by
  have hrelated : (l.filter p).Pairwise r := by
    apply List.pairwise_of_forall_mem_list
    intro a ha b hb
    obtain ⟨ha, hpa⟩ := List.mem_filter.mp ha
    obtain ⟨hb, hpb⟩ := List.mem_filter.mp hb
    apply h a ha b hb hpa hpb
  have hsub := (List.sublist_insertionSort hrelated List.filter_sublist).filter p
  rw [List.filter_filter] at hsub
  simp only [Bool.and_self] at hsub
  symm
  apply hsub.eq_of_length
  apply ((List.perm_insertionSort r l).filter p).length_eq.symm

end StableSort
