import Applogr.Foundation.Java
import Applogr.Foundation.StableSort
import Mathlib.Data.List.ReduceOption

/-!
# Sorting by a comparison that may break its contract

`Collections.sort` compares the entries of a list, which may be null.  A comparison has a contract.
If it keeps the contract on the entries, then the sort is stable.  If it breaks the contract, then
the entries end up in some order, or the sort finds out while it merges, and it throws an
`IllegalArgumentException`.  What happens then is a matter of the platform.  A platform is a
`Sorter`.
-/

/-- The comparison keeps its contract on the entries: it is a total preorder on them. -/
structure Contract {α : Type} (cmp : α → α → Int32) (l : List α) : Prop where
  antisymm : ∀ a ∈ l, ∀ b ∈ l, (cmp a b).toInt.sign = -(cmp b a).toInt.sign
  trans : ∀ a ∈ l, ∀ b ∈ l, ∀ c ∈ l, cmp a b ≤ 0 → cmp b c ≤ 0 → cmp a c ≤ 0

/-- A list with fewer entries is sorted by insertion, and nothing is merged. -/
def minMerge : ℕ := 32

/-- How the sort of a list may end.  A list with two or more entries is not sorted without comparing
each of them, and comparing with null throws. -/
def SortOutcome {α : Type} (cmp : α → α → Int32) (l : List (Option α)) :
    Except JavaException (List (Option α)) → Prop
  | .ok l' => l'.Perm l ∧ (none ∈ l → l.length < 2) ∧
      (none ∉ l → Contract cmp l.reduceOption →
        l' = (l.reduceOption.insertionSort (fun a b => cmp a b ≤ 0)).map some)
  | .error e => (e = .nullPointer ∧ none ∈ l ∧ 2 ≤ l.length) ∨
      (e = .illegalArgument ∧ minMerge ≤ l.length ∧ ¬ Contract cmp l.reduceOption)

/-- A platform, by what its sort does.  It learns of the entries only by comparing them. -/
structure Sorter where
  sort : {α : Type} → (α → α → Int32) → List (Option α) → Except JavaException (List (Option α))
  sort_map : ∀ {α β : Type} (f : α → β) (cmp : β → β → Int32) (l : List (Option α)),
    sort cmp (l.map (Option.map f))
      = (sort (fun a b => cmp (f a) (f b)) l).map (List.map (Option.map f))
  outcome : ∀ {α : Type} (cmp : α → α → Int32) (l : List (Option α)), SortOutcome cmp l (sort cmp l)

section Lists

variable {α β : Type}

theorem none_not_mem_map_some (l : List α) :
  none ∉ l.map some
  := by
  rw [List.mem_map]
  rintro ⟨a, -, ha⟩
  cases ha

theorem reduceOption_map_some (l : List α) :
  (l.map some).reduceOption = l
  := by
  induction l with
  | nil => rfl
  | cons a l ih => rw [List.map_cons, List.reduceOption_cons_of_some, ih]

/-- Every list either has a null or is a list of values. -/
theorem exists_values_or_null (l : List (Option α)) :
  (∃ as : List α, l = as.map some) ∨ none ∈ l
  := by
  induction l with
  | nil =>
      left
      use []
      rfl
  | cons a l ih =>
      cases a with
      | none =>
          right
          apply List.mem_cons_self
      | some a =>
          rcases ih with ⟨as, rfl⟩ | h
          · left
            use a :: as
            rfl
          · right
            apply List.mem_cons_of_mem _ h

end Lists

namespace Contract

variable {α β : Type} {cmp : α → α → Int32} {l : List α}

/-- A comparison that keeps its contract on the entries is an order on them. -/
theorem orderOn (h : Contract cmp l) :
  StableSort.OrderOn (fun a b => cmp a b ≤ 0) l
  := by
  constructor
  · intro a ha b hb
    have hsign := h.antisymm a ha b hb
    rw [Int32.le_iff_toInt_le, Int32.le_iff_toInt_le, Int32.toInt_zero]
    by_contra hpos
    push Not at hpos
    rw [Int.sign_eq_one_of_pos hpos.1, Int.sign_eq_one_of_pos hpos.2] at hsign
    cases hsign
  · apply h.trans

theorem map_iff {cmp : β → β → Int32} (f : α → β) (l : List α) :
  Contract cmp (l.map f) ↔ Contract (fun a b => cmp (f a) (f b)) l
  := by
  constructor
  · intro h
    constructor
    · intro a ha b hb
      apply h.antisymm _ (List.mem_map_of_mem ha) _ (List.mem_map_of_mem hb)
    · intro a ha b hb c hc
      apply h.trans _ (List.mem_map_of_mem ha) _ (List.mem_map_of_mem hb) _ (List.mem_map_of_mem hc)
  · intro h
    constructor
    · rw [List.forall_mem_map]
      intro a ha
      rw [List.forall_mem_map]
      intro b hb
      apply h.antisymm a ha b hb
    · rw [List.forall_mem_map]
      intro a ha
      rw [List.forall_mem_map]
      intro b hb
      rw [List.forall_mem_map]
      intro c hc
      apply h.trans a ha b hb c hc

instance (cmp : α → α → Int32) (l : List α) : Decidable (Contract cmp l) :=
  decidable_of_iff
    ((∀ a ∈ l, ∀ b ∈ l, (cmp a b).toInt.sign = -(cmp b a).toInt.sign) ∧
      ∀ a ∈ l, ∀ b ∈ l, ∀ c ∈ l, cmp a b ≤ 0 → cmp b c ≤ 0 → cmp a c ≤ 0)
    ⟨fun h => ⟨h.1, h.2⟩, fun h => ⟨h.antisymm, h.trans⟩⟩

end Contract

namespace Sorter

variable {α β : Type} (S : Sorter) {cmp : α → α → Int32} {l : List (Option α)}

/-- The sort does not throw an `IllegalArgumentException`. -/
def accepts (cmp : α → α → Int32) (l : List (Option α)) : Bool :=
  match S.sort cmp l with
  | .error .illegalArgument => false
  | _ => true

theorem accepts_map (f : α → β) (cmp : β → β → Int32) (l : List (Option α)) :
  S.accepts cmp (l.map (Option.map f)) = S.accepts (fun a b => cmp (f a) (f b)) l
  := by
  rw [accepts, accepts, S.sort_map]
  rcases S.sort (fun a b => cmp (f a) (f b)) l with e | l'
  · cases e <;> rfl
  · rfl

/-- A comparison that keeps its contract is accepted. -/
theorem accepts_of_contract (h : Contract cmp l.reduceOption) :
  S.accepts cmp l = true
  := by
  have hout := S.outcome cmp l
  rw [accepts]
  rcases hsort : S.sort cmp l with e | l'
  · rw [hsort] at hout
    rcases hout with ⟨rfl, -⟩ | ⟨-, -, hnot⟩
    · rfl
    · exact absurd h hnot
  · rfl

/-- In a short list no comparison is refused. -/
theorem accepts_of_short (h : l.length < minMerge) :
  S.accepts cmp l = true
  := by
  have hout := S.outcome cmp l
  rw [accepts]
  rcases hsort : S.sort cmp l with e | l'
  · rw [hsort] at hout
    rcases hout with ⟨rfl, -⟩ | ⟨-, hlong, -⟩
    · rfl
    · exact absurd h (Nat.not_lt.mpr hlong)
  · rfl

theorem sort_of_not_accepts (h : S.accepts cmp l = false) :
  S.sort cmp l = .error .illegalArgument
  := by
  rw [accepts] at h
  split at h
  · assumption
  · cases h

/-- A list without nulls that is accepted is sorted in some way. -/
theorem exists_sorted {as : List α} (h : S.accepts cmp (as.map some) = true) :
  ∃ as' : List α, S.sort cmp (as.map some) = .ok (as'.map some) ∧ as'.Perm as ∧
    (Contract cmp as → as' = as.insertionSort (fun a b => cmp a b ≤ 0))
  := by
  have hout := S.outcome cmp (as.map some)
  have hnull := none_not_mem_map_some as
  rw [accepts] at h
  rcases hsort : S.sort cmp (as.map some) with e | l'
  · rw [hsort] at h hout
    rcases hout with ⟨-, hmem, -⟩ | ⟨rfl, -⟩
    · exact absurd hmem hnull
    · cases h
  · rw [hsort] at hout
    obtain ⟨hperm, -, hsorted⟩ := hout
    rcases exists_values_or_null l' with ⟨as', rfl⟩ | hmem
    · rw [reduceOption_map_some] at hsorted
      refine ⟨as', rfl, ?_, ?_⟩
      · have hreduced : (as'.map some).reduceOption.Perm (as.map some).reduceOption :=
          hperm.filterMap id
        rw [reduceOption_map_some, reduceOption_map_some] at hreduced
        apply hreduced
      · intro h
        apply List.map_injective_iff.mpr (Option.some_injective α)
        apply hsorted hnull h
    · exact absurd (hperm.mem_iff.mp hmem) hnull

/-- A list with a null is not sorted, unless the null is its only entry. -/
theorem sort_null (cmp : α → α → Int32) (h : none ∈ l) :
  if l.length < 2 then S.sort cmp l = .ok l
  else S.sort cmp l = .error (if S.accepts cmp l then .nullPointer else .illegalArgument)
  := by
  have hout := S.outcome cmp l
  rw [accepts]
  rcases hsort : S.sort cmp l with e | l'
  · rw [hsort] at hout
    have hlong : ¬ l.length < 2 := by
      rcases hout with ⟨-, -, hlong⟩ | ⟨-, hlong, -⟩
      · exact Nat.not_lt.mpr hlong
      · rw [minMerge] at hlong
        omega
    rw [if_neg hlong]
    rcases hout with ⟨rfl, -⟩ | ⟨rfl, -⟩
    · rfl
    · rfl
  · rw [hsort] at hout
    obtain ⟨hperm, hshort, -⟩ := hout
    have hlen := hshort h
    rw [if_pos hlen]
    obtain ⟨a, rfl⟩ : ∃ a, l = [a] := by
      apply List.length_eq_one_iff.mp
      have hpos := List.length_pos_of_mem h
      omega
    rw [List.perm_singleton.mp hperm]

/-! ### A strict platform -/

/-- The sort of a platform on which every comparison of a long list that breaks its contract is found
out. -/
def strictSort (cmp : α → α → Int32) (l : List (Option α)) :
    Except JavaException (List (Option α)) :=
  if l.length < 2 then
    .ok l
  else if l.any Option.isNone then
    .error .nullPointer
  else if l.length < minMerge ∨ Contract cmp l.reduceOption then
    .ok ((l.reduceOption.insertionSort (fun a b => cmp a b ≤ 0)).map some)
  else
    .error .illegalArgument

theorem strictSort_map (f : α → β) (cmp : β → β → Int32) (l : List (Option α)) :
  strictSort cmp (l.map (Option.map f))
    = (strictSort (fun a b => cmp (f a) (f b)) l).map (List.map (Option.map f))
  := by
  have hany : (l.map (Option.map f)).any Option.isNone = l.any Option.isNone := by
    rw [List.any_map]
    apply congrArg (fun p => l.any p)
    funext a
    cases a <;> rfl
  have hsort : (l.reduceOption.map f).insertionSort (fun a b => cmp a b ≤ 0)
      = (l.reduceOption.insertionSort (fun a b => cmp (f a) (f b) ≤ 0)).map f :=
    (List.map_insertionSort _ _ f l.reduceOption (fun _ _ _ _ => Iff.rfl)).symm
  rw [strictSort, strictSort, hany, List.length_map, List.reduceOption_map]
  simp only [Contract.map_iff]
  split
  · rfl
  · split
    · rfl
    · split
      · rw [hsort]
        simp [Except.map, Function.comp_def]
      · rfl

theorem strictSort_outcome (cmp : α → α → Int32) (l : List (Option α)) :
  SortOutcome cmp l (strictSort cmp l)
  := by
  have hnull : none ∈ l ↔ l.any Option.isNone = true := by
    rw [List.any_eq_true]
    constructor
    · intro h
      use none, h
      rfl
    · rintro ⟨_ | a, ha, h⟩
      · apply ha
      · cases h
  rcases exists_values_or_null l with ⟨as, rfl⟩ | h
  · have hnone := none_not_mem_map_some as
    rw [strictSort, reduceOption_map_some, if_neg (mt hnull.mpr hnone)]
    split
    · rename_i hlen
      refine ⟨List.Perm.refl _, fun _ => hlen, fun _ _ => ?_⟩
      rw [reduceOption_map_some]
      rcases as with _ | ⟨a, _ | ⟨b, as⟩⟩
      · rfl
      · rfl
      · simp only [List.length_map, List.length_cons] at hlen
        omega
    · split
      · refine ⟨?_, fun h => absurd h hnone, fun _ _ => ?_⟩
        · apply (List.perm_insertionSort _ as).map
        · rw [reduceOption_map_some]
      · rename_i hboth
        obtain ⟨hlong, hnot⟩ := not_or.mp hboth
        right
        rw [reduceOption_map_some]
        exact ⟨rfl, Nat.not_lt.mp hlong, hnot⟩
  · rw [strictSort, if_pos (hnull.mp h)]
    split
    · rename_i hlen
      exact ⟨List.Perm.refl _, fun _ => hlen, fun hnot => absurd h hnot⟩
    · rename_i hlen
      left
      exact ⟨rfl, h, Nat.not_lt.mp hlen⟩

/-- A platform on which every comparison of a long list that breaks its contract is found out. -/
def strict : Sorter where
  sort := strictSort
  sort_map := strictSort_map
  outcome := strictSort_outcome

/-- The strict platform refuses the comparisons of a long list that break their contract. -/
theorem strict_accepts_of_not_contract {as : List α} (hlong : minMerge ≤ as.length)
    (h : ¬ Contract cmp as) :
  strict.accepts cmp (as.map some) = false
  := by
  have hsort : strictSort cmp (as.map some) = .error .illegalArgument := by
    have hnone : ¬ (as.map some).any Option.isNone = true := by simp
    have hlen : ¬ (as.map some).length < 2 := by
      rw [List.length_map, Nat.not_lt]
      apply le_trans _ hlong
      decide
    rw [strictSort, if_neg hlen, if_neg hnone, reduceOption_map_some, if_neg]
    rw [List.length_map, not_or, Nat.not_lt]
    exact ⟨hlong, h⟩
  have hstrict : strict.sort cmp (as.map some) = .error .illegalArgument := hsort
  rw [accepts, hstrict]

/-- The lists without nulls that every platform accepts are the short ones, and those on which the
comparison keeps its contract. -/
theorem forall_accepts_iff {as : List α} :
  (∀ S : Sorter, S.accepts cmp (as.map some) = true) ↔ as.length < minMerge ∨ Contract cmp as
  := by
  constructor
  · intro h
    by_contra hboth
    obtain ⟨hlong, hcontract⟩ := not_or.mp hboth
    have hrefused := strict_accepts_of_not_contract (Nat.not_lt.mp hlong) hcontract
    rw [h strict] at hrefused
    cases hrefused
  · rintro (hshort | hcontract) S
    · apply S.accepts_of_short
      rw [List.length_map]
      apply hshort
    · apply S.accepts_of_contract
      rw [reduceOption_map_some]
      apply hcontract

end Sorter
