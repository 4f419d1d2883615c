import Applogr.Core.Context

/-!
# Sorting by launches

`compareTo` subtracts the launch counts in 32 bits.  The result is the difference of the counts
when it fits; when it does not, the larger count is taken for the smaller one, or each count for
larger than the other, and the sort of a long list may throw.
-/

namespace App

variable {a b c : App}

/-- The difference of two counts that fits is the result of the comparison. -/
theorem toInt_compareTo (hab : a.launchCount.toInt - b.launchCount.toInt < 2 ^ 31)
    (hba : b.launchCount.toInt - a.launchCount.toInt < 2 ^ 31) :
  (a.compareTo b).toInt = b.launchCount.toInt - a.launchCount.toInt
  := by
  rw [compareTo, Int32.toInt_sub]
  apply Int.bmod_eq_of_le
  · omega
  · omega

/-- If the count of `a` is too much larger than the count of `b`, the results are wrong. -/
theorem toInt_compareTo_of_le (h : 2 ^ 31 ≤ a.launchCount.toInt - b.launchCount.toInt) :
  (b.compareTo a).toInt = a.launchCount.toInt - b.launchCount.toInt - 2 ^ 32 ∧
    (a.compareTo b).toInt = if a.launchCount.toInt - b.launchCount.toInt = 2 ^ 31 then -2 ^ 31
      else 2 ^ 32 - (a.launchCount.toInt - b.launchCount.toInt)
  := by
  have ha := a.launchCount.toInt_lt
  have hb := b.launchCount.le_toInt
  rw [compareTo, compareTo, Int32.toInt_sub, Int32.toInt_sub, Int.bmod_def, Int.bmod_def]
  constructor
  · omega
  · split
    · omega
    · omega

end App

/-- Counts that are subtracted are compared well if their differences fit into 32 bits. -/
theorem contract_of_fit {α : Type} {l : List α} (count : α → Int32)
    (h : ∀ a ∈ l, ∀ b ∈ l, (count a).toInt - (count b).toInt < 2 ^ 31) :
  Contract (fun a b => count b - count a) l
  := by
  have hsub : ∀ a ∈ l, ∀ b ∈ l, (count b - count a).toInt = (count b).toInt - (count a).toInt := by
    intro a ha b hb
    have hab := h a ha b hb
    have hba := h b hb a ha
    rw [Int32.toInt_sub]
    apply Int.bmod_eq_of_le
    · omega
    · omega
  constructor
  · intro a ha b hb
    rw [hsub a ha b hb, hsub b hb a ha, ← Int.sign_neg]
    congr 1
    omega
  · intro a ha b hb c hc hab hbc
    rw [Int32.le_iff_toInt_le, hsub a ha b hb, Int32.toInt_zero] at hab
    rw [Int32.le_iff_toInt_le, hsub b hb c hc, Int32.toInt_zero] at hbc
    rw [Int32.le_iff_toInt_le, hsub a ha c hc, Int32.toInt_zero]
    omega

/-- The launches of two records do not differ too much. -/
def LaunchesFit (rs : List Record) : Prop :=
  ∀ a ∈ rs, ∀ b ∈ rs, a.launchCount.toInt - b.launchCount.toInt < 2 ^ 31

namespace AppList

variable {sorter : Sorter}

/-- The sort does not throw if the launches do not differ too much. -/
theorem accepts_of_fit (sorter : Sorter) {entries : List (Option Record)}
    (h : LaunchesFit entries.reduceOption) :
  accepts sorter entries = true
  := sorter.accepts_of_contract (contract_of_fit Record.launchCount h)

/-- The entries `refs'` are the entries `refs`, the larger counts first, and entries with the same
count in their order. -/
structure ByLaunches (heap : Heap App) (refs refs' : List Ref) : Prop where
  perm : refs'.Perm refs
  nonincreasing : refs'.Pairwise (fun a b => (heap.get b).launchCount ≤ (heap.get a).launchCount)
  stable : ∀ count, refs'.filter (fun r => (heap.get r).launchCount = count)
    = refs.filter (fun r => (heap.get r).launchCount = count)

/-- `compareTo` is a total preorder on the entries, and `resort` sorts them by their launches. -/
def SortsByLaunches (sorter : Sorter) (heap : Heap App) (refs : List Ref) : Prop :=
  Contract (fun a b => (heap.get a).compareTo (heap.get b)) refs ∧
    ∃ refs', resort sorter ⟨heap, ⟨some (refs.map some)⟩⟩ = .ok () ⟨heap, ⟨some (refs'.map some)⟩⟩ ∧
      ByLaunches heap refs refs'

/-- The differences of the launch counts of the entries fit into 32 bits. -/
def DifferencesFit (heap : Heap App) (refs : List Ref) : Prop :=
  ∀ a ∈ refs, ∀ b ∈ refs,
    (heap.get a).launchCount.toInt - (heap.get b).launchCount.toInt < 2 ^ 31

variable {heap : Heap App} {refs : List Ref}

/-! ### Counts whose differences fit -/

theorem DifferencesFit.compareTo (h : DifferencesFit heap refs) {a b : Ref} (ha : a ∈ refs)
    (hb : b ∈ refs) :
  ((heap.get a).compareTo (heap.get b)).toInt
    = (heap.get b).launchCount.toInt - (heap.get a).launchCount.toInt
  := App.toInt_compareTo (h a ha b hb) (h b hb a ha)

theorem DifferencesFit.compareTo_le (h : DifferencesFit heap refs) {a b : Ref} (ha : a ∈ refs)
    (hb : b ∈ refs) :
  (heap.get a).compareTo (heap.get b) ≤ 0 ↔ (heap.get b).launchCount ≤ (heap.get a).launchCount
  := by
  rw [Int32.le_iff_toInt_le, h.compareTo ha hb, Int32.le_iff_toInt_le, Int32.toInt_zero]
  omega

theorem DifferencesFit.contract (h : DifferencesFit heap refs) :
  Contract (fun a b => (heap.get a).compareTo (heap.get b)) refs
  := contract_of_fit (fun r => (heap.get r).launchCount) h

/-! ### The contract -/

section Contract

variable (hcontract : Contract (fun a b => (heap.get a).compareTo (heap.get b)) refs)

include hcontract

/-- The entries are sorted by the comparison if it is a total preorder on them. -/
theorem resort_of_contract :
  resort sorter ⟨heap, ⟨some (refs.map some)⟩⟩
      = .ok () ⟨heap, ⟨some ((sorted sorter heap refs).map some)⟩⟩ ∧
    sorted sorter heap refs
      = refs.insertionSort (fun a b => (heap.get a).compareTo (heap.get b) ≤ 0)
  := by
  have haccepts : sorter.accepts (fun a b => (heap.get a).compareTo (heap.get b)) (refs.map some)
      = true := by
    apply sorter.accepts_of_contract
    rw [reduceOption_map_some]
    apply hcontract
  constructor
  · apply resort_of_accepts
    rw [accepts_entries, haccepts]
  · obtain ⟨refs', hsort, -, hsorted⟩ := sorter.exists_sorted haccepts
    rw [sorted, hsort]
    simp only [reduceOption_map_some]
    apply hsorted hcontract

theorem pairwise_sorted :
  (sorted sorter heap refs).Pairwise (fun a b => (heap.get a).compareTo (heap.get b) ≤ 0)
  := by
  rw [(resort_of_contract hcontract).2]
  apply StableSort.pairwise_insertionSort hcontract.orderOn

/-- Two entries of a list that is sorted in two ways are in the same order both ways. -/
theorem agree_of_byLaunches (hsorted : ByLaunches heap refs (sorted sorter heap refs)) {a b : Ref}
    (ha : a ∈ refs) (hb : b ∈ refs) (hne : a ≠ b) :
  ((heap.get a).compareTo (heap.get b) ≤ 0 ∧
      (heap.get b).launchCount ≤ (heap.get a).launchCount) ∨
    ((heap.get b).compareTo (heap.get a) ≤ 0 ∧
      (heap.get a).launchCount ≤ (heap.get b).launchCount)
  := by
  have hperm := sorted_perm sorter heap refs
  let before : Ref → Ref → Prop := fun x y =>
    (heap.get x).compareTo (heap.get y) ≤ 0 ∧ (heap.get y).launchCount ≤ (heap.get x).launchCount
  have hsymm : Std.Symm (fun x y => before x y ∨ before y x) := ⟨fun _ _ h => h.symm⟩
  have hbefore : (sorted sorter heap refs).Pairwise (fun x y => before x y ∨ before y x) :=
    ((pairwise_sorted hcontract).and hsorted.nonincreasing).imp Or.inl
  apply hbefore.forall (hperm.mem_iff.mpr ha) (hperm.mem_iff.mpr hb) hne

/-- Counts whose difference does not fit break the contract, or they are sorted the wrong way. -/
theorem differencesFit_of_byLaunches (hsorted : ByLaunches heap refs (sorted sorter heap refs)) :
  DifferencesFit heap refs
  := by
  intro a ha b hb
  by_contra hlarge
  push Not at hlarge
  obtain ⟨hba, hab⟩ := App.toInt_compareTo_of_le hlarge
  have hne : a ≠ b := by
    rintro rfl
    omega
  by_cases hedge : (heap.get a).launchCount.toInt - (heap.get b).launchCount.toInt = 2 ^ 31
  · -- each of the two comes before the other
    have hsign := hcontract.antisymm a ha b hb
    rw [hba, hab, if_pos hedge, hedge] at hsign
    revert hsign
    decide
  · rw [if_neg hedge] at hab
    rcases agree_of_byLaunches hcontract hsorted ha hb hne with ⟨hle, -⟩ | ⟨-, hle⟩
    · rw [Int32.le_iff_toInt_le, hab, Int32.toInt_zero] at hle
      have ha' := (heap.get a).launchCount.toInt_lt
      have hb' := (heap.get b).launchCount.le_toInt
      omega
    · rw [Int32.le_iff_toInt_le] at hle
      omega

end Contract

theorem DifferencesFit.byLaunches (h : DifferencesFit heap refs) :
  ByLaunches heap refs (sorted sorter heap refs)
  := by
  constructor
  · apply sorted_perm
  · have hperm := sorted_perm sorter heap refs
    apply (pairwise_sorted h.contract).imp_of_mem
    intro a b ha hb hab
    apply (h.compareTo_le (hperm.mem_iff.mp ha) (hperm.mem_iff.mp hb)).mp hab
  · intro count
    rw [(resort_of_contract h.contract).2]
    apply StableSort.filter_insertionSort
    intro a ha b hb hca hcb
    rw [h.compareTo_le ha hb, of_decide_eq_true hca, of_decide_eq_true hcb]
    apply Int32.le_refl

/-- `resort` sorts the entries by their launches exactly when the differences of the counts fit. -/
theorem sortsByLaunches_iff (sorter : Sorter) (heap : Heap App) (refs : List Ref) :
  SortsByLaunches sorter heap refs ↔ DifferencesFit heap refs
  := by
  constructor
  · rintro ⟨hcontract, refs', hresort, hsorted⟩
    rw [(resort_of_contract hcontract).1] at hresort
    injection hresort with _ hstate
    obtain rfl := List.map_injective_iff.mpr (Option.some_injective Ref)
      (Option.some.inj (congrArg (fun t : Apps => t.list.apps) hstate))
    apply differencesFit_of_byLaunches hcontract hsorted
  · intro h
    exact ⟨h.contract, _, (resort_of_contract h.contract).1, h.byLaunches⟩

/-- An application that has been launched often, and one whose count has been read as a negative
number. -/
def farApart : Heap App :=
  (Heap.empty.alloc { App.new "com.example" with launchCount := 2147483647 }).alloc
    { App.new "com.other" with launchCount := -2 }

/-- On every platform the application with the negative count comes first. -/
theorem not_sortsByLaunches_farApart :
  ¬ ∃ sorter : Sorter, ∀ (heap : Heap App) (refs : List Ref), SortsByLaunches sorter heap refs
  := by
  rintro ⟨sorter, h⟩
  obtain ⟨hcontract, refs', hresort, hsorted⟩ := h farApart [0, 1]
  have hreversed : sorted sorter farApart [0, 1] = [1, 0] :=
    Eq.trans (resort_of_contract hcontract).2 rfl
  rw [(resort_of_contract hcontract).1, hreversed] at hresort
  injection hresort with _ hstate
  obtain rfl := List.map_injective_iff.mpr (Option.some_injective Ref)
    (Option.some.inj (congrArg (fun t : Apps => t.list.apps) hstate))
  have hle := List.rel_of_pairwise_cons hsorted.nonincreasing (List.mem_singleton_self 0)
  revert hle
  decide

end AppList
