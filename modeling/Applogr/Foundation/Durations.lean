import Applogr.Foundation.Blocks
import Mathlib.Algebra.BigOperators.Group.List.Basic
import Mathlib.Algebra.Order.BigOperators.Group.List
import Mathlib.Algebra.Order.Group.Unbundled.Basic
import Mathlib.Tactic.Abel

/-!
# Durations of blocks

The elements of a sequence carry two moments, `start` and `stop`.  The span of a closed
block is the time from the `start` of its first element to the `stop` of the element that
follows.  `spent k l` adds up the spans of the closed blocks of key `k`, and `credited k l`
the times from the `start` of the last element of a closed block to the `stop` of the
element that follows.  The two differ by the lags of the blocks, the times between the
`start` of the first element and the `start` of the last one.
-/

namespace Blocks

variable {α κ T : Type*} [DecidableEq κ] (key : α → κ) (start stop : α → T)

section Sums

variable [AddCommGroup T]

/-- The time from the first element of a closed block to the element that follows. -/
def Closed.span (c : Closed α) : T := stop c.next - start c.first

/-- The time from the first element of a closed block to its last element. -/
def Closed.lag (c : Closed α) : T := start c.last - start c.first

/-- The closed blocks of key `k`. -/
def closedBlocksOf (k : κ) (l : List α) : List (Closed α) :=
  (closedBlocks key l).filter (fun c => key c.first = k)

/-- The departures from an element of key `k`. -/
def departuresOf (k : κ) (l : List α) : List (α × α) :=
  (departures key l).filter (fun d => key d.1 = k)

/-- The sum of the spans of the closed blocks of key `k`. -/
def spent (k : κ) (l : List α) : T :=
  ((closedBlocksOf key k l).map (Closed.span start stop)).sum

/-- The time of a departure. -/
def leg (d : α × α) : T := stop d.2 - start d.1

/-- The sum of the times of the departures from an element of key `k`. -/
def credited (k : κ) (l : List α) : T :=
  ((departuresOf key k l).map (leg start stop)).sum

theorem closedBlocksOf_departures (k : κ) (l : List α) :
  (closedBlocksOf key k l).map (fun c => (c.last, c.next)) = departuresOf key k l
  := by
  rw [departuresOf, ← closedBlocks_departures, List.filter_map, closedBlocksOf]
  congr 1
  apply List.filter_congr
  intro c hc
  simp [(closedBlocks_key key hc).1]

/-- The time spent is the time credited and the lags of the blocks. -/
theorem spent_eq (k : κ) (l : List α) :
  spent key start stop k l
    = credited key start stop k l + ((closedBlocksOf key k l).map (Closed.lag start)).sum
  := by
  rw [spent, credited, ← closedBlocksOf_departures, List.map_map, ← List.sum_map_add]
  congr 2
  funext c
  simp only [Closed.span, Closed.lag, leg, Function.comp_apply]
  abel

@[simp]
theorem credited_nil (k : κ) :
  credited key start stop k [] = 0
  := rfl

/-- Appending an element credits the key of the last element when the keys differ. -/
theorem credited_concat (k : κ) (l : List α) (b : α) :
  credited key start stop k (l ++ [b])
    = credited key start stop k l
      + ((l.getLast?.toList.filter (fun a => key a = k ∧ k ≠ key b)).map
          (fun a => stop b - start a)).sum
  := by
  rw [credited, departuresOf, departures_concat, List.filter_append, List.map_append,
    List.sum_append]
  congr 1
  cases l.getLast? with
  | none => rfl
  | some a =>
      by_cases hk : key a = k
      · subst hk
        by_cases hb : key a = key b
        · simp [hb]
        · simp [hb, leg]
      · by_cases hb : key a = key b
        · simp [hb, hb ▸ hk]
        · simp [hb, hk]

/-- Adding up the times credited to distinct keys adds up the legs of the departures from
these keys. -/
theorem sum_credited {ks : List κ} (hks : ks.Nodup) (l : List α) :
  (ks.map (fun k => credited key start stop k l)).sum
    = (((departures key l).filter (fun d => key d.1 ∈ ks)).map (leg start stop)).sum
  := by
  induction ks with
  | nil => simp
  | cons k ks ih =>
      obtain ⟨hk, hks⟩ := List.nodup_cons.mp hks
      rw [List.map_cons, List.sum_cons, ih hks, credited, departuresOf]
      induction departures key l with
      | nil => simp
      | cons d ds ihd =>
          by_cases hd : key d.1 = k
          · have hn : key d.1 ∉ ks := hd ▸ hk
            simp only [List.mem_cons, Bool.decide_or] at ihd
            simp [hd, hk, ← ihd, add_assoc]
          · simp only [List.mem_cons, Bool.decide_or] at ihd
            by_cases hn : key d.1 ∈ ks
            · simp [hd, hn, ← ihd, add_left_comm]
            · simp [hd, hn, ← ihd]

end Sums

section Sorted

variable [Preorder T]

/-- If `start` does not decrease along the sequence, it does not decrease from the first
to the last element of a closed block. -/
theorem closedBlocks_sorted {l : List α} (h : l.Pairwise (fun a b => start a ≤ start b)) :
  ∀ c ∈ closedBlocks key l, start c.first ≤ start c.last
  := by
  induction l with
  | nil => simp
  | cons a l ih =>
      obtain ⟨ha, hl⟩ := List.pairwise_cons.mp h
      intro c hc
      cases l with
      | nil => simp at hc
      | cons b l =>
          by_cases hk : key a = key b
          · rw [closedBlocks_cons_of_eq key hk] at hc
            cases hcs : closedBlocks key (b :: l) with
            | nil => simp [hcs] at hc
            | cons d ds =>
                rw [hcs, List.modifyHead_cons, List.mem_cons] at hc
                rcases hc with rfl | hc
                · apply ha
                  apply (closedBlocks_mem key (c := d) _).2.1
                  rw [hcs]
                  apply List.mem_cons_self
                · apply ih hl
                  rw [hcs]
                  apply List.mem_cons_of_mem _ hc
          · rw [closedBlocks_cons_of_ne key hk, List.mem_cons] at hc
            rcases hc with rfl | hc
            · apply le_refl
            · apply ih hl c hc

end Sorted

section Order

variable [AddCommGroup T] [LinearOrder T] [IsOrderedAddMonoid T]

/-- If `start` does not decrease along the sequence, the time spent is the time credited
exactly when no closed block of the key has a lag. -/
theorem credited_eq_spent_iff {l : List α} (h : l.Pairwise (fun a b => start a ≤ start b))
    (k : κ) :
  credited key start stop k l = spent key start stop k l
    ↔ ∀ c ∈ closedBlocksOf key k l, start c.last = start c.first
  := by
  rw [spent_eq, left_eq_add]
  have hlag : ∀ x ∈ (closedBlocksOf key k l).map (Closed.lag start), 0 ≤ x := by
    intro x hx
    obtain ⟨c, hc, rfl⟩ := List.mem_map.mp hx
    apply sub_nonneg.mpr
    apply closedBlocks_sorted key start h c (List.mem_of_mem_filter hc)
  constructor
  · intro hsum c hc
    apply sub_eq_zero.mp
    apply List.all_zero_of_le_zero_le_of_sum_eq_zero hlag hsum
    apply List.mem_map_of_mem hc
  · intro hzero
    apply List.sum_eq_zero
    intro x hx
    obtain ⟨c, hc, rfl⟩ := List.mem_map.mp hx
    apply sub_eq_zero.mpr (hzero c hc)

/-- Legs which follow one another, all of them between `lo` and `hi`, take no more time
than there is from `lo` to `hi`. -/
theorem sum_leg_le {ds : List (α × α)} {lo hi : T}
    (hds : ds.Pairwise (fun d e => stop d.2 ≤ start e.1))
    (hlo : ∀ d ∈ ds, lo ≤ start d.1) (hhi : ∀ d ∈ ds, stop d.2 ≤ hi) (h : lo ≤ hi) :
  (ds.map (leg start stop)).sum ≤ hi - lo
  := by
  induction ds generalizing lo with
  | nil => apply sub_nonneg.mpr h
  | cons d ds ih =>
      obtain ⟨hd, hds⟩ := List.pairwise_cons.mp hds
      have hrest : (ds.map (leg start stop)).sum ≤ hi - stop d.2 :=
        ih hds hd (fun e he => hhi e (List.mem_cons_of_mem _ he)) (hhi d List.mem_cons_self)
      rw [List.map_cons, List.sum_cons]
      calc leg start stop d + (ds.map (leg start stop)).sum
          ≤ leg start stop d + (hi - stop d.2) := by
            apply add_le_add_right hrest
        _ = hi - start d.1 := by
            simp only [leg]
            abel
        _ ≤ hi - lo := by
            apply sub_le_sub_left (hlo d List.mem_cons_self)

end Order

end Blocks
