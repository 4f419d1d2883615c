import Mathlib.Algebra.BigOperators.Group.Finset.Piecewise
import Mathlib.Algebra.Order.BigOperators.Group.Finset
import Mathlib.Tactic.Abel
import Mathlib.Tactic.Common

/-!
# Ledgers

A ledger records, for each key, for how long it was used and how often it was opened.  One key at
a time is current, and its use is timed by a clock which may be read at any event.  A restart
forgets the current key and what it was timed for.

Whatever the times are, they have values in an ordered group.  If the clock does not go back, then
the recorded times together grow by no more than the time that has passed on the clock.
-/

/-- What has been recorded about the use of keys, the current key and the time at which it was
started, if it is timed, and how often the clock has been read. -/
@[ext]
structure Ledger (κ τ ν : Type*) where
  known : Finset κ
  time : κ → τ
  count : κ → ν
  current : Option (κ × Option τ)
  readings : ℕ

namespace Ledger

/-- An event of a key, which is recorded or not, and which opens the key or not; or a restart. -/
inductive Entry (κ : Type*) where
  | event (key : κ) (recorded opens : Bool)
  | restart

variable {κ τ ν : Type*}

/-- The current key. -/
def last (L : Ledger κ τ ν) : Option κ := L.current.map Prod.fst

/-- The time at which the current key was started. -/
def since (L : Ledger κ τ ν) : Option τ := L.current.bind Prod.snd

/-- The current key is forgotten. -/
def restart (L : Ledger κ τ ν) : Ledger κ τ ν := { L with current := none }

section Entries

variable [DecidableEq κ] [Add τ] [Sub τ] (clock : ℕ → τ)

/-- If another key than `k` is timed, it is stopped, and the time since it was started is added. -/
def leave (k : κ) (L : Ledger κ τ ν) : Ledger κ τ ν :=
  match L.current with
  | some (j, some t) =>
      if j = k then
        L
      else
        { L with time := Function.update L.time j (L.time j + (clock L.readings - t)),
                 current := some (j, none),
                 readings := L.readings + 1 }
  | _ => L

variable [Add ν] [OfNat ν 1]

/-- The key `k` becomes current, and it is timed from now on.  It is counted if it is new, or if it
was not current and is opened. -/
def enter (k : κ) (opens : Bool) (L : Ledger κ τ ν) : Ledger κ τ ν :=
  { known := insert k L.known
    time := L.time
    count := if k ∉ L.known ∨ (L.last ≠ some k ∧ opens = true) then
      Function.update L.count k (L.count k + 1) else L.count
    current := some (k, some (clock L.readings))
    readings := L.readings + 1 }

/-- The effect of an entry. -/
def add (L : Ledger κ τ ν) : Entry κ → Ledger κ τ ν
  | .event k recorded opens =>
      if recorded then enter clock k opens (leave clock k L) else leave clock k L
  | .restart => L.restart

/-- The effect of a sequence of entries. -/
def addAll (es : List (Entry κ)) (L : Ledger κ τ ν) : Ledger κ τ ν := es.foldl (add clock) L

theorem addAll_append (es es' : List (Entry κ)) (L : Ledger κ τ ν) :
  addAll clock (es ++ es') L = addAll clock es' (addAll clock es L)
  := List.foldl_append

end Entries

/-- Leaving stops the current key if it is timed and another key, and otherwise changes nothing. -/
theorem leave_cases [DecidableEq κ] [Add τ] [Sub τ] (clock : ℕ → τ) (k : κ) (L : Ledger κ τ ν) :
  leave clock k L = L ∨ ∃ j t, L.current = some (j, some t) ∧ j ≠ k ∧ leave clock k L
    = { L with time := Function.update L.time j (L.time j + (clock L.readings - t)),
               current := some (j, none),
               readings := L.readings + 1 }
  := by
  rw [leave]
  split
  · rename_i j t hcurrent
    split
    · left
      rfl
    · rename_i hne
      right
      use j, t
  · left
    rfl

theorem known_leave [DecidableEq κ] [Add τ] [Sub τ] (clock : ℕ → τ) (k : κ) (L : Ledger κ τ ν) :
  (leave clock k L).known = L.known
  := by
  rcases leave_cases clock k L with h | ⟨j, t, -, -, h⟩
  · rw [h]
  · rw [h]

section Fields

variable [DecidableEq κ] [Add τ] [Sub τ] (clock : ℕ → τ) (k : κ)

theorem count_leave (L : Ledger κ τ ν) :
  (leave clock k L).count = L.count
  := by
  rcases leave_cases clock k L with h | ⟨j, t, -, -, h⟩
  · rw [h]
  · rw [h]

theorem last_leave (L : Ledger κ τ ν) :
  (leave clock k L).last = L.last
  := by
  rcases leave_cases clock k L with h | ⟨j, t, hcurrent, -, h⟩
  · rw [h]
  · rw [h, last, last, hcurrent]
    rfl

variable [Add ν] [OfNat ν 1] (recorded opens : Bool)

theorem known_add_event (L : Ledger κ τ ν) :
  (add clock L (.event k recorded opens)).known = if recorded then insert k L.known else L.known
  := by
  rw [add, ← known_leave clock k L]
  split
  · rfl
  · rfl

theorem time_add_event (L : Ledger κ τ ν) :
  (add clock L (.event k recorded opens)).time = (leave clock k L).time
  := by
  rw [add]
  split
  · rfl
  · rfl

theorem count_add_event (L : Ledger κ τ ν) :
  (add clock L (.event k recorded opens)).count
    = if recorded = true ∧ (k ∉ L.known ∨ (L.last ≠ some k ∧ opens = true)) then
        Function.update L.count k (L.count k + 1)
      else
        L.count
  := by
  rw [add]
  cases recorded with
  | false => simp only [Bool.false_eq_true, false_and, if_false, count_leave]
  | true => simp only [if_true, true_and, enter, known_leave, last_leave, count_leave]

theorem current_add_event (L : Ledger κ τ ν) :
  (add clock L (.event k recorded opens)).current
    = if recorded then some (k, some (clock (leave clock k L).readings))
      else (leave clock k L).current
  := by
  rw [add]
  split
  · rfl
  · rfl

theorem readings_add_event (L : Ledger κ τ ν) :
  (add clock L (.event k recorded opens)).readings
    = (leave clock k L).readings + if recorded then 1 else 0
  := by
  rw [add]
  split
  · rfl
  · rfl

end Fields

/-! ### Growing ledgers -/

section Grows

variable {G : Type*}

/-- Every key is kept, and no time has become less. -/
structure Grows [LE G] (value : τ → G) (L L' : Ledger κ τ ν) : Prop where
  known : L.known ⊆ L'.known
  time : ∀ k, value (L.time k) ≤ value (L'.time k)

theorem Grows.refl [Preorder G] (value : τ → G) (L : Ledger κ τ ν) :
  Grows value L L
  := ⟨Finset.Subset.refl _, fun _ => le_refl _⟩

theorem Grows.trans [Preorder G] {value : τ → G} {L L' L'' : Ledger κ τ ν} (h : Grows value L L')
    (h' : Grows value L' L'') :
  Grows value L L''
  := ⟨h.known.trans h'.known, fun k => le_trans (h.time k) (h'.time k)⟩

theorem grows_enter [Preorder G] [DecidableEq κ] [Add ν] [OfNat ν 1] (value : τ → G)
    (clock : ℕ → τ) (k : κ) (opens : Bool) (L : Ledger κ τ ν) :
  Grows value L (enter clock k opens L)
  := ⟨Finset.subset_insert _ _, fun _ => le_refl _⟩

end Grows

/-! ### The growth of the times -/

section Growth

variable {G : Type*} [AddCommGroup G] [LinearOrder G] (value : τ → G)

/-- The growth of the times of some keys. -/
def growth (K : Finset κ) (L L' : Ledger κ τ ν) : G :=
  ∑ k ∈ K, (value (L'.time k) - value (L.time k))

/-- The time from the first to the last reading between two ledgers. -/
def elapsed (clock : ℕ → τ) (L L' : Ledger κ τ ν) : G :=
  if L.readings < L'.readings then value (clock (L'.readings - 1)) - value (clock L.readings) else 0

/-- The clock shows times with positive values, and it does not go back. -/
structure Steady (clock : ℕ → τ) : Prop where
  positive : ∀ n, 0 < value (clock n)
  nondecreasing : ∀ m n, m ≤ n → value (clock m) ≤ value (clock n)

/-- The times of the keys `K` have grown by no more than the time from the first reading to the
reading `j`, and the current key has not been started before the reading `j`. -/
structure Covered (clock : ℕ → τ) (K : Finset κ) (L₀ L : Ledger κ τ ν) (j : ℕ) : Prop where
  first : L₀.readings ≤ j
  read : j < L.readings ∨ (j = L₀.readings ∧ j ≤ L.readings)
  growth_le : growth value K L₀ L ≤ value (clock j) - value (clock L₀.readings)
  started : ∀ k t, L.current = some (k, some t) → ∃ i, j ≤ i ∧ i < L.readings ∧ t = clock i

/-- Adding the time from `a` to `b` adds no more than its value. -/
def Subadditive [Add τ] [Sub τ] : Prop :=
  ∀ t a b, 0 < value a → value a ≤ value b → value (t + (b - a)) ≤ value t + (value b - value a)

section Covered

variable {value} {clock : ℕ → τ} {K : Finset κ} {L₀ L : Ledger κ τ ν} {j : ℕ}

theorem Covered.readings_le (h : Covered value clock K L₀ L j) :
  L₀.readings ≤ L.readings ∧ j ≤ L.readings
  := by
  have hfirst := h.first
  rcases h.read with hread | ⟨rfl, hread⟩
  · constructor <;> omega
  · exact ⟨hread, hread⟩

/-- The time that is added when the current key is stopped. -/
theorem Covered.stop_le (h : Covered value clock K L₀ L j) (hclock : Steady value clock)
    {k : κ} {t : τ} (hcurrent : L.current = some (k, some t)) :
  0 < value t ∧ value t ≤ value (clock L.readings) ∧ value (clock j) ≤ value t
  := by
  obtain ⟨i, hji, hi, rfl⟩ := h.started k t hcurrent
  refine ⟨hclock.positive i, ?_, ?_⟩
  · apply hclock.nondecreasing
    omega
  · apply hclock.nondecreasing _ _ hji

theorem Covered.enter [DecidableEq κ] [Add ν] [OfNat ν 1] (h : Covered value clock K L₀ L j)
    (k : κ) (opens : Bool) :
  Covered value clock K L₀ (Ledger.enter clock k opens L) j
  := by
  obtain ⟨-, hj⟩ := h.readings_le
  constructor
  · apply h.first
  · left
    apply Nat.lt_succ_of_le hj
  · apply h.growth_le
  · rintro k' t ⟨⟩
    exact ⟨L.readings, hj, Nat.lt_succ_self _, rfl⟩

theorem Covered.restart (h : Covered value clock K L₀ L j) :
  Covered value clock K L₀ L.restart j
  := by
  refine { h with started := ?_ }
  rintro k t ⟨⟩

end Covered

variable [IsOrderedAddMonoid G]

/-- A change of the time of one key changes the growth by no more. -/
theorem growth_update [DecidableEq κ] (K : Finset κ) {L₀ L L' : Ledger κ τ ν} {j : κ} {u : τ}
    {δ : G} (htime : L'.time = Function.update L.time j u) (hδ : 0 ≤ δ)
    (hu : value u ≤ value (L.time j) + δ) :
  growth value K L₀ L' ≤ growth value K L₀ L + δ
  := by
  have hterm : ∀ k ∈ K, value (L'.time k) - value (L₀.time k)
      ≤ (value (L.time k) - value (L₀.time k)) + if k = j then δ else 0 := by
    intro k _
    rw [htime]
    by_cases hk : k = j
    · subst hk
      rw [Function.update_self, if_pos rfl, sub_add_eq_add_sub]
      apply sub_le_sub_right hu
    · rw [Function.update_of_ne hk, if_neg hk, add_zero]
  have hsum : ∑ k ∈ K, (if k = j then δ else 0) ≤ δ := by
    rw [Finset.sum_ite_eq']
    split
    · apply le_refl
    · apply hδ
  calc growth value K L₀ L'
      ≤ ∑ k ∈ K, ((value (L.time k) - value (L₀.time k)) + if k = j then δ else 0) :=
        Finset.sum_le_sum hterm
    _ = growth value K L₀ L + ∑ k ∈ K, (if k = j then δ else 0) := Finset.sum_add_distrib
    _ ≤ growth value K L₀ L + δ := by gcongr

section Steps

variable {value} {clock : ℕ → τ} {K : Finset κ} {L₀ L : Ledger κ τ ν} {j : ℕ}

/-- At the beginning nothing has grown. -/
theorem Covered.init (h₀ : L₀.since = none) :
  Covered value clock K L₀ L₀ L₀.readings
  := by
  constructor
  · apply le_refl
  · right
    exact ⟨rfl, le_refl _⟩
  · rw [growth, sub_self]
    apply Finset.sum_nonpos
    intro k _
    rw [sub_self]
  · intro k t hcurrent
    rw [since, hcurrent] at h₀
    cases h₀

variable [DecidableEq κ] [Add τ] [Sub τ]

/-- Leaving keeps the growth within the time that has passed. -/
theorem Covered.leave (h : Covered value clock K L₀ L j) (hclock : Steady value clock)
    (hvalue : Subadditive value) (k : κ) :
  ∃ j', Covered value clock K L₀ (Ledger.leave clock k L) j'
  := by
  rcases leave_cases clock k L with hsame | ⟨i, t, hcurrent, -, hleave⟩
  · rw [hsame]
    use j
  · obtain ⟨hpos, hstop, hstart⟩ := h.stop_le hclock hcurrent
    obtain ⟨hfirst, -⟩ := h.readings_le
    use L.readings
    rw [hleave]
    constructor
    · apply hfirst
    · left
      apply Nat.lt_succ_self
    · apply le_trans (growth_update value K rfl (sub_nonneg.mpr hstop) (hvalue _ _ _ hpos hstop))
      calc growth value K L₀ L + (value (clock L.readings) - value t)
          ≤ (value (clock j) - value (clock L₀.readings))
              + (value (clock L.readings) - value (clock j)) :=
            add_le_add h.growth_le (sub_le_sub_left hstart _)
        _ = value (clock L.readings) - value (clock L₀.readings) := by abel
    · rintro k' t' ⟨⟩

/-- Adding the time from `a` to `b` adds its value, if the sum is below `top`. -/
def ExactBelow (value : τ → G) (top : G) : Prop :=
  ∀ t a b, 0 < value a → value a ≤ value b → value t + (value b - value a) < top →
    value (t + (b - a)) = value t + (value b - value a)

/-- With all the time that passes, the time of each key stays below `top`. -/
def FitsBelow (value : τ → G) (clock : ℕ → τ) (top : G) (L : Ledger κ τ ν) : Prop :=
  ∀ k n, L.readings ≤ n → value (L.time k) + (value (clock n) - value (clock L.readings)) < top

/-- Leaving makes no time less. -/
theorem grows_leave {top : G} (h : ∀ k, ∃ j, Covered value clock {k} L₀ L j)
    (hclock : Steady value clock) (hexact : ExactBelow value top)
    (hfits : FitsBelow value clock top L₀) (k : κ) :
  Grows value L (leave clock k L)
  := by
  rcases leave_cases clock k L with hsame | ⟨i, t, hcurrent, -, hleave⟩
  · rw [hsame]
    apply Grows.refl
  · obtain ⟨j, hj⟩ := h i
    obtain ⟨hpos, hstop, hstart⟩ := hj.stop_le hclock hcurrent
    have hgrowth := hj.growth_le
    rw [growth, Finset.sum_singleton] at hgrowth
    have hsum : value (L.time i) + (value (clock L.readings) - value t) < top := by
      apply lt_of_le_of_lt _ (hfits i L.readings hj.readings_le.1)
      calc value (L.time i) + (value (clock L.readings) - value t)
          = value (L₀.time i) + ((value (L.time i) - value (L₀.time i))
              + (value (clock L.readings) - value t)) := by abel
        _ ≤ value (L₀.time i) + ((value (clock j) - value (clock L₀.readings))
              + (value (clock L.readings) - value (clock j))) := by gcongr
        _ = value (L₀.time i) + (value (clock L.readings) - value (clock L₀.readings)) := by abel
    have htime : (leave clock k L).time
        = Function.update L.time i (L.time i + (clock L.readings - t)) := by
      rw [hleave]
    constructor
    · rw [known_leave]
    · intro k'
      rw [htime]
      by_cases hk : k' = i
      · subst hk
        rw [Function.update_self, hexact _ _ _ hpos hstop hsum]
        apply le_add_of_nonneg_right (sub_nonneg.mpr hstop)
      · rw [Function.update_of_ne hk]

variable [Add ν] [OfNat ν 1]

/-- Every entry keeps the growth within the time that has passed. -/
theorem Covered.add (h : Covered value clock K L₀ L j) (hclock : Steady value clock)
    (hvalue : Subadditive value) (e : Entry κ) :
  ∃ j', Covered value clock K L₀ (Ledger.add clock L e) j'
  := by
  cases e with
  | event k recorded opens =>
      obtain ⟨j', h'⟩ := h.leave hclock hvalue k
      use j'
      rw [Ledger.add]
      split
      · apply h'.enter
      · apply h'
  | restart => exact ⟨j, h.restart⟩

theorem covered_addAll (hclock : Steady value clock) (hvalue : Subadditive value)
    (h₀ : L₀.since = none) (es : List (Entry κ)) :
  ∃ j, Covered value clock K L₀ (addAll clock es L₀) j
  := by
  induction es using List.reverseRecOn with
  | nil => exact ⟨_, Covered.init h₀⟩
  | append_singleton es e ih =>
      obtain ⟨j, h⟩ := ih
      rw [addAll, List.foldl_concat]
      apply h.add hclock hvalue

/-- The times of the keys together grow by no more than the time that passes. -/
theorem growth_addAll_le (hclock : Steady value clock) (hvalue : Subadditive value)
    (h₀ : L₀.since = none) (K : Finset κ) (es : List (Entry κ)) :
  growth value K L₀ (addAll clock es L₀) ≤ elapsed value clock L₀ (addAll clock es L₀)
  := by
  obtain ⟨j, h⟩ := covered_addAll (K := K) hclock hvalue h₀ es
  apply le_trans h.growth_le
  obtain ⟨hfirst, hj⟩ := h.readings_le
  rw [elapsed]
  split
  · rename_i hlt
    apply sub_le_sub_right
    apply hclock.nondecreasing
    rcases h.read with hread | ⟨rfl, -⟩
    · omega
    · omega
  · have heq : j = L₀.readings := by
      have hlower := h.first
      omega
    rw [heq, sub_self]

/-- Nothing that has been recorded is lost, whatever is entered later. -/
theorem grows_addAll {top : G} (hclock : Steady value clock) (hvalue : Subadditive value)
    (hexact : ExactBelow value top) (hfits : FitsBelow value clock top L₀) (h₀ : L₀.since = none)
    (es es' : List (Entry κ)) :
  Grows value (addAll clock es L₀) (addAll clock (es ++ es') L₀)
  := by
  induction es' using List.reverseRecOn with
  | nil =>
      rw [List.append_nil]
      apply Grows.refl
  | append_singleton es' e ih =>
      apply ih.trans
      have hleave := grows_leave (fun k => covered_addAll (K := {k}) hclock hvalue h₀ (es ++ es'))
        hclock hexact hfits
      rw [← List.append_assoc, addAll, addAll, List.foldl_concat]
      cases e with
      | event k recorded opens =>
          rw [Ledger.add]
          split
          · apply (hleave k).trans (grows_enter value clock k opens _)
          · apply hleave k
      | restart => exact ⟨Finset.Subset.refl _, fun _ => le_refl _⟩

end Steps

end Growth

end Ledger
