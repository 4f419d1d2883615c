import Applogr.Accounting.History
import Applogr.Foundation.Words

/-!
# The time of an app

A stint of a package is a maximal block of consecutive events of the package.  It is over
when an event of another package follows.  The service credits a stint with the time since
its last event, because every event of a stint starts the timer anew.  The time that was
spent in the stint is the time since its first event.
-/

open Blocks

/-- The clock shows positive times and does not go back. -/
structure Device.SteadyClock (d : Device) : Prop where
  positive : ∀ n, 0 < d.clock n
  nondecreasing : ∀ m n, m ≤ n → d.clock m ≤ d.clock n

namespace LogService

variable {d : Device} {s : LogService}

/-- The time spent in a package: the times from the first event of a stint to the event that
ends it. -/
def spentIn (d : Device) (s : LogService) (ls : List (EventLine d.offset)) (p : String) : ℤ :=
  spent Handled.package (Handled.start d) (Handled.stop d) p (history d ls s)

/-- The time credited to a package: the times from the last event of a stint to the event that
ends it. -/
def creditedTo (d : Device) (s : LogService) (ls : List (EventLine d.offset)) (p : String) : ℤ :=
  credited Handled.package (Handled.start d) (Handled.stop d) p (history d ls s)

/-- The growth of the time of a package between two states. -/
def growth (s s' : LogService) (p : String) : ℤ := (s'.timeUsed p).toInt - (s.timeUsed p).toInt

/-- When the lines are read, the time of the package grows by the time spent in it. -/
def Conserves (d : Device) (s : LogService) (ls : List (EventLine d.offset)) (p : String) : Prop :=
  ∃ s', onLinesRead d ls s = .ok () s' ∧ growth s s' p = spentIn d s ls p

/-! ### The order of the readings -/

theorem start_le_stop (hc : d.SteadyClock) {a b : Handled} (h : a.after ≤ b.before) :
  a.start d ≤ b.stop d
  := by
  apply Int64.le_iff_toInt_le.mp
  apply hc.nondecreasing
  omega

theorem stop_le_start (hc : d.SteadyClock) {a b : Handled} (h : a.before < b.after) :
  a.stop d ≤ b.start d
  := by
  apply Int64.le_iff_toInt_le.mp
  apply hc.nondecreasing
  omega

theorem Accounted.start_sorted (hs : s.Accounted d) (hc : d.SteadyClock)
    (ls : List (EventLine d.offset)) :
  (history d ls s).Pairwise (fun a b => a.start d ≤ b.start d)
  := by
  apply (hs.history_ordered ls).imp_of_mem
  intro a b ha hb hab
  apply Int64.le_iff_toInt_le.mp
  apply hc.nondecreasing
  have hb' := (hs.history_bounds ls).2 b hb
  omega

/-- The departures from events which are not excluded stop one after the other. -/
theorem Accounted.departures_ordered (hs : s.Accounted d) (hc : d.SteadyClock)
    (ls : List (EventLine d.offset)) :
  ((departures Handled.package (history d ls s)).filter (fun e => e.1.tracked d)).Pairwise
    (fun a b => a.2.stop d ≤ b.1.start d)
  := by
  have hord := departures_pairwise Handled.package (hs.history_ordered ls)
  apply (hord.filter (fun e => e.1.tracked d)).imp_of_mem
  intro a b ha hb hab
  obtain ⟨hb, hbt⟩ := List.mem_filter.mp hb
  obtain ⟨-, hbb, -, hlt⟩ := (hs.history_bounds ls).2 b.1 (departures_mem _ hb).1
  have ha := (hs.history_bounds ls).2 a.2 (departures_mem _ (List.mem_of_mem_filter ha)).2
  have hlt := hlt (by simpa using hbt)
  apply stop_le_start hc
  rcases hab with hab | hab
  · rw [hab]
    apply hlt
  · omega

/-- Departures from events which are not excluded take the time between two moments which they
do not exceed. -/
theorem Accounted.sum_legs_le (hs : s.Accounted d) (hc : d.SteadyClock)
    (ls : List (EventLine d.offset)) {keep : Handled × Handled → Bool}
    (hkeep : ∀ e, keep e = true → e.1.tracked d = true) {lo hi : ℤ} (hle : lo ≤ hi)
    (hlo : ∀ e ∈ departures Handled.package (history d ls s), e.1.tracked d = true →
      lo ≤ e.1.start d)
    (hhi : ∀ e ∈ departures Handled.package (history d ls s), e.1.tracked d = true →
      e.2.stop d ≤ hi) :
  (((departures Handled.package (history d ls s)).filter keep).map
      (leg (Handled.start d) (Handled.stop d))).sum ≤ hi - lo
  := by
  have hord := hs.departures_ordered hc ls
  have hsub : ((departures Handled.package (history d ls s)).filter keep).Sublist
      ((departures Handled.package (history d ls s)).filter (fun e => e.1.tracked d)) := by
    apply List.monotone_filter_right
    intro e he
    simpa using hkeep e he
  apply sum_leg_le (Handled.start d) (Handled.stop d) (hord.sublist hsub)
  · intro e he
    obtain ⟨he, hk⟩ := List.mem_filter.mp he
    apply hlo e he (hkeep e hk)
  · intro e he
    obtain ⟨he, hk⟩ := List.mem_filter.mp he
    apply hhi e he (hkeep e hk)
  · apply hle

theorem Accounted.spentIn_nonneg (hs : s.Accounted d) (hc : d.SteadyClock)
    (ls : List (EventLine d.offset)) (p : String) :
  0 ≤ spentIn d s ls p
  := by
  apply List.sum_nonneg
  intro x hx
  obtain ⟨c, hc', rfl⟩ := List.mem_map.mp hx
  have hmem := List.mem_of_mem_filter hc'
  have hfirst := closedBlocks_sorted Handled.package (Handled.start d) (hs.start_sorted hc ls) c hmem
  have hlast : c.last.start d ≤ c.next.stop d := by
    apply start_le_stop hc
    have hdep : (c.last, c.next) ∈ departures Handled.package (history d ls s) := by
      rw [← closedBlocks_departures]
      apply List.mem_map_of_mem hmem
    apply departures_rel Handled.package (hs.history_ordered ls) hdep
  apply sub_nonneg.mpr (le_trans hfirst hlast)

/-! ### The time credited -/

theorem Accounted.creditedTo_nonneg (hs : s.Accounted d) (hc : d.SteadyClock)
    (ls : List (EventLine d.offset)) (p : String) :
  0 ≤ creditedTo d s ls p
  := by
  apply List.sum_nonneg
  intro x hx
  obtain ⟨e, he, rfl⟩ := List.mem_map.mp hx
  apply sub_nonneg.mpr
  apply start_le_stop hc
  apply departures_rel Handled.package (hs.history_ordered ls) (List.mem_of_mem_filter he)

theorem Accounted.creditedTo_lt (hs : s.Accounted d) (hc : d.SteadyClock)
    (ls : List (EventLine d.offset)) {p : String} (hp : d.excluded p = false) :
  creditedTo d s ls p < 2 ^ 63
  := by
  apply Int.lt_of_le_sub_one
  rw [← Int.sub_zero (2 ^ 63 - 1)]
  refine hs.sum_legs_le hc ls ?_ (by decide) ?_ ?_
  · intro e he
    rw [decide_eq_true_eq] at he
    rw [Handled.tracked, he, hp]
    rfl
  · intro e he ht
    apply le_of_lt
    apply Int64.lt_iff_toInt_lt.mp (hc.positive _)
  · intro e he ht
    apply Int.le_sub_one_of_lt
    apply Int64.toInt_lt

/-- After an event which is not excluded, its app is in the foreground and its timer runs. -/
theorem Ready.timer_of_last (hs : s.Ready d) (hc : d.SteadyClock) (ls : List (EventLine d.offset))
    {a : Handled} (hl : (history d ls s).getLast? = some a) (ha : a.tracked d = true) :
  (handledAll d ls s).foregroundPackage = some a.package ∧
    (handledAll d ls s).timer = d.clock (a.after - 1) ∧ (handledAll d ls s).timer ≠ 0
  := by
  have htimer := hs.timer_handledAll ls
  have hfg := hs.foregroundPackage_handledAll ls
  have htimer : (handledAll d ls s).timer = d.clock (a.after - 1) := by
    simpa [hl, ha, Option.filter] using htimer
  obtain ⟨h, hh⟩ := List.getLast?_eq_some_iff.mp hl
  rw [hh, lastTracked, List.filter_append] at hfg
  refine ⟨by simpa [ha] using hfg, htimer, ?_⟩
  rw [htimer]
  intro hz
  have hpos := hc.positive (a.after - 1)
  rw [hz] at hpos
  exact absurd hpos (by decide)

/-- After an event which is excluded, and before any event, no timer runs. -/
theorem Ready.timer_of_not_tracked (hs : s.Ready d) (ls : List (EventLine d.offset))
    (hl : ∀ a, (history d ls s).getLast? = some a → a.tracked d = false) :
  (handledAll d ls s).timer = 0
  := by
  rw [hs.timer_handledAll ls]
  cases h : (history d ls s).getLast? with
  | none => rfl
  | some a => simp [Option.filter, hl a h]

/-- The service adds the time credited to a package to its time. -/
theorem Ready.timeUsed_handledAll (hs : s.Ready d) (hc : d.SteadyClock)
    (ls : List (EventLine d.offset)) {p : String} (hp : d.excluded p = false) :
  (handledAll d ls s).timeUsed p = s.timeUsed p + Int64.ofInt (creditedTo d s ls p)
  := by
  induction ls using List.reverseRecOn with
  | nil =>
      symm
      apply Int64.add_zero
  | append_singleton ls l ih =>
      have heff := (hs.accounted.handledAll ls).effect l.package l.kind
      rw [handledAll_concat, heff.timeUsed, ih, creditedTo, creditedTo, hs.history_concat,
        credited_concat, Int64.ofInt_add, Int64.add_assoc]
      congr 2
      by_cases hlast : ∃ a, (history d ls s).getLast? = some a ∧ a.tracked d = true
      · obtain ⟨a, hl, ha⟩ := hlast
        obtain ⟨hfg, htimer, hne⟩ := hs.timer_of_last hc ls hl ha
        rw [hl, Option.toList_some]
        rw [htimer] at hne
        simp only [Stops, hfg, htimer]
        by_cases hap : a.package = p
        · subst hap
          by_cases hal : a.package = l.package
          · simp [hal]
          · simp [hal, hne, Handled.stop, Handled.start]
        · simp [hap]
      · -- no timer runs, and no event of the package is last
        have htimer := hs.timer_of_not_tracked ls (by simpa using hlast)
        have hnone : ∀ a, (history d ls s).getLast? = some a → a.package ≠ p := by
          rintro a hl rfl
          apply hlast
          use a, hl
          rw [Handled.tracked, hp]
          rfl
        rw [if_neg (fun h => h.1.1 htimer)]
        cases hl : (history d ls s).getLast? with
        | none => rfl
        | some a => simp [hnone a hl]

/-- The time of a package grows by the time spent in it exactly when no stint lasted until a
later event of the same package, by the clock, and the sum fits into the field. -/
theorem Ready.conserves_iff (hs : s.Ready d) (hc : d.SteadyClock) (ls : List (EventLine d.offset))
    {p : String} (hp : d.excluded p = false) :
  Conserves d s ls p
    ↔ (∀ c ∈ closedBlocksOf Handled.package p (history d ls s), c.last.start d = c.first.start d)
      ∧ (s.timeUsed p).toInt + spentIn d s ls p < 2 ^ 63
  := by
  have hacc := hs.accounted
  have hnonneg := hacc.creditedTo_nonneg hc ls p
  have hlt := hacc.creditedTo_lt hc ls hp
  have hlag : creditedTo d s ls p = spentIn d s ls p ↔ _ :=
    credited_eq_spent_iff Handled.package (Handled.start d) (Handled.stop d)
      (hacc.start_sorted hc ls) p
  have hgrowth : growth s (handledAll d ls s) p
      = (s.timeUsed p + Int64.ofInt (creditedTo d s ls p)).toInt - (s.timeUsed p).toInt := by
    rw [growth, hs.timeUsed_handledAll hc ls hp]
  have hspent := hacc.spentIn_nonneg hc ls p
  rw [← hlag, Conserves]
  rw [Int64.toInt_add_ofInt _ hnonneg hlt] at hgrowth
  constructor
  · rintro ⟨s', hrun, hs'⟩
    rw [hs.onLinesRead] at hrun
    cases hrun
    rw [hgrowth] at hs'
    split at hs'
    · constructor
      · omega
      · omega
    · -- the sum did not fit, and the time shrank
      have hu := (s.timeUsed p).toInt_lt
      omega
  · rintro ⟨heq, hfits⟩
    use handledAll d ls s, hs.onLinesRead ls
    rw [hgrowth, heq, if_pos hfits]
    omega

/-! ### Stints of one and of two events -/

theorem toInt_tick (n : ℕ) :
  (tick n).toInt = min n 1000 + 1
  := by
  rw [tick, Int64.toInt_ofNat_of_lt]
  · simp
  · omega

theorem steadyClock_tick (packages : List String) :
  (phone packages tick).SteadyClock
  := by
  constructor
  · intro n
    apply Int64.lt_iff_toInt_lt.mpr
    apply lt_of_lt_of_eq _ (toInt_tick n).symm
    change (0 : ℤ) < _
    omega
  · intro m n hmn
    apply Int64.le_iff_toInt_le.mpr
    apply Eq.trans_le (toInt_tick m)
    apply le_trans _ (toInt_tick n).ge
    omega

theorem ready_phone (clock : ℕ → Int64) :
  (created (phone [] clock) none [] 0 0).Ready (phone [] clock)
  := ready_created Json.gson_documented (fun _ => rfl) 0 0

theorem onCreate_phone (clock : ℕ → Int64) :
  onCreate (phone [] clock) (boot none 0 0) = .ok () (created (phone [] clock) none [] 0 0)
  := by
  have hholds : Holds (phone [] clock) none [] := rfl
  apply onCreate_records Json.gson_documented (fun _ => rfl) hholds
  · rintro _ ⟨⟩
  · apply Device.sorts_nil

/-- An app that is opened, and then left for the launcher. -/
def openedStint : List (EventLine (phone [] tick).offset) :=
  [phoneEvent .created "com.example" token_example,
    phoneEvent .created "com.android.launcher" token_launcher]

/-- The time of a stint of one event is conserved. -/
theorem conserves_openedStint :
  Conserves (phone [] tick) (created (phone [] tick) none [] 0 0) openedStint "com.example"
  := by
  have hready := ready_phone tick
  apply (hready.conserves_iff (steadyClock_tick []) openedStint (by decide)).mpr
  rw [spentIn, hready.history_eq]
  constructor
  · decide
  · decide

/-- An app that is opened and resumed, and then left for the launcher. -/
def resumedStint : List (EventLine (phone [] tick).offset) :=
  [phoneEvent .created "com.example" token_example,
    phoneEvent .resumed "com.example" token_example,
    phoneEvent .created "com.android.launcher" token_launcher]

/-- The time from the first to the second event of the stint is lost. -/
theorem not_conserves_resumedStint :
  (created (phone [] tick) none [] 0 0).Ready (phone [] tick) ∧ (phone [] tick).SteadyClock ∧
    (phone [] tick).excluded "com.example" = false ∧
    spentIn (phone [] tick) (created (phone [] tick) none [] 0 0) resumedStint "com.example" = 2 ∧
    ¬ Conserves (phone [] tick) (created (phone [] tick) none [] 0 0) resumedStint "com.example"
  := by
  have hready := ready_phone tick
  have hspent : spentIn (phone [] tick) (created (phone [] tick) none [] 0 0) resumedStint "com.example"
      = 2 := by
    rw [spentIn, hready.history_eq]
    decide
  refine ⟨hready, steadyClock_tick [], by decide, hspent, ?_⟩
  rintro ⟨s', hrun, hgrowth⟩
  rw [hready.onLinesRead] at hrun
  cases hrun
  rw [hspent] at hgrowth
  exact absurd hgrowth (by decide)

end LogService
