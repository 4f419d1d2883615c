import Applogr.Foundation.Ledger
import Applogr.Persistence.AnyOutcome

/-!
# The ledger of a service

The service keeps a ledger of the packages that are not excluded: their times and launch counts are
those of the records of its list, and the current package is that of the foreground app.  What an
event does to the service, it does to the ledger.  Without the current package, the ledger is in the
records alone.
-/

namespace Ledger

/-- The record of a package. -/
def recordOf (rs : List Record) (p : String) : Option Record :=
  rs.find? (fun r => r.packageName = some p)

/-- The ledger with the times and counts of some records, without a current package. -/
def ofRecords (rs : List Record) (n : ℕ) : Ledger String Int64 Int32 :=
  { known := (rs.filterMap Record.packageName).toFinset
    time := fun p => ((recordOf rs p).map Record.timeUsedMs).getD 0
    count := fun p => ((recordOf rs p).map Record.launchCount).getD 0
    current := none
    readings := n }

theorem mem_known_ofRecords {rs : List Record} {n : ℕ} {p : String} :
  p ∈ (ofRecords rs n).known ↔ ∃ r ∈ rs, r.packageName = some p
  := by
  rw [ofRecords, List.mem_toFinset, List.mem_filterMap]

/-- In records that are in order, the record of a package is the only one with the package. -/
theorem recordOf_eq_some_iff {rs : List Record} (hrs : Orderly rs) {p : String} {r : Record} :
  recordOf rs p = some r ↔ r ∈ rs ∧ r.packageName = some p
  := by
  constructor
  · intro h
    use List.mem_of_find?_eq_some h
    simpa using List.find?_some h
  · rintro ⟨hr, hp⟩
    cases h : recordOf rs p with
    | none =>
        have hnone := List.find?_eq_none.mp h r hr
        simp [hp] at hnone
    | some r' =>
        have hp' : r'.packageName = some p := by simpa using List.find?_some h
        congr 1
        apply List.inj_on_of_nodup_map hrs.distinct (List.mem_of_find?_eq_some h) hr
        rw [hp, hp']

/-- The order of the records does not matter. -/
theorem ofRecords_perm {rs rs' : List Record} (hrs : Orderly rs) (h : rs.Perm rs') (n : ℕ) :
  ofRecords rs n = ofRecords rs' n
  := by
  have hrecord : recordOf rs = recordOf rs' := by
    funext p
    apply Option.ext
    intro r
    rw [recordOf_eq_some_iff hrs, recordOf_eq_some_iff (hrs.perm h.symm), h.mem_iff]
  ext1
  · ext p
    simp only [mem_known_ofRecords, h.mem_iff]
  · simp only [ofRecords, hrecord]
  · simp only [ofRecords, hrecord]
  · rfl
  · rfl

end Ledger

namespace LogService

variable {d : Device} {s : LogService} {p : String} {kind : EventKind}

/-- The current package of the ledger, and the time at which it was started, if its timer runs. -/
def currentPackage (s : LogService) : Option (String × Option Int64) :=
  s.foregroundPackage.map (fun p => (p, if s.timer = 0 then none else some s.timer))

/-- The ledger of a service. -/
def accounts (s : LogService) : Ledger String Int64 Int32 :=
  { Ledger.ofRecords s.records s.readings with current := s.currentPackage }

theorem restart_accounts (s : LogService) :
  s.accounts.restart = Ledger.ofRecords s.records s.readings
  := rfl

theorem recordOf_records (s : LogService) (p : String) :
  Ledger.recordOf s.records p = (s.appOf p).map App.record
  := by
  rw [Ledger.recordOf, records, List.find?_map, appOf, lookup, Option.map_map]
  rfl

theorem time_accounts (s : LogService) (p : String) :
  s.accounts.time p = s.timeUsed p
  := by
  change ((Ledger.recordOf s.records p).map Record.timeUsedMs).getD 0 = s.timeUsed p
  rw [recordOf_records, Option.map_map]
  rfl

theorem count_accounts (s : LogService) (p : String) :
  s.accounts.count p = s.launches p
  := by
  change ((Ledger.recordOf s.records p).map Record.launchCount).getD 0 = s.launches p
  rw [recordOf_records, Option.map_map]
  rfl

theorem Loaded.mem_known_accounts (hs : s.Loaded d) {p : String} :
  p ∈ s.accounts.known ↔ p ∈ s.packages
  := by
  rw [← List.mem_map_of_injective (Option.some_injective String), StartUp.packages_map_some hs,
    List.mem_map]
  apply Ledger.mem_known_ofRecords (n := s.readings)

theorem last_accounts (s : LogService) :
  s.accounts.last = s.foregroundPackage
  := by
  change s.currentPackage.map Prod.fst = s.foregroundPackage
  rw [currentPackage, Option.map_map]
  apply Option.map_id'

/-! ### The effect of an event on the ledger -/

/-- An event stops the timer exactly if the ledger leaves a timed package. -/
theorem leave_of_stops (h : s.Stops p) :
  ∃ j, s.foregroundPackage = some j ∧ s.accounts.leave d.clock p
    = { s.accounts with
        time := Function.update s.accounts.time j (s.accounts.time j + (d.clock s.readings - s.timer)),
        current := some (j, none),
        readings := s.readings + 1 }
  := by
  obtain ⟨ht, hp⟩ := h
  cases hf : s.foregroundPackage with
  | none =>
      have hidle : s.mForegroundApp = none := Option.map_eq_none_iff.mp hf
      rw [timer, hidle] at ht
      exact absurd rfl ht
  | some j =>
      have hcurrent : s.accounts.current = some (j, some s.timer) := by
        rw [accounts, currentPackage, hf, Option.map_some, if_neg ht]
      have hne : j ≠ p := by
        rintro rfl
        apply hp hf
      use j, rfl
      rw [Ledger.leave, hcurrent]
      simp only [if_neg hne]
      rfl

theorem leave_of_not_stops (h : ¬ s.Stops p) :
  s.accounts.leave d.clock p = s.accounts
  := by
  rcases Ledger.leave_cases d.clock p s.accounts with heq | ⟨j, t, hcurrent, hne, -⟩
  · apply heq
  · have hc : s.currentPackage = some (j, some t) := hcurrent
    obtain ⟨j', hf, hj⟩ := Option.map_eq_some_iff.mp hc
    exfalso
    apply h
    split at hj
    · cases hj
    · rename_i ht
      use ht
      rw [hf]
      cases hj
      simpa using hne

/-- The ledger without the time of the package that is left. -/
theorem time_leave (d : Device) (s : LogService) (p q : String) :
  (s.accounts.leave d.clock p).time q = s.timeUsed q
    + if s.Stops p ∧ s.foregroundPackage = some q then d.clock s.readings - s.timer else 0
  := by
  by_cases hstops : s.Stops p
  · obtain ⟨j, hf, hleave⟩ := leave_of_stops (d := d) hstops
    rw [hleave, hf]
    by_cases hq : j = q
    · subst hq
      simp only [Function.update_self, hstops, true_and, if_true, time_accounts]
    · simp only [Function.update_of_ne (Ne.symm hq), Option.some.injEq, hq, and_false, if_false,
        time_accounts, Int64.add_zero]
  · simp only [leave_of_not_stops hstops, hstops, false_and, if_false, time_accounts, Int64.add_zero]

theorem readings_leave (d : Device) (s : LogService) (p : String) :
  (s.accounts.leave d.clock p).readings = s.readings + if s.Stops p then 1 else 0
  := by
  by_cases hstops : s.Stops p
  · obtain ⟨j, -, hleave⟩ := leave_of_stops (d := d) hstops
    rw [hleave, if_pos hstops]
  · rw [leave_of_not_stops hstops, if_neg hstops]
    rfl

theorem current_leave (d : Device) (s : LogService) (p : String) :
  (s.accounts.leave d.clock p).current
    = s.foregroundPackage.map
        (fun j => (j, if (if s.Stops p then 0 else s.timer) = 0 then none else
          some (if s.Stops p then 0 else s.timer)))
  := by
  by_cases hstops : s.Stops p
  · obtain ⟨j, hf, hleave⟩ := leave_of_stops (d := d) hstops
    rw [hleave, hf]
    simp only [hstops, if_true, Option.map_some]
  · rw [leave_of_not_stops hstops]
    simp only [hstops, if_false]
    rfl

/-- What an event does to the service, it does to the ledger. -/
theorem Accounted.accounts_handled (hs : s.Accounted d) (hclock : ∀ n, d.clock n ≠ 0) (p : String)
    (kind : EventKind) :
  (LogService.handled d p kind s).accounts
    = s.accounts.add d.clock (.event p (!d.excluded p) (decide (kind ≠ .resumed)))
  := by
  have h := hs.effect p kind
  have hload := hs.toLoaded.handled p kind
  ext1
  · ext q
    rw [hload.mem_known_accounts, h.packages, Ledger.known_add_event]
    by_cases hx : d.excluded p = true
    · simp [hx, hs.mem_known_accounts]
    · by_cases hp : p ∈ s.packages
      · simp only [hx, hp, Bool.false_eq_true, or_true, if_true, Bool.not_false, Finset.mem_insert,
          hs.mem_known_accounts]
        apply (or_iff_right_of_imp _).symm
        rintro rfl
        apply hp
      · simp [hx, hp, hs.mem_known_accounts, or_comm]
  · funext q
    rw [time_accounts, h.timeUsed, Ledger.time_add_event, time_leave]
  · funext q
    rw [count_accounts, h.launches, Ledger.count_add_event]
    simp only [hs.mem_known_accounts, last_accounts, Bool.not_eq_true', decide_eq_true_eq]
    by_cases hq : q = p
    · subst hq
      split
      · rename_i hcond
        rw [if_pos hcond.2, Function.update_self, count_accounts]
      · rename_i hcond
        rw [if_neg (fun hq => hcond ⟨rfl, hq⟩), count_accounts, Int32.add_zero]
    · simp only [hq, false_and, if_false, Int32.add_zero]
      split
      · rw [Function.update_of_ne hq, count_accounts]
      · rw [count_accounts]
  · rw [Ledger.current_add_event, readings_leave, current_leave]
    change currentPackage _ = _
    rw [currentPackage, h.foreground, h.timer, h.readings]
    by_cases hx : d.excluded p = true
    · simp only [hx, if_true, Bool.not_true, Bool.false_eq_true, if_false]
    · simp [hx, hclock]
  · rw [Ledger.readings_add_event, readings_leave]
    apply Eq.trans h.readings
    by_cases hx : d.excluded p = true
    · simp [hx]
    · simp [hx]

end LogService
