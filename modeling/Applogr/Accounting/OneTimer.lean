import Applogr.Accounting.ForegroundTime

/-!
# One timer

In a service that has loaded a list of distinct packages, at most one timer runs at a time, and
it is the timer of the foreground app.  The times for which it runs do not overlap, so together
the apps are credited with no more time than passes on the clock.
-/

open Blocks

namespace LogService

variable {d : Device} {s : LogService}

/-- The time from the first to the last reading between two states. -/
def elapsed (d : Device) (s s' : LogService) : ℤ :=
  if s.readings < s'.readings then
    (d.clock (s'.readings - 1)).toInt - (d.clock s.readings).toInt
  else 0

/-- The growth of the times of all apps of the list. -/
def totalGrowth (s s' : LogService) : ℤ := (s'.packages.map (growth s s')).sum

/-! ### The time of one package -/

/-- The time of an excluded package does not change. -/
theorem Accounted.timeUsed_excluded (hs : s.Accounted d) (ls : List (EventLine d.offset))
    {p : String} (hp : d.excluded p = true) :
  (LogService.handledAll d ls s).timeUsed p = s.timeUsed p
  := by
  induction ls using List.reverseRecOn with
  | nil => rfl
  | append_singleton ls l ih =>
      have hacc := hs.handledAll ls
      have heff := hacc.effect l.package l.kind
      have hne : (LogService.handledAll d ls s).foregroundPackage ≠ some p := by
        intro hf
        obtain ⟨f, hfg, hpf⟩ := Option.map_eq_some_iff.mp hf
        have htr := hacc.tracked f hfg
        rw [hpf, hp] at htr
        cases htr
      rw [handledAll_concat, heff.timeUsed, ih, if_neg (fun h => hne h.2)]
      apply Int64.add_zero

/-- The time of a package grows by no more than the time credited to it. -/
theorem Ready.growth_le (hs : s.Ready d) (hc : d.SteadyClock) (ls : List (EventLine d.offset))
    (p : String) :
  growth s (handledAll d ls s) p ≤ if d.excluded p then 0 else creditedTo d s ls p
  := by
  have hacc := hs.accounted
  rw [growth]
  by_cases hp : d.excluded p = true
  · rw [if_pos hp, hacc.timeUsed_excluded ls hp, Int.sub_self]
  · rw [if_neg hp]
    have hp : d.excluded p = false := by simpa using hp
    rw [hs.timeUsed_handledAll hc ls hp]
    apply Int64.toInt_add_ofInt_le
    · apply hacc.creditedTo_nonneg hc
    · apply hacc.creditedTo_lt hc ls hp

/-! ### The time of all packages -/

/-- An event that ends a stint of a package which is not excluded reads the clock. -/
theorem Ready.departures_read (hs : s.Ready d) (hc : d.SteadyClock) (ls : List (EventLine d.offset)) :
  ∀ e ∈ departures Handled.package (history d ls s), e.1.tracked d = true →
    e.2.before < e.2.after
  := by
  induction ls using List.reverseRecOn with
  | nil =>
      intro e he
      cases he
  | append_singleton ls l ih =>
      have heff := (hs.accounted.handledAll ls).effect l.package l.kind
      intro e he ht
      rw [hs.history_concat, departures_concat] at he
      rcases List.mem_append.mp he with he | he
      · apply ih e he ht
      · obtain ⟨a, ha, rfl⟩ := List.mem_map.mp he
        obtain ⟨ha, hne⟩ := List.mem_filter.mp ha
        obtain ⟨hfg, -, htimer⟩ := hs.timer_of_last hc ls (Option.mem_toList.mp ha) ht
        have hstops : (handledAll d ls s).Stops l.package := by
          use htimer
          rw [hfg]
          simpa using hne
        have hread := heff.readings
        rw [if_pos hstops] at hread
        simp only [handledAll_concat]
        omega

/-- A sum is at most the sum over the kept elements, if the other ones contribute nothing. -/
theorem sum_map_le_sum_filter {f g : String → ℤ} {keep : String → Bool}
    (h : ∀ p, f p ≤ if keep p then g p else 0) (ps : List String) :
  (ps.map f).sum ≤ ((ps.filter keep).map g).sum
  := by
  induction ps with
  | nil => apply le_refl
  | cons p ps ih =>
      have hp := h p
      rw [List.map_cons, List.sum_cons]
      by_cases hk : keep p = true
      · rw [if_pos hk] at hp
        rw [List.filter_cons_of_pos hk, List.map_cons, List.sum_cons]
        apply add_le_add hp ih
      · rw [if_neg hk] at hp
        rw [List.filter_cons_of_neg hk]
        omega

/-- Together the apps are credited with no more time than passes on the clock. -/
theorem Ready.totalGrowth_le (hs : s.Ready d) (hc : d.SteadyClock) (ls : List (EventLine d.offset)) :
  totalGrowth s (handledAll d ls s) ≤ elapsed d s (handledAll d ls s)
  := by
  have hacc := hs.accounted
  obtain ⟨hle, hbounds⟩ := hacc.history_bounds ls
  have hread := hs.departures_read hc ls
  have hdistinct := (hacc.handledAll ls).distinct
  let ks := (handledAll d ls s).packages.filter (fun p => !d.excluded p)
  have hks : ∀ e : Handled × Handled, decide (e.1.package ∈ ks) = true → e.1.tracked d = true := by
    intro e he
    simpa [Handled.tracked] using (List.mem_filter.mp (of_decide_eq_true he)).2
  have hsum : totalGrowth s (handledAll d ls s) ≤ (ks.map (creditedTo d s ls)).sum := by
    apply sum_map_le_sum_filter
    intro p
    have hp := hs.growth_le hc ls p
    cases hx : d.excluded p <;> simpa [hx] using hp
  have hlegs : (ks.map (creditedTo d s ls)).sum
      = (((departures Handled.package (history d ls s)).filter (fun e => e.1.package ∈ ks)).map
          (leg (Handled.start d) (Handled.stop d))).sum :=
    sum_credited Handled.package (Handled.start d) (Handled.stop d) (hdistinct.filter _) _
  apply le_trans hsum
  rw [hlegs, elapsed]
  split
  · rename_i hlt
    apply hacc.sum_legs_le hc ls hks
    · apply Int64.le_iff_toInt_le.mp
      apply hc.nondecreasing
      omega
    · intro e he ht
      obtain ⟨h₁, -, -, h₂⟩ := hbounds e.1 (departures_mem _ he).1
      have h₂ := h₂ ht
      apply Int64.le_iff_toInt_le.mp
      apply hc.nondecreasing
      omega
    · intro e he ht
      have h₁ := hread e he ht
      obtain ⟨-, -, h₂, -⟩ := hbounds e.2 (departures_mem _ he).2
      apply Int64.le_iff_toInt_le.mp
      apply hc.nondecreasing
      omega
  · rename_i hlt
    -- no reading was taken, so every event was an event of an excluded package
    have hnil : (departures Handled.package (history d ls s)).filter
        (fun e => e.1.package ∈ ks) = [] := by
      apply List.filter_eq_nil_iff.mpr
      intro e he hk
      obtain ⟨h₁, -, h₂, h₃⟩ := hbounds e.1 (departures_mem _ he).1
      have h₃ := h₃ (hks e hk)
      omega
    rw [hnil]
    apply le_refl

/-- In every state that is reached from the loaded list the packages are distinct, the foreground
app is the entry of its package, no other timer runs, and together the apps have not been credited
with more time than has passed. -/
theorem one_timer {file : Option Text} {n m : ℕ} (hcreate : onCreate d (boot file n m) = .ok () s)
    (hlist : s.mAppList = some ⟨some (s.refs.map some)⟩)
    (hnamed : ∀ r ∈ s.refs, (s.heap.get r).packageName ≠ none) (hdistinct : s.packages.Nodup)
    (ls : List (EventLine d.offset)) :
  ∃ s', onLinesRead d ls s = .ok () s' ∧ s'.packages.Nodup ∧
    (∀ f, s'.mForegroundApp = some f → f ∈ s'.refs ∧
      ∃ pkg, (s'.heap.get f).packageName = some pkg ∧
        callAppList (AppList.getApp pkg) s' = .ok (some f) s') ∧
    (∀ r ∈ s'.refs, (s'.heap.get r).mTimer ≠ 0 → s'.mForegroundApp = some r) ∧
    (d.SteadyClock → totalGrowth s s' ≤ elapsed d s s')
  := by
  have hready := (Fresh.onCreate hcreate).ready hlist hnamed hdistinct
  have hacc := hready.accounted.handledAll ls
  use handledAll d ls s, hready.onLinesRead ls, hacc.distinct
  refine ⟨?_, hacc.running, fun hc => hready.totalGrowth_le hc ls⟩
  intro f hf
  have hmem := hacc.foreground f hf
  use hmem, (handledAll d ls s).packageOf f, hacc.packageName_eq hmem
  rw [hacc.getApp, lookup_of_mem hacc.toLoaded hacc.distinct hmem]

/-- A phone without a save file, on which an app is opened and left. -/
theorem one_timer_openedStint :
  ∃ s', onLinesRead (phone [] tick) openedStint (created (phone [] tick) none [] 0 0) = .ok () s' ∧
    s'.packages.Nodup ∧
    (∀ f, s'.mForegroundApp = some f → f ∈ s'.refs ∧
      ∃ pkg, (s'.heap.get f).packageName = some pkg ∧
        callAppList (AppList.getApp pkg) s' = .ok (some f) s') ∧
    (∀ r ∈ s'.refs, (s'.heap.get r).mTimer ≠ 0 → s'.mForegroundApp = some r) ∧
    totalGrowth (created (phone [] tick) none [] 0 0) s'
      ≤ elapsed (phone [] tick) (created (phone [] tick) none [] 0 0) s'
  := by
  have hnamed : Named [] := by rintro _ ⟨⟩
  obtain ⟨s', hrun, hd, hfg, ht, htotal⟩ := one_timer (onCreate_phone tick) (list_created _ _ _ _ _)
    (named_created hnamed 0 0) List.nodup_nil openedStint
  use s', hrun, hd, hfg, ht, htotal (steadyClock_tick [])

end LogService
