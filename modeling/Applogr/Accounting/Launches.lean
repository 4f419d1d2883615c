import Applogr.Accounting.ForegroundTime

/-!
# The launches of an app

A stint of a package counts as a launch if it begins with a creation or a launch of an
activity, and the first stint of a package that is not in the list counts in any case.  The
service misses a stint if only events of excluded packages separate it from the stint of the
same package before, since these events leave the app in the foreground.
-/

open Blocks

/-- The number of stints of the package that begin with a creation or a launch. -/
def openedStints (p : String) (h : List Handled) : ℕ :=
  (openings Handled.package h).countP (fun e => e.package = p ∧ e.kind ≠ .resumed)

/-- The first stint of the package begins with a resumption. -/
def resumedFirst (p : String) (h : List Handled) : Bool :=
  ((openings Handled.package h).find? (fun e => e.package = p)).any (fun e => e.kind = .resumed)

/-- The number of stints of the package that begin with a creation or a launch, although the
last event before that was not excluded is an event of the same package. -/
def reopenedStints (d : Device) (p : String) (h : List Handled) : ℕ :=
  (occurrences h).countP (fun o => o.2.package = p ∧ o.2.kind ≠ .resumed ∧
    o.1.getLast?.map Handled.package ≠ some p ∧
    lastTracked d o.1 = some p)

theorem openedStints_concat (p : String) (h : List Handled) (e : Handled) :
  openedStints p (h ++ [e]) = openedStints p h
    + if e.package = p ∧ e.kind ≠ .resumed ∧ h.getLast?.map Handled.package ≠ some p then 1 else 0
  := by
  rw [openedStints, openings_concat, List.countP_append, openedStints]
  congr 1
  by_cases hp : e.package = p
  · subst hp
    by_cases hl : h.getLast?.map Handled.package = some e.package
    · simp [hl]
    · by_cases hk : e.kind = .resumed
      · simp [hl, hk]
      · rw [if_neg hl, List.countP_singleton]
        simp [hk, hl]
  · split <;> simp [hp]

theorem resumedFirst_concat (p : String) (h : List Handled) (e : Handled) :
  resumedFirst p (h ++ [e])
    = (resumedFirst p h || decide (e.package = p ∧ e.kind = .resumed ∧ ∀ a ∈ h, a.package ≠ p))
  := by
  rw [resumedFirst, openings_find?, List.find?_append, resumedFirst, openings_find?]
  cases hf : h.find? (fun e => e.package = p) with
  | none =>
      have hnone : ∀ a ∈ h, a.package ≠ p := by simpa using hf
      by_cases hp : e.package = p
      · simp only [hp, List.find?_singleton, Option.none_or, decide_true, if_true, Option.any_some,
          Option.any_none, Bool.false_or, true_and]
        by_cases hk : e.kind = .resumed
        · simpa [hk] using hnone
        · simp [hk]
      · simp [hp]
  | some a =>
      have ha := List.mem_of_find?_eq_some hf
      have hap : a.package = p := by simpa using List.find?_some hf
      have hex : ¬ ∀ a ∈ h, a.package ≠ p := by
        intro hall
        apply hall a ha hap
      simp [hex]

theorem reopenedStints_concat (d : Device) (p : String) (h : List Handled) (e : Handled) :
  reopenedStints d p (h ++ [e]) = reopenedStints d p h
    + if e.package = p ∧ e.kind ≠ .resumed ∧ h.getLast?.map Handled.package ≠ some p ∧
        lastTracked d h = some p then 1 else 0
  := by
  rw [reopenedStints, occurrences_concat, List.countP_append, List.countP_singleton, reopenedStints]
  congr 1
  simp only [decide_eq_true_eq]

theorem lastTracked_of_last {d : Device} {p : String} (hp : d.excluded p = false) {h : List Handled}
    (hl : h.getLast?.map Handled.package = some p) :
  lastTracked d h = some p
  := by
  obtain ⟨a, ha, rfl⟩ := Option.map_eq_some_iff.mp hl
  rcases List.eq_nil_or_concat' h with rfl | ⟨h, b, rfl⟩
  · cases ha
  · rw [List.getLast?_concat] at ha
    cases ha
    rw [lastTracked, List.filter_append]
    simp [Handled.tracked, hp]

theorem mem_of_lastTracked {d : Device} {p : String} {h : List Handled}
    (hl : lastTracked d h = some p) :
  ∃ a ∈ h, a.package = p
  := by
  obtain ⟨a, ha, hap⟩ := Option.map_eq_some_iff.mp hl
  use a, List.mem_of_mem_filter (List.mem_of_getLast? ha)

/-- The stints that count, without those that are missed. -/
def counted (d : Device) (p : String) (isNew : Bool) (h : List Handled) : ℤ :=
  openedStints p h + (if isNew ∧ resumedFirst p h = true then 1 else 0) - reopenedStints d p h

/-- An event adds to the stints that count and are not missed exactly when its package is new, or
is not the package of the last event which is not excluded. -/
theorem counted_concat {d : Device} {p : String} (hp : d.excluded p = false) (isNew : Bool)
    (h : List Handled) (e : Handled) :
  counted d p isNew (h ++ [e]) = counted d p isNew h
    + if e.package = p ∧ ((isNew = true ∧ ∀ a ∈ h, a.package ≠ p) ∨
        (lastTracked d h ≠ some p ∧ e.kind ≠ .resumed)) then 1 else 0
  := by
  have hlast : h.getLast?.map Handled.package = some p → lastTracked d h = some p :=
    lastTracked_of_last hp
  have hold : lastTracked d h = some p → ¬ ∀ a ∈ h, a.package ≠ p := by
    intro hl hall
    obtain ⟨a, ha, hap⟩ := mem_of_lastTracked hl
    apply hall a ha hap
  have hfirst : (∀ a ∈ h, a.package ≠ p) → resumedFirst p h = false := by
    intro hall
    have hf : h.find? (fun e => e.package = p) = none := by simpa using hall
    rw [resumedFirst, openings_find?, hf]
    rfl
  rw [counted, counted, openedStints_concat, resumedFirst_concat, reopenedStints_concat]
  by_cases he : e.package = p
  · by_cases hk : e.kind = .resumed
    · by_cases hall : ∀ a ∈ h, a.package ≠ p
      · have hf := hfirst hall
        cases isNew with
        | true =>
            simp [he, hk, hf]
            omega
        | false => simp [he, hk]
      · simp [he, hk, hall]
    · by_cases hl : lastTracked d h = some p
      · have hn := hold hl
        by_cases ha : h.getLast?.map Handled.package = some p
        · simp [he, hk, hl, hn, ha]
        · simp [he, hk, hl, hn, ha]
          omega
      · have ha := mt hlast hl
        simp [he, hk, hl, ha]
        omega
  · simp [he]

namespace LogService

variable {d : Device} {s : LogService}

/-- The launches of the package. -/
def dueLaunches (d : Device) (s : LogService) (ls : List (EventLine d.offset)) (p : String) : ℕ :=
  openedStints p (history d ls s)
    + if p ∉ s.packages ∧ resumedFirst p (history d ls s) = true then 1 else 0

/-- When the lines are read, the launch count of the package grows by its launches. -/
def CountsLaunches (d : Device) (s : LogService) (ls : List (EventLine d.offset)) (p : String) :
    Prop :=
  ∃ s', onLinesRead d ls s = .ok () s' ∧
    s'.launches p - s.launches p = Int32.ofNat (dueLaunches d s ls p)

/-- The service counts the launches that it does not miss. -/
theorem Ready.launches_handledAll (hs : s.Ready d) (ls : List (EventLine d.offset)) {p : String}
    (hp : d.excluded p = false) :
  (handledAll d ls s).launches p
    = s.launches p + Int32.ofInt (counted d p (decide (p ∉ s.packages)) (history d ls s))
  := by
  induction ls using List.reverseRecOn with
  | nil =>
      have hzero : counted d p (decide (p ∉ s.packages)) [] = 0 := by
        simp [counted, openedStints, resumedFirst, reopenedStints]
      rw [history, hzero]
      symm
      apply Int32.add_zero
  | append_singleton ls l ih =>
      have hacc := hs.accounted.handledAll ls
      have heff := hacc.effect l.package l.kind
      have hfg := hs.foregroundPackage_handledAll ls
      have hmem := hs.accounted.mem_packages_handledAll ls hp
      rw [handledAll_concat, heff.launches, ih, hs.history_concat, counted_concat hp,
        Int32.ofInt_add, Int32.add_assoc, hfg]
      congr 2
      have hor : ((p ∉ (handledAll d ls s).packages) ↔
          (decide (p ∉ s.packages) = true ∧ ∀ a ∈ history d ls s, a.package ≠ p)) := by
        rw [hmem]
        simp
      by_cases hlp : l.package = p
      · subst hlp
        simp only [hor, hp, true_and]
        split
        · rfl
        · rfl
      · rw [if_neg (fun h => hlp h.1.symm), if_neg (fun h => hlp h.1)]
        rfl

/-- The launch count of a package grows by its launches exactly when the number of the stints
that are missed is a multiple of `2 ^ 32`. -/
theorem Ready.countsLaunches_iff (hs : s.Ready d) (ls : List (EventLine d.offset)) {p : String}
    (hp : d.excluded p = false) :
  CountsLaunches d s ls p ↔ 2 ^ 32 ∣ reopenedStints d p (history d ls s)
  := by
  have hlaunches := hs.launches_handledAll ls hp
  have hcounted : counted d p (decide (p ∉ s.packages)) (history d ls s)
      = dueLaunches d s ls p - reopenedStints d p (history d ls s) := by
    simp [counted, dueLaunches]
  have hgrowth : (handledAll d ls s).launches p - s.launches p
      = Int32.ofInt (dueLaunches d s ls p - reopenedStints d p (history d ls s)) := by
    rw [hlaunches, hcounted, Int32.add_comm, Int32.add_sub_cancel]
  have hiff : (handledAll d ls s).launches p - s.launches p = Int32.ofNat (dueLaunches d s ls p)
      ↔ 2 ^ 32 ∣ reopenedStints d p (history d ls s) := by
    have hneg : (dueLaunches d s ls p - reopenedStints d p (history d ls s) : ℤ)
        - dueLaunches d s ls p = - (reopenedStints d p (history d ls s) : ℤ) := by
      omega
    rw [hgrowth, ← Int32.ofInt_eq_ofNat, Int32.ofInt_eq_ofInt_iff, hneg, Int.dvd_neg]
    apply Int.natCast_dvd_natCast (m := 2 ^ 32)
  constructor
  · rintro ⟨s', hrun, hs'⟩
    rw [hs.onLinesRead] at hrun
    cases hrun
    apply hiff.mp hs'
  · intro h
    use handledAll d ls s, hs.onLinesRead ls
    apply hiff.mpr h

/-! ### An app that is opened twice -/

/-- An app that is opened, left for another app, and opened again. -/
def reopenedFromApp : List (EventLine (phone [] tick).offset) :=
  [phoneEvent .created "com.example" token_example,
    phoneEvent .created "com.android.settings" (token_of_all (by decide) rfl),
    phoneEvent .created "com.example" token_example]

/-- Both launches are counted. -/
theorem countsLaunches_reopenedFromApp :
  CountsLaunches (phone [] tick) (created (phone [] tick) none [] 0 0) reopenedFromApp "com.example"
  := by
  have hready := ready_phone tick
  apply (hready.countsLaunches_iff reopenedFromApp (by decide)).mpr
  rw [hready.history_eq]
  decide

/-- An app that is opened, left for the launcher, and opened again. -/
def reopenedFromLauncher : List (EventLine (phone [] tick).offset) :=
  [phoneEvent .created "com.example" token_example,
    phoneEvent .created "com.android.launcher" token_launcher,
    phoneEvent .created "com.example" token_example]

/-- The second launch is missed. -/
theorem not_countsLaunches_reopenedFromLauncher :
  (created (phone [] tick) none [] 0 0).Ready (phone [] tick) ∧
    (phone [] tick).excluded "com.example" = false ∧
    dueLaunches (phone [] tick) (created (phone [] tick) none [] 0 0) reopenedFromLauncher
      "com.example" = 2 ∧
    ¬ CountsLaunches (phone [] tick) (created (phone [] tick) none [] 0 0) reopenedFromLauncher
      "com.example"
  := by
  have hready := ready_phone tick
  have hdue : dueLaunches (phone [] tick) (created (phone [] tick) none [] 0 0)
      reopenedFromLauncher "com.example" = 2 := by
    rw [dueLaunches, hready.history_eq]
    decide
  refine ⟨hready, by decide, hdue, ?_⟩
  rintro ⟨s', hrun, hgrowth⟩
  rw [hready.onLinesRead] at hrun
  cases hrun
  rw [hdue] at hgrowth
  exact absurd hgrowth (by decide)

end LogService
