import Applogr.Accounting.Objects
import Applogr.Persistence.Restart

/-!
# Counting launches after a restart

The foreground app is not saved.  A service that has been killed and started again counts the same
launches as one that goes on, with one exception: when the app that was in the foreground is opened
again before any other app, the new service takes it for a launch.
-/

namespace LogService

variable {d : Device} {s t : LogService}

/-- The launches of a package that are counted between two states. -/
def launchGrowth (s s' : LogService) (q : String) : Int32 := s'.launches q - s.launches q

/-- The events of packages which are not excluded. -/
def trackedLines (d : Device) (ls : List (EventLine d.offset)) : List (EventLine d.offset) :=
  ls.filter (fun l => !d.excluded l.package)

/-- The first event of a package which is not excluded opens the package, and is not a
resumption. -/
def OpensFirst (d : Device) (ls : List (EventLine d.offset)) (q : String) : Prop :=
  ∃ l ∈ (trackedLines d ls).head?, l.package = q ∧ l.kind ≠ .resumed

instance (d : Device) (ls : List (EventLine d.offset)) (q : String) : Decidable (OpensFirst d ls q) :=
  inferInstanceAs (Decidable (∃ l ∈ (trackedLines d ls).head?, l.package = q ∧ l.kind ≠ .resumed))

/-- The last event of a package which is not excluded is an event of the package, and the first
one afterwards opens it again. -/
def Reopens (d : Device) (ls ls' : List (EventLine d.offset)) (q : String) : Prop :=
  (trackedLines d ls).getLast?.map EventLine.package = some q ∧ OpensFirst d ls' q

instance (d : Device) (ls ls' : List (EventLine d.offset)) (q : String) :
    Decidable (Reopens d ls ls' q) :=
  inferInstanceAs (Decidable (_ ∧ _))

/-- A line of an excluded package is passed over. -/
theorem opensFirst_cons_of_excluded {l : EventLine d.offset} (hp : d.excluded l.package = true)
    {ls : List (EventLine d.offset)} {q : String} :
  OpensFirst d (l :: ls) q ↔ OpensFirst d ls q
  := by
  rw [OpensFirst, OpensFirst, trackedLines, trackedLines, List.filter_cons_of_neg]
  simpa using hp

/-- A line of another package decides. -/
theorem opensFirst_cons_of_tracked {l : EventLine d.offset} (hp : d.excluded l.package = false)
    {ls : List (EventLine d.offset)} {q : String} :
  OpensFirst d (l :: ls) q ↔ l.package = q ∧ l.kind ≠ .resumed
  := by
  rw [OpensFirst, trackedLines, List.filter_cons_of_pos (by simp [hp])]
  simp

/-! ### Services that go on -/

theorem Loaded.foregroundPackage_handledAll (hs : s.Loaded d) (hidle : s.mForegroundApp = none)
    (ls : List (EventLine d.offset)) :
  (LogService.handledAll d ls s).foregroundPackage
    = (trackedLines d ls).getLast?.map EventLine.package
  := by
  induction ls using List.reverseRecOn with
  | nil =>
      rw [LogService.handledAll, List.foldl_nil, LogService.foregroundPackage, hidle]
      rfl
  | append_singleton ls l ih =>
      have hload := hs.handledAll ls
      rw [handledAll_concat, (hload.listEffect l.package l.kind).foregroundPackage hload, ih,
        trackedLines, trackedLines, List.filter_append]
      by_cases hp : d.excluded l.package = true
      · simp [hp]
      · simp [hp]

/-- What decides about the launches is the same for the two services. -/
structure SameLaunches (s t : LogService) : Prop where
  packages : ∀ q, q ∈ s.packages ↔ q ∈ t.packages
  foreground : s.foregroundPackage = t.foregroundPackage

/-- An event keeps the packages of two lists the same. -/
theorem mem_packages_handled_iff (hs : s.Loaded d) (ht : t.Loaded d)
    (h : ∀ q, q ∈ s.packages ↔ q ∈ t.packages) (p : String) (kind : EventKind) (q : String) :
  q ∈ (LogService.handled d p kind s).packages ↔ q ∈ (LogService.handled d p kind t).packages
  := by
  rw [hs.packages_handled, ht.packages_handled]
  simp only [h p]
  split
  · apply h
  · rw [List.mem_append, List.mem_append, h q]

theorem SameLaunches.handled (h : SameLaunches s t) (hs : s.Loaded d) (ht : t.Loaded d)
    (p : String) (kind : EventKind) :
  SameLaunches (LogService.handled d p kind s) (LogService.handled d p kind t)
  := by
  constructor
  · apply mem_packages_handled_iff hs ht h.packages
  · rw [(hs.listEffect p kind).foregroundPackage hs, (ht.listEffect p kind).foregroundPackage ht,
      h.foreground]

theorem launchGrowth_trans (s s' s'' : LogService) (q : String) :
  launchGrowth s s'' q = launchGrowth s' s'' q + launchGrowth s s' q
  := by
  rw [launchGrowth, launchGrowth, launchGrowth]
  grind

/-- The launch that one event counts. -/
theorem Known.launchGrowth_handled (hs : s.Known d) (p : String) (kind : EventKind) (q : String) :
  launchGrowth s (LogService.handled d p kind s) q
    = if q = p ∧ d.excluded p = false ∧
        (p ∉ s.packages ∨ (s.foregroundPackage ≠ some p ∧ kind ≠ .resumed)) then 1 else 0
  := by
  rw [launchGrowth, hs.launches_handled]
  grind

/-- The same events count the same launches. -/
theorem SameLaunches.launchGrowth_eq (h : SameLaunches s t) (hs : s.Known d) (ht : t.Known d)
    (ls : List (EventLine d.offset)) (q : String) :
  launchGrowth t (LogService.handledAll d ls t) q = launchGrowth s (LogService.handledAll d ls s) q
  := by
  induction ls generalizing s t with
  | nil =>
      rw [launchGrowth, launchGrowth, LogService.handledAll, LogService.handledAll]
      grind
  | cons l ls ih =>
      have ih := ih (h.handled hs.toLoaded ht.toLoaded l.package l.kind) (hs.handled l.package l.kind)
        (ht.handled l.package l.kind)
      rw [LogService.handledAll, LogService.handledAll, List.foldl_cons, List.foldl_cons,
        launchGrowth_trans t (LogService.handled d l.package l.kind t),
        launchGrowth_trans s (LogService.handled d l.package l.kind s)]
      rw [LogService.handledAll, LogService.handledAll] at ih
      rw [ih, hs.launchGrowth_handled, ht.launchGrowth_handled]
      simp only [h.foreground, h.packages]

/-! ### A service without a foreground app -/

/-- A service without a foreground app counts one launch more, if the first app that is opened is
the foreground app of the other service. -/
theorem Known.launchGrowth_idle (hs : s.Known d) (ht : t.Loaded d) (hidle : t.mForegroundApp = none)
    (hsame : ∀ q, q ∈ s.packages ↔ q ∈ t.packages) (ls : List (EventLine d.offset)) (q : String) :
  launchGrowth t (LogService.handledAll d ls t) q = launchGrowth s (LogService.handledAll d ls s) q
    + if s.foregroundPackage = some q ∧ OpensFirst d ls q then 1 else 0
  := by
  induction ls generalizing s t with
  | nil =>
      have hnot : ¬ (s.foregroundPackage = some q ∧ OpensFirst d [] q) := by
        rintro ⟨-, l, hl, -⟩
        cases hl
      rw [if_neg hnot, launchGrowth, launchGrowth, LogService.handledAll, LogService.handledAll]
      grind
  | cons l ls ih =>
      have hes := hs.listEffect l.package l.kind
      have het := ht.listEffect l.package l.kind
      have hknown := ht.known hidle
      have hnone : t.foregroundPackage = none := by
        rw [LogService.foregroundPackage, hidle, Option.map_none]
      have hpackages := mem_packages_handled_iff hs.toLoaded ht hsame l.package l.kind
      rw [LogService.handledAll, LogService.handledAll, List.foldl_cons, List.foldl_cons,
        launchGrowth_trans t (LogService.handled d l.package l.kind t),
        launchGrowth_trans s (LogService.handled d l.package l.kind s),
        hs.launchGrowth_handled, hknown.launchGrowth_handled]
      cases hp : d.excluded l.package with
      | true =>
          have hidle' : (LogService.handled d l.package l.kind t).mForegroundApp = none := by
            rw [het.foreground, if_pos hp, hidle]
          have ih := ih (hs.handled l.package l.kind) (ht.handled l.package l.kind) hidle' hpackages
          rw [LogService.handledAll, LogService.handledAll, hes.foregroundPackage hs.toLoaded,
            if_pos hp] at ih
          rw [ih]
          simp [opensFirst_cons_of_excluded hp]
      | false =>
          have hsame' : SameLaunches (LogService.handled d l.package l.kind s)
              (LogService.handled d l.package l.kind t) := by
            use hpackages
            rw [hes.foregroundPackage hs.toLoaded, het.foregroundPackage ht, hp]
            rfl
          have hgrowth := hsame'.launchGrowth_eq (hs.handled l.package l.kind)
            (hknown.handled l.package l.kind) ls q
          have hmem : s.foregroundPackage = some l.package → l.package ∈ t.packages := by
            intro hf
            obtain ⟨f, hf, hpkg⟩ := Option.map_eq_some_iff.mp hf
            rw [← hsame, ← hpkg]
            apply List.mem_map_of_mem (hs.foreground f hf)
          rw [LogService.handledAll, LogService.handledAll] at hgrowth
          rw [hgrowth]
          simp only [opensFirst_cons_of_tracked hp, hnone, hsame]
          by_cases hq : q = l.package
          · subst hq
            by_cases hf : s.foregroundPackage = some l.package
            · simp [hf, hmem hf]
            · simp [hf]
          · simp [hq, Ne.symm hq]

/-! ### A restart -/

theorem packages_eq_records (s : LogService) :
  s.packages = s.records.map (fun a => a.packageName.getD "")
  := by
  rw [packages, records, List.map_map]
  rfl

/-- A service that has handled events is killed and started again.  The new service knows the same
packages, and has no foreground app. -/
theorem exists_restart (hg : d.gson.Documented) (hw : d.Writes) {file : Option Text}
    {rs : List Record} (hfile : Holds d file rs) (hn : Named rs) (hi : d.AllInstalled rs) (n m : ℕ)
    {ls : List (EventLine d.offset)} (hls : EventsInstalled d ls)
    (hsort : SortsEachFile d file n m ls) (n' m' : ℕ) :
  ∃ s₀ s t, onCreate d (boot file n m) = .ok () s₀ ∧ onLinesRead d ls s₀ = .ok () s ∧
    onCreate d (boot s.saveFile n' m') = .ok () t ∧ s.Known d ∧ t.Loaded d ∧
    t.mForegroundApp = none ∧ (∀ q, q ∈ s.packages ↔ q ∈ t.packages) ∧
    s.foregroundPackage = (trackedLines d ls).getLast?.map EventLine.package
  := by
  obtain ⟨s₀, s, hran⟩ := exists_ran hg hw hfile hn hi hsort.1 n m hls
  have hidle := (Fresh.onCreate hran.starts).idle
  have hknown := (hran.loaded.known hidle).handledAll ls
  have hforeground := hran.loaded.foregroundPackage_handledAll hidle ls
  rw [← hran.handled] at hknown hforeground
  obtain ⟨t, hcreate', hload', hperm, -⟩ := hran.agrees.onCreate hknown.toLoaded hg hw
    hran.installed (hsort.2 s₀ s hran.starts hran.reads) n' m'
  refine ⟨s₀, s, t, hran.starts, hran.reads, hcreate', hknown, hload',
    (Fresh.onCreate hcreate').idle, ?_, hforeground⟩
  intro q
  rw [packages_eq_records, packages_eq_records]
  apply (hperm.symm.map _).mem_iff

/-- The launches that a service counts after it has been killed and started again are those that it
would have counted, and one more of the app that was in the foreground if it is opened first.  The
service is started again if the sort accepts the launch counts in the file. -/
theorem relaunch (hg : d.gson.Documented) (hw : d.Writes) {file : Option Text}
    {rs : List Record} (hfile : Holds d file rs) (hn : Named rs) (hi : d.AllInstalled rs) (n m : ℕ)
    {ls : List (EventLine d.offset)} (hls : EventsInstalled d ls)
    (hsort : SortsEachFile d file n m ls) (ls' : List (EventLine d.offset)) (n' m' : ℕ) :
  ∃ s₀ s₁ s₂ t₁ t₂, onCreate d (boot file n m) = .ok () s₀ ∧ onLinesRead d ls s₀ = .ok () s₁ ∧
    onLinesRead d ls' s₁ = .ok () s₂ ∧ onCreate d (boot s₁.saveFile n' m') = .ok () t₁ ∧
    onLinesRead d ls' t₁ = .ok () t₂ ∧
    ∀ q, launchGrowth t₁ t₂ q = launchGrowth s₁ s₂ q + if Reopens d ls ls' q then 1 else 0
  := by
  obtain ⟨s₀, s, t, hs₀, hs, ht, hknown, hload, hidle, hsame, hlast⟩ :=
    exists_restart hg hw hfile hn hi n m hls hsort n' m'
  have hgrowth := hknown.launchGrowth_idle hload hidle hsame ls'
  rw [hlast] at hgrowth
  exact ⟨s₀, s, _, t, _, hs₀, hs, hknown.onLinesRead ls', ht, hload.onLinesRead ls', hgrowth⟩

/-- An app is opened. -/
def opened : List (EventLine (phone ["com.example"] tick).offset) :=
  [phoneEvent .created "com.example" token_example]

theorem eventsInstalled_opened :
  EventsInstalled (phone ["com.example"] tick) opened
  := by
  intro l hl _ hnone
  rw [List.mem_singleton.mp hl] at hnone
  cases hnone

theorem sortsEachFile_opened :
  SortsEachFile (phone ["com.example"] tick) none 0 0 opened
  := by
  have hholds : Holds (phone ["com.example"] tick) none [] := rfl
  apply sortsEachFile_of_short Json.gson_documented (fun _ => rfl) hholds (by rintro _ ⟨⟩)
    (by rintro _ ⟨⟩) 0 0 eventsInstalled_opened
  decide

/-- The app is opened again after a restart, and one launch more is counted. -/
theorem relaunch_opened :
  ∃ s₁ s₂ t₁ t₂, onLinesRead (phone ["com.example"] tick) opened s₁ = .ok () s₂ ∧
    onCreate (phone ["com.example"] tick) (boot s₁.saveFile 0 0) = .ok () t₁ ∧
    onLinesRead (phone ["com.example"] tick) opened t₁ = .ok () t₂ ∧
    launchGrowth t₁ t₂ "com.example" = launchGrowth s₁ s₂ "com.example" + 1
  := by
  have hholds : Holds (phone ["com.example"] tick) none [] := rfl
  obtain ⟨-, s₁, s₂, t₁, t₂, -, -, hs₂, ht₁, ht₂, hgrowth⟩ := relaunch Json.gson_documented
    (fun _ => rfl) hholds (by rintro _ ⟨⟩) (by rintro _ ⟨⟩) 0 0 eventsInstalled_opened
    sortsEachFile_opened opened 0 0
  use s₁, s₂, t₁, t₂, hs₂, ht₁, ht₂
  rw [hgrowth, if_pos (by decide)]

/-- The launch is counted by the service that has been started again, and not by the one that goes
on. -/
theorem not_relaunch_opened :
  ¬ ∀ s₀ s₁ s₂ t₁ t₂, onCreate (phone ["com.example"] tick) (boot none 0 0) = .ok () s₀ →
    onLinesRead (phone ["com.example"] tick) opened s₀ = .ok () s₁ →
    onLinesRead (phone ["com.example"] tick) opened s₁ = .ok () s₂ →
    onCreate (phone ["com.example"] tick) (boot s₁.saveFile 0 0) = .ok () t₁ →
    onLinesRead (phone ["com.example"] tick) opened t₁ = .ok () t₂ →
    ∀ q, launchGrowth t₁ t₂ q = launchGrowth s₁ s₂ q
  := by
  intro h
  have hholds : Holds (phone ["com.example"] tick) none [] := rfl
  obtain ⟨s₀, s, t, hs₀, hs, ht, hknown, hload, hidle, hsame, hlast⟩ := exists_restart
    Json.gson_documented (fun _ => rfl) hholds (by rintro _ ⟨⟩) (by rintro _ ⟨⟩) 0 0
    eventsInstalled_opened sortsEachFile_opened 0 0
  have heq := h s₀ s _ t _ hs₀ hs (hknown.onLinesRead opened) ht (hload.onLinesRead opened)
    "com.example"
  have hgrowth := hknown.launchGrowth_idle hload hidle hsame opened "com.example"
  rw [hlast, if_pos (by decide), heq] at hgrowth
  grind

end LogService
