import Applogr.Accounting.Objects

/-!
# The effect of an event on the accounts

An event of the package `p` stops the timer of the foreground app, if it runs and the
foreground app has another package, and the time since it was started is added to the time
of that app.  Unless `p` is excluded, the app of `p` comes to the foreground, its launch is
counted if it is new, or if it was not in the foreground and the event is not a resumption,
and its timer starts anew.
-/

namespace LogService

variable {s s' : LogService} {d : Device} {p : String} {kind : EventKind}

/-- What an event of the package `p` does to the accounts. -/
structure Effect (d : Device) (p : String) (kind : EventKind) (s s' : LogService) : Prop where
  readings : s'.readings
    = s.readings + (if s.Stops p then 1 else 0) + (if d.excluded p then 0 else 1)
  foreground : s'.foregroundPackage = if d.excluded p then s.foregroundPackage else some p
  timer : s'.timer = if d.excluded p then (if s.Stops p then 0 else s.timer)
    else d.clock (s'.readings - 1)
  packages : s'.packages
    = if d.excluded p ∨ p ∈ s.packages then s.packages else s.packages ++ [p]
  timeUsed : ∀ q, s'.timeUsed q = s.timeUsed q
    + if s.Stops p ∧ s.foregroundPackage = some q then d.clock s.readings - s.timer else 0
  launches : ∀ q, s'.launches q = s.launches q
    + if q = p ∧ d.excluded p = false ∧
        (p ∉ s.packages ∨ (s.foregroundPackage ≠ some p ∧ kind ≠ .resumed)) then 1 else 0

/-! ### Stopping the timer -/

/-- An event stops the timer when it stops the timer of the foreground app. -/
theorem Loaded.stopsAt_iff (hs : s.Loaded d) {f : Ref} (hf : s.mForegroundApp = some f) :
  StopsAt p s f ↔ s.Stops p
  := by
  rw [StopsAt, Stops, timer_of_foreground hf, foregroundPackage_of_foreground hf,
    ← hs.packageName_eq (hs.foreground f hf)]
  simp [hf]

theorem not_stops_of_idle (hidle : s.mForegroundApp = none) :
  ¬ s.Stops p
  := by
  rintro ⟨ht, -⟩
  apply ht
  rw [timer, hidle]
  rfl

theorem readings_stopFor (hs : s.Loaded d) (p : String) :
  (LogService.stopFor d p s).readings = s.readings + if s.Stops p then 1 else 0
  := by
  rw [LogService.stopFor]
  cases hf : s.mForegroundApp with
  | none => rw [if_neg (not_stops_of_idle hf), Nat.add_zero]
  | some f =>
      have hstops : (s.heap.get f).timerIsStarted ∧ (s.heap.get f).packageName ≠ some p
          ↔ s.Stops p := by
        rw [← hs.stopsAt_iff hf, StopsAt, App.timerIsStarted_iff]
        simp [hf]
      simp only [hstops]
      split
      · rfl
      · rfl

/-- How often an event reads the clock. -/
theorem Loaded.readings_handled (hs : s.Loaded d) (p : String) (kind : EventKind) :
  (LogService.handled d p kind s).readings
    = s.readings + (if s.Stops p then 1 else 0) + (if d.excluded p then 0 else 1)
  := by
  rw [LogService.handled, hs.isExcluded, readings_saved, ← readings_stopFor hs]
  by_cases hp : d.excluded p = true
  · rw [if_pos hp, if_pos hp, Nat.add_zero]
  · rw [if_neg hp, if_neg hp, readings_started (foreground_brought p kind _), readings_brought]

/-! ### The accounts after the event -/

/-- The packages are those of the list, and the package of the event, unless it is excluded. -/
theorem ListEffect.packages (h : ListEffect d p kind s s') (hs : s.Loaded d) :
  s'.packages = if d.excluded p ∨ p ∈ s.packages then s.packages else s.packages ++ [p]
  := by
  have hold : s.refs.map s'.packageOf = s.packages := by
    apply List.map_congr_left
    intro r hr
    rw [packageOf, h.packageName r hr, packageOf]
  rw [LogService.packages, h.refs]
  simp only [← hs.mem_packages]
  split
  · apply hold
  · rename_i hx
    rw [hs.mem_packages] at hx
    obtain ⟨hp, hl⟩ := not_or.mp hx
    have hp : d.excluded p = false := by simpa using hp
    have hl : s.lookup p = none := by simpa using hl
    rw [List.map_append, hold, List.map_singleton, packageOf, h.new hp hl]
    rfl

/-- Handling an event adds its package to the list, unless it is excluded or there already. -/
theorem Loaded.packages_handled (hs : s.Loaded d) (p : String) (kind : EventKind) :
  (LogService.handled d p kind s).packages
    = if d.excluded p ∨ p ∈ s.packages then s.packages else s.packages ++ [p]
  := (hs.listEffect p kind).packages hs

theorem ListEffect.timer (h : ListEffect d p kind s s') (hs : s.Loaded d) :
  s'.timer = if d.excluded p then (if s.Stops p then 0 else s.timer)
    else d.clock (s'.readings - 1)
  := by
  rw [LogService.timer, h.foreground]
  by_cases hp : d.excluded p = true
  · rw [if_pos hp, if_pos hp]
    cases hf : s.mForegroundApp with
    | none =>
        rw [if_neg (not_stops_of_idle hf), LogService.timer, hf]
        rfl
    | some f =>
        rw [Option.map_some, Option.getD_some, h.mTimer f (hs.foreground f hf),
          timer_of_foreground hf]
        simp only [hp, hs.stopsAt_iff hf]
        rfl
  · rw [if_neg hp, if_neg hp]
    have hp : d.excluded p = false := by simpa using hp
    cases hl : s.lookup p with
    | some r =>
        rw [Option.getD_some, Option.map_some, Option.getD_some, h.mTimer r (lookup_eq_some hl).1,
          if_pos ⟨hp, hl⟩]
    | none => rw [Option.getD_none, Option.map_some, Option.getD_some, h.new hp hl]

/-- The time since the timer was started is added to the time of the foreground app. -/
theorem ListEffect.timeUsed (h : ListEffect d p kind s s') (hs : s.Known d) (q : String) :
  s'.timeUsed q = s.timeUsed q
    + if s.Stops p ∧ s.foregroundPackage = some q then d.clock s.readings - s.timer else 0
  := by
  rw [LogService.timeUsed, appOf, h.lookup, LogService.timeUsed, appOf]
  cases hl : s.lookup q with
  | some r =>
      have hstops : StopsAt p s r ↔ s.Stops p ∧ s.foregroundPackage = some q := by
        rw [hs.foregroundPackage_iff hl]
        constructor
        · intro hstops
          exact ⟨(hs.stopsAt_iff hstops.1).mp hstops, hstops.1⟩
        · rintro ⟨hstops, hf⟩
          apply (hs.stopsAt_iff hf).mpr hstops
      simp only [Option.some_or, Option.map_some, Option.getD_some]
      rw [h.timeUsedMs r (lookup_eq_some hl).1]
      simp only [hstops]
      split
      · rename_i hq
        rw [timer_of_foreground ((hs.foregroundPackage_iff hl).mp hq.2)]
      · rfl
  | none =>
      have hnot : ¬ (s.Stops p ∧ s.foregroundPackage = some q) :=
        fun hq => hs.foregroundPackage_ne hl hq.2
      rw [if_neg hnot]
      by_cases hnew : q = p ∧ d.excluded p = false ∧ s.lookup p = none
      · rw [if_pos hnew, Option.none_or, Option.map_some, h.new hnew.2.1 hnew.2.2]
        rfl
      · rw [if_neg hnew]
        rfl

theorem Accounted.known (hs : s.Accounted d) :
  s.Known d
  := { hs.toLoaded with
    found := fun f hf => lookup_of_mem hs.toLoaded hs.distinct (hs.foreground f hf) }

/-- What handling an event does to the accounts. -/
theorem Accounted.effect (hs : s.Accounted d) (p : String) (kind : EventKind) :
  Effect d p kind s (LogService.handled d p kind s)
  := by
  have h := hs.listEffect p kind
  constructor
  · apply hs.readings_handled
  · apply h.foregroundPackage hs.toLoaded
  · apply h.timer hs.toLoaded
  · apply h.packages hs.toLoaded
  · apply h.timeUsed hs.known
  · apply hs.known.launches_handled

/-- After the event, no timer runs but that of the foreground app. -/
theorem ListEffect.running (h : ListEffect d p kind s s') (hs : s.Accounted d) {r : Ref}
    (hr : r ∈ s'.refs) (ht : (s'.heap.get r).mTimer ≠ 0) :
  s'.mForegroundApp = some r
  := by
  rw [h.foreground]
  rcases h.mem_or_new hr with hr | ⟨rfl, hp, hl⟩
  · rw [h.mTimer r hr] at ht
    by_cases hnow : d.excluded p = false ∧ s.lookup p = some r
    · rw [hnow.1, hnow.2, if_neg Bool.false_ne_true, Option.getD_some]
    · rw [if_neg hnow] at ht
      by_cases hstops : StopsAt p s r
      · rw [if_pos hstops] at ht
        exact absurd rfl ht
      · rw [if_neg hstops] at ht
        -- the timer ran before, so the entry was the foreground app
        have hf := hs.running r hr ht
        have hname : (s.heap.get r).packageName = some p := by
          by_contra hne
          apply hstops ⟨hf, ht, hne⟩
        have hl : s.lookup p = some r := by
          apply hs.lookup_eq_some_iff.mpr
          use hr
          rw [packageOf, hname, Option.getD_some]
        have hp : d.excluded p = true := by
          by_contra hp
          apply hnow
          use by simpa using hp
        rw [if_pos hp, hf]
  · rw [hp, hl, if_neg Bool.false_ne_true, Option.getD_none]

/-- Handling an event keeps the accounts in order. -/
theorem Accounted.handled (hs : s.Accounted d) (p : String) (kind : EventKind) :
  (LogService.handled d p kind s).Accounted d
  := by
  have h := hs.listEffect p kind
  refine { hs.toLoaded.handled p kind with distinct := ?_, running := ?_, tracked := ?_ }
  · rw [hs.packages_handled p kind]
    split
    · apply hs.distinct
    · rename_i hn
      apply List.nodup_append.mpr
      refine ⟨hs.distinct, List.nodup_singleton p, ?_⟩
      rintro a ha b hb rfl
      apply hn
      right
      rw [← List.mem_singleton.mp hb]
      apply ha
  · intro r hr
    apply h.running hs hr
  · intro f hf
    have hforeground := h.foregroundPackage hs.toLoaded
    rw [foregroundPackage_of_foreground hf] at hforeground
    split at hforeground
    · obtain ⟨g, hg, hpkg⟩ := Option.map_eq_some_iff.mp hforeground.symm
      rw [← hpkg]
      apply hs.tracked g hg
    · rename_i hp
      rw [Option.some.inj hforeground]
      simpa using hp

end LogService
