import Applogr.Accounting.Views
import Mathlib.Data.List.Find

/-!
# The effect of an event on the list

What an event does to the list and to each of its entries, in any service with a loaded list,
whether or not two entries have the same package.  The event changes the time of the foreground
app only, and the count and the timer of the app of its package.
-/

namespace LogService

variable {s : LogService} {d : Device} {p : String} {kind : EventKind} {r : Ref}

/-- An event of the package stops the timer of the entry, which is the foreground app. -/
def StopsAt (p : String) (s : LogService) (r : Ref) : Prop :=
  s.mForegroundApp = some r ∧ (s.heap.get r).mTimer ≠ 0 ∧ (s.heap.get r).packageName ≠ some p

instance (p : String) (s : LogService) (r : Ref) : Decidable (StopsAt p s r) :=
  inferInstanceAs (Decidable (_ ∧ _ ∧ _))

/-- An event of the package, if it is not excluded, counts a launch of the entry. -/
def LaunchesAt (p : String) (kind : EventKind) (s : LogService) (r : Ref) : Prop :=
  s.lookup p = some r ∧ s.mForegroundApp ≠ some r ∧ kind ≠ .resumed

instance (p : String) (kind : EventKind) (s : LogService) (r : Ref) :
    Decidable (LaunchesAt p kind s r) :=
  inferInstanceAs (Decidable (_ ∧ _ ∧ _))

/-- What an event of the package `p` does to the list and to its entries. -/
structure ListEffect (d : Device) (p : String) (kind : EventKind) (s s' : LogService) : Prop where
  refs : s'.refs
    = if d.excluded p ∨ s.lookup p ≠ none then s.refs else s.refs ++ [s.heap.next]
  foreground : s'.mForegroundApp
    = if d.excluded p then s.mForegroundApp else some ((s.lookup p).getD s.heap.next)
  packageName : ∀ r ∈ s.refs, (s'.heap.get r).packageName = (s.heap.get r).packageName
  timeUsedMs : ∀ r ∈ s.refs, (s'.heap.get r).timeUsedMs = (s.heap.get r).timeUsedMs
    + if StopsAt p s r then d.clock s.readings - (s.heap.get r).mTimer else 0
  launchCount : ∀ r ∈ s.refs, (s'.heap.get r).launchCount = (s.heap.get r).launchCount
    + if d.excluded p = false ∧ LaunchesAt p kind s r then 1 else 0
  mTimer : ∀ r ∈ s.refs, (s'.heap.get r).mTimer
    = if d.excluded p = false ∧ s.lookup p = some r then d.clock (s'.readings - 1)
      else if StopsAt p s r then 0 else (s.heap.get r).mTimer
  new : d.excluded p = false → s.lookup p = none → s'.heap.get s.heap.next
    = { App.new p with launchCount := 1, mTimer := d.clock (s'.readings - 1) }

/-! ### Stopping the timer of the previous app -/

theorem get_stopFor (d : Device) (p : String) (s : LogService) (r : Ref) :
  (stopFor d p s).heap.get r
    = if StopsAt p s r then (s.heap.get r).saveTimer (d.clock s.readings) else s.heap.get r
  := by
  rw [stopFor]
  cases hf : s.mForegroundApp with
  | none => simp [StopsAt, hf]
  | some f =>
      by_cases hr : r = f
      · subst hr
        by_cases h : (s.heap.get r).timerIsStarted ∧ (s.heap.get r).packageName ≠ some p
        · have hstops : StopsAt p s r := ⟨hf, (App.timerIsStarted_iff _).mp h.1, h.2⟩
          simp only [if_pos h, if_pos hstops, updateTimed, Heap.get_modify_self]
        · have hstops : ¬ StopsAt p s r := fun hs =>
            h ⟨(App.timerIsStarted_iff _).mpr hs.2.1, hs.2.2⟩
          simp only [if_neg h, if_neg hstops]
      · have hstops : ¬ StopsAt p s r := fun hs => hr (Option.some.inj (hs.1.symm.trans hf))
        simp only [if_neg hstops]
        split
        · apply Heap.get_modify_of_ne _ hr
        · rfl

/-- Stopping the timer of the previous app keeps the list. -/
theorem list_stopFor (d : Device) (p : String) (s : LogService) :
  (stopFor d p s).mAppList = s.mAppList ∧ (stopFor d p s).heap.next = s.heap.next ∧
    (stopFor d p s).mForegroundApp = s.mForegroundApp ∧
    ∀ q, (stopFor d p s).lookup q = s.lookup q
  := by
  rcases stopFor_cases d p s with h | ⟨f, -, -, -, h⟩
  · rw [h]
    exact ⟨rfl, rfl, rfl, fun _ => rfl⟩
  · rw [h]
    refine ⟨rfl, rfl, rfl, ?_⟩
    intro q
    apply lookup_update (App.packageName_saveTimer (d.clock s.readings)) f

theorem refs_stopFor (d : Device) (p : String) (s : LogService) :
  (stopFor d p s).refs = s.refs
  := by
  rw [refs, (list_stopFor d p s).1, refs]

/-! ### Bringing an app to the foreground -/

/-- The service after an app that is not in the list has been brought to the foreground. -/
def withNew (p : String) (s : LogService) : LogService :=
  { s with heap := (s.heap.alloc (App.new p)).modify s.heap.next App.incrementLaunchCount,
           mAppList := some ⟨some ((s.refs ++ [s.heap.next]).map some)⟩,
           mForegroundApp := some s.heap.next }

/-- The service after an app of the list has come to the foreground. -/
def withForeground (r : Ref) (s : LogService) : LogService := { s with mForegroundApp := some r }

/-- What bringing an app to the foreground does. -/
theorem brought_cases (p : String) (kind : EventKind) (s : LogService) :
  (s.lookup p = none ∧ brought p kind s = s.withNew p) ∨
  (∃ r, s.lookup p = some r ∧ s.mForegroundApp = some r ∧ brought p kind s = s) ∨
  (∃ r, s.lookup p = some r ∧ s.mForegroundApp ≠ some r ∧ kind = .resumed ∧
    brought p kind s = s.withForeground r) ∨
  (∃ r, s.lookup p = some r ∧ s.mForegroundApp ≠ some r ∧ kind ≠ .resumed ∧
    brought p kind s = (s.update r App.incrementLaunchCount).withForeground r)
  := by
  rw [brought]
  cases h : s.lookup p with
  | none =>
      left
      exact ⟨rfl, rfl⟩
  | some r =>
      right
      by_cases hf : s.mForegroundApp = some r
      · left
        use r, rfl, hf
        simp [hf]
      · right
        by_cases hk : kind = .resumed
        · left
          use r, rfl, hf, hk
          simp [hf, hk, withForeground]
        · right
          use r, rfl, hf, hk
          simp [hf, hk, withForeground, update]

theorem refs_withNew (p : String) :
  (s.withNew p).refs = s.refs ++ [s.heap.next]
  := refs_eq rfl

theorem get_withNew_of_mem (hs : s.Loaded d) (p : String) {r : Ref} (hr : r ∈ s.refs) :
  (s.withNew p).heap.get r = s.heap.get r
  := by
  have hlt := hs.allocated r hr
  simp only [withNew]
  rw [Heap.get_modify_of_ne _ (Nat.ne_of_lt hlt), Heap.get_alloc_of_lt _ hlt]

theorem get_withNew_next (p : String) :
  (s.withNew p).heap.get s.heap.next = (App.new p).incrementLaunchCount
  := by
  simp [withNew]

theorem readings_brought (p : String) (kind : EventKind) (s : LogService) :
  (brought p kind s).readings = s.readings
  := by
  rcases brought_cases p kind s with ⟨-, h⟩ | ⟨r, -, -, h⟩ | ⟨r, -, -, -, h⟩ | ⟨r, -, -, -, h⟩
  · rw [h, withNew]
  · rw [h]
  · rw [h, withForeground]
  · rw [h, withForeground, update]

theorem get_brought (hs : s.Loaded d) (p : String) (kind : EventKind) (hr : r ∈ s.refs) :
  (brought p kind s).heap.get r
    = if LaunchesAt p kind s r then (s.heap.get r).incrementLaunchCount else s.heap.get r
  := by
  rcases brought_cases p kind s with ⟨h, heq⟩ | ⟨r', h, hf, heq⟩ | ⟨r', h, hf, hk, heq⟩ |
    ⟨r', h, hf, hk, heq⟩
  · have hnot : ¬ LaunchesAt p kind s r := fun hl => by cases h.symm.trans hl.1
    rw [heq, if_neg hnot]
    apply get_withNew_of_mem hs p hr
  · have hnot : ¬ LaunchesAt p kind s r := by
      rintro ⟨hl, hne, -⟩
      apply hne
      rw [← hl, hf, h]
    rw [heq, if_neg hnot]
  · have hnot : ¬ LaunchesAt p kind s r := fun hl => hl.2.2 hk
    rw [heq, if_neg hnot]
    rfl
  · rw [heq]
    by_cases hrr : r = r'
    · subst hrr
      rw [if_pos ⟨h, hf, hk⟩]
      apply Heap.get_modify_self
    · have hnot : ¬ LaunchesAt p kind s r := fun hl => hrr (Option.some.inj (hl.1.symm.trans h))
      rw [if_neg hnot]
      apply Heap.get_modify_of_ne _ hrr

theorem refs_brought (p : String) (kind : EventKind) (s : LogService) :
  (brought p kind s).refs = if s.lookup p ≠ none then s.refs else s.refs ++ [s.heap.next]
  := by
  rcases brought_cases p kind s with ⟨h, heq⟩ | ⟨r, h, -, heq⟩ | ⟨r, h, -, -, heq⟩ |
    ⟨r, h, -, -, heq⟩
  · rw [heq, refs_withNew, if_neg (not_not.mpr h)]
  · rw [heq, h, if_pos (Option.some_ne_none r)]
  · rw [heq, h, if_pos (Option.some_ne_none r)]
    rfl
  · rw [heq, h, if_pos (Option.some_ne_none r)]
    rfl

theorem mForegroundApp_brought (p : String) (kind : EventKind) (s : LogService) :
  (brought p kind s).mForegroundApp = some ((s.lookup p).getD s.heap.next)
  := by
  rcases brought_cases p kind s with ⟨h, heq⟩ | ⟨r, h, hf, heq⟩ | ⟨r, h, -, -, heq⟩ |
    ⟨r, h, -, -, heq⟩
  · rw [heq, h]
    rfl
  · rw [heq, h, hf, Option.getD_some]
  · rw [heq, h]
    rfl
  · rw [heq, h]
    rfl

/-! ### Starting the timer -/

theorem get_started (d : Device) (s : LogService) (r : Ref) :
  (started d s).heap.get r
    = if s.mForegroundApp = some r then (s.heap.get r).setTimer (d.clock s.readings)
      else s.heap.get r
  := by
  rw [started]
  cases hf : s.mForegroundApp with
  | none => simp
  | some f =>
      by_cases hr : f = r
      · subst hr
        simp [updateTimed]
      · rw [if_neg (fun h => hr (Option.some.inj h))]
        apply Heap.get_modify_of_ne _ (Ne.symm hr)

/-- Starting the timer keeps the list. -/
theorem list_started (d : Device) (s : LogService) :
  (started d s).mAppList = s.mAppList ∧ (started d s).mForegroundApp = s.mForegroundApp
  := by
  rw [started]
  split
  · exact ⟨rfl, rfl⟩
  · exact ⟨rfl, rfl⟩

theorem readings_started (hf : s.mForegroundApp ≠ none) :
  (started d s).readings = s.readings + 1
  := by
  obtain ⟨f, hf⟩ := Option.ne_none_iff_exists'.mp hf
  simp only [started, hf, updateTimed]

/-! ### The event -/

@[simp]
theorem readings_saved (d : Device) (s : LogService) : (saved d s).readings = s.readings := rfl

/-- The entry after the timer of the previous app has been stopped. -/
def stoppedApp (d : Device) (p : String) (s : LogService) (r : Ref) : App :=
  if StopsAt p s r then (s.heap.get r).saveTimer (d.clock s.readings) else s.heap.get r

/-- The entry after the app of the package has been brought to the foreground. -/
def launchedApp (d : Device) (p : String) (kind : EventKind) (s : LogService) (r : Ref) : App :=
  if LaunchesAt p kind s r then (stoppedApp d p s r).incrementLaunchCount else stoppedApp d p s r

theorem stoppedApp_fields (d : Device) (p : String) (s : LogService) (r : Ref) :
  (stoppedApp d p s r).packageName = (s.heap.get r).packageName ∧
    (stoppedApp d p s r).timeUsedMs = (s.heap.get r).timeUsedMs
      + (if StopsAt p s r then d.clock s.readings - (s.heap.get r).mTimer else 0) ∧
    (stoppedApp d p s r).launchCount = (s.heap.get r).launchCount ∧
    (stoppedApp d p s r).mTimer = if StopsAt p s r then 0 else (s.heap.get r).mTimer
  := by
  rw [stoppedApp]
  split
  · exact ⟨rfl, rfl, rfl, rfl⟩
  · exact ⟨rfl, (Int64.add_zero _).symm, rfl, rfl⟩

theorem launchedApp_fields (d : Device) (p : String) (kind : EventKind) (s : LogService) (r : Ref) :
  (launchedApp d p kind s r).packageName = (s.heap.get r).packageName ∧
    (launchedApp d p kind s r).timeUsedMs = (s.heap.get r).timeUsedMs
      + (if StopsAt p s r then d.clock s.readings - (s.heap.get r).mTimer else 0) ∧
    (launchedApp d p kind s r).launchCount = (s.heap.get r).launchCount
      + (if LaunchesAt p kind s r then 1 else 0) ∧
    (launchedApp d p kind s r).mTimer = if StopsAt p s r then 0 else (s.heap.get r).mTimer
  := by
  obtain ⟨hname, htime, hcount, htimer⟩ := stoppedApp_fields d p s r
  rw [launchedApp, ← hname, ← htime, ← hcount, ← htimer]
  split
  · exact ⟨rfl, rfl, rfl, rfl⟩
  · exact ⟨rfl, rfl, (Int32.add_zero _).symm, rfl⟩

/-- What an event of an excluded package does. -/
theorem Loaded.listEffect_excluded (hs : s.Loaded d) (hp : d.excluded p = true)
    (kind : EventKind) :
  ListEffect d p kind s (LogService.handled d p kind s)
  := by
  have hhandled : LogService.handled d p kind s = LogService.saved d (LogService.stopFor d p s) := by
    rw [LogService.handled, hs.isExcluded, if_pos hp]
  have hget : ∀ r, (LogService.handled d p kind s).heap.get r = stoppedApp d p s r := by
    intro r
    rw [hhandled]
    exact get_stopFor d p s r
  have hfields := stoppedApp_fields d p s
  constructor
  · rw [hhandled, if_pos (Or.inl hp)]
    exact refs_stopFor d p s
  · rw [hhandled, if_pos hp]
    exact (list_stopFor d p s).2.2.1
  · intro r _
    rw [hget, (hfields r).1]
  · intro r _
    rw [hget, (hfields r).2.1]
  · intro r _
    rw [hget, (hfields r).2.2.1]
    simp [hp]
  · intro r _
    rw [hget, (hfields r).2.2.2]
    simp [hp]
  · intro hx
    rw [hp] at hx
    cases hx

/-- The parts of an event of a package that is not excluded. -/
theorem Loaded.handled_tracked (hs : s.Loaded d) (hp : d.excluded p = false) (kind : EventKind) :
  LogService.handled d p kind s = LogService.saved d
      (LogService.started d (LogService.brought p kind (LogService.stopFor d p s))) ∧
    (LogService.handled d p kind s).readings - 1
      = (LogService.brought p kind (LogService.stopFor d p s)).readings
  := by
  have hhandled : LogService.handled d p kind s = LogService.saved d
      (LogService.started d (LogService.brought p kind (LogService.stopFor d p s))) := by
    rw [LogService.handled, hs.isExcluded, if_neg (by rw [hp]; exact Bool.false_ne_true)]
  use hhandled
  rw [hhandled, readings_saved,
    readings_started (foreground_brought p kind (LogService.stopFor d p s)), Nat.add_sub_cancel]

theorem foreground_stopFor_brought (d : Device) (p : String) (kind : EventKind) (s : LogService) :
  (brought p kind (stopFor d p s)).mForegroundApp = some ((s.lookup p).getD s.heap.next)
  := by
  obtain ⟨-, hnext, -, hlookup⟩ := list_stopFor d p s
  rw [mForegroundApp_brought, hlookup, hnext]

/-- An entry after an event of a package that is not excluded. -/
theorem Loaded.get_tracked (hs : s.Loaded d) (hp : d.excluded p = false) (kind : EventKind)
    (hr : r ∈ s.refs) :
  (LogService.handled d p kind s).heap.get r
    = if s.lookup p = some r then
        (launchedApp d p kind s r).setTimer (d.clock ((LogService.handled d p kind s).readings - 1))
      else launchedApp d p kind s r
  := by
  obtain ⟨-, -, hfg, hlookup⟩ := list_stopFor d p s
  obtain ⟨hhandled, hreadings⟩ := hs.handled_tracked hp kind
  have hmem : r ∈ (LogService.stopFor d p s).refs := (refs_stopFor d p s).symm ▸ hr
  have hlaunches : LaunchesAt p kind (LogService.stopFor d p s) r ↔ LaunchesAt p kind s r := by
    rw [LaunchesAt, LaunchesAt, hlookup, hfg]
  have hforeground : (s.lookup p).getD s.heap.next = r ↔ s.lookup p = some r := by
    cases hl : s.lookup p with
    | none => simp [(hs.allocated r hr).ne']
    | some r' => simp
  rw [hreadings, hhandled]
  change (LogService.started d _).heap.get r = _
  rw [get_started, get_brought (hs.stopFor p) p kind hmem, get_stopFor]
  simp only [foreground_stopFor_brought, Option.some.injEq, hforeground, hlaunches, launchedApp,
    stoppedApp]

/-- The new entry after an event of a package that is not excluded and not in the list. -/
theorem Loaded.get_new (hs : s.Loaded d) (hp : d.excluded p = false) (kind : EventKind)
    (hnone : s.lookup p = none) :
  (LogService.handled d p kind s).heap.get s.heap.next
    = { App.new p with
        launchCount := 1, mTimer := d.clock ((LogService.handled d p kind s).readings - 1) }
  := by
  obtain ⟨-, hnext, -, hlookup⟩ := list_stopFor d p s
  obtain ⟨hhandled, hreadings⟩ := hs.handled_tracked hp kind
  have hforeground := foreground_stopFor_brought d p kind s
  rw [hnone, Option.getD_none] at hforeground
  have hnew : LogService.brought p kind (LogService.stopFor d p s)
      = (LogService.stopFor d p s).withNew p := by
    rcases brought_cases p kind (LogService.stopFor d p s) with ⟨-, heq⟩ | ⟨r, h, -⟩ | ⟨r, h, -⟩ |
      ⟨r, h, -⟩
    · exact heq
    · cases hnone.symm.trans ((hlookup p).symm.trans h)
    · cases hnone.symm.trans ((hlookup p).symm.trans h)
    · cases hnone.symm.trans ((hlookup p).symm.trans h)
  have hobject := get_withNew_next (s := LogService.stopFor d p s) p
  rw [← hnew, hnext] at hobject
  rw [hreadings, hhandled]
  change (LogService.started d _).heap.get s.heap.next = _
  rw [get_started, hforeground, if_pos rfl, hobject]
  simp [App.new, App.setTimer, App.incrementLaunchCount]

/-- What an event of a package that is not excluded does. -/
theorem Loaded.listEffect_tracked (hs : s.Loaded d) (hp : d.excluded p = false)
    (kind : EventKind) :
  ListEffect d p kind s (LogService.handled d p kind s)
  := by
  obtain ⟨-, hnext, -, hlookup⟩ := list_stopFor d p s
  obtain ⟨hhandled, -⟩ := hs.handled_tracked hp kind
  have hfields := launchedApp_fields d p kind s
  constructor
  · rw [hhandled]
    change (LogService.started d _).refs = _
    rw [refs, (list_started d _).1, ← refs, refs_brought, hlookup, refs_stopFor, hnext]
    simp [hp]
  · rw [hhandled]
    change (LogService.started d _).mForegroundApp = _
    rw [(list_started d _).2, foreground_stopFor_brought, hp, if_neg Bool.false_ne_true]
  · intro r hr
    rw [hs.get_tracked hp kind hr, ← (hfields r).1]
    split <;> rfl
  · intro r hr
    rw [hs.get_tracked hp kind hr, ← (hfields r).2.1]
    split <;> rfl
  · intro r hr
    simp only [hp, true_and]
    rw [hs.get_tracked hp kind hr, ← (hfields r).2.2.1]
    split <;> rfl
  · intro r hr
    simp only [hp, true_and]
    rw [hs.get_tracked hp kind hr, ← (hfields r).2.2.2]
    split <;> rfl
  · intro _ hnone
    apply hs.get_new hp kind hnone

/-- What an event does to the list and to its entries. -/
theorem Loaded.listEffect (hs : s.Loaded d) (p : String) (kind : EventKind) :
  ListEffect d p kind s (LogService.handled d p kind s)
  := by
  cases hp : d.excluded p with
  | true => apply hs.listEffect_excluded hp
  | false => apply hs.listEffect_tracked hp

/-- An entry of the list stays in the list. -/
theorem ListEffect.mem_refs {s' : LogService} (h : ListEffect d p kind s s') (hr : r ∈ s.refs) :
  r ∈ s'.refs
  := by
  rw [h.refs]
  split
  · apply hr
  · apply List.mem_append_left _ hr

/-- An entry of the list was there before, or it is new. -/
theorem ListEffect.mem_or_new {s' : LogService} (h : ListEffect d p kind s s')
    (hr : r ∈ s'.refs) :
  r ∈ s.refs ∨ (r = s.heap.next ∧ d.excluded p = false ∧ s.lookup p = none)
  := by
  rw [h.refs] at hr
  split at hr
  · left
    apply hr
  · rename_i hp
    obtain ⟨hx, hl⟩ := not_or.mp hp
    rcases List.mem_append.mp hr with hr | hr
    · left
      apply hr
    · right
      use List.mem_singleton.mp hr
      constructor
      · simpa using hx
      · simpa using hl

/-! ### Lookup and counts -/

variable {s' : LogService}

/-- An entry that is found is found again, and the new entry is found for its package. -/
theorem ListEffect.lookup (h : ListEffect d p kind s s') (q : String) :
  s'.lookup q = (s.lookup q).or
    (if q = p ∧ d.excluded p = false ∧ s.lookup p = none then some s.heap.next else none)
  := by
  have hold : s.refs.find? (fun r => decide ((s'.heap.get r).packageName = some q)) = s.lookup q := by
    apply List.find?_congr
    intro r hr
    rw [h.packageName r hr]
  rw [LogService.lookup, h.refs]
  split
  · rename_i hx
    have hnot : ¬ (q = p ∧ d.excluded p = false ∧ s.lookup p = none) := by
      rintro ⟨-, hp, hl⟩
      rcases hx with hx | hx
      · rw [hp] at hx
        cases hx
      · apply hx hl
    rw [hold, if_neg hnot, Option.or_none]
  · rename_i hx
    obtain ⟨hp, hl⟩ := not_or.mp hx
    have hp : d.excluded p = false := by simpa using hp
    have hl : s.lookup p = none := by simpa using hl
    rw [List.find?_append, hold, List.find?_singleton, h.new hp hl]
    by_cases hq : q = p
    · simp [hq, hp, hl, App.new]
    · simp [hq, Ne.symm hq, App.new]

/-- The list is loaded, and the foreground app is the entry that is found for its package. -/
structure Known (d : Device) (s : LogService) : Prop extends Loaded d s where
  found : ∀ f, s.mForegroundApp = some f → s.lookup (s.packageOf f) = some f

theorem Loaded.known (hs : s.Loaded d) (hidle : s.mForegroundApp = none) :
  s.Known d
  := { hs with
    found := by
      intro f hf
      cases hidle.symm.trans hf }

theorem Known.foregroundPackage_iff (hs : s.Known d) (hl : s.lookup p = some r) :
  s.foregroundPackage = some p ↔ s.mForegroundApp = some r
  := by
  cases hf : s.mForegroundApp with
  | none => simp [foregroundPackage, hf]
  | some f =>
      rw [foregroundPackage_of_foreground hf, Option.some.injEq, Option.some.injEq]
      constructor
      · intro hp
        have hfound := hs.found f hf
        rw [hp, hl] at hfound
        exact (Option.some.inj hfound).symm
      · rintro rfl
        apply packageOf_lookup hl

/-- The foreground app is found for its package. -/
theorem Known.foregroundPackage_ne (hs : s.Known d) (hl : s.lookup p = none) :
  s.foregroundPackage ≠ some p
  := by
  intro hp
  obtain ⟨f, hf, rfl⟩ := Option.map_eq_some_iff.mp hp
  cases hl.symm.trans (hs.found f hf)

/-- An event leaves the foreground app the entry that is found for its package. -/
theorem Known.handled (hs : s.Known d) (p : String) (kind : EventKind) :
  (LogService.handled d p kind s).Known d
  := by
  have h := hs.listEffect p kind
  have hold : ∀ {f q}, s.lookup q = some f →
      (LogService.handled d p kind s).lookup ((LogService.handled d p kind s).packageOf f) = some f := by
    intro f q hf
    have hmem := (lookup_eq_some hf).1
    rw [packageOf, h.packageName f hmem, ← packageOf, packageOf_lookup hf, h.lookup, hf, Option.some_or]
  refine { hs.toLoaded.handled p kind with found := ?_ }
  intro f hf
  rw [h.foreground] at hf
  split at hf
  · apply hold (hs.found f hf)
  · rename_i hp
    have hp : d.excluded p = false := by simpa using hp
    cases hl : s.lookup p with
    | some r =>
        rw [hl] at hf
        cases hf
        apply hold hl
    | none =>
        rw [hl] at hf
        cases hf
        rw [packageOf, Option.getD_none, h.new hp hl, h.lookup]
        simp [App.new, hl, hp]

theorem Known.handledAll (hs : s.Known d) (ls : List (EventLine d.offset)) :
  (LogService.handledAll d ls s).Known d
  := by
  induction ls generalizing s with
  | nil => apply hs
  | cons l ls ih => apply ih (hs.handled l.package l.kind)

theorem ListEffect.foregroundPackage (h : ListEffect d p kind s s') (hs : s.Loaded d) :
  s'.foregroundPackage = if d.excluded p then s.foregroundPackage else some p
  := by
  have hold : ∀ {f}, f ∈ s.refs → s'.packageOf f = s.packageOf f := by
    intro f hf
    rw [packageOf, h.packageName f hf, packageOf]
  rw [LogService.foregroundPackage, h.foreground]
  split
  · cases hf : s.mForegroundApp with
    | none => simp [LogService.foregroundPackage, hf]
    | some f =>
        rw [foregroundPackage_of_foreground hf, Option.map_some, hold (hs.foreground f hf)]
  · rename_i hp
    have hp : d.excluded p = false := by simpa using hp
    cases hl : s.lookup p with
    | some r =>
        rw [Option.getD_some, Option.map_some, hold (lookup_eq_some hl).1, packageOf_lookup hl]
    | none =>
        rw [Option.getD_none, Option.map_some, packageOf, h.new hp hl]
        rfl

/-- The launch that an event counts, by the packages. -/
theorem Known.launches_handled (hs : s.Known d) (p : String) (kind : EventKind) (q : String) :
  (LogService.handled d p kind s).launches q = s.launches q
    + if q = p ∧ d.excluded p = false ∧
        (p ∉ s.packages ∨ (s.foregroundPackage ≠ some p ∧ kind ≠ .resumed)) then 1 else 0
  := by
  have h := hs.listEffect p kind
  have hmem : p ∈ s.packages ↔ s.lookup p ≠ none := hs.mem_packages
  rw [launches, appOf, h.lookup, launches, appOf]
  cases hl : s.lookup q with
  | some r =>
      have hlaunches : d.excluded p = false ∧ LaunchesAt p kind s r ↔
          q = p ∧ d.excluded p = false ∧
            (p ∉ s.packages ∨ (s.foregroundPackage ≠ some p ∧ kind ≠ .resumed)) := by
        constructor
        · rintro ⟨hp, hlp, hf, hk⟩
          obtain rfl : q = p := (packageOf_lookup hl).symm.trans (packageOf_lookup hlp)
          refine ⟨rfl, hp, Or.inr ⟨?_, hk⟩⟩
          rw [Ne, hs.foregroundPackage_iff hlp]
          apply hf
        · rintro ⟨rfl, hp, hnew | ⟨hf, hk⟩⟩
          · exfalso
            apply hnew
            rw [hmem, hl]
            apply Option.some_ne_none
          · rw [Ne, hs.foregroundPackage_iff hl] at hf
            exact ⟨hp, hl, hf, hk⟩
      simp only [Option.some_or, Option.map_some, Option.getD_some]
      rw [h.launchCount r (lookup_eq_some hl).1]
      simp only [hlaunches]
  | none =>
      by_cases hnew : q = p ∧ d.excluded p = false
      · obtain ⟨rfl, hp⟩ := hnew
        have hobject := h.new hp hl
        simp [hl, hp, hmem, hobject]
      · have hnot : ¬ (q = p ∧ d.excluded p = false ∧ s.lookup p = none) := fun h => hnew ⟨h.1, h.2.1⟩
        have hnot' : ¬ (q = p ∧ d.excluded p = false ∧
            (p ∉ s.packages ∨ (s.foregroundPackage ≠ some p ∧ kind ≠ .resumed))) :=
          fun h => hnew ⟨h.1, h.2.1⟩
        rw [if_neg hnot, if_neg hnot']
        rfl

end LogService
