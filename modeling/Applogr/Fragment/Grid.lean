import Applogr.Foundation.TimeUnit
import Applogr.Fragment.LauncherFragment

/-!
# The grid of a page

`populateGrid` gives each entry of the list the texts that the page shows for it, and the adapter of
the grid asks for the views of the entries by their positions.  The pages `LauncherFragment` and
`TopFragment` have the same methods.
-/

namespace AppEntry

/-- `AppEntry(parent, inflater)`, with the texts of the layout. -/
def new : AppEntry :=
  { mTitle := "Test App", mCount := "321 uses", mTime := "5 hours 31 minutes" }

/-- `setTitle(title)` -/
def setTitle (title : String) (entry : AppEntry) : AppEntry := { entry with mTitle := title }

/-- `setCount(count)` -/
def setCount (count : String) (entry : AppEntry) : AppEntry := { entry with mCount := count }

/-- `setTime(time)` -/
def setTime (time : String) (entry : AppEntry) : AppEntry := { entry with mTime := time }

end AppEntry

namespace App

/-- `setAppEntry(entry)` -/
def setAppEntry (entry : AppEntry) (app : App) : App := { app with mEntry := some entry }

/-- A method of the entry of the application. -/
def updateEntry (f : AppEntry → AppEntry) (app : App) : App := { app with mEntry := app.mEntry.map f }

end App

namespace LauncherFragment

/-- The text of a launch count. -/
def countText (count : Int32) : String :=
  if count = 1 then "1 launch" else toString count ++ " launches"

/-- The text of a time in milliseconds. -/
def timeText (time : Int64) : String :=
  if time < (1000 * 60 : Int32).toInt64 then
    toString (TimeUnit.millisecondsToSeconds time) ++ " s"
  else if time < (1000 * 60 * 60 : Int32).toInt64 then
    toString (TimeUnit.millisecondsToMinutes time) ++ " m " ++
      toString (TimeUnit.millisecondsToSeconds time -
        TimeUnit.minutesToSeconds (TimeUnit.millisecondsToMinutes time)) ++ " s"
  else
    toString (TimeUnit.millisecondsToHours time) ++ " hr " ++
      toString (TimeUnit.millisecondsToMinutes time -
        TimeUnit.hoursToMinutes (TimeUnit.millisecondsToHours time)) ++ " m"

/-- Changing an object of the process. -/
def update (r : Ref) (f : App → App) : Java LauncherFragment Unit :=
  modify (fun s => { s with heap := s.heap.modify r f })

/-- The body of the loop of `populateGrid`, without the icon and the listener of the view. -/
def populateEntry (app : Option Ref) : Java LauncherFragment Unit := do
  let r ← Java.deref app
  update r (App.setAppEntry AppEntry.new)
  let info ← Java.deref ((← get).heap.get r).mInfo
  update r (App.updateEntry (AppEntry.setTitle info.label))
  let count := ((← get).heap.get r).launchCount
  update r (App.updateEntry (AppEntry.setCount (countText count)))
  let time := ((← get).heap.get r).timeUsedMs
  update r (App.updateEntry (AppEntry.setTime (timeText time)))

/-- The loop of `populateGrid`. -/
def populateLoop : List (Option Ref) → Java LauncherFragment Unit
  | [] => pure ()
  | app :: apps => do
      populateEntry app
      populateLoop apps

/-- `mAppList.getApps()`, when the list is iterated over or asked for its size. -/
def getApps : Java LauncherFragment (List (Option Ref)) := do
  let l ← Java.deref (← get).mAppList
  Java.deref l.apps

/-- `populateGrid()` -/
def populateGrid : Java LauncherFragment Unit := do
  populateLoop (← getApps)

/-- What `onResume` does with the list, when the content of the save file is `file`. -/
def onResume (d : Device) (file : Option Text) : Java LauncherFragment Unit := do
  refresh d file
  populateGrid

/-! ### The adapter of the grid -/

/-- `getCount()` -/
def getCount : Java LauncherFragment ℕ := do
  pure (← getApps).length

/-- The loop of `getItem`. -/
def getItemLoop (position : ℕ) : ℕ → List (Option Ref) → Option Ref
  | _, [] => none
  | i, app :: apps => if position = i then app else getItemLoop position (i + 1) apps

/-- `getItem(position)` -/
def getItem (position : ℕ) : Java LauncherFragment (Option Ref) := do
  pure (getItemLoop position 0 (← getApps))

/-- `getView(position, convertView, parent)`: the entry, whose view is shown. -/
def getView (position : ℕ) : Java LauncherFragment AppEntry := do
  let r ← Java.deref (← getItem position)
  Java.deref ((← get).heap.get r).mEntry

theorem getItemLoop_eq (position i : ℕ) (apps : List (Option Ref)) :
  getItemLoop (i + position) i apps = apps[position]?.join
  := by
  induction apps generalizing position i with
  | nil => rfl
  | cons app apps ih =>
      cases position with
      | zero => simp [getItemLoop]
      | succ position =>
          have ih := ih position (i + 1)
          rw [Nat.add_right_comm, Nat.add_assoc] at ih
          simpa [getItemLoop] using ih

/-! ### The texts of the entries -/

/-- The entry that is shown for an application. -/
def entryOf (app : App) (info : ApplicationInfo) : AppEntry :=
  { mTitle := info.label, mCount := countText app.launchCount, mTime := timeText app.timeUsedMs }

/-- The application with the entry that is shown for it. -/
def withEntry (app : App) : App := { app with mEntry := app.mInfo.map (entryOf app) }

/-- The objects with the entries that are shown for some of them. -/
def populated (heap : Heap App) (refs : List Ref) : Heap App :=
  refs.foldl (fun h r => h.modify r withEntry) heap

theorem get_populated (heap : Heap App) (refs : List Ref) (r : Ref) :
  (populated heap refs).get r = if r ∈ refs then withEntry (heap.get r) else heap.get r
  := heap.get_foldl_modify (f := withEntry) (fun _ => rfl) refs r

/-- The entries are all that changes. -/
theorem mInfo_modify (heap : Heap App) (r r' : Ref) :
  ((heap.modify r withEntry).get r').mInfo = (heap.get r').mInfo
  := heap.get_modify_field App.mInfo (f := withEntry) (fun _ => rfl) r r'

/-! ### The loop of `populateGrid` -/

variable {s : LauncherFragment} {r : Ref}

theorem populateEntry_of_info (hinfo : (s.heap.get r).mInfo ≠ none) :
  populateEntry (some r) s = .ok () { s with heap := s.heap.modify r withEntry }
  := by
  obtain ⟨info, hinfo⟩ := Option.ne_none_iff_exists'.mp hinfo
  have hentry : withEntry (s.heap.get r)
      = { s.heap.get r with mEntry := some (entryOf (s.heap.get r) info) } := by
    simp only [withEntry, hinfo, Option.map_some]
  simp only [populateEntry, update, Java.bind_apply, Java.deref_some, Java.pure_apply,
    Java.modify_apply, Java.get_apply, Heap.get_modify_self, App.setAppEntry, hinfo,
    Heap.modify_modify]
  congr 2
  apply Heap.modify_congr
  rw [hentry]
  rfl

/-- The loop throws at an entry that has no info. -/
theorem populateEntry_of_none (hinfo : (s.heap.get r).mInfo = none) :
  populateEntry (some r) s
    = .error .nullPointer { s with heap := s.heap.modify r (App.setAppEntry AppEntry.new) }
  := by
  simp only [populateEntry, update, Java.bind_apply, Java.deref_some, Java.pure_apply,
    Java.modify_apply, Java.get_apply, Heap.get_modify_self, App.setAppEntry, hinfo]
  rfl

theorem populateLoop_of_infos {refs : List Ref} (h : ∀ r ∈ refs, (s.heap.get r).mInfo ≠ none) :
  populateLoop (refs.map some) s = .ok () { s with heap := populated s.heap refs }
  := by
  induction refs generalizing s with
  | nil => rfl
  | cons r refs ih =>
      have hr := populateEntry_of_info (h r List.mem_cons_self)
      rw [List.map_cons, populateLoop, Java.bind_of_ok hr]
      apply ih
      intro r' hr'
      simp only [mInfo_modify]
      apply h r' (List.mem_cons_of_mem _ hr')

/-- The loop throws if an entry is null or has no info. -/
theorem populateLoop_throws {apps : List (Option Ref)}
    (h : ∃ app ∈ apps, ∀ r, app = some r → (s.heap.get r).mInfo = none) :
  ∃ s', populateLoop apps s = .error .nullPointer s'
  := by
  induction apps generalizing s with
  | nil =>
      obtain ⟨app, happ, -⟩ := h
      cases happ
  | cons app apps ih =>
      cases app with
      | none => exact ⟨s, rfl⟩
      | some r =>
          by_cases hr : (s.heap.get r).mInfo = none
          · use { s with heap := s.heap.modify r (App.setAppEntry AppEntry.new) }
            rw [populateLoop, Java.bind_of_error (populateEntry_of_none hr)]
          · obtain ⟨app', happ', hnone⟩ := h
            rw [populateLoop, Java.bind_of_ok (populateEntry_of_info hr)]
            apply ih
            use app'
            constructor
            · apply (List.mem_cons.mp happ').resolve_left
              rintro rfl
              apply hr (hnone r rfl)
            · intro r' hr'
              simp only [mInfo_modify]
              apply hnone r' hr'

/-! ### The list of a page -/

variable {refs : List Ref}

theorem getApps_of_list {apps : List (Option Ref)} (hl : s.mAppList = some ⟨some apps⟩) :
  getApps s = .ok apps s
  := by
  simp only [getApps, Java.bind_apply, Java.get_apply, hl, Java.deref_some, Java.pure_apply]

theorem refs_of_list (hl : s.mAppList = some ⟨some (refs.map some)⟩) :
  s.refs = refs
  := by
  rw [LauncherFragment.refs, hl]
  apply reduceOption_map_some

theorem populateGrid_of_infos (hl : s.mAppList = some ⟨some (refs.map some)⟩)
    (hinfo : ∀ r ∈ refs, (s.heap.get r).mInfo ≠ none) :
  populateGrid s = .ok () { s with heap := populated s.heap refs }
  := by
  rw [populateGrid, Java.bind_of_ok (getApps_of_list hl)]
  apply populateLoop_of_infos hinfo

theorem populateGrid_throws {apps : List (Option Ref)} (hl : s.mAppList = some ⟨some apps⟩)
    (h : ∃ app ∈ apps, ∀ r, app = some r → (s.heap.get r).mInfo = none) :
  ∃ s', populateGrid s = .error .nullPointer s'
  := by
  rw [populateGrid, Java.bind_of_ok (getApps_of_list hl)]
  apply populateLoop_throws h

/-- When `populateGrid` returns, the page has a list of applications with infos. -/
theorem populateGrid_returns {s' : LauncherFragment} (h : populateGrid s = .ok () s') :
  s.mAppList = some ⟨some (s.refs.map some)⟩ ∧ (∀ r ∈ s.refs, (s.heap.get r).mInfo ≠ none) ∧
    s' = { s with heap := populated s.heap s.refs }
  := by
  rcases hl : s.mAppList with _ | ⟨_ | apps⟩
  · simp only [populateGrid, getApps, Java.bind_apply, Java.get_apply, hl, Java.deref_none,
      Java.throw_apply, reduceCtorEq] at h
  · simp only [populateGrid, getApps, Java.bind_apply, Java.get_apply, hl, Java.deref_some,
      Java.pure_apply, Java.deref_none, Java.throw_apply, reduceCtorEq] at h
  · have hinfos : ∀ app ∈ apps, ∃ r, app = some r ∧ (s.heap.get r).mInfo ≠ none := by
      by_contra hthrows
      push Not at hthrows
      obtain ⟨s₂, hs₂⟩ := populateGrid_throws hl hthrows
      cases Eq.trans hs₂.symm h
    obtain ⟨refs, rfl⟩ | hnull := exists_values_or_null apps
    · have hinfo : ∀ r ∈ refs, (s.heap.get r).mInfo ≠ none := by
        intro r hr
        obtain ⟨_, ⟨⟩, h⟩ := hinfos (some r) (List.mem_map_of_mem hr)
        apply h
      rw [populateGrid_of_infos hl hinfo] at h
      cases h
      rw [refs_of_list hl, hl]
      exact ⟨rfl, hinfo, rfl⟩
    · obtain ⟨_, ⟨⟩, -⟩ := hinfos none hnull

end LauncherFragment

/-! ### The other page -/

/-- The page `TopFragment`, which has the same fields, and a session that these methods do not
use. -/
abbrev TopFragment : Type := LauncherFragment

namespace TopFragment

/-- `refresh()` -/
def refresh (d : Device) (file : Option Text) : Java TopFragment Unit :=
  LauncherFragment.refresh d file

/-- `populateGrid()` -/
def populateGrid : Java TopFragment Unit := LauncherFragment.populateGrid

/-- What `onResume` does with the list. -/
def onResume (d : Device) (file : Option Text) : Java TopFragment Unit := do
  refresh d file
  populateGrid

end TopFragment
