import Applogr.Fragment.Resumed
import Applogr.Process.InOrder

/-!
# What is lost for ever

Two kinds of save files are never repaired.  If no list is read from the file, then every service
that is started later goes on without a list, and it ends at the next event that it should record.
If the file has a list with a package that is not installed, then every service and every page that
reads it ends, until the package is installed again.  The same holds while the sort does not accept the
launch counts of the list.
-/

namespace LauncherFragment

variable {d : Device} {page : LauncherFragment} {t : Text}

/-- A page shows an empty list if no list is read from the file. -/
theorem onResume_of_nothing (hpage : page.mSaveFile = some applistFile)
    (hd : d.gson.GivesNothing t) :
  ∃ page', onResume d (some t) page = .ok () page' ∧ page'.mAppList = some AppList.new
  := by
  obtain ⟨page', hrefresh, hl⟩ := refresh_of_nothing hpage hd
  have hlist : page'.mAppList = some ⟨some (([] : List Ref).map some)⟩ := hl
  have hgrid := populateGrid_of_infos hlist (by rintro r ⟨⟩)
  use { page' with heap := populated page'.heap [] }
  constructor
  · rw [onResume, Java.bind_of_ok hrefresh, hgrid]
  · apply hl

/-- The entries that a page creates for a list of records are passed if the records are. -/
theorem passes_restore (heap : Heap App) (info : String → Option ApplicationInfo)
    (rs : List Record) :
  LogService.Loadable info rs ↔ AppList.Passes (fun r => AppList.installed info
      ((AppList.restore heap (rs.map some)).1.get r) = true)
    (AppList.restore heap (rs.map some)).2.reduceOption
  := by
  have hrecords := AppList.restore_records heap rs
  have hmap := AppList.passes_map_iff (AppList.recordInstalled info)
    (fun r => ((AppList.restore heap (rs.map some)).1.get r).record)
    (AppList.restore heap (rs.map some)).2.reduceOption
  rw [hrecords] at hmap
  simp only [AppList.installed_iff]
  apply hmap

/-- A page throws if a package of the list is not installed, unless it is that of the next to last
entry. -/
theorem onResume_of_not_loadable (hpage : page.mSaveFile = some applistFile) {rs : List Record}
    (hd : d.gson.fromJson t = .ok (some (Document.ofRecords rs)))
    (hload : ¬ LogService.Loadable d.applicationInfo rs) :
  ∃ page', onResume d (some t) page = .error .concurrentModification page'
  := by
  rw [passes_restore page.heap] at hload
  obtain ⟨apps, hset⟩ := AppList.setContext_of_not_passes hload
  have hrefresh := refresh_of_document hpage hd
  rw [AppList.ofDocument_ofRecords, hset] at hrefresh
  use withApps apps page
  apply Java.bind_of_error hrefresh

/-- A page throws if the sort does not accept what is left of the list. -/
theorem onResume_of_not_sorts (hpage : page.mSaveFile = some applistFile) {rs : List Record}
    (hd : d.gson.fromJson t = .ok (some (Document.ofRecords rs)))
    (hload : LogService.Loadable d.applicationInfo rs)
    (hsort : ¬ d.Sorts (AppList.remainingRecords d.applicationInfo rs)) :
  ∃ page', onResume d (some t) page = .error .illegalArgument page'
  := by
  rw [passes_restore page.heap] at hload
  have hentries := AppList.entries_remaining d.applicationInfo
    (AppList.restore page.heap (rs.map some)).1
    (AppList.restore page.heap (rs.map some)).2.reduceOption
  rw [AppList.restore_records] at hentries
  rw [Device.Sorts, ← hentries] at hsort
  obtain ⟨apps, hset⟩ := AppList.setContext_of_not_sorts hload hsort
  have hrefresh := refresh_of_document hpage hd
  rw [AppList.ofDocument_ofRecords, hset] at hrefresh
  use withApps apps page
  apply Java.bind_of_error hrefresh

end LauncherFragment

namespace Process

variable {d : Device} {p : Process} {t : Text}

/-! ### Files without a list -/

/-- The process has a file from which no list is read, and if the service runs, it has no list and
has told the system not to start it again. -/
def Lost (d : Device) (t : Text) : Process → Prop
  | ended file _ _ => file = some t
  | running s => s.Hollow d ∧ s.mLogcat ≠ none ∧ s.saveFile = some t ∧ s.mRetval = .notSticky

theorem Lost.saveFile (hp : p.Lost d t) :
  p.saveFile = some t
  := by
  cases p with
  | ended file n m => apply hp
  | running s => apply hp.2.2.1

theorem Lost.withPackages (info : String → Option ApplicationInfo) :
  p.Lost (d.withPackages info) t ↔ p.Lost d t
  := by
  cases p with
  | ended file n m => exact Iff.rfl
  | running s =>
      constructor
      · rintro ⟨hs, h⟩
        exact ⟨{ hs with }, h⟩
      · rintro ⟨hs, h⟩
        exact ⟨{ hs with }, h⟩

/-- A service that is started with a file from which no list is read has no list. -/
theorem lost_onCreate (hd : d.gson.GivesNothing t) (n m : ℕ) :
  (after (LogService.onCreate d (LogService.boot (some t) n m))).Lost d t
  := by
  have hcreate : LogService.onCreate d (LogService.boot (some t) n m)
      = .ok () (LogService.withoutList (LogService.beforeLoad d (some t) n m)) := by
    rw [LogService.onCreate_eq]
    apply LogService.loadList_of_nothing rfl rfl rfl hd
  rw [hcreate]
  refine ⟨?_, Option.some_ne_none 0, rfl, rfl⟩
  exact { LogService.Fresh.onCreate hcreate with list := rfl, nothing := ⟨t, rfl, hd⟩ }

/-- A process that is killed while the service is started leaves a file that exists as it was. -/
theorem saveFile_startKilled (d : Device) (t : Text) (n m k : ℕ) :
  (step d (ended (some t) n m) (.startKilled k)).saveFile = some t
  := by
  rcases (saveFile_execute d (some t) n m k).2 with h | ⟨h, -⟩ | h
  · apply h
  · cases h
  · apply h

theorem Lost.step (hp : p.Lost d t) (hd : d.gson.GivesNothing t) (a : Action) :
  (Process.step d p a).Lost d t
  := by
  cases a with
  | start =>
      cases p with
      | ended file n m =>
          obtain rfl : file = some t := hp
          apply lost_onCreate hd
      | running s => apply hp
  | startKilled k =>
      cases p with
      | ended file n m =>
          obtain rfl : file = some t := hp
          apply saveFile_startKilled
      | running s => apply hp
  | read line =>
      cases p with
      | ended file n m => apply hp
      | running s =>
          obtain ⟨hs, hreader, hfile, hretval⟩ := hp
          cases line with
          | none =>
              obtain ⟨b, hb⟩ := Option.ne_none_iff_exists'.mp hreader
              rw [Process.step, LogService.onLineRead_none hb]
              exact ⟨{ hs with }, Option.some_ne_none _, hfile, hretval⟩
          | some read =>
              rw [Process.step]
              rcases hs.onLineRead read with ⟨e, h⟩ | ⟨s', h, hs', hsave, hlogcat, hretval'⟩
              · rw [h]
                apply hfile
              · rw [h]
                exact ⟨hs', hlogcat ▸ hreader, hsave.trans hfile, hretval'.trans hretval⟩
  | kill =>
      rw [step_kill]
      apply hp.saveFile
  | resume page =>
      rcases step_resume_cases d p page with ⟨page', -, h⟩ | ⟨e, page', -, h⟩
      · rw [h]
        apply hp
      · rw [h]
        apply hp.saveFile

theorem Lost.run (hp : p.Lost d t) (hd : d.gson.GivesNothing t) (ms : List Moment) :
  (Process.run d ms p).Lost d t
  := by
  have hms : ∀ m ∈ ms, True := fun _ _ => trivial
  apply run_invariant hms _ hp
  intro p m _ hp
  apply (Lost.withPackages m.applicationInfo).mp
  apply Lost.step (d := d.withPackages m.applicationInfo) _ hd
  apply (Lost.withPackages m.applicationInfo).mpr hp

/-- Once the process has ended with a file from which no list is read, as it is left by a save that
has been cut off, everything is lost for ever.  The file never changes, no service has a list, every
service tells the system not to start it again and ends at the first event that it should record, and
every page shows an empty list. -/
theorem lost_forever (ht : p.saveFile = some t) (hd : d.gson.GivesNothing t) (ms : List Moment) :
  (run d ms p.killed).saveFile = some t ∧
    (∀ s, run d ms p.killed = running s → s.mAppList = none ∧
      LogService.onStartCommand s = .ok .notSticky s ∧
      ∀ l : EventLine d.offset, d.excluded l.package = false →
        step d (running s) (.read (some l.text)) = ended (some t) s.readings s.saves) ∧
    ∀ (info : String → Option ApplicationInfo) (page : LauncherFragment),
      page.mSaveFile = some applistFile → ∃ page',
        LauncherFragment.onResume (d.withPackages info) (some t) page = .ok () page' ∧
          page'.mAppList = some AppList.new
  := by
  have hp : p.killed.Lost d t := ht
  have hrun := hp.run hd ms
  refine ⟨hrun.saveFile, ?_, ?_⟩
  · intro s hs
    rw [hs] at hrun
    obtain ⟨hs, -, hfile, hretval⟩ := hrun
    refine ⟨hs.list, ?_, ?_⟩
    · rw [LogService.onStartCommand, Java.bind_apply, Java.get_apply]
      simp only [hretval, Java.pure_apply]
    · intro l hl
      rw [step, hs.onLineRead_meaning, meaning_eventLine]
      simp only [hl, Bool.false_eq_true, if_false, after, killed, Process.saveFile, readings, saves,
        hfile]
  · intro info page hpage
    apply LauncherFragment.onResume_of_nothing (d := d.withPackages info) hpage hd

/-- A process whose last save has been cut off at once. -/
def cutOff : Process := ended (some []) 0 2

theorem lost_forever_cutOff :
  (run (phone [] tick) (startedTwice []) cutOff.killed).saveFile = some []
  := by
  have hd : Json.gson.GivesNothing [] := Or.inl Json.gson_documented.fromJson_empty
  apply (lost_forever (d := phone [] tick) (p := cutOff) rfl hd (startedTwice [])).1

/-! ### Files that cannot be loaded -/

/-- If the list cannot be loaded, every service throws when it is started, before it has changed the
file. -/
theorem step_start_not_startable {rs : List Record}
    (hd : d.gson.fromJson t = .ok (some (Document.ofRecords rs)))
    (hload : ¬ LogService.Startable d rs) (n m : ℕ) :
  ∃ n' m', step d (ended (some t) n m) .start = ended (some t) n' m'
  := by
  obtain ⟨e, s, hthrow, hfile⟩ :=
    (LogService.Fresh.beforeLoad d (some t) n m).loadList_of_not_startable rfl hd hload
  use s.readings, s.saves
  rw [step, LogService.onCreate_eq, hthrow]
  simp only [after, killed, saveFile, readings, saves, hfile]
  rfl

/-- Otherwise a service is started. -/
theorem step_start_startable {rs : List Record} (hrs : Orderly rs)
    (hd : d.gson.fromJson t = .ok (some (Document.ofRecords rs)))
    (hload : LogService.Startable d rs) (n m : ℕ) :
  ∃ s, step d (ended (some t) n m) .start = running s ∧ s.Accounted d ∧ s.records.Subperm rs
  := by
  obtain ⟨s, hs, hacc, -, -, hsub⟩ :=
    (LogService.Fresh.beforeLoad d (some t) n m).loadList_of_startable rfl hrs hd hload
  use s
  rw [step, LogService.onCreate_eq, hs]
  exact ⟨rfl, hacc, hsub⟩

/-- The other actions do not change a process that has ended, up to the numbers of its readings and
saves. -/
theorem step_ended (d : Device) (t : Text) (n m : ℕ) {a : Action} (ha : a ≠ .start) :
  ∃ n' m', step d (ended (some t) n m) a = ended (some t) n' m'
  := by
  cases a with
  | start => exact absurd rfl ha
  | startKilled k =>
      have hfile := saveFile_startKilled d t n m k
      rw [step] at hfile ⊢
      exact ⟨_, _, congrArg (fun file => ended file _ _) hfile⟩
  | read line => exact ⟨n, m, rfl⟩
  | kill => exact ⟨n, m, rfl⟩
  | resume page =>
      use n, m
      rcases step_resume_cases d (ended (some t) n m) page with ⟨page', -, h⟩ | ⟨e, page', -, h⟩
      · apply h
      · apply h

/-- While the list in the file cannot be loaded, the process has ended and the file is kept. -/
theorem run_not_startable {rs : List Record}
    (hd : d.gson.fromJson t = .ok (some (Document.ofRecords rs))) {ms : List Moment}
    (hms : ∀ m ∈ ms, m.action = .start →
      ¬ LogService.Startable (d.withPackages m.applicationInfo) rs) (n m : ℕ) :
  ∃ n' m', run d ms (ended (some t) n m) = ended (some t) n' m'
  := by
  refine run_invariant (I := fun p => ∃ n m, p = ended (some t) n m) hms ?_ ⟨n, m, rfl⟩
  rintro _ m hm ⟨n, k, rfl⟩
  by_cases ha : m.action = .start
  · rw [ha]
    apply step_start_not_startable (d := d.withPackages m.applicationInfo) hd (hm ha)
  · apply step_ended _ t n k ha

/-- As long as a package of the list in the file is not installed, unless it is that of the next to
last entry, or the sort does not accept what is left of the list, the service ends whenever it is
started, and so does every page that is shown, but the file is kept.  When the packages are installed
again and the sort accepts the list, the service is started with it. -/
theorem ends_until_loadable {rs : List Record} (hrs : Orderly rs)
    (hd : d.gson.fromJson t = .ok (some (Document.ofRecords rs))) {ms : List Moment}
    (hms : ∀ m ∈ ms, m.action = .start →
      ¬ LogService.Startable (d.withPackages m.applicationInfo) rs) (n m : ℕ) :
  ∃ n' m', run d ms (ended (some t) n m) = ended (some t) n' m' ∧
    ∀ info : String → Option ApplicationInfo,
      (LogService.Startable (d.withPackages info) rs → ∃ s,
        step (d.withPackages info) (ended (some t) n' m') .start = running s ∧ s.Accounted d ∧
          s.records.Subperm rs) ∧
      ∀ page : LauncherFragment, page.mSaveFile = some applistFile →
        (¬ LogService.Loadable info rs → ∃ page',
          LauncherFragment.onResume (d.withPackages info) (some t) page
            = .error .concurrentModification page') ∧
        (LogService.Loadable info rs → ¬ LogService.Startable (d.withPackages info) rs → ∃ page',
          LauncherFragment.onResume (d.withPackages info) (some t) page
            = .error .illegalArgument page')
  := by
  obtain ⟨n', m', h⟩ := run_not_startable hd hms n m
  refine ⟨n', m', h, ?_⟩
  intro info
  constructor
  · intro hload
    obtain ⟨s, hs, hacc, hsub⟩ := step_start_startable (d := d.withPackages info) hrs hd hload n' m'
    exact ⟨s, hs, { hacc with }, hsub⟩
  · intro page hpage
    constructor
    · intro hload
      apply LauncherFragment.onResume_of_not_loadable (d := d.withPackages info) hpage hd hload
    · intro hload hstart
      apply LauncherFragment.onResume_of_not_sorts (d := d.withPackages info) hpage hd hload
      intro hsort
      exact hstart ⟨hload, hsort⟩

/-- A list with the package of an application that has been uninstalled. -/
def goneRecords : List Record := [⟨some "com.example", 5, 1⟩]

theorem orderly_goneRecords :
  Orderly goneRecords
  := by
  constructor
  · intro r hr hnone
    rw [List.mem_singleton.mp hr] at hnone
    cases hnone
  · apply List.nodup_singleton

/-- The service is started twice without the application. -/
theorem ends_until_loadable_goneRecords :
  ∃ n m, run (phone [] tick) [⟨fun _ => none, .start⟩, ⟨fun _ => none, .start⟩]
      (ended (some (Json.gson.toJson (Document.ofRecords goneRecords))) 0 0)
    = ended (some (Json.gson.toJson (Document.ofRecords goneRecords))) n m
  := by
  have hd : LogService.Holds (phone [] tick)
      (some (Json.gson.toJson (Document.ofRecords goneRecords))) goneRecords :=
    LogService.holds_toJson Json.gson_documented goneRecords
  have hgone : ¬ LogService.Loadable (fun _ => none) goneRecords := by
    rintro (h | ⟨before, a, last, h, -⟩)
    · apply h _ List.mem_cons_self "com.example" rfl rfl
    · have hlen := congrArg List.length h
      simp [goneRecords] at hlen
  have hms : ∀ m ∈ ([⟨fun _ => none, .start⟩, ⟨fun _ => none, .start⟩] : List Moment),
      m.action = .start →
      ¬ LogService.Startable ((phone [] tick).withPackages m.applicationInfo) goneRecords := by
    rintro m hm - ⟨hload, -⟩
    rcases List.mem_pair.mp hm with rfl | rfl
    · apply hgone hload
    · apply hgone hload
  obtain ⟨n, m, h, -⟩ := ends_until_loadable (d := phone [] tick)
    (t := Json.gson.toJson (Document.ofRecords goneRecords)) orderly_goneRecords hd hms 0 0
  use n, m

end Process
