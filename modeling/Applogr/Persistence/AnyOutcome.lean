import Applogr.Concurrency.EarlyEvents
import Applogr.Core.Uninstalled
import Applogr.Persistence.Recovery
import Applogr.Service.Meaning

/-!
# Saves with any outcome

A save may fail, and leave the file as it was, or empty, or with a part of the text.  Whatever the
outcomes are, either there is no file, or no list is read from it, or it has the text of records with
distinct packages, which have been there before or have been recorded.  A service that is started with
such a file throws, or it has a list that is in order, or it has no list and none is read from the file.
-/

/-- The records have packages, which are distinct. -/
structure Orderly (rs : List Record) : Prop where
  named : Named rs
  distinct : (rs.map Record.packageName).Nodup

/-- The packages of the records are in the set `U`. -/
def Within (U : Set String) (rs : List Record) : Prop :=
  ∀ r ∈ rs, ∀ pkg, r.packageName = some pkg → pkg ∈ U

/-- There is no file, or no list is read from it, or it has the text of records that are in order and
have packages in `U`. -/
def FileInOrder (g : Gson) (U : Set String) : Option Text → Prop
  | none => True
  | some t => g.GivesNothing t ∨
      ∃ rs, Orderly rs ∧ Within U rs ∧ g.fromJson t = .ok (some (Document.ofRecords rs))

theorem orderly_nil : Orderly [] := ⟨by rintro a ⟨⟩, List.nodup_nil⟩

theorem within_nil {U : Set String} : Within U [] := by
  rintro r ⟨⟩

theorem Within.subset {U : Set String} {rs rs' : List Record} (h : Within U rs) (hsub : rs' ⊆ rs) :
  Within U rs'
  := fun r hr => h r (hsub hr)

theorem Orderly.subperm {rs rs' : List Record} (h : Orderly rs) (hsub : rs'.Subperm rs) :
  Orderly rs'
  := by
  constructor
  · intro a ha
    apply h.named a (hsub.subset ha)
  · obtain ⟨l, hperm, hl⟩ := hsub
    apply (hperm.map Record.packageName).nodup_iff.mp
    apply h.distinct.sublist (hl.map _)

theorem Orderly.perm {rs rs' : List Record} (h : Orderly rs) (hperm : rs'.Perm rs) :
  Orderly rs'
  := h.subperm hperm.subperm

variable {U : Set String}

/-- A part of the text of records that are in order. -/
theorem fileInOrder_of_prefix {g : Gson} (hg : g.Documented) {rs : List Record} (hrs : Orderly rs)
    (hU : Within U rs) {t : Text} (ht : t <+: g.toJson (Document.ofRecords rs)) :
  FileInOrder g U (some t)
  := by
  by_cases hfull : t = g.toJson (Document.ofRecords rs)
  · right
    use rs, hrs, hU
    rw [hfull]
    apply hg.restores
  · left
    apply hg.givesNothing ht hfull

/-- Whatever its outcome is, a save of records that are in order leaves the file in order. -/
theorem FileInOrder.writeFile {g : Gson} {file : Option Text} (hfile : FileInOrder g U file)
    (hg : g.Documented) {rs : List Record} (hrs : Orderly rs) (hU : Within U rs) (o : WriteOutcome) :
  FileInOrder g U (LogService.writeFile o file (some (g.toJson (Document.ofRecords rs))))
  := by
  rw [LogService.writeFile_text]
  cases o with
  | written => apply fileInOrder_of_prefix hg hrs hU (List.prefix_refl _)
  | createFails =>
      cases file with
      | none => trivial
      | some t => apply fileInOrder_of_prefix hg hrs hU (List.prefix_refl _)
  | openFails =>
      cases file with
      | none => apply fileInOrder_of_prefix hg hrs hU List.nil_prefix
      | some t => apply hfile
  | writeFails n => apply fileInOrder_of_prefix hg hrs hU (List.take_prefix n _)

/-! ### Loading records -/

namespace AppList

variable {sorter : Sorter} {info : String → Option ApplicationInfo} {heap : Heap App}
  {refs : List Ref}

/-- `setContext` throws an exception that is not caught on a list that it does not pass. -/
theorem setContext_of_not_passes
    (h : ¬ Passes (fun r => installed info (heap.get r) = true) refs) :
  ∃ t, setContext sorter info ⟨heap, ⟨some (refs.map some)⟩⟩ = .error .concurrentModification t
  := by
  obtain ⟨before, hbefore, rfl | ⟨r, rest, hr, rfl⟩⟩ := exists_installed info heap refs
  · exact absurd (Or.inl hbefore) h
  · have hset : setContext sorter info _ = _ :=
      setContext_uninstalled hbefore hr (not_mem_of_installed hbefore hr) (rest.map some)
    have hlen : ¬ (rest.map some).length = 1 := by
      rw [List.length_map, List.length_eq_one_iff]
      rintro ⟨last, rfl⟩
      apply h
      right
      exact ⟨before, r, last, rfl, hbefore, Bool.eq_false_iff.mp hr⟩
    rw [if_neg hlen] at hset
    rw [List.map_append]
    exact ⟨_, hset⟩

/-- The remaining entries are told their infos and sorted, if the sort accepts them. -/
theorem setContext_of_sorts (h : Passes (fun r => installed info (heap.get r) = true) refs)
    (hsort : accepts sorter (entries heap ((remaining info heap refs).map some)) = true) :
  ∃ refs' told : List Ref, refs'.Subperm refs ∧ setContext sorter info ⟨heap, ⟨some (refs.map some)⟩⟩
    = .ok () ⟨tellAll info heap told, ⟨some (refs'.map some)⟩⟩
  := by
  obtain ⟨told, hset⟩ := setContext_of_passes sorter h
  have htold : accepts sorter
      (entries (tellAll info heap told) ((remaining info heap refs).map some)) = true := by
    rw [entries_tellAll]
    apply hsort
  use sorted sorter (tellAll info heap told) (remaining info heap refs), told
  constructor
  · apply (sorted_perm _ _ _).subperm.trans (remaining_subperm refs)
  · rw [hset]
    apply resort_of_accepts htold

/-- If the sort does not accept the remaining entries, the exception is not caught. -/
theorem setContext_of_not_sorts (h : Passes (fun r => installed info (heap.get r) = true) refs)
    (hsort : ¬ accepts sorter (entries heap ((remaining info heap refs).map some)) = true) :
  ∃ t, setContext sorter info ⟨heap, ⟨some (refs.map some)⟩⟩ = .error .illegalArgument t
  := by
  obtain ⟨told, hset⟩ := setContext_of_passes sorter h
  have htold : accepts sorter
      (entries (tellAll info heap told) ((remaining info heap refs).map some)) = false := by
    rw [entries_tellAll]
    apply Bool.eq_false_iff.mpr hsort
  rw [hset, resort_of_refuses htold]
  exact ⟨_, rfl⟩

end AppList

namespace LogService

variable {d : Device} {s : LogService} {file : Option Text} {rs : List Record} {U : Set String}

/-- The records of a list that is in order are in order. -/
theorem Accounted.orderly (hs : s.Accounted d) :
  Orderly s.records
  := by
  constructor
  · apply hs.named_records
  · rw [← StartUp.packages_map_some hs.toLoaded]
    apply hs.distinct.map (Option.some_injective String)

/-- The packages of the records are those of the list. -/
theorem within_iff (hs : s.Loaded d) :
  Within U s.records ↔ ∀ pkg ∈ s.packages, pkg ∈ U
  := by
  constructor
  · intro h pkg hpkg
    have hname := List.mem_map_of_mem (f := some) hpkg
    rw [StartUp.packages_map_some hs] at hname
    obtain ⟨r, hr, hname⟩ := List.mem_map.mp hname
    apply h r hr pkg hname
  · intro h r hr pkg hpkg
    apply h pkg
    apply (List.mem_map_of_injective (Option.some_injective String)).mp
    rw [StartUp.packages_map_some hs, ← hpkg]
    apply List.mem_map_of_mem hr

/-- An event adds at most its package to the records. -/
theorem Loaded.within_handled (hs : s.Loaded d) (h : Within U s.records) {p : String}
    (hp : d.excluded p = false → p ∈ U) (kind : EventKind) :
  Within U (LogService.handled d p kind s).records
  := by
  apply (within_iff (hs.handled p kind)).mpr
  intro pkg hpkg
  rcases hs.mem_packages_handled p kind hpkg with hpkg | ⟨rfl, hx⟩
  · apply (within_iff hs).mp h pkg hpkg
  · apply hp hx

/-- A service without a foreground app is in order if its list has no nulls, and its records are in
order. -/
theorem Fresh.accounted (hs : s.Fresh d) (hl : s.mAppList = some ⟨some (s.refs.map some)⟩)
    (hrs : Orderly s.records) :
  s.Accounted d
  := by
  have hnamed : ∀ r ∈ s.refs, (s.heap.get r).packageName ≠ none := by
    intro r hr
    apply hrs.named _ (mem_records hr)
  apply (hs.ready hl hnamed _).accounted
  apply StartUp.nodup_packages (hs.loaded hl hnamed) (List.Perm.refl _) hrs.distinct

/-- The packages of the records are installed, up to a package at the next to last position. -/
def Loadable (info : String → Option ApplicationInfo) (rs : List Record) : Prop :=
  AppList.Passes (AppList.recordInstalled info) rs

/-- The list of the records is loaded: `setContext` passes it, and the sort accepts what is left. -/
def Startable (d : Device) (rs : List Record) : Prop :=
  Loadable d.applicationInfo rs ∧ d.Sorts (AppList.remainingRecords d.applicationInfo rs)

theorem loadable_iff (info : String → Option ApplicationInfo) (s : LogService) :
  Loadable info s.records
    ↔ AppList.Passes (fun r => AppList.installed info (s.heap.get r) = true) s.refs
  := by
  rw [Loadable, records, AppList.passes_map_iff]
  simp only [AppList.installed_iff]

/-- The service after the objects of a list of records have been created. -/
def withRecords (rs : List Record) (s : LogService) : LogService :=
  withDocument (Document.ofRecords rs) s

theorem list_withRecords (rs : List Record) (s : LogService) :
  (withRecords rs s).mAppList = some ⟨some ((withRecords rs s).refs.map some)⟩ ∧
    (withRecords rs s).records = rs
  := withDocument_records s rs

theorem loadable_withRecords (info : String → Option ApplicationInfo) (rs : List Record)
    (s : LogService) :
  Loadable info rs ↔ AppList.Passes
    (fun r => AppList.installed info ((withRecords rs s).heap.get r) = true) (withRecords rs s).refs
  := by
  have hiff := loadable_iff info (withRecords rs s)
  rw [(list_withRecords rs s).2] at hiff
  apply hiff

/-- What the loading does with the text of a list of records is what `setContext` does. -/
theorem loadList_withRecords (hf : s.mSaveFile = some applistFile) {t : Text}
    (ht : s.saveFile = some t) (hd : d.gson.fromJson t = .ok (some (Document.ofRecords rs))) :
  loadList d s = match setListContext d (withRecords rs s) with
    | .ok _ s'' => .ok () s''
    | .error e s'' => if isCaught e then .ok () (withoutList s'') else .error e s''
  := loadList_of_read (readList_of_document hf ht hd)

/-- The sort looks at the remaining records. -/
theorem sorts_withRecords (d : Device) (rs : List Record) (s : LogService) :
  d.Sorts (AppList.remainingRecords d.applicationInfo rs)
    ↔ AppList.accepts d.sorter (AppList.entries (withRecords rs s).heap
        ((AppList.remaining d.applicationInfo (withRecords rs s).heap (withRecords rs s).refs).map
          some)) = true
  := by
  have hrecords := (list_withRecords rs s).2
  rw [records] at hrecords
  rw [AppList.entries_remaining, hrecords, Device.Sorts]

/-- A list of records that are in order is loaded, up to at most one of them, if the packages are
installed up to one at the next to last position, and the sort accepts the others. -/
theorem Fresh.loadList_of_startable (hs : s.Fresh d) {t : Text} (ht : s.saveFile = some t)
    (hrs : Orderly rs) (hd : d.gson.fromJson t = .ok (some (Document.ofRecords rs)))
    (hload : Startable d rs) :
  ∃ s', loadList d s = .ok () s' ∧ s'.Accounted d ∧ s'.saveFile = s.saveFile ∧
    s'.mLogcat = s.mLogcat ∧ s'.records.Subperm rs
  := by
  let s₁ := withRecords rs s
  obtain ⟨hl, hrecords⟩ := list_withRecords rs s
  obtain ⟨refs, told, hsub, hset⟩ := AppList.setContext_of_sorts
    ((loadable_withRecords _ rs s).mp hload.1) ((sorts_withRecords d rs s).mp hload.2)
  let heap := AppList.tellAll d.applicationInfo s₁.heap told
  let s' := withApps ⟨heap, ⟨some (refs.map some)⟩⟩ s₁
  have hloaded : loadList d s = .ok () s' := by
    rw [loadList_withRecords hs.file ht hd, setListContext_of_ok hl hset]
  have hrefs : s'.refs = refs := refs_eq rfl
  have hrec : ∀ r, (s'.heap.get r).record = (s₁.heap.get r).record :=
    AppList.tellAll_field d.applicationInfo App.record (fun _ _ => rfl) s₁.heap told
  have hrecords' : s'.records.Subperm rs := by
    rw [← hrecords, records, records, hrefs]
    simp only [hrec]
    obtain ⟨l, hperm, hsub⟩ := hsub
    exact ⟨_, hperm.map _, hsub.map _⟩
  refine ⟨s', hloaded, ?_, rfl, rfl, hrecords'⟩
  apply ((keeps_loadList d).ok hs hloaded).accounted
  · rw [hrefs]
    rfl
  · apply hrs.subperm hrecords'

/-- In any other case the loading throws an exception that is not caught. -/
theorem Fresh.loadList_of_not_startable (hs : s.Fresh d) {t : Text} (ht : s.saveFile = some t)
    (hd : d.gson.fromJson t = .ok (some (Document.ofRecords rs))) (hload : ¬ Startable d rs) :
  ∃ e s', loadList d s = .error e s' ∧ s'.saveFile = s.saveFile
  := by
  have hl := (list_withRecords rs s).1
  have hthrows : ∃ e t', isCaught e = false ∧ AppList.setContext d.sorter d.applicationInfo
      ⟨(withRecords rs s).heap, ⟨some ((withRecords rs s).refs.map some)⟩⟩ = .error e t' := by
    by_cases hpasses : Loadable d.applicationInfo rs
    · have hsort : ¬ d.Sorts (AppList.remainingRecords d.applicationInfo rs) :=
        fun h => hload ⟨hpasses, h⟩
      obtain ⟨t', hset⟩ := AppList.setContext_of_not_sorts ((loadable_withRecords _ rs s).mp hpasses)
        (mt (sorts_withRecords d rs s).mpr hsort)
      use .illegalArgument, t', rfl
    · rw [loadable_withRecords _ rs s] at hpasses
      obtain ⟨t', hset⟩ := AppList.setContext_of_not_passes hpasses
      use .concurrentModification, t', rfl
  obtain ⟨e, t', he, hset⟩ := hthrows
  use e, withApps t' (withRecords rs s)
  constructor
  · rw [loadList_withRecords hs.file ht hd, setListContext_of_error hl hset]
    simp only [he, Bool.false_eq_true, if_false]
  · rfl

/-! ### Services without a list -/

/-- No text of a list is in the file. -/
def NoText (g : Gson) (file : Option Text) : Prop := ∃ t, file = some t ∧ g.GivesNothing t

/-- The service has no list, and none is read from its file. -/
structure Hollow (d : Device) (s : LogService) : Prop extends Fresh d s where
  list : s.mAppList = none
  nothing : NoText d.gson s.saveFile

theorem Hollow.saved (hs : s.Hollow d) :
  (LogService.saved d s).Hollow d ∧ (LogService.saved d s).saveFile = s.saveFile
  := by
  obtain ⟨t, ht, hd⟩ := hs.nothing
  have hfile := StartUp.saveFile_saved_none (d := d) hs.list ht
  constructor
  · refine { StartUp.fresh_saved hs.toFresh with list := hs.list, nothing := ?_ }
    use t
  · rw [hfile, ht]

theorem Fresh.isExcluded (hs : s.Fresh d) (packageName : String) :
  s.isExcluded packageName = d.excluded packageName
  := by
  simp [LogService.isExcluded, Device.excluded, hs.launcher]

/-- A service without a list throws at an event of a package that is not excluded, before it has
changed anything, and it handles the other lines. -/
theorem Hollow.onLineRead_meaning (hs : s.Hollow d) (read : String) :
  LogService.onLineRead d (some read) s = match meaning d.offset read with
    | .incomplete => .error .arrayIndexOutOfBounds s
    | .nothing => .ok () s
    | .event packageName _ =>
        if d.excluded packageName then .ok () (LogService.saved d s) else .error .nullPointer s
  := by
  rw [onLineRead_eq hs.pattern hs.offset]
  cases hm : meaning d.offset read with
  | incomplete => rfl
  | nothing => rfl
  | event packageName kind =>
      have hstop : stopPrevious d packageName s = .ok () s := by
        rw [stopPrevious, Java.bind_of_ok (Java.get_apply s), hs.idle]
        rfl
      simp only [onEvent]
      rw [Java.bind_of_ok (Java.get_apply s), Java.bind_of_ok hstop, hs.isExcluded]
      by_cases hx : d.excluded packageName = true
      · rw [hx]
        apply save_eq hs.file
      · rw [Bool.eq_false_iff.mpr hx]
        have hsearch : callAppList (AppList.hasPackage packageName) s = .error .nullPointer s := by
          rw [callAppList, Java.bind_of_ok (Java.get_apply s), hs.list]
          rfl
        apply Java.bind_of_error
        apply Java.bind_of_error hsearch

/-- Whatever the line is, a service without a list throws, or it stays as it is and does not change
the file. -/
theorem Hollow.onLineRead (hs : s.Hollow d) (read : String) :
  (∃ e, LogService.onLineRead d (some read) s = .error e s) ∨
    ∃ s', LogService.onLineRead d (some read) s = .ok () s' ∧ s'.Hollow d ∧
      s'.saveFile = s.saveFile ∧ s'.mLogcat = s.mLogcat ∧ s'.mRetval = s.mRetval
  := by
  rw [hs.onLineRead_meaning]
  cases meaning d.offset read with
  | incomplete =>
      left
      use .arrayIndexOutOfBounds
  | nothing =>
      right
      use s, rfl, hs
  | event packageName kind =>
      dsimp only
      split
      · right
        obtain ⟨hsaved, hfile⟩ := hs.saved
        exact ⟨LogService.saved d s, rfl, hsaved, hfile, rfl, rfl⟩
      · left
        use .nullPointer

/-! ### Services in order -/

/-- The file is in order, the service has a reader, and either its list is in order, or it has none.
The packages of the file and of the list are in `U`. -/
structure InOrder (d : Device) (U : Set String) (s : LogService) : Prop where
  file : FileInOrder d.gson U s.saveFile
  reader : s.mLogcat ≠ none
  list : (s.Accounted d ∧ Within U s.records) ∨ s.Hollow d

/-- A new list is in order. -/
theorem Fresh.accounted_new (hs : s.Fresh d) (hl : s.mAppList = some AppList.new) :
  s.Accounted d ∧ Within U s.records
  := by
  have hrefs : s.refs = [] := refs_eq hl
  have hrecords : s.records = [] := by
    rw [records, hrefs]
    rfl
  rw [hrecords]
  constructor
  · apply hs.accounted
    · rw [hrefs]
      apply hl
    · rw [hrecords]
      apply orderly_nil
  · apply within_nil

/-- Loading a text from which no list is read leaves a new list, or none. -/
theorem Fresh.loadList_of_nothing (hs : s.Fresh d)
    (hl : s.mAppList = none ∨ s.mAppList = some AppList.new) {t : Text} (ht : s.saveFile = some t)
    (hd : d.gson.GivesNothing t) :
  ∃ s', loadList d s = .ok () s' ∧ ((s'.Accounted d ∧ Within U s'.records) ∨ s'.Hollow d) ∧
    s'.saveFile = s.saveFile ∧ s'.mLogcat = s.mLogcat
  := by
  have hnothing : NoText d.gson s.saveFile := ⟨t, ht, hd⟩
  rcases hd with hd | ⟨e, hd⟩
  · have hload := loadList_of_null hs.file ht hd
    refine ⟨_, hload, ?_, rfl, rfl⟩
    right
    exact { (keeps_loadList d).ok hs hload with list := rfl, nothing := hnothing }
  · obtain ⟨e', he', hread⟩ := readList_malformed hs.file ht hd
    have hload := loadList_of_caught he' hread
    have hfresh := (keeps_loadList d).ok hs hload
    refine ⟨_, hload, ?_, rfl, rfl⟩
    rcases hl with hl | hl
    · right
      exact { hfresh with list := hl, nothing := hnothing }
    · left
      apply hfresh.accounted_new hl

/-- Loading a file that is in order leaves a service that is in order, or it throws and keeps the
file. -/
theorem Fresh.loadList_inOrder (hs : s.Fresh d)
    (hl : (s.mAppList = none ∧ s.saveFile ≠ none) ∨ s.mAppList = some AppList.new)
    (hreader : s.mLogcat ≠ none) (hfile : FileInOrder d.gson U s.saveFile) :
  (∃ s', loadList d s = .ok () s' ∧ s'.InOrder d U) ∨
    ∃ e s', loadList d s = .error e s' ∧ s'.saveFile = s.saveFile
  := by
  have hok : ∀ {s' : LogService}, (s'.Accounted d ∧ Within U s'.records) ∨ s'.Hollow d →
      s'.saveFile = s.saveFile → s'.mLogcat = s.mLogcat → s'.InOrder d U := by
    intro s' hlist hsave hlogcat
    constructor
    · rw [hsave]
      apply hfile
    · rw [hlogcat]
      apply hreader
    · apply hlist
  rcases ht : s.saveFile with _ | t
  · left
    have hload := loadList_of_caught rfl (readList_missing (d := d) hs.file ht)
    have hnew := hl.resolve_left (fun h => h.2 ht)
    refine ⟨_, hload, hok ?_ rfl rfl⟩
    left
    apply ((keeps_loadList d).ok hs hload).accounted_new hnew
  · have hfile' := hfile
    rw [ht] at hfile'
    rcases hfile' with hd | ⟨rs, hrs, hU, hd⟩
    · left
      obtain ⟨s', hload, hlist, hsave, hlogcat⟩ :=
        hs.loadList_of_nothing (hl.imp And.left id) ht hd
      exact ⟨s', hload, hok hlist hsave hlogcat⟩
    · by_cases hstart : Startable d rs
      · left
        obtain ⟨s', hload, hacc, hsave, hlogcat, hsub⟩ :=
          hs.loadList_of_startable ht hrs hd hstart
        exact ⟨s', hload, hok (Or.inl ⟨hacc, hU.subset hsub.subset⟩) hsave hlogcat⟩
      · right
        obtain ⟨e, s', hload, hsave⟩ := hs.loadList_of_not_startable ht hd hstart
        exact ⟨e, s', hload, hsave.trans ht⟩

/-- Before the file is loaded it is in order. -/
theorem fileBeforeLoad_inOrder (hg : d.gson.Documented) {file : Option Text}
    (hfile : FileInOrder d.gson U file) (m : ℕ) :
  FileInOrder d.gson U (fileBeforeLoad d m file)
  := by
  cases file with
  | some t => apply hfile
  | none =>
      rw [fileBeforeLoad]
      apply FileInOrder.writeFile _ hg orderly_nil within_nil
      apply FileInOrder.writeFile hfile hg orderly_nil within_nil

/-- A service that is started with a file in order is in order, or it throws and keeps the file. -/
theorem onCreate_inOrder (hg : d.gson.Documented) {file : Option Text}
    (hfile : FileInOrder d.gson U file) (n m : ℕ) :
  (∃ s, onCreate d (boot file n m) = .ok () s ∧ s.InOrder d U) ∨
    ∃ e s, onCreate d (boot file n m) = .error e s ∧ FileInOrder d.gson U s.saveFile
  := by
  have hbefore := fileBeforeLoad_inOrder hg hfile m
  have hlist : ((beforeLoad d file n m).mAppList = none ∧ (beforeLoad d file n m).saveFile ≠ none) ∨
      (beforeLoad d file n m).mAppList = some AppList.new := by
    cases file with
    | none =>
        right
        rfl
    | some t =>
        left
        exact ⟨rfl, Option.some_ne_none t⟩
  rw [onCreate_eq]
  rcases (Fresh.beforeLoad d file n m).loadList_inOrder hlist (Option.some_ne_none 0) hbefore with
    ⟨s, hload, hs⟩ | ⟨e, s, hload, hsave⟩
  · left
    use s, hload
  · right
    use e, s, hload
    rw [hsave]
    apply hbefore

end LogService
