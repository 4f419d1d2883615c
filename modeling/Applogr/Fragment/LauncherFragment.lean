import Applogr.Service.LogService

/-!
# The launcher page

`LauncherFragment` shows the list that is in the save file.  It runs in the process of the
activity, with objects of its own, and reads the file anew whenever the page is shown.
-/

/-- The fields of the page, and the objects `App` of its process. -/
structure LauncherFragment where
  heap : Heap App
  mAppList : Option AppList
  mSaveFile : Option File

namespace LauncherFragment

/-- A page that has been created, before it has read the file. -/
def new : LauncherFragment :=
  { heap := Heap.empty, mAppList := some AppList.new, mSaveFile := some applistFile }

/-- `mAppList = new AppList()` -/
def newList : Java LauncherFragment Unit :=
  modify (fun s => { s with mAppList := some AppList.new })

/-- `mAppList = mJson.fromJson(new FileReader(mSaveFile), AppList.class)`, when the content of
the save file is `file`. -/
def readList (d : Device) (file : Option Text) : Java LauncherFragment Unit := do
  let _ ← Java.deref (← get).mSaveFile
  match file with
  | none => throw .fileNotFound
  | some text =>
      match d.gson.fromJson text with
      | .error .syntaxError => throw .jsonSyntax
      | .error .ioError => throw .jsonIo
      | .ok none => modify (fun s => { s with mAppList := none })
      | .ok (some doc) =>
          modify (fun s =>
            { s with heap := (AppList.ofDocument s.heap doc).heap,
                     mAppList := some (AppList.ofDocument s.heap doc).list })

/-- `mAppList.setContext(mContext)` -/
def setListContext (d : Device) : Java LauncherFragment Unit := do
  let l ← Java.deref (← get).mAppList
  Java.zoom (fun s => ⟨s.heap, l⟩)
    (fun t s => { s with heap := t.heap, mAppList := some t.list })
    (AppList.setContext d.sorter d.applicationInfo)

/-- The statements of `refresh` that load the list. -/
def loadList (d : Device) (file : Option Text) : Java LauncherFragment Unit := do
  readList d file
  setListContext d

/-- The exceptions that `refresh` catches. -/
def isCaught : JavaException → Bool
  | .jsonSyntax | .jsonIo | .nullPointer | .fileNotFound => true
  | _ => false

/-- `refresh()`, when the content of the save file is `file`. -/
def refresh (d : Device) (file : Option Text) : Java LauncherFragment Unit :=
  Java.tryCatch (do newList; loadList d file) isCaught (do newList; setListContext d)

/-- The entries of the list which are not null. -/
def refs (s : LauncherFragment) : List Ref :=
  ((s.mAppList.bind AppList.apps).getD []).reduceOption

/-- The records of the entries of the list. -/
def records (s : LauncherFragment) : List Record := s.refs.map (fun r => (s.heap.get r).record)

/-- The page has loaded a list without nulls, and no timer runs. -/
structure Shows (s : LauncherFragment) : Prop where
  list : s.mAppList = some ⟨some (s.refs.map some)⟩
  stopped : ∀ r ∈ s.refs, (s.heap.get r).mTimer = 0

/-- The page with other objects and another list. -/
def withApps (t : Apps) (s : LauncherFragment) : LauncherFragment :=
  { s with heap := t.heap, mAppList := some t.list }

section Refresh

variable {d : Device} {s : LauncherFragment}

theorem newList_eq (s : LauncherFragment) :
  newList s = .ok () (withApps ⟨s.heap, AppList.new⟩ s)
  := rfl

theorem readList_of_document (hs : s.mSaveFile = some applistFile) {t : Text} {doc : Document}
    (hd : d.gson.fromJson t = .ok (some doc)) :
  readList d (some t) s = .ok () (withApps (AppList.ofDocument s.heap doc) s)
  := by
  simp only [readList, Java.bind_apply, Java.get_apply, hs, Java.deref_some, Java.pure_apply, hd,
    Java.modify_apply, withApps]

theorem setListContext_of_ok {l : AppList} (hl : s.mAppList = some l) {t : Apps}
    (h : AppList.setContext d.sorter d.applicationInfo ⟨s.heap, l⟩ = .ok () t) :
  setListContext d s = .ok () (withApps t s)
  := by
  simp only [setListContext, Java.bind_apply, Java.get_apply, hl, Java.deref_some, Java.pure_apply,
    Java.zoom, h, withApps]

/-- The page shows an empty list if it does not get a list from the file. -/
theorem refresh_of_error {file : Option Text} {e : JavaException} {s' : LauncherFragment}
    (he : isCaught e = true)
    (h : loadList d file (withApps ⟨s.heap, AppList.new⟩ s) = .error e s') :
  refresh d file s = .ok () (withApps ⟨s'.heap, AppList.new⟩ s')
  := by
  have hbody := Eq.trans (Java.bind_of_ok (newList_eq s) (fun _ => loadList d file)) h
  have hempty : setListContext d (withApps ⟨s'.heap, AppList.new⟩ s')
      = .ok () (withApps ⟨s'.heap, AppList.new⟩ s') := setListContext_of_ok rfl rfl
  apply Eq.trans (Java.tryCatch_of_error hbody he)
  rw [Java.bind_of_ok (newList_eq s')]
  apply hempty

/-- If no document is read, the page shows an empty list. -/
theorem refresh_of_nothing (hs : s.mSaveFile = some applistFile) {t : Text}
    (hd : d.gson.GivesNothing t) :
  ∃ s', refresh d (some t) s = .ok () s' ∧ s'.mAppList = some AppList.new
  := by
  let t₁ := withApps ⟨s.heap, AppList.new⟩ s
  have hfile : t₁.mSaveFile = some applistFile := hs
  have herror : ∃ e s', isCaught e = true ∧ loadList d (some t) t₁ = .error e s' := by
    rcases hd with hd | ⟨e | e, hd⟩
    · use .nullPointer, { t₁ with mAppList := none }, rfl
      have hread : readList d (some t) t₁ = .ok () { t₁ with mAppList := none } := by
        simp only [readList, Java.bind_apply, Java.get_apply, hfile, Java.deref_some,
          Java.pure_apply, hd, Java.modify_apply]
      apply Java.bind_of_ok hread
    · use .jsonSyntax, t₁, rfl
      apply Java.bind_of_error
      simp only [readList, Java.bind_apply, Java.get_apply, hfile, Java.deref_some, Java.pure_apply,
        hd, Java.throw_apply]
    · use .jsonIo, t₁, rfl
      apply Java.bind_of_error
      simp only [readList, Java.bind_apply, Java.get_apply, hfile, Java.deref_some, Java.pure_apply,
        hd, Java.throw_apply]
  obtain ⟨e, s', he, h⟩ := herror
  exact ⟨_, refresh_of_error he h, rfl⟩

/-- If there is no file, the page shows an empty list. -/
theorem refresh_of_missing (hs : s.mSaveFile = some applistFile) :
  ∃ s', refresh d none s = .ok () s' ∧ s'.mAppList = some AppList.new
  := by
  let t₁ := withApps ⟨s.heap, AppList.new⟩ s
  have hfile : t₁.mSaveFile = some applistFile := hs
  have hload : loadList d none t₁ = .error .fileNotFound t₁ := by
    apply Java.bind_of_error
    simp only [readList, Java.bind_apply, Java.get_apply, hfile, Java.deref_some, Java.pure_apply,
      Java.throw_apply]
  exact ⟨_, refresh_of_error rfl hload, rfl⟩

/-- What `refresh` does with a document is what `setContext` does with its list, but the exceptions
that are caught give an empty list. -/
theorem refresh_of_document (hs : s.mSaveFile = some applistFile) {t : Text} {doc : Document}
    (hd : d.gson.fromJson t = .ok (some doc)) :
  refresh d (some t) s
    = match AppList.setContext d.sorter d.applicationInfo (AppList.ofDocument s.heap doc) with
      | .ok () t => .ok () (withApps t s)
      | .error e t =>
          if isCaught e then .ok () (withApps ⟨t.heap, AppList.new⟩ s) else .error e (withApps t s)
  := by
  let t₁ := withApps ⟨s.heap, AppList.new⟩ s
  have hread : readList d (some t) t₁ = .ok () (withApps (AppList.ofDocument s.heap doc) t₁) :=
    readList_of_document (s := t₁) hs hd
  have hload : loadList d (some t) t₁
      = match AppList.setContext d.sorter d.applicationInfo (AppList.ofDocument s.heap doc) with
        | .ok () t => .ok () (withApps t s)
        | .error e t => .error e (withApps t s) := by
    rw [loadList, Java.bind_of_ok hread]
    simp only [setListContext, Java.bind_apply, Java.get_apply, withApps, Java.deref_some,
      Java.pure_apply, Java.zoom]
    cases AppList.setContext d.sorter d.applicationInfo (AppList.ofDocument s.heap doc) <;> rfl
  have hbody := Java.bind_of_ok (newList_eq s) (fun _ => loadList d (some t))
  cases hset : AppList.setContext d.sorter d.applicationInfo (AppList.ofDocument s.heap doc) with
  | ok u t =>
      rw [hset] at hload
      apply Java.tryCatch_of_ok (Eq.trans hbody hload)
  | error e t =>
      rw [hset] at hload
      by_cases he : isCaught e = true
      · simp only [he, if_true]
        apply refresh_of_error he hload
      · simp only [he]
        apply Java.tryCatch_of_uncaught (Eq.trans hbody hload) (Bool.eq_false_iff.mpr he)

/-- A page that reads a list of records, whose packages are installed, shows all of them if the sort
accepts them. -/
theorem refresh_records (hs : s.mSaveFile = some applistFile) {t : Text} {rs : List Record}
    (hd : d.gson.fromJson t = .ok (some (Document.ofRecords rs))) (hi : d.AllInstalled rs)
    (hsort : d.Sorts rs) :
  ∃ s', refresh d (some t) s = .ok () s' ∧ s'.Shows ∧ s'.records.Perm rs
  := by
  let heap := (AppList.restore s.heap (rs.map some)).1
  let refs := (AppList.restore s.heap (rs.map some)).2.reduceOption
  let told := AppList.tellAll d.applicationInfo heap refs
  have hrecords : refs.map (fun r => (heap.get r).record) = rs := AppList.restore_records s.heap rs
  have hrec : ∀ r, (told.get r).record = (heap.get r).record :=
    AppList.tellAll_field d.applicationInfo App.record (fun _ _ => rfl) heap refs
  have haccepts : AppList.accepts d.sorter (AppList.entries heap (refs.map some)) = true := by
    rw [AppList.entries_restore]
    apply hsort
  let s' := withApps ⟨told, ⟨some ((AppList.sorted d.sorter told refs).map some)⟩⟩ s
  have hrefresh : refresh d (some t) s = .ok () s' := by
    rw [refresh_of_document hs hd, AppList.ofDocument_ofRecords,
      AppList.setContext_installed (hi.restored s.heap) haccepts]
  have hrefs : s'.refs = AppList.sorted d.sorter told refs := reduceOption_map_some _
  refine ⟨s', hrefresh, ⟨?_, ?_⟩, ?_⟩
  · rw [hrefs]
    rfl
  · rw [hrefs]
    intro r hr
    have hmem := (AppList.sorted_perm d.sorter told refs).subset hr
    obtain ⟨a, -, ha⟩ := (AppList.restore_spec s.heap (rs.map some)).get_eq hmem
    apply Eq.trans (AppList.tellAll_field d.applicationInfo App.mTimer (fun _ _ => rfl) heap refs r)
    rw [ha]
    rfl
  · have hperm : (s'.refs.map (fun r => (heap.get r).record)).Perm rs := by
      rw [hrefs, ← hrecords]
      apply (AppList.sorted_perm d.sorter told refs).map
    have hsame : s'.records = s'.refs.map (fun r => (heap.get r).record) := by
      apply List.map_congr_left
      intro r _
      apply hrec
    rw [hsame]
    apply hperm

/-- A page that reads a list of records throws if the sort does not accept them. -/
theorem refresh_refused (hs : s.mSaveFile = some applistFile) {t : Text} {rs : List Record}
    (hd : d.gson.fromJson t = .ok (some (Document.ofRecords rs))) (hi : d.AllInstalled rs)
    (hsort : ¬ d.Sorts rs) :
  ∃ s', refresh d (some t) s = .error .illegalArgument s'
  := by
  have hrefuses : AppList.accepts d.sorter (AppList.entries
      (AppList.restore s.heap (rs.map some)).1
      ((AppList.restore s.heap (rs.map some)).2.reduceOption.map some)) = false := by
    rw [AppList.entries_restore]
    apply Bool.eq_false_iff.mpr hsort
  rw [refresh_of_document hs hd, AppList.ofDocument_ofRecords,
    AppList.setContext_refused (hi.restored s.heap) hrefuses]
  exact ⟨_, rfl⟩

end Refresh

end LauncherFragment
