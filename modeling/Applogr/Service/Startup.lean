import Applogr.Core.Context
import Applogr.Service.Loaded

/-!
# Starting the service

`onCreate` prepares the service, creates the save file if there is none, and loads the list
from the file.  However the loading ends, no app is in the foreground and no timer runs
afterwards.  A file that holds the text of a list of records, whose packages are all
installed, is loaded in full, if the sort accepts the launch counts of the records.
-/

/-- Every call of `save` writes the file. -/
def Device.Writes (d : Device) : Prop := ∀ n, d.disk n = .written

namespace LogService

variable {d : Device} {s : LogService}

/-! ### Up to the loading -/

/-- The document of the list that `onCreate` creates. -/
def emptyDocument : Document := ⟨some []⟩

/-- The save file when `onCreate` loads it. -/
def fileBeforeLoad (d : Device) (saves : ℕ) : Option Text → Option Text
  | some t => some t
  | none =>
      let t := some (d.gson.toJson emptyDocument)
      writeFile (d.disk (saves + 1)) (writeFile (d.disk saves) none t) t

/-- The service when it loads the list. -/
def beforeLoad (d : Device) (file : Option Text) (n m : ℕ) : LogService :=
  { heap := Heap.empty
    buffers := (Heap.empty.alloc LogcatBuffer.new).modify 0 LogcatBuffer.setOnLineReadListener
    mAppList := if file = none then some AppList.new else none
    mForegroundApp := none
    mSaveFile := some applistFile
    mLauncherPackage := some d.homePackage
    mOffset := d.offset
    mCommandPattern := some commandPattern
    mLogcat := some 0
    mRetval := .sticky
    saveFile := fileBeforeLoad d m file
    readings := n
    saves := if file = none then m + 2 else m + 1 }

theorem createList_of_file {t : Text} (hf : s.mSaveFile = some applistFile)
    (ht : s.saveFile = some t) :
  createList d s = .ok () s
  := by
  simp [createList, Java.bind_apply, hf, ht]

theorem createList_of_none (hf : s.mSaveFile = some applistFile) (ht : s.saveFile = none) :
  createList d s = .ok () (saved d { s with mAppList := some AppList.new })
  := by
  have hcontext : callAppList (AppList.setContext d.sorter d.applicationInfo)
      { s with mAppList := some AppList.new } = .ok () { s with mAppList := some AppList.new } := by
    rw [callAppList_eq rfl]
    rfl
  rw [createList]
  simp only [Java.bind_apply, Java.get_apply, hf, Java.deref_some, Java.pure_apply, ht, if_true,
    Java.modify_apply]
  simp only [hf, ht] at hcontext
  rw [hcontext]
  apply save_eq rfl

theorem onCreate_eq (d : Device) (file : Option Text) (n m : ℕ) :
  onCreate d (boot file n m) = loadList d (beforeLoad d file n m)
  := by
  simp only [onCreate, prepare, startLogcat, compilePattern, setSaveFile, Java.bind_apply,
    Java.modify_apply, Java.get_apply, Java.deref_some, Java.pure_apply]
  cases file with
  | none =>
      rw [createList_of_none rfl rfl]
      simp only
      rw [save_eq rfl]
      rfl
  | some t =>
      rw [createList_of_file (t := t) rfl rfl]
      simp only
      rw [save_eq rfl]
      rfl

/-! ### What the loading does not change -/

/-- The service has been prepared, there is no foreground app, no timer runs, and the entries of
the list have been created. -/
structure Fresh (d : Device) (s : LogService) : Prop where
  pattern : s.mCommandPattern = some commandPattern
  file : s.mSaveFile = some applistFile
  launcher : s.mLauncherPackage = some d.homePackage
  offset : s.mOffset = d.offset
  idle : s.mForegroundApp = none
  quiet : ∀ l, s.mAppList = some l → AppList.Quiet ⟨s.heap, l⟩
  stopped : ∀ r, (s.heap.get r).mTimer = 0

theorem Fresh.beforeLoad (d : Device) (file : Option Text) (n m : ℕ) :
  (LogService.beforeLoad d file n m).Fresh d
  := by
  constructor
  · rfl
  · rfl
  · rfl
  · rfl
  · rfl
  · intro l hl
    cases file with
    | none =>
        cases hl
        constructor
        · intro r
          rfl
        · rintro _ ⟨⟩ r hr
          cases hr
    | some t => cases hl
  · intro r
    rfl

theorem keeps_setListContext (d : Device) : Java.Keeps (Fresh d) (setListContext d) := by
  intro s hs
  cases hl : s.mAppList with
  | none =>
      have hthrow : setListContext d s = .error .nullPointer s := by
        simp [setListContext, callAppList, Java.bind_apply, hl]
      rw [hthrow]
      apply hs
  | some l =>
      have hq := hs.quiet l hl
      rw [setListContext, callAppList_eq hl]
      cases hm : AppList.setContext d.sorter d.applicationInfo ⟨s.heap, l⟩ with
      | ok a t =>
          have ht := AppList.keeps_setContext.ok hq hm
          refine { hs with quiet := ?_, stopped := ht.1 }
          rintro _ ⟨⟩
          apply ht
      | error e t =>
          have ht := AppList.keeps_setContext.error hq hm
          refine { hs with quiet := ?_, stopped := ht.1 }
          rintro _ ⟨⟩
          apply ht

/-- The service after the objects of a document have been created. -/
def withDocument (doc : Document) (s : LogService) : LogService :=
  { s with heap := (AppList.ofDocument s.heap doc).heap,
           mAppList := some (AppList.ofDocument s.heap doc).list }

theorem readList_of_document {t : Text} {doc : Document} (hf : s.mSaveFile = some applistFile)
    (ht : s.saveFile = some t) (hd : d.gson.fromJson t = .ok (some doc)) :
  readList d s = .ok () (withDocument doc s)
  := by
  simp [readList, Java.bind_apply, hf, ht, hd, withDocument]

theorem readList_missing (hf : s.mSaveFile = some applistFile) (ht : s.saveFile = none) :
  readList d s = .error .fileNotFound s
  := by
  simp [readList, Java.bind_apply, hf, ht]

theorem readList_null {t : Text} (hf : s.mSaveFile = some applistFile)
    (ht : s.saveFile = some t) (hd : d.gson.fromJson t = .ok none) :
  readList d s = .ok () { s with mAppList := none }
  := by
  simp [readList, Java.bind_apply, hf, ht, hd]

theorem readList_malformed {t : Text} {e : JsonException} (hf : s.mSaveFile = some applistFile)
    (ht : s.saveFile = some t) (hd : d.gson.fromJson t = .error e) :
  ∃ e', isCaught e' = true ∧ readList d s = .error e' s
  := by
  cases e with
  | syntaxError =>
      use .jsonSyntax, rfl
      simp [readList, Java.bind_apply, hf, ht, hd]
  | ioError =>
      use .jsonIo, rfl
      simp [readList, Java.bind_apply, hf, ht, hd]

/-- The service after it has failed to load the list. -/
def withoutList (s : LogService) : LogService := { s with mRetval := .notSticky }

/-- After the file has been read, the list is prepared. -/
theorem loadList_of_read {s' : LogService} (h : readList d s = .ok () s') :
  loadList d s = match setListContext d s' with
    | .ok _ s'' => .ok () s''
    | .error e s'' => if isCaught e then .ok () (withoutList s'') else .error e s''
  := by
  rw [loadList, Java.tryCatch, Java.bind_of_ok h]
  cases setListContext d s' with
  | ok a s'' => rfl
  | error e s'' => rfl

theorem loadList_of_caught {e : JavaException} (he : isCaught e = true)
    (h : readList d s = .error e s) :
  loadList d s = .ok () (withoutList s)
  := Java.tryCatch_of_error (Java.bind_of_error h _) he

/-- If the document is null, the service has no list. -/
theorem loadList_of_null {t : Text} (hf : s.mSaveFile = some applistFile)
    (ht : s.saveFile = some t) (hd : d.gson.fromJson t = .ok none) :
  loadList d s = .ok () (withoutList { s with mAppList := none })
  := by
  rw [loadList_of_read (readList_null hf ht hd)]
  rfl

/-- If no document is read, the service has no list, and it goes on without one. -/
theorem loadList_of_nothing {t : Text} (hl : s.mAppList = none)
    (hf : s.mSaveFile = some applistFile) (ht : s.saveFile = some t)
    (hd : d.gson.GivesNothing t) :
  loadList d s = .ok () (withoutList s)
  := by
  rcases hd with hd | ⟨e, hd⟩
  · have hsame : { s with mAppList := none } = s := by
      rw [← hl]
    rw [loadList_of_null hf ht hd, hsame]
  · obtain ⟨e', he', h⟩ := readList_malformed hf ht hd
    apply loadList_of_caught he' h

/-- The objects of a document are new, and their timers do not run. -/
theorem quiet_ofDocument {heap : Heap App} (h : ∀ r, (heap.get r).mTimer = 0) (doc : Document) :
  AppList.Quiet (AppList.ofDocument heap doc)
  := by
  obtain ⟨_ | rs⟩ := doc
  · use h
    rintro _ ⟨⟩
  · use AppList.restore_mTimer h rs
    rintro _ ⟨⟩ r hr
    apply ((AppList.restore_spec heap rs).fresh r hr).2

theorem Fresh.withDocument (hs : s.Fresh d) (doc : Document) :
  (LogService.withDocument doc s).Fresh d
  := by
  have hq := quiet_ofDocument hs.stopped doc
  refine { hs with quiet := ?_, stopped := hq.1 }
  rintro _ ⟨⟩
  apply hq

theorem keeps_readList (d : Device) : Java.Keeps (Fresh d) (readList d) := by
  intro s hs
  have hread : (readList d s = .ok () { s with mAppList := none }) ∨
      (∃ doc, readList d s = .ok () (withDocument doc s)) ∨ ∃ e, readList d s = .error e s := by
    rcases Option.eq_none_or_eq_some s.saveFile with ht | ⟨t, ht⟩
    · right
      right
      use .fileNotFound
      apply readList_missing hs.file ht
    · rcases hd : d.gson.fromJson t with e | _ | doc
      · right
        right
        obtain ⟨e', -, h⟩ := readList_malformed hs.file ht hd
        use e'
      · left
        apply readList_null hs.file ht hd
      · right
        left
        use doc
        apply readList_of_document hs.file ht hd
  rcases hread with h | ⟨doc, h⟩ | ⟨e, h⟩
  · rw [h]
    refine { hs with quiet := ?_ }
    rintro _ ⟨⟩
  · rw [h]
    apply hs.withDocument
  · rw [h]
    apply hs

/-- However the loading ends, there is no foreground app and no timer runs. -/
theorem keeps_loadList (d : Device) : Java.Keeps (Fresh d) (loadList d) := by
  apply Java.Keeps.tryCatch
  · apply (keeps_readList d).bind
    intro _
    apply keeps_setListContext
  · apply Java.Keeps.modify
    intro s hs
    exact { hs with }

theorem Fresh.onCreate {file : Option Text} {n m : ℕ}
    (h : LogService.onCreate d (boot file n m) = .ok () s) :
  s.Fresh d
  := by
  rw [onCreate_eq] at h
  apply (keeps_loadList d).ok (Fresh.beforeLoad d file n m) h

/-- A list without nulls, whose entries have packages, is loaded. -/
theorem Fresh.loaded (hs : s.Fresh d) (hl : s.mAppList = some ⟨some (s.refs.map some)⟩)
    (hn : ∀ r ∈ s.refs, (s.heap.get r).packageName ≠ none) :
  s.Loaded d
  := { hs with
    list := hl
    allocated := by
      intro r hr
      apply (hs.quiet _ hl).2 _ rfl
      apply List.mem_map_of_mem hr
    named := hn
    foreground := by
      intro f hf
      rw [hs.idle] at hf
      cases hf }

/-! ### Loading a list of records -/

/-- The records of the entries of the list. -/
def records (s : LogService) : List Record := s.refs.map (fun r => (s.heap.get r).record)

theorem mem_records {r : Ref} (hr : r ∈ s.refs) :
  (s.heap.get r).record ∈ s.records
  := List.mem_map_of_mem hr

/-- The service after the entries of the list have been told the infos of their packages, and
have been sorted. -/
def withContext (d : Device) (s : LogService) : LogService :=
  { s with
    heap := AppList.tellAll d.applicationInfo s.heap s.refs
    mAppList := some ⟨some ((AppList.sorted d.sorter
      (AppList.tellAll d.applicationInfo s.heap s.refs) s.refs).map some)⟩ }

/-- The service with other objects and another list. -/
def withApps (t : Apps) (s : LogService) : LogService :=
  { s with heap := t.heap, mAppList := some t.list }

theorem setListContext_of_ok {l : AppList} (hl : s.mAppList = some l) {t : Apps}
    (h : AppList.setContext d.sorter d.applicationInfo ⟨s.heap, l⟩ = .ok () t) :
  setListContext d s = .ok () (withApps t s)
  := by
  rw [setListContext, callAppList_eq hl, h]
  rfl

theorem setListContext_of_error {l : AppList} (hl : s.mAppList = some l) {t : Apps}
    {e : JavaException} (h : AppList.setContext d.sorter d.applicationInfo ⟨s.heap, l⟩ = .error e t) :
  setListContext d s = .error e (withApps t s)
  := by
  rw [setListContext, callAppList_eq hl, h]
  rfl

/-- The records of the entries are those that the sort looks at. -/
theorem entries_eq (s : LogService) :
  AppList.entries s.heap (s.refs.map some) = s.records.map some
  := by
  rw [AppList.entries, records, List.map_map, List.map_map]
  rfl

theorem setListContext_of_installed (hl : s.mAppList = some ⟨some (s.refs.map some)⟩)
    (hi : ∀ r ∈ s.refs, AppList.installed d.applicationInfo (s.heap.get r) = true)
    (hsort : d.Sorts s.records) :
  setListContext d s = .ok () (withContext d s)
  := by
  have haccepts : AppList.accepts d.sorter (AppList.entries s.heap (s.refs.map some)) = true := by
    rw [entries_eq]
    apply hsort
  apply setListContext_of_ok hl (AppList.setContext_installed hi haccepts)

/-- If the sort does not accept the records, the exception is not caught. -/
theorem setListContext_of_refused (hl : s.mAppList = some ⟨some (s.refs.map some)⟩)
    (hi : ∀ r ∈ s.refs, AppList.installed d.applicationInfo (s.heap.get r) = true)
    (hsort : ¬ d.Sorts s.records) :
  ∃ t, setListContext d s = .error .illegalArgument (withApps t s)
  := by
  have hrefuses : AppList.accepts d.sorter (AppList.entries s.heap (s.refs.map some)) = false := by
    rw [entries_eq]
    apply Bool.eq_false_iff.mpr hsort
  exact ⟨_, setListContext_of_error hl (AppList.setContext_refused hi hrefuses)⟩

theorem refs_withContext (d : Device) (s : LogService) :
  (withContext d s).refs
    = AppList.sorted d.sorter (AppList.tellAll d.applicationInfo s.heap s.refs) s.refs
  := refs_eq rfl

theorem records_withContext (d : Device) (s : LogService) :
  (withContext d s).records.Perm s.records
  := by
  have hrec : ∀ r, ((withContext d s).heap.get r).record = (s.heap.get r).record :=
    AppList.tellAll_field d.applicationInfo App.record (fun _ _ => rfl) s.heap s.refs
  rw [records, refs_withContext, records]
  simp only [hrec]
  apply (AppList.sorted_perm _ _ s.refs).map

/-- The entries created for a list of records. -/
theorem withDocument_records (s : LogService) (rs : List Record) :
  (withDocument (Document.ofRecords rs) s).mAppList
      = some ⟨some ((withDocument (Document.ofRecords rs) s).refs.map some)⟩ ∧
    (withDocument (Document.ofRecords rs) s).records = rs
  := by
  constructor
  · have hrefs : (withDocument (Document.ofRecords rs) s).refs
        = (AppList.restore s.heap (rs.map some)).2.reduceOption := rfl
    rw [hrefs, ← AppList.restore_eq_map_some]
    rfl
  · apply AppList.restore_records

/-- A file with the text of a list of records is loaded in full, if the sort accepts them. -/
theorem loadList_records {t : Text} {rs : List Record} (hf : s.mSaveFile = some applistFile)
    (ht : s.saveFile = some t) (hd : d.gson.fromJson t = .ok (some (Document.ofRecords rs)))
    (hi : d.AllInstalled rs) (hsort : d.Sorts rs) :
  loadList d s = .ok () (withContext d (withDocument (Document.ofRecords rs) s))
  := by
  obtain ⟨hl, hrecords⟩ := withDocument_records s rs
  apply Java.tryCatch_of_ok
  rw [Java.bind_of_ok (readList_of_document hf ht hd)]
  apply setListContext_of_installed hl
  · intro r hr
    have hmem := mem_records hr
    rw [hrecords] at hmem
    apply hi.installed hmem
  · rw [hrecords]
    apply hsort

/-- A file with the text of a list of records is not loaded if the sort does not accept them. -/
theorem loadList_refused {t : Text} {rs : List Record} (hf : s.mSaveFile = some applistFile)
    (ht : s.saveFile = some t) (hd : d.gson.fromJson t = .ok (some (Document.ofRecords rs)))
    (hi : d.AllInstalled rs) (hsort : ¬ d.Sorts rs) :
  ∃ s', loadList d s = .error .illegalArgument s' ∧ s'.saveFile = s.saveFile
  := by
  obtain ⟨hl, hrecords⟩ := withDocument_records s rs
  have hinstalled : ∀ r ∈ (withDocument (Document.ofRecords rs) s).refs, AppList.installed
      d.applicationInfo ((withDocument (Document.ofRecords rs) s).heap.get r) = true := by
    intro r hr
    have hmem := mem_records hr
    rw [hrecords] at hmem
    apply hi.installed hmem
  have hrefuses : ¬ d.Sorts (withDocument (Document.ofRecords rs) s).records := by
    rw [hrecords]
    apply hsort
  obtain ⟨t', ht'⟩ := setListContext_of_refused hl hinstalled hrefuses
  use withApps t' (withDocument (Document.ofRecords rs) s)
  rw [loadList_of_read (readList_of_document hf ht hd), ht']
  exact ⟨rfl, rfl⟩

/-- What a save file holds: there is no file and nothing to be loaded, or the file has the text
of a list of records. -/
def Holds (d : Device) (file : Option Text) (rs : List Record) : Prop :=
  match file with
  | none => rs = []
  | some t => d.gson.fromJson t = .ok (some (Document.ofRecords rs))

/-- The sort looks at the records that the file holds. -/
theorem Holds.sortsFile_iff {file : Option Text} {rs : List Record} (h : Holds d file rs) :
  d.SortsFile file ↔ d.Sorts rs
  := by
  have hentries : d.fileEntries file = rs.map some := by
    cases file with
    | none =>
        obtain rfl : rs = [] := h
        rfl
    | some t =>
        have hd : d.gson.fromJson t = .ok (some (Document.ofRecords rs)) := h
        rw [Device.fileEntries, hd]
        rfl
  rw [Device.SortsFile, hentries, Device.Sorts]

/-- The text of a list of records holds the records. -/
theorem holds_toJson (hg : d.gson.Documented) (rs : List Record) :
  Holds d (some (d.gson.toJson (Document.ofRecords rs))) rs
  := hg.restores (rs.map some)

/-- The service after `onCreate` has loaded a list of records. -/
def created (d : Device) (file : Option Text) (rs : List Record) (n m : ℕ) : LogService :=
  withContext d (withDocument (Document.ofRecords rs) (beforeLoad d file n m))

theorem fileBeforeLoad_holds (hg : d.gson.Documented) (hw : d.Writes) {file : Option Text}
    {rs : List Record} (hfile : Holds d file rs) (m : ℕ) :
  ∃ t, fileBeforeLoad d m file = some t ∧
    d.gson.fromJson t = .ok (some (Document.ofRecords rs))
  := by
  cases file with
  | some t => use t, rfl, hfile
  | none =>
      obtain rfl : rs = [] := hfile
      use d.gson.toJson emptyDocument
      constructor
      · simp only [fileBeforeLoad, hw m, hw (m + 1), writeFile]
      · apply hg.restores []

/-- A list of records is loaded in full from a file with its text. -/
theorem onCreate_of_text {t : Text} {rs : List Record}
    (hd : d.gson.fromJson t = .ok (some (Document.ofRecords rs))) (hi : d.AllInstalled rs)
    (hsort : d.Sorts rs) (n m : ℕ) :
  onCreate d (boot (some t) n m) = .ok () (created d (some t) rs n m)
  := by
  rw [onCreate_eq]
  apply loadList_records (t := t) rfl rfl hd hi hsort

/-- A list of records is loaded in full. -/
theorem onCreate_records (hg : d.gson.Documented) (hw : d.Writes) {file : Option Text}
    {rs : List Record} (hfile : Holds d file rs) (hi : d.AllInstalled rs) (hsort : d.Sorts rs)
    (n m : ℕ) :
  onCreate d (boot file n m) = .ok () (created d file rs n m)
  := by
  obtain ⟨t, ht, hd⟩ := fileBeforeLoad_holds hg hw hfile m
  rw [onCreate_eq]
  apply loadList_records (t := t) rfl ht hd hi hsort

/-- If the sort does not accept the records, `onCreate` throws, and the file is as before the
loading. -/
theorem onCreate_refused (hg : d.gson.Documented) (hw : d.Writes) {file : Option Text}
    {rs : List Record} (hfile : Holds d file rs) (hi : d.AllInstalled rs) (hsort : ¬ d.Sorts rs)
    (n m : ℕ) :
  ∃ s, onCreate d (boot file n m) = .error .illegalArgument s ∧
    s.saveFile = fileBeforeLoad d m file
  := by
  obtain ⟨t, ht, hd⟩ := fileBeforeLoad_holds hg hw hfile m
  rw [onCreate_eq]
  apply loadList_refused (t := t) rfl ht hd hi hsort

theorem records_created (d : Device) (file : Option Text) (rs : List Record) (n m : ℕ) :
  (created d file rs n m).records.Perm rs
  := by
  have hperm := records_withContext d (withDocument (Document.ofRecords rs) (beforeLoad d file n m))
  rw [(withDocument_records _ rs).2] at hperm
  apply hperm

theorem list_created (d : Device) (file : Option Text) (rs : List Record) (n m : ℕ) :
  (created d file rs n m).mAppList = some ⟨some ((created d file rs n m).refs.map some)⟩
  := by
  rw [created, refs_withContext]
  rfl

/-- The list that has been loaded has the packages of the records. -/
theorem named_created {d : Device} {file : Option Text} {rs : List Record} (hn : Named rs)
    (n m : ℕ) :
  ∀ r ∈ (created d file rs n m).refs, ((created d file rs n m).heap.get r).packageName ≠ none
  := by
  intro r hr
  apply hn _ ((records_created d file rs n m).subset (mem_records hr))

end LogService
