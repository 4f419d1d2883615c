import Applogr.Accounting.Compare
import Applogr.Foundation.Transition
import Applogr.Persistence.Restart

/-!
# Events during the start-up

`onCreate` starts the reader before it has prepared the fields that `onLineRead` uses and before
it has loaded the list.  The main thread and the reader's thread take turns: the main thread
executes the next statement of `onCreate`, or the reader passes on an event.  A run ends when a
statement throws.  If the turns are safe, the only one that does is the last, and only if the sort
does not accept the launch counts of the list.
-/

namespace LogService

/-- The statements of `onCreate` after the reader has been started. -/
inductive Statement where
  | compilePattern
  | setSaveFile
  | createList
  | save
  | readList
  | setListContext
  | finished
deriving DecidableEq, Repr

namespace Statement

/-- The effect of a statement. -/
def run (d : Device) : Statement → Java LogService Unit
  | .compilePattern => LogService.compilePattern
  | .setSaveFile => LogService.setSaveFile
  | .createList => LogService.createList d
  | .save => LogService.save d
  | .readList => LogService.readList d
  | .setListContext => LogService.setListContext d
  | .finished => pure ()

/-- The statement after a statement. -/
def next : Statement → Statement
  | .compilePattern => .setSaveFile
  | .setSaveFile => .createList
  | .createList => .save
  | .save => .readList
  | .readList => .setListContext
  | .setListContext => .finished
  | .finished => .finished

/-- How many statements are left. -/
def remaining : Statement → ℕ
  | .compilePattern => 6
  | .setSaveFile => 5
  | .createList => 4
  | .save => 3
  | .readList => 2
  | .setListContext => 1
  | .finished => 0

theorem remaining_next (t : Statement) :
  t.next.remaining = t.remaining - 1
  := by
  cases t <;> rfl

theorem remaining_eq_zero {t : Statement} (h : t.remaining = 0) :
  t = .finished
  := by
  cases t <;> first | rfl | cases h

end Statement

/-- The service, the next statement of the main thread, and the events that the reader has passed
on. -/
structure StartUp (d : Device) where
  service : LogService
  next : Statement
  read : List (EventLine d.offset)

/-- A turn of the main thread or of the reader's thread. -/
inductive Turn (d : Device) where
  | main
  | read (l : EventLine d.offset)

namespace StartUp

variable {d : Device}

/-- The effect of a turn. -/
def step (c : StartUp d) : Turn d → Except JavaException (StartUp d)
  | .main =>
      match c.next.run d c.service with
      | .ok _ s => .ok { c with service := s, next := c.next.next }
      | .error e _ => .error e
  | .read l =>
      match onLineRead d (some l.text) c.service with
      | .ok _ s => .ok { c with service := s, read := c.read ++ [l] }
      | .error e _ => .error e

/-- The service when the reader has been started. -/
def started (d : Device) (file : Option Text) (n m : ℕ) : LogService :=
  { boot file n m with
    buffers := (Heap.empty.alloc LogcatBuffer.new).modify 0 LogcatBuffer.setOnLineReadListener
    mLauncherPackage := some d.homePackage
    mOffset := d.offset
    mLogcat := some 0 }

/-- `onCreate` when the reader has been started. -/
def initial (d : Device) (file : Option Text) (n m : ℕ) : StartUp d :=
  ⟨started d file n m, .compilePattern, []⟩

/-- The statements are those of `onCreate`. -/
theorem onCreate_eq_statements (d : Device) (file : Option Text) (n m : ℕ) :
  onCreate d (boot file n m) = (do
    Statement.compilePattern.run d
    Statement.setSaveFile.run d
    Statement.createList.run d
    Statement.save.run d
    Java.tryCatch (do Statement.readList.run d; Statement.setListContext.run d) isCaught
      (modify (fun s => { s with mRetval := .notSticky })) : Java LogService Unit)
    (started d file n m)
  := rfl

/-- The turns that do not fail: an event is read when it needs only what is there already.  Before
the save file is set no event may be read, before the file has been read only events of excluded
packages, and none of them before there is a file, and then, before the list has been prepared,
also events of installed packages. -/
def Safe (c : StartUp d) : Turn d → Prop
  | .main => True
  | .read l =>
      match c.next with
      | .compilePattern | .setSaveFile => False
      | .createList => d.excluded l.package = true ∧ c.service.saveFile ≠ none
      | .save | .readList => d.excluded l.package = true
      | .setListContext => d.excluded l.package = true ∨ d.applicationInfo l.package ≠ none
      | .finished => True

/-- The list is about to be prepared, and the sort does not accept its launch counts. -/
def Refuses (c : StartUp d) : Prop := c.next = .setListContext ∧ ¬ d.Sorts c.service.records

/-- The packages of the records are distinct. -/
def Distinct (rs : List Record) : Prop := (rs.map Record.packageName).Nodup

/-- The events that have been read are in the accounts: their packages are in the list, and if the
packages of the file are distinct, the accounts are those of a service that has read the events
after `onCreate` has returned. -/
structure Reflects (file : Option Text) (rs : List Record) (n m : ℕ) (c : StartUp d) : Prop where
  packages : ∀ l ∈ c.read, d.excluded l.package = false → l.package ∈ c.service.packages
  accounts : Distinct rs →
    SameAccounts c.service (handledAll d c.read (created d file rs n m))

/-! ### Before the file has been read -/

/-- Only events of excluded packages have been read, and no object has been created. -/
structure Waiting (n : ℕ) (c : StartUp d) : Prop where
  fresh : c.service.Fresh d
  heap : c.service.heap = Heap.empty
  readings : c.service.readings = n
  excluded : ∀ l ∈ c.read, d.excluded l.package = true

/-- The file has the text of the list, which is new if the service has one. -/
structure Readable (d : Device) (rs : List Record) (s : LogService) : Prop where
  file : ∃ t, s.saveFile = some t ∧ d.gson.fromJson t = .ok (some (Document.ofRecords rs))
  list : s.mAppList = none ∨ (rs = [] ∧ s.mAppList = some AppList.new)

/-- The list is loaded, and the events that have been read are in the accounts. -/
structure Recording (file : Option Text) (rs : List Record) (n m : ℕ) (c : StartUp d) : Prop where
  loaded : c.service.Loaded d
  accounted : Distinct rs → c.service.Accounted d
  reflects : c.Reflects file rs n m

/-- What holds between the turns of a run. -/
def Inv (d : Device) (file : Option Text) (rs : List Record) (n m : ℕ) (c : StartUp d) : Prop :=
  match c.next with
  | .compilePattern => c = initial d file n m
  | .setSaveFile => c.service = { started d file n m with mCommandPattern := some commandPattern } ∧
      c.read = []
  | .createList => c.Waiting n ∧ c.service.saveFile = file ∧ c.service.mAppList = none
  | .save | .readList => c.Waiting n ∧ Readable d rs c.service
  | .setListContext => c.Recording file rs n m ∧
      ∀ p ∈ c.service.packages, d.applicationInfo p ≠ none
  | .finished => c.Recording file rs n m

theorem step_main {c : StartUp d} {s : LogService} (h : c.next.run d c.service = .ok () s) :
  c.step .main = .ok { c with service := s, next := c.next.next }
  := by
  rw [step, h]

theorem next_of_step_main {c c' : StartUp d} (h : c.step .main = .ok c') :
  c'.next = c.next.next
  := by
  rw [step] at h
  split at h
  · cases h
    rfl
  · cases h

theorem fresh_saved {s : LogService} (hs : s.Fresh d) :
  (saved d s).Fresh d
  := { hs with }

/-- Before the list is loaded, an event of an excluded package only saves the list. -/
theorem onLineRead_excluded {s : LogService} (hs : s.Fresh d) {l : EventLine d.offset}
    (hl : d.excluded l.package = true) :
  onLineRead d (some l.text) s = .ok () (saved d s)
  := by
  have hname := getPackageName_eventLine l s
  have htag := getEventName_eventLine l s
  have hrec : isRecognised l.kind.tag = true := by
    cases l.kind <;> rfl
  have hx : s.isExcluded l.package = true := by
    rw [← hl, LogService.isExcluded, hs.launcher, Device.excluded]
    simp only [Option.some.injEq]
  have hstop : stopPrevious d l.package s = .ok () s := by
    rw [stopPrevious, Java.bind_of_ok (Java.get_apply s), hs.idle]
    rfl
  have hevent : onEvent d l.package l.kind.tag s = .ok () (saved d s) := by
    rw [onEvent, Java.bind_of_ok (Java.get_apply s), Java.bind_of_ok hstop, hx]
    apply save_eq hs.file
  simp only [onLineRead, Java.bind_apply, Java.get_apply, hs.pattern, hs.offset, Java.deref_some,
    Java.pure_apply, hname, htag, hrec, if_true]
  apply hevent

/-- The file after a new list has been saved. -/
theorem saveFile_saved_new (hw : d.Writes) {s : LogService} (hl : s.mAppList = some AppList.new) :
  (saved d s).saveFile = some (d.gson.toJson emptyDocument)
  := by
  rw [LogService.saved, json, hl, Option.map_some, hw]
  cases s.saveFile <;> rfl

/-- Saving without a list does not change a file. -/
theorem saveFile_saved_none {s : LogService} (hl : s.mAppList = none) {t : Text}
    (ht : s.saveFile = some t) :
  (saved d s).saveFile = some t
  := by
  rw [LogService.saved, json, hl, ht]
  rfl

/-- Saving changes neither the file nor the list, before the list has been loaded. -/
theorem Readable.saved (hw : d.Writes) (hg : d.gson.Documented) {rs : List Record} {s : LogService}
    (h : Readable d rs s) :
  Readable d rs (saved d s)
  := by
  obtain ⟨t, ht, hd⟩ := h.file
  rcases h.list with hl | ⟨rfl, hl⟩
  · constructor
    · use t, saveFile_saved_none hl ht, hd
    · left
      apply hl
  · constructor
    · use d.gson.toJson emptyDocument, saveFile_saved_new hw hl
      apply hg.restores
    · right
      exact ⟨rfl, hl⟩

/-- Reading an event of an excluded package keeps the service waiting. -/
theorem Waiting.read {n : ℕ} {c : StartUp d} (h : c.Waiting n) {l : EventLine d.offset}
    (hl : d.excluded l.package = true) :
  c.step (.read l) = .ok { c with service := saved d c.service, read := c.read ++ [l] } ∧
    Waiting n { c with service := saved d c.service, read := c.read ++ [l] }
  := by
  constructor
  · rw [step, onLineRead_excluded h.fresh hl]
  · constructor
    · apply fresh_saved h.fresh
    · apply h.heap
    · apply h.readings
    · intro l' hl'
      rcases List.mem_append.mp hl' with hl' | hl'
      · apply h.excluded l' hl'
      · rw [List.mem_singleton.mp hl']
        apply hl

/-! ### When the file has been read -/

theorem packages_map_some {s : LogService} (hs : s.Loaded d) :
  s.packages.map some = s.records.map Record.packageName
  := by
  rw [packages, records, List.map_map, List.map_map]
  apply List.map_congr_left
  intro r hr
  apply (hs.packageName_eq hr).symm

theorem nodup_packages {s : LogService} (hs : s.Loaded d) {rs : List Record}
    (hrecords : s.records.Perm rs) (hd : Distinct rs) :
  s.packages.Nodup
  := by
  apply List.Nodup.of_map some
  rw [packages_map_some hs]
  apply (hrecords.map Record.packageName).nodup_iff.mpr hd

/-- Preparing the list keeps the events in the accounts. -/
theorem Recording.setListContext {file : Option Text} {rs : List Record} {n m : ℕ} {c : StartUp d}
    (h : c.Recording file rs n m)
    (hinst : ∀ p ∈ c.service.packages, d.applicationInfo p ≠ none)
    (hsort : d.Sorts c.service.records) :
  LogService.setListContext d c.service = .ok () (withContext d c.service) ∧
    Recording file rs n m { c with service := withContext d c.service, next := .finished }
  := by
  have hall := h.loaded.allInstalled_iff.mpr hinst
  constructor
  · apply setListContext_of_installed h.loaded.list _ hsort
    intro r hr
    apply hall.installed (mem_records hr)
  · constructor
    · apply h.loaded.withContext
    · intro hd
      apply (h.accounted hd).withContext
    · constructor
      · intro l hl hx
        apply packages_withContext.mem_iff.mpr
        apply h.reflects.packages l hl hx
      · intro hd
        apply (h.accounted hd).sameAccounts_withContext.trans
        apply h.reflects.accounts hd

/-- The service that no event has disturbed. -/
theorem loaded_created (d : Device) (file : Option Text) {rs : List Record} (hn : Named rs)
    (n m : ℕ) :
  (created d file rs n m).Loaded d ∧ (Distinct rs → (created d file rs n m).Accounted d)
  := by
  let s := withDocument (Document.ofRecords rs) (beforeLoad d file n m)
  obtain ⟨hl, hrecords⟩ := withDocument_records (beforeLoad d file n m) rs
  have hfresh : s.Fresh d := (Fresh.beforeLoad d file n m).withDocument _
  have hnamed : ∀ r ∈ s.refs, (s.heap.get r).packageName ≠ none := by
    intro r hr
    have hmem := mem_records hr
    rw [hrecords] at hmem
    apply hn _ hmem
  have hload := hfresh.loaded hl hnamed
  use hload.withContext
  intro hdist
  have hacc := (hfresh.ready hl hnamed (nodup_packages hload (List.Perm.of_eq hrecords) hdist)).accounted
  apply hacc.withContext

/-- Reading the file gives the service a list that reflects the events. -/
theorem Waiting.readList {file : Option Text} {rs : List Record} {n : ℕ} {c : StartUp d}
    (h : c.Waiting n) (hr : Readable d rs c.service) (hn : Named rs) (hi : d.AllInstalled rs)
    (m : ℕ) :
  ∃ s, LogService.readList d c.service = .ok () s ∧
    Recording file rs n m { c with service := s, next := .setListContext } ∧
    ∀ p ∈ s.packages, d.applicationInfo p ≠ none
  := by
  obtain ⟨t, ht, hd⟩ := hr.file
  have hread := readList_of_document h.fresh.file ht hd
  obtain ⟨hl, hrecords⟩ := withDocument_records c.service rs
  have hfresh := h.fresh.withDocument (Document.ofRecords rs)
  have hnamed : ∀ r ∈ (withDocument (Document.ofRecords rs) c.service).refs,
      ((withDocument (Document.ofRecords rs) c.service).heap.get r).packageName ≠ none := by
    intro r hr
    have hmem := mem_records hr
    rw [hrecords] at hmem
    apply hn _ hmem
  have hload := hfresh.loaded hl hnamed
  have hacc : Distinct rs → (withDocument (Document.ofRecords rs) c.service).Accounted d := by
    intro hdist
    apply (hfresh.ready hl hnamed _).accounted
    apply nodup_packages hload (List.Perm.of_eq hrecords) hdist
  obtain ⟨hcload, -⟩ := loaded_created d file hn n m
  use withDocument (Document.ofRecords rs) c.service, hread
  refine ⟨⟨hload, hacc, ?_, ?_⟩, ?_⟩
  · intro l hl hx
    rw [h.excluded l hl] at hx
    cases hx
  · intro hdist
    -- the heap is empty in both services, so that the same objects have been created
    have hsame : SameAccounts (withContext d (withDocument (Document.ofRecords rs) c.service))
        (created d file rs n m) := by
      apply sameAccounts_of_eq
      · rw [withContext, withDocument, refs, h.heap]
        rfl
      · rw [withContext, withDocument, refs, h.heap]
        rfl
      · apply h.fresh.idle
      · apply h.readings
    apply (hacc hdist).sameAccounts_withContext.symm.trans
    apply hsame.trans
    apply (hcload.sameAccounts_excluded rfl h.excluded).symm
  · apply hload.allInstalled_iff.mp
    rw [hrecords]
    apply hi

/-- Reading an event, when the list is loaded. -/
theorem Recording.read {file : Option Text} {rs : List Record} {n m : ℕ} {c : StartUp d}
    (h : c.Recording file rs n m) (hn : Named rs) (l : EventLine d.offset) :
  c.step (.read l)
      = .ok { c with service := handled d l.package l.kind c.service, read := c.read ++ [l] } ∧
    Recording file rs n m
      { c with service := handled d l.package l.kind c.service, read := c.read ++ [l] }
  := by
  obtain ⟨-, hcacc⟩ := loaded_created d file hn n m
  have hpackages := h.loaded.packages_handled l.package l.kind
  constructor
  · rw [step, h.loaded.onLineRead l]
  · constructor
    · apply h.loaded.handled
    · intro hd
      apply (h.accounted hd).handled
    · constructor
      · intro l' hl' hx
        change l'.package ∈ (handled d l.package l.kind c.service).packages
        rw [hpackages]
        rcases List.mem_append.mp hl' with hl' | hl'
        · have hmem := h.reflects.packages l' hl' hx
          split
          · apply hmem
          · apply List.mem_append_left _ hmem
        · obtain rfl := List.mem_singleton.mp hl'
          split
          · rename_i hor
            rw [hx] at hor
            apply hor.resolve_left Bool.false_ne_true
          · apply List.mem_append_right _ (List.mem_singleton_self _)
      · intro hd
        change SameAccounts (handled d l.package l.kind c.service)
          (handledAll d (c.read ++ [l]) (created d file rs n m))
        rw [handledAll_concat]
        apply (h.reflects.accounts hd).handled (h.accounted hd) ((hcacc hd).handledAll c.read)

/-- The list is created if there is no file. -/
theorem Waiting.createList (hg : d.gson.Documented) (hw : d.Writes) {file : Option Text}
    {rs : List Record} (hfile : Holds d file rs) {n : ℕ} {c : StartUp d} (h : c.Waiting n)
    (hsave : c.service.saveFile = file) (hl : c.service.mAppList = none) :
  ∃ s, LogService.createList d c.service = .ok () s ∧
    Waiting n { c with service := s, next := .save } ∧ Readable d rs s
  := by
  cases file with
  | some t =>
      use c.service, createList_of_file h.fresh.file hsave
      refine ⟨{ h with }, ⟨t, hsave, hfile⟩, Or.inl hl⟩
  | none =>
      obtain rfl : rs = [] := hfile
      use saved d { c.service with mAppList := some AppList.new },
        createList_of_none h.fresh.file hsave
      have hquiet : ∀ l, some AppList.new = some l → AppList.Quiet ⟨c.service.heap, l⟩ := by
        rintro _ ⟨⟩
        use h.fresh.stopped
        rintro _ ⟨⟩ r hr
        cases hr
      constructor
      · exact { h with fresh := { h.fresh with quiet := hquiet } }
      · constructor
        · use d.gson.toJson emptyDocument, saveFile_saved_new hw rfl
          apply hg.restores
        · right
          exact ⟨rfl, rfl⟩

/-- If the sort does not accept the list, `onCreate` throws. -/
theorem throws_main {file : Option Text} {rs : List Record} {n m : ℕ} {c : StartUp d}
    (h : Inv d file rs n m c) (hsort : c.Refuses) :
  c.step .main = .error .illegalArgument
  := by
  obtain ⟨hnext, hrefuses⟩ := hsort
  rw [Inv, hnext] at h
  have hall := h.1.loaded.allInstalled_iff.mpr h.2
  obtain ⟨t, ht⟩ := setListContext_of_refused h.1.loaded.list
    (fun r hr => hall.installed (mem_records hr)) hrefuses
  have hrun : c.next.run d c.service = LogService.setListContext d c.service := by
    rw [hnext]
    rfl
  rw [step, hrun, ht]

/-- Reading an event does not throw if it is safe, and it keeps the invariant. -/
theorem inv_read (hg : d.gson.Documented) (hw : d.Writes) {file : Option Text}
    {rs : List Record} (hn : Named rs) {n m : ℕ} {c : StartUp d} (h : Inv d file rs n m c)
    {l : EventLine d.offset} (hl : c.Safe (.read l)) :
  ∃ c', c.step (.read l) = .ok c' ∧ Inv d file rs n m c'
  := by
  obtain ⟨s, next, ls⟩ := c
  cases next with
  | compilePattern => cases hl
  | setSaveFile => cases hl
  | createList =>
      obtain ⟨hwait, hsave, hlist⟩ := h
      obtain ⟨hx, hne⟩ := hl
      obtain ⟨hstep, hinv⟩ := hwait.read hx
      obtain ⟨t, ht⟩ := Option.ne_none_iff_exists'.mp hne
      refine ⟨_, hstep, hinv, ?_, hlist⟩
      rw [← hsave, ht]
      apply saveFile_saved_none hlist ht
  | save =>
      obtain ⟨hwait, hr⟩ := h
      obtain ⟨hstep, hinv⟩ := hwait.read hl
      exact ⟨_, hstep, hinv, hr.saved hw hg⟩
  | readList =>
      obtain ⟨hwait, hr⟩ := h
      obtain ⟨hstep, hinv⟩ := hwait.read hl
      exact ⟨_, hstep, hinv, hr.saved hw hg⟩
  | setListContext =>
      obtain ⟨hrec, hinst⟩ := h
      obtain ⟨hstep, hrec'⟩ := hrec.read hn l
      refine ⟨_, hstep, hrec', ?_⟩
      intro p hp
      rcases hrec.loaded.mem_packages_handled l.package l.kind hp with hp | ⟨rfl, hx⟩
      · apply hinst p hp
      · rcases hl with hl | hl
        · cases Eq.trans hx.symm hl
        · apply hl
  | finished =>
      obtain ⟨hstep, hrec⟩ := Recording.read h hn l
      exact ⟨_, hstep, hrec⟩

section Reading

variable {file : Option Text} {rs : List Record} (hg : d.gson.Documented) (hw : d.Writes)
  (hfile : Holds d file rs) (hn : Named rs) (hi : d.AllInstalled rs) (n m : ℕ)

include hg hw hfile hn hi

/-- A turn of the main thread does not throw unless the sort does, and it keeps the invariant. -/
theorem inv_main {c : StartUp d} (h : Inv d file rs n m c) (hsort : ¬ c.Refuses) :
  ∃ c', c.step .main = .ok c' ∧ Inv d file rs n m c'
  := by
  obtain ⟨s, next, ls⟩ := c
  cases next with
  | compilePattern =>
      cases h
      exact ⟨_, rfl, rfl, rfl⟩
  | setSaveFile =>
      obtain ⟨rfl, rfl⟩ : s = _ ∧ ls = _ := h
      refine ⟨_, rfl, ⟨?_, rfl, rfl, ?_⟩, rfl, rfl⟩
      · constructor
        · rfl
        · rfl
        · rfl
        · rfl
        · rfl
        · rintro _ ⟨⟩
        · intro r
          rfl
      · rintro l ⟨⟩
  | createList =>
      obtain ⟨hwait, hsave, hl⟩ := h
      obtain ⟨s', hrun, hinv⟩ := hwait.createList hg hw hfile hsave hl
      exact ⟨_, step_main hrun, hinv⟩
  | save =>
      obtain ⟨hwait, hr⟩ := h
      refine ⟨_, step_main (save_eq hwait.fresh.file), ?_, hr.saved hw hg⟩
      exact { hwait with fresh := fresh_saved hwait.fresh }
  | readList =>
      obtain ⟨hwait, hr⟩ := h
      obtain ⟨s', hrun, hinv⟩ := hwait.readList hr hn hi m
      exact ⟨_, step_main hrun, hinv⟩
  | setListContext =>
      obtain ⟨hrec, hinst⟩ := h
      have haccepts : d.Sorts s.records := by
        by_contra hnot
        exact hsort ⟨rfl, hnot⟩
      obtain ⟨hrun, hinv⟩ := hrec.setListContext hinst haccepts
      exact ⟨_, step_main hrun, hinv⟩
  | finished => exact ⟨_, rfl, h⟩

/-- What holds in every state that is reached by safe turns. -/
theorem inv_of_reachable {c : StartUp d}
    (h : Transition.Reachable (Transition.Guarded Safe (fun c a c' => step c a = .ok c'))
      (initial d file n m) c) :
  Inv d file rs n m c
  := by
  refine Transition.Reachable.invariant (I := Inv d file rs n m) ?_ h rfl
  rintro c a c' hinv ⟨hsafe, hstep⟩
  have hnext : ∃ c'', c.step a = .ok c'' ∧ Inv d file rs n m c'' := by
    cases a with
    | main =>
        by_cases hrefuses : c.Refuses
        · cases hstep.symm.trans (throws_main hinv hrefuses)
        · apply inv_main hg hw hfile hn hi n m hinv hrefuses
    | read l => apply inv_read hg hw hn hinv hsafe
  obtain ⟨c'', hstep', hinv'⟩ := hnext
  cases Eq.trans hstep.symm hstep'
  apply hinv'

/-- From every state that is reached by safe turns, `onCreate` can return if the sort accepts the
list. -/
theorem finishes (hsort : ∀ c : StartUp d, Inv d file rs n m c → ¬ c.Refuses) {c : StartUp d}
    (h : Inv d file rs n m c) :
  ∃ c', Transition.Reachable (Transition.Guarded Safe (fun c a c' => step c a = .ok c')) c c' ∧
    c'.next = .finished
  := by
  induction hk : c.next.remaining generalizing c with
  | zero =>
      use c, Transition.Reachable.init c
      apply Statement.remaining_eq_zero hk
  | succ k ih =>
      obtain ⟨c₁, hstep, hinv⟩ := inv_main hg hw hfile hn hi n m h (hsort c h)
      have hnext := next_of_step_main hstep
      obtain ⟨c₂, hreach, hfin⟩ := ih hinv (by rw [hnext, Statement.remaining_next, hk]; rfl)
      have hsafe : c.Safe .main := trivial
      use c₂, hreach.head ⟨hsafe, hstep⟩, hfin

/-- In every run whose turns are safe, no statement throws, except the last one of `onCreate` if the
sort does not accept the list.  When `onCreate` has returned the events are in the accounts, and the
foreground app is an entry of the list. -/
theorem start_of_safe_turns {c : StartUp d}
    (h : Transition.Reachable (Transition.Guarded Safe (fun c a c' => step c a = .ok c'))
      (initial d file n m) c) :
  (∀ a, c.Safe a → (∃ c', c.step a = .ok c') ∨
      (a = .main ∧ c.Refuses ∧ c.step a = .error .illegalArgument)) ∧
    (c.next = .finished → c.Reflects file rs n m ∧
      ∀ f, c.service.mForegroundApp = some f → f ∈ c.service.refs)
  := by
  have hinv := inv_of_reachable hg hw hfile hn hi n m h
  constructor
  · intro a ha
    cases a with
    | main =>
        by_cases hrefuses : c.Refuses
        · right
          exact ⟨rfl, hrefuses, throws_main hinv hrefuses⟩
        · left
          obtain ⟨c', hstep, -⟩ := inv_main hg hw hfile hn hi n m hinv hrefuses
          use c', hstep
    | read l =>
        left
        obtain ⟨c', hstep, -⟩ := inv_read hg hw hn hinv ha
        use c', hstep
  · intro hnext
    rw [Inv, hnext] at hinv
    exact ⟨hinv.reflects, hinv.loaded.foreground⟩

end Reading

/-- The event of an app that is opened on the phone. -/
def opened : EventLine (phone [] tick).offset := phoneEvent .created "com.example" token_example

/-- On a phone without a save file `onCreate` returns. -/
theorem start_of_safe_turns_sample :
  ∃ c, Transition.Reachable (Transition.Guarded Safe (fun c a c' => step c a = .ok c'))
      (initial (phone [] tick) none 0 0) c ∧
    c.next = .finished ∧ c.Reflects none [] 0 0 ∧ ∃ c', c.step (.read opened) = .ok c'
  := by
  have hw : (phone [] tick).Writes := fun _ => rfl
  have hholds : Holds (phone [] tick) none [] := rfl
  have hn : Named [] := by rintro r ⟨⟩
  have hi : (phone [] tick).AllInstalled [] := by rintro r ⟨⟩
  -- no package is installed on the phone, so that the list is empty when it is sorted
  have hsort : ∀ c : StartUp (phone [] tick), Inv (phone [] tick) none [] 0 0 c → ¬ c.Refuses := by
    rintro c hinv ⟨hnext, hrefuses⟩
    rw [Inv, hnext] at hinv
    apply hrefuses
    have hnone : c.service.packages = [] :=
      List.eq_nil_iff_forall_not_mem.mpr (fun p hp => hinv.2 p hp rfl)
    rw [records, List.map_eq_nil_iff.mp hnone]
    apply Device.sorts_nil
  obtain ⟨c, hreach, hfin⟩ := finishes Json.gson_documented hw hholds hn hi 0 0 hsort
    (c := initial (phone [] tick) none 0 0) rfl
  obtain ⟨hsafe, hsound⟩ := start_of_safe_turns Json.gson_documented hw hholds hn hi 0 0 hreach
  use c, hreach, hfin, (hsound hfin).1
  have hread : c.Safe (.read opened) := by
    rw [Safe, hfin]
    trivial
  rcases hsafe (.read opened) hread with h | ⟨h, -⟩
  · apply h
  · cases h

/-- An event that is read as soon as the reader has been started finds no pattern. -/
theorem not_start_of_turns :
  ¬ ∀ c, Transition.Reachable (fun c a c' => step c a = .ok c') (initial (phone [] tick) none 0 0) c →
    ∀ a, c.step a ≠ .error .nullPointer
  := by
  intro h
  apply h _ (Transition.Reachable.init _) (.read opened)
  rfl

end StartUp

end LogService
