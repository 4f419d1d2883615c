import Applogr.Persistence.AnyOutcome
import Applogr.Process.Process

/-!
# Processes in order

Whatever happens to the process, and whatever the outcomes of the saves are, a file that is in order
stays in order, and a service that runs is in order: it has a reader, and either its list is in
order, or it has no list and its file has no text of one.
-/

namespace LogService

variable {d : Device} {s : LogService} {U : Set String}

/-! ### What the loading does not change -/

/-- The service is the other one, up to its objects, its list and what `onStartCommand` returns. -/
def SameButList (s₀ s : LogService) : Prop :=
  ∃ heap l retval, s = { s₀ with heap := heap, mAppList := l, mRetval := retval }

theorem SameButList.withList {s₀ s : LogService} (h : SameButList s₀ s) (heap : Heap App)
    (l : Option AppList) :
  SameButList s₀ { s with heap := heap, mAppList := l }
  := by
  obtain ⟨_, _, _, rfl⟩ := h
  exact ⟨_, _, _, rfl⟩

theorem keeps_sameButList_readList (d : Device) (s₀ : LogService) :
  Java.Keeps (SameButList s₀) (readList d)
  := by
  intro s hs
  rw [readList, Java.bind_of_ok (Java.get_apply s)]
  rcases s.mSaveFile with _ | f
  · apply hs
  · rw [Java.deref_some, Java.bind_of_ok (Java.pure_apply f s), Java.bind_of_ok (Java.get_apply s)]
    rcases s.saveFile with _ | t
    · apply hs
    · rcases hd : d.gson.fromJson t with (_ | _) | _ | doc
      · simp only [hd]
        apply hs
      · simp only [hd]
        apply hs
      · simp only [hd]
        apply hs.withList
      · simp only [hd]
        apply hs.withList

theorem keeps_sameButList_setListContext (d : Device) (s₀ : LogService) :
  Java.Keeps (SameButList s₀) (setListContext d)
  := by
  rintro s ⟨heap, l, retval, rfl⟩
  rcases l with _ | l
  · exact ⟨_, _, _, rfl⟩
  · rw [setListContext, callAppList_eq rfl]
    cases AppList.setContext d.sorter d.applicationInfo ⟨heap, l⟩ with
    | ok a t => exact ⟨_, _, _, rfl⟩
    | error e t => exact ⟨_, _, _, rfl⟩

/-- Loading changes the objects, the list and what `onStartCommand` returns, and nothing else. -/
theorem keeps_sameButList_loadList (d : Device) (s₀ : LogService) :
  Java.Keeps (SameButList s₀) (loadList d)
  := by
  apply Java.Keeps.tryCatch
  · apply (keeps_sameButList_readList d s₀).bind
    intro _
    apply keeps_sameButList_setListContext
  · apply Java.Keeps.modify
    rintro s ⟨heap, l, retval, rfl⟩
    exact ⟨_, _, _, rfl⟩

/-! ### The file and the reader -/

theorem saveFile_stopFor (d : Device) (p : String) (s : LogService) :
  (stopFor d p s).saveFile = s.saveFile ∧ (stopFor d p s).mLogcat = s.mLogcat
  := by
  rcases stopFor_cases d p s with h | ⟨f, -, -, -, h⟩
  · rw [h]
    exact ⟨rfl, rfl⟩
  · rw [h]
    exact ⟨rfl, rfl⟩

theorem saveFile_brought (p : String) (kind : EventKind) (s : LogService) :
  (brought p kind s).saveFile = s.saveFile ∧ (brought p kind s).mLogcat = s.mLogcat
  := by
  rw [brought]
  split
  · split
    · exact ⟨rfl, rfl⟩
    · exact ⟨rfl, rfl⟩
  · exact ⟨rfl, rfl⟩

theorem saveFile_started (d : Device) (s : LogService) :
  (started d s).saveFile = s.saveFile ∧ (started d s).mLogcat = s.mLogcat
  := by
  rw [started]
  split
  · exact ⟨rfl, rfl⟩
  · exact ⟨rfl, rfl⟩

/-- Handling an event ends with a save of the list; before, the file is not changed. -/
theorem Loaded.exists_saved (hs : s.Loaded d) (p : String) (kind : EventKind) :
  ∃ t : LogService, LogService.handled d p kind s = LogService.saved d t ∧ t.Loaded d ∧
    t.saveFile = s.saveFile ∧ t.mLogcat = s.mLogcat
  := by
  obtain ⟨hfile, hlogcat⟩ := saveFile_stopFor d p s
  rw [LogService.handled]
  split
  · use LogService.stopFor d p s, rfl, hs.stopFor p
  · obtain ⟨hfile₁, hlogcat₁⟩ := saveFile_brought p kind (LogService.stopFor d p s)
    obtain ⟨hfile₂, hlogcat₂⟩ :=
      saveFile_started d (LogService.brought p kind (LogService.stopFor d p s))
    refine ⟨_, rfl, ((hs.stopFor p).brought p kind).afterStart, ?_, ?_⟩
    · rw [hfile₂, hfile₁, hfile]
    · rw [hlogcat₂, hlogcat₁, hlogcat]

/-- Whatever the outcome of the save is, an event leaves the service in order. -/
theorem InOrder.handled (hs : s.InOrder d U) (hg : d.gson.Documented) (hacc : s.Accounted d)
    (hwithin : Within U s.records) {p : String} (hp : d.excluded p = false → p ∈ U)
    (kind : EventKind) :
  (LogService.handled d p kind s).InOrder d U
  := by
  have hacc' := hacc.handled p kind
  have hwithin' := hacc.within_handled hwithin hp kind
  obtain ⟨t, heq, ht, hsave, hlogcat⟩ := hacc.exists_saved p kind
  constructor
  · have horder := hacc'.orderly
    have hfile := hs.file
    rw [← hsave] at hfile
    rw [heq] at horder hwithin' ⊢
    rw [LogService.saved, ht.json_eq]
    apply hfile.writeFile hg horder hwithin'
  · rw [heq]
    apply ne_of_eq_of_ne hlogcat hs.reader
  · left
    exact ⟨hacc', hwithin'⟩

/-! ### Reading a line -/

/-- What `onLineRead` does when the stream has ended: the reader is stopped, and another one is
started. -/
def reopened (b : Ref) (s : LogService) : LogService :=
  let t := { s with buffers := s.buffers.modify b LogcatBuffer.stop }
  { t with buffers := (t.buffers.alloc LogcatBuffer.new).modify t.buffers.next
             LogcatBuffer.setOnLineReadListener,
           mLogcat := some t.buffers.next }

theorem onLineRead_none {b : Ref} (hb : s.mLogcat = some b) :
  onLineRead d none s = .ok () (reopened b s)
  := by
  simp only [onLineRead, startLogcat, Java.bind_apply, Java.get_apply, hb, Java.deref_some,
    Java.pure_apply, Java.modify_apply]
  rfl

theorem InOrder.reopened (hs : s.InOrder d U) (b : Ref) :
  (LogService.reopened b s).InOrder d U
  := by
  constructor
  · apply hs.file
  · apply Option.some_ne_none
  · rcases hs.list with ⟨hacc, hwithin⟩ | hhollow
    · left
      exact ⟨{ hacc with }, hwithin⟩
    · right
      exact { hhollow with }

/-- If the line is an event of a package that is not excluded, then the package is in `U`. -/
def TracksLine (d : Device) (U : Set String) (line : Option String) : Prop :=
  ∀ read packageName kind, line = some read → meaning d.offset read = .event packageName kind →
    d.excluded packageName = false → packageName ∈ U

/-- A service that is in order stays in order when a line is read, or it throws and leaves the file
in order. -/
theorem InOrder.onLineRead (hs : s.InOrder d U) (hg : d.gson.Documented) {line : Option String}
    (hline : TracksLine d U line) :
  (∃ s', LogService.onLineRead d line s = .ok () s' ∧ s'.InOrder d U) ∨
    ∃ e s', LogService.onLineRead d line s = .error e s' ∧ s'.saveFile = s.saveFile
  := by
  cases line with
  | none =>
      obtain ⟨b, hb⟩ := Option.ne_none_iff_exists'.mp hs.reader
      left
      exact ⟨_, onLineRead_none hb, hs.reopened b⟩
  | some read =>
      rcases hs.list with ⟨hacc, hwithin⟩ | hhollow
      · rw [hacc.onLineRead_meaning]
        cases hm : meaning d.offset read with
        | incomplete =>
            right
            exact ⟨_, s, rfl, rfl⟩
        | nothing =>
            left
            use s, rfl
        | event packageName kind =>
            left
            refine ⟨_, rfl, hs.handled hg hacc hwithin ?_ kind⟩
            apply hline read packageName kind rfl hm
      · rcases hhollow.onLineRead read with ⟨e, h⟩ | ⟨s', h, hs', hsave, hlogcat, -⟩
        · right
          use e, s
        · left
          refine ⟨s', h, ?_, ?_, Or.inr hs'⟩
          · rw [hsave]
            apply hs.file
          · rw [hlogcat]
            apply hs.reader

end LogService

namespace Process

variable {d : Device} {p : Process} {U : Set String}

/-- The file is in order, and so is the service if it runs. -/
def InOrder (d : Device) (U : Set String) : Process → Prop
  | ended file _ _ => FileInOrder d.gson U file
  | running s => s.InOrder d U

/-- An event that is read and not excluded is an event of a package in `U`. -/
def Action.Tracks (d : Device) (U : Set String) : Action → Prop
  | .read line => LogService.TracksLine d U line
  | _ => True

theorem InOrder.file (hp : p.InOrder d U) :
  FileInOrder d.gson U p.saveFile
  := by
  cases p with
  | ended file n m => apply hp
  | running s => apply LogService.InOrder.file hp

/-- Which packages are installed does not matter. -/
theorem inOrder_withPackages (info : String → Option ApplicationInfo) :
  p.InOrder (d.withPackages info) U ↔ p.InOrder d U
  := by
  cases p with
  | ended file n m => exact Iff.rfl
  | running s =>
      constructor
      · intro hs
        use hs.file, hs.reader
        apply hs.list.imp
        · rintro ⟨h, hwithin⟩
          exact ⟨{ h with }, hwithin⟩
        · intro h
          exact { h with }
      · intro hs
        use hs.file, hs.reader
        apply hs.list.imp
        · rintro ⟨h, hwithin⟩
          exact ⟨{ h with }, hwithin⟩
        · intro h
          exact { h with }

/-- What `onCreate` leaves, however it ends, is the service before the loading, up to its list. -/
theorem onCreate_cases (d : Device) (file : Option Text) (n m : ℕ) :
  ∃ s, LogService.SameButList (LogService.beforeLoad d file n m) s ∧
    (after (LogService.onCreate d (LogService.boot file n m)) = running s ∨
      after (LogService.onCreate d (LogService.boot file n m)) = (running s).killed)
  := by
  have hkeeps := LogService.keeps_sameButList_loadList d (LogService.beforeLoad d file n m)
    (LogService.beforeLoad d file n m) ⟨_, _, _, rfl⟩
  rw [LogService.onCreate_eq]
  cases h : LogService.loadList d (LogService.beforeLoad d file n m) with
  | ok a s =>
      rw [h] at hkeeps
      use s, hkeeps
      left
      rfl
  | error e s =>
      rw [h] at hkeeps
      use s, hkeeps
      right
      rfl

/-- The file and the number of readings after `onCreate`, however it ends. -/
theorem saveFile_onCreate (d : Device) (file : Option Text) (n m : ℕ) :
  (after (LogService.onCreate d (LogService.boot file n m))).saveFile
      = LogService.fileBeforeLoad d m file ∧
    (after (LogService.onCreate d (LogService.boot file n m))).readings = n
  := by
  obtain ⟨_, ⟨heap, l, retval, rfl⟩, h | h⟩ := onCreate_cases d file n m
  · rw [h]
    exact ⟨rfl, rfl⟩
  · rw [h]
    exact ⟨rfl, rfl⟩

/-- The file when the process is killed after some of the statements of `onCreate`.  The clock has not
been read. -/
theorem saveFile_execute (d : Device) (file : Option Text) (n m k : ℕ) :
  (after (execute ((createStatements d).take k) (LogService.boot file n m))).readings = n ∧
    ((after (execute ((createStatements d).take k) (LogService.boot file n m))).saveFile = file ∨
      (file = none ∧
        (after (execute ((createStatements d).take k) (LogService.boot file n m))).saveFile
          = LogService.writeFile (d.disk m) none (some (d.gson.toJson LogService.emptyDocument))) ∨
      (after (execute ((createStatements d).take k) (LogService.boot file n m))).saveFile
        = LogService.fileBeforeLoad d m file)
  := by
  rcases k with _ | _ | _ | _ | _ | _ | _ | k
  · exact ⟨rfl, Or.inl rfl⟩
  · exact ⟨rfl, Or.inl rfl⟩
  · exact ⟨rfl, Or.inl rfl⟩
  · exact ⟨rfl, Or.inl rfl⟩
  · exact ⟨rfl, Or.inl rfl⟩
  · cases file with
    | none => exact ⟨rfl, Or.inr (Or.inl ⟨rfl, rfl⟩)⟩
    | some t => exact ⟨rfl, Or.inl rfl⟩
  · cases file with
    | none => exact ⟨rfl, Or.inr (Or.inr rfl)⟩
    | some t => exact ⟨rfl, Or.inl rfl⟩
  · have htake : (createStatements d).take (k + 7) = createStatements d :=
      List.take_of_length_le (Nat.le_add_left 7 k)
    obtain ⟨hfile, hreadings⟩ := saveFile_onCreate d file n m
    rw [htake, execute_createStatements]
    exact ⟨hreadings, Or.inr (Or.inr hfile)⟩

/-- Every action leaves the process in order. -/
theorem InOrder.step (hp : p.InOrder d U) (hg : d.gson.Documented) {a : Action}
    (ha : a.Tracks d U) :
  (Process.step d p a).InOrder d U
  := by
  cases a with
  | start =>
      cases p with
      | ended file n m =>
          rw [Process.step]
          rcases LogService.onCreate_inOrder hg hp n m with ⟨s, h, hs⟩ | ⟨e, s, h, hs⟩
          · rw [h]
            apply hs
          · rw [h]
            apply hs
      | running s => apply hp
  | startKilled k =>
      cases p with
      | ended file n m =>
          change FileInOrder d.gson U (Process.saveFile _)
          rcases (saveFile_execute d file n m k).2 with h | ⟨rfl, h⟩ | h
          · rw [h]
            apply hp
          · rw [h]
            apply FileInOrder.writeFile hp.file hg orderly_nil within_nil
          · rw [h]
            apply LogService.fileBeforeLoad_inOrder hg hp
      | running s => apply hp
  | read line =>
      cases p with
      | ended file n m => apply hp
      | running s =>
          rw [Process.step]
          rcases LogService.InOrder.onLineRead hp hg ha with ⟨s', h, hs'⟩ | ⟨e, s', h, hsave⟩
          · rw [h]
            apply hs'
          · rw [h]
            change FileInOrder d.gson U s'.saveFile
            rw [hsave]
            apply hp.file
  | kill =>
      rw [step_kill]
      apply hp.file
  | resume page =>
      rcases step_resume_cases d p page with ⟨page', -, h⟩ | ⟨e, page', -, h⟩
      · rw [h]
        apply hp
      · rw [h]
        apply hp.file

/-- Whatever happens, and whatever the outcomes of the saves are, the process stays in order. -/
theorem InOrder.run (hp : p.InOrder d U) (hg : d.gson.Documented) {ms : List Moment}
    (hms : ∀ m ∈ ms, m.action.Tracks d U) :
  (Process.run d ms p).InOrder d U
  := by
  refine run_invariant hms ?_ hp
  intro p m hm hp
  have hm' : m.action.Tracks (d.withPackages m.applicationInfo) U := hm
  apply (inOrder_withPackages m.applicationInfo).mp
  apply InOrder.step (d := d.withPackages m.applicationInfo) _ hg hm'
  apply (inOrder_withPackages m.applicationInfo).mpr hp

/-! ### Files that are repaired -/

/-- A service with a list handles an event, and if the save succeeds, the file holds its records. -/
theorem exists_repaired {s : LogService} (hs : s.InOrder d U) (hg : d.gson.Documented)
    (hlist : s.mAppList ≠ none) (l : EventLine d.offset) :
  ∃ s', LogService.onLineRead d (some l.text) s = .ok () s' ∧ s'.Accounted d ∧
    (LogService.lastSave d s' = .written → ∃ t, s'.saveFile = some t ∧
      d.gson.fromJson t = .ok (some (Document.ofRecords s'.records)))
  := by
  rcases hs.list with ⟨hacc, -⟩ | hhollow
  · have hload := hacc.toLoaded
    refine ⟨_, hload.onLineRead l, hacc.handled l.package l.kind, ?_⟩
    apply hload.holds_handled hg
  · exact absurd hhollow.list hlist

/-- Start with a file that is in order, and let the process be started, killed and fed with lines in
any order, with any outcomes of the saves and any packages installed.  The file is in order.  If the
service runs, then it has a reader, its list is in order, or there is no list and no text of one, and
a service with a list repairs the file at the next event whose save succeeds.  No package gets into
the file or the list, unless it was in the file or is the package of an event that is not excluded. -/
theorem stays_in_order (hg : d.gson.Documented) {file : Option Text}
    (hfile : FileInOrder d.gson U file) (n m : ℕ) {ms : List Moment}
    (hms : ∀ m ∈ ms, m.action.Tracks d U) :
  FileInOrder d.gson U (run d ms (ended file n m)).saveFile ∧
    ∀ s, run d ms (ended file n m) = running s → s.mLogcat ≠ none ∧
      ((s.Accounted d ∧ Within U s.records) ∨ s.Hollow d) ∧
      (s.mAppList ≠ none → ∀ l : EventLine d.offset, ∃ s',
        LogService.onLineRead d (some l.text) s = .ok () s' ∧ s'.Accounted d ∧
        (LogService.lastSave d s' = .written → ∃ t, s'.saveFile = some t ∧
          d.gson.fromJson t = .ok (some (Document.ofRecords s'.records))))
  := by
  have hp : (ended file n m).InOrder d U := hfile
  have hrun := hp.run hg hms
  use hrun.file
  intro s hs
  rw [hs] at hrun
  have hs : s.InOrder d U := hrun
  use hs.reader, hs.list
  intro hlist l
  apply exists_repaired hs hg hlist

/-- A phone on which each save is cut off after four characters. -/
def tornPhone (installed : List String) : Device :=
  { phone installed tick with disk := fun _ => .writeFails 4 }

/-- A service is started, an event is read, the process is killed, and the service is started
again. -/
def startedTwice (installed : List String) : List Moment :=
  [⟨(phone installed tick).applicationInfo, .start⟩,
    ⟨(phone installed tick).applicationInfo,
      .read (some (phoneEvent .created "com.example" token_example :
        EventLine (phone [] tick).offset).text)⟩,
    ⟨(phone installed tick).applicationInfo, .kill⟩, ⟨(phone [] tick).applicationInfo, .start⟩]

theorem tracks_startedTwice (installed : List String) :
  ∀ m ∈ startedTwice installed, m.action.Tracks (tornPhone installed) {"com.example"}
  := by
  intro m hm
  simp only [startedTwice, List.mem_cons, List.not_mem_nil, or_false] at hm
  rcases hm with rfl | rfl | rfl | rfl
  · trivial
  · rintro _ packageName kind ⟨⟩ hevent -
    cases Eq.trans (meaning_eventLine _).symm hevent
    rfl
  · trivial
  · trivial

theorem stays_in_order_startedTwice :
  FileInOrder Json.gson {"com.example"}
    (run (tornPhone ["com.example"]) (startedTwice ["com.example"]) (ended none 0 0)).saveFile
  := by
  have hfile : FileInOrder (tornPhone ["com.example"]).gson {"com.example"} none := trivial
  apply (stays_in_order (d := tornPhone ["com.example"]) Json.gson_documented hfile 0 0
    (tracks_startedTwice ["com.example"])).1

end Process
