import Applogr.Core.Context
import Applogr.Core.Json
import Applogr.Service.LineFormat
import Applogr.Util.LogcatBuffer

/-!
# The logging service

`LogService` receives the lines of the event log and keeps the list of applications: which
one is in the foreground, for how long, and how often it was launched.  After each event
the list is written to the save file.

A `Device` is what the program runs on: the versions and packages of the phone, the
readings of its clock, the outcomes of writing to its storage, the sort of its platform, and
the JSON library.
-/

/-- What happens when `save` writes the file. -/
inductive WriteOutcome where
  | written
  | createFails
  | openFails
  | writeFails (written : ℕ)
deriving DecidableEq, Repr

/-- The phone: `clock n` is the reading number `n` of its clock, and `disk n` is the outcome
of the call number `n` of `save`. -/
structure Device where
  gson : Gson
  sorter : Sorter
  sdkInt : ℕ
  homePackage : String
  applicationInfo : String → Option ApplicationInfo
  clock : ℕ → Int64
  disk : ℕ → WriteOutcome

/-- What `onStartCommand` returns. -/
inductive Retval where
  | sticky
  | notSticky
deriving DecidableEq, Repr

/-- A file, by its path. -/
structure File where
  path : String
deriving DecidableEq, Repr

/-- The package of this application. -/
def applogrPackage : String := "net.mhuang.applogr"

def systemuiPackage : String := "com.android.systemui"

/-- `new File(directory.getAbsolutePath() + "/" + "applist.json")` -/
def applistFile : File := ⟨"/sdcard" ++ "/" ++ "applist.json"⟩

/-- `Build.VERSION_CODES.JELLY_BEAN` -/
def jellyBean : ℕ := 16

/-- The position shift that `onCreate` chooses. -/
def Device.offset (d : Device) : ℕ := if d.sdkInt > jellyBean then 1 else 0

theorem Device.offset_le_one (d : Device) :
  d.offset ≤ 1
  := by
  rw [Device.offset]
  split
  · apply le_refl
  · apply Nat.zero_le

/-- Every package of the records is installed. -/
def Device.AllInstalled (d : Device) (rs : List Record) : Prop :=
  ∀ r ∈ rs, ∀ pkg, r.packageName = some pkg → d.applicationInfo pkg ≠ none

theorem Device.AllInstalled.installed {d : Device} {rs : List Record} (hi : d.AllInstalled rs)
    {app : App} (h : app.record ∈ rs) :
  AppList.installed d.applicationInfo app = true
  := by
  rw [AppList.installed]
  split
  · rfl
  · rename_i pkg hp
    apply Option.isSome_iff_ne_none.mpr
    apply hi app.record h pkg hp

/-- The sort accepts the launch counts of the records. -/
def Device.Sorts (d : Device) (rs : List Record) : Prop :=
  AppList.accepts d.sorter (rs.map some) = true

theorem Device.sorts_of_short (d : Device) {rs : List Record} (h : rs.length < minMerge) :
  d.Sorts rs
  := by
  apply AppList.accepts_of_short
  rw [List.length_map]
  apply h

theorem Device.sorts_nil (d : Device) :
  d.Sorts []
  := AppList.accepts_nil d.sorter

/-- The entries that are created for records whose packages are installed. -/
theorem Device.AllInstalled.restored {d : Device} {rs : List Record} (hi : d.AllInstalled rs)
    (heap : Heap App) :
  ∀ r ∈ (AppList.restore heap (rs.map some)).2.reduceOption, AppList.installed d.applicationInfo
    ((AppList.restore heap (rs.map some)).1.get r) = true
  := by
  intro r hr
  apply hi.installed
  have hrecords := AppList.restore_records heap rs
  have hmem := List.mem_map_of_mem (f := fun r =>
    ((AppList.restore heap (rs.map some)).1.get r).record) hr
  rw [hrecords] at hmem
  apply hmem

/-- The entries of the list in the save file.  There are none when no list is read. -/
def Device.fileEntries (d : Device) : Option Text → List (Option Record)
  | none => []
  | some text =>
      match d.gson.fromJson text with
      | .ok (some doc) => doc.apps.getD []
      | _ => []

/-- The sort accepts the launch counts of the entries of the list in the save file. -/
def Device.SortsFile (d : Device) (file : Option Text) : Prop :=
  AppList.accepts d.sorter (d.fileEntries file) = true

instance (d : Device) (file : Option Text) : Decidable (d.SortsFile file) :=
  inferInstanceAs (Decidable (_ = true))

/-- A phone on which the packages of a list are installed, on which files are written, and whose
platform finds out every comparison that breaks its contract. -/
def phone (installed : List String) (clock : ℕ → Int64) : Device :=
  { gson := Json.gson, sorter := Sorter.strict, sdkInt := 17, homePackage := "com.android.launcher",
    applicationInfo := fun pkg => if pkg ∈ installed then some ⟨pkg, pkg⟩ else none,
    clock := clock, disk := fun _ => .written }

/-- A clock that shows the numbers of the first readings. -/
def tick (n : ℕ) : Int64 := Int64.ofNat (min n 1000 + 1)

/-- An event of the main activity of a package, as it is logged on the phone. -/
def phoneEvent {installed : List String} {clock : ℕ → Int64} (kind : EventKind) (pkg : String)
    (h : Token pkg) : EventLine (phone installed clock).offset :=
  Logged.eventLine (le_refl 1) ⟨kind, 0, 1, 2, pkg, "Main", []⟩ h token_main

theorem token_example :
  Token "com.example"
  := token_of_all (by decide) rfl

theorem token_launcher :
  Token "com.android.launcher"
  := token_of_all (by decide) rfl

/-- The fields of the service, the objects of its process, and what the device has done
for it: the content of the save file, and the numbers of clock readings and of saves. -/
structure LogService where
  heap : Heap App
  buffers : Heap LogcatBuffer
  mAppList : Option AppList
  mForegroundApp : Option Ref
  mSaveFile : Option File
  mLauncherPackage : Option String
  mOffset : ℕ
  mCommandPattern : Option Pattern
  mLogcat : Option Ref
  mRetval : Retval
  saveFile : Option Text
  readings : ℕ
  saves : ℕ

namespace LogService

/-- A service in a new process. -/
def boot (saveFile : Option Text) (readings saves : ℕ) : LogService :=
  { heap := Heap.empty, buffers := Heap.empty, mAppList := none, mForegroundApp := none,
    mSaveFile := none, mLauncherPackage := none, mOffset := 0, mCommandPattern := none,
    mLogcat := none, mRetval := .sticky, saveFile := saveFile, readings := readings,
    saves := saves }

/-- `System.currentTimeMillis()` -/
def currentTimeMillis (d : Device) : Java LogService Int64 := do
  let s ← get
  modify (fun s => { s with readings := s.readings + 1 })
  pure (d.clock s.readings)

/-- Calling a method of `mAppList`. -/
def callAppList {α : Type} (m : Java Apps α) : Java LogService α := do
  let l ← Java.deref (← get).mAppList
  Java.zoom (fun s => ⟨s.heap, l⟩)
    (fun t s => { s with heap := t.heap, mAppList := some t.list }) m

/-- Calling a method of an `App` which changes its fields. -/
def callApp (app : Option Ref) (f : App → App) : Java LogService Unit := do
  let r ← Java.deref app
  modify (fun s => { s with heap := s.heap.modify r f })

/-- `mForegroundApp.saveTimer()` and `mForegroundApp.setTimer()` read the clock. -/
def callForegroundTimer (d : Device) (f : Int64 → App → App) : Java LogService Unit := do
  let r ← Java.deref (← get).mForegroundApp
  let now ← currentTimeMillis d
  modify (fun s => { s with heap := s.heap.modify r (f now) })

/-! ### Saving -/

/-- The save file after the steps of `save`, which creates the file if it is missing, and
truncates and writes it if there is a text to write.  `createNewFile` is called for a
missing file only. -/
def writeFile (o : WriteOutcome) (file : Option Text) (text : Option Text) : Option Text :=
  match file, o with
  | none, .createFails => none
  | _, _ =>
      match text, o with
      | none, _ => some (file.getD [])
      | some _, .openFails => some (file.getD [])
      | some t, .writeFails n => some (t.take n)
      | some t, _ => some t

/-- `mAppList.toJson()`, unless `mAppList` is null. -/
def json (d : Device) (s : LogService) : Option Text :=
  s.mAppList.map (fun l => d.gson.toJson (l.document s.heap))

/-- `save()` -/
def save (d : Device) : Java LogService Unit := do
  let _ ← Java.deref (← get).mSaveFile
  modify (fun s =>
    { s with saveFile := writeFile (d.disk s.saves) s.saveFile (s.json d), saves := s.saves + 1 })

/-! ### Starting -/

/-- `mLogcat = new LogcatBuffer(COMMAND, this); mLogcat.setOnLineReadListener(this)` -/
def startLogcat : Java LogService Unit := do
  modify (fun s =>
    { s with buffers := s.buffers.alloc LogcatBuffer.new, mLogcat := some s.buffers.next })
  let b ← Java.deref (← get).mLogcat
  modify (fun s => { s with buffers := s.buffers.modify b LogcatBuffer.setOnLineReadListener })

/-- The statements of `onCreate` before the reader is started. -/
def prepare (d : Device) : Java LogService Unit :=
  modify (fun s => { s with mLauncherPackage := some d.homePackage, mOffset := d.offset })

/-- `mCommandPattern = Pattern.compile(COMMAND_REGEX)` -/
def compilePattern : Java LogService Unit :=
  modify (fun s => { s with mCommandPattern := some commandPattern })

/-- `mSaveFile = new File(directory.getAbsolutePath() + "/" + "applist.json")` -/
def setSaveFile : Java LogService Unit :=
  modify (fun s => { s with mSaveFile := some applistFile })

/-- `if(!mSaveFile.exists())`: an empty list is created and saved. -/
def createList (d : Device) : Java LogService Unit := do
  let _ ← Java.deref (← get).mSaveFile
  if (← get).saveFile = none then
    modify (fun s => { s with mAppList := some AppList.new })
    callAppList (AppList.setContext d.sorter d.applicationInfo)
    save d

/-- `mAppList = mJson.fromJson(new FileReader(mSaveFile), AppList.class)` -/
def readList (d : Device) : Java LogService Unit := do
  let _ ← Java.deref (← get).mSaveFile
  match (← get).saveFile with
  | none => throw .fileNotFound
  | some text =>
      match d.gson.fromJson text with
      | .error .syntaxError => throw .jsonSyntax
      | .error .ioError => throw .jsonIo
      | .ok none => modify (fun s => { s with mAppList := none })
      | .ok (some doc) =>
          modify (fun s =>
            { s with heap := (AppList.ofDocument s.heap doc).heap,
                     mAppList := some (AppList.ofDocument s.heap doc).list })

/-- `mAppList.setContext(this)` -/
def setListContext (d : Device) : Java LogService Unit :=
  callAppList (AppList.setContext d.sorter d.applicationInfo)

/-- The exceptions that `onCreate` catches when it loads the list. -/
def isCaught : JavaException → Bool
  | .jsonSyntax | .jsonIo | .nullPointer | .fileNotFound => true
  | _ => false

/-- The statement of `onCreate` that loads the list from the save file. -/
def loadList (d : Device) : Java LogService Unit :=
  Java.tryCatch (do readList d; setListContext d) isCaught
    (modify (fun s => { s with mRetval := .notSticky }))

/-- `onCreate()` -/
def onCreate (d : Device) : Java LogService Unit := do
  prepare d
  startLogcat
  compilePattern
  setSaveFile
  createList d
  save d
  loadList d

/-- `onStartCommand(intent, flags, startId)` -/
def onStartCommand : Java LogService Retval := do
  pure (← get).mRetval

/-! ### Events -/

/-- Whether the package is this application, the launcher or the system. -/
def isExcluded (packageName : String) (s : LogService) : Bool :=
  packageName = applogrPackage || some packageName = s.mLauncherPackage ||
    packageName = systemuiPackage

/-- Stop recording time for the previous app. -/
def stopPrevious (d : Device) (packageName : String) : Java LogService Unit := do
  let s ← get
  match s.mForegroundApp with
  | none => pure ()
  | some f =>
      if (s.heap.get f).timerIsStarted then
        let name ← Java.deref (s.heap.get f).packageName
        if name ≠ packageName then
          callForegroundTimer d App.saveTimer

/-- An app of the list comes to the foreground.  Unless it was there, a launch is counted,
except when it has only been resumed. -/
def bringKnown (packageName eventName : String) : Java LogService Unit := do
  if (← get).mForegroundApp ≠ (← callAppList (AppList.getApp packageName)) then
    if eventName ≠ amResumeActivity then
      callApp (← callAppList (AppList.getApp packageName)) App.incrementLaunchCount
    let app ← callAppList (AppList.getApp packageName)
    modify (fun s => { s with mForegroundApp := app })

/-- An app that is not in the list is added, comes to the foreground, and is launched. -/
def bringNew (packageName : String) : Java LogService Unit := do
  let newApp := (← get).heap.next
  modify (fun s => { s with heap := s.heap.alloc (App.new packageName) })
  let _ ← callAppList (AppList.addApp newApp)
  modify (fun s => { s with mForegroundApp := some newApp })
  callApp (← get).mForegroundApp App.incrementLaunchCount

/-- Start recording time for this app: it comes to the foreground, and its timer starts. -/
def startThis (d : Device) (packageName eventName : String) : Java LogService Unit := do
  if ← callAppList (AppList.hasPackage packageName) then
    bringKnown packageName eventName
  else
    bringNew packageName
  callForegroundTimer d App.setTimer

/-- What `onLineRead` does for a recognised event. -/
def onEvent (d : Device) (packageName eventName : String) : Java LogService Unit := do
  let log := !(← get).isExcluded packageName
  stopPrevious d packageName
  if log then
    startThis d packageName eventName
  save d

/-- Whether the event is recognised. -/
def isRecognised (eventName : String) : Bool :=
  eventName = amResumeActivity || eventName = activityLaunchTime || eventName = amCreateActivity

/-- `onLineRead(read)` -/
def onLineRead (d : Device) : Option String → Java LogService Unit
  | none => do
      let b ← Java.deref (← get).mLogcat
      modify (fun s => { s with buffers := s.buffers.modify b LogcatBuffer.stop })
      startLogcat
  | some read => do
      let packageName ← getPackageName (← Java.deref (← get).mCommandPattern) (← get).mOffset read
      let eventName ← getEventName (← Java.deref (← get).mCommandPattern) read
      if isRecognised eventName then
        onEvent d packageName eventName

/-- The service receives lines of events one after the other. -/
def onLinesRead (d : Device) : List (EventLine d.offset) → Java LogService Unit
  | [] => pure ()
  | l :: ls => do
      onLineRead d (some l.text)
      onLinesRead d ls

end LogService
