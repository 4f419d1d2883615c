import Applogr.Fragment.Grid
import Applogr.Persistence.Restart
import Applogr.Service.Meaning

/-!
# The process of the program

The service and the pages run in one process.  The process may be killed at any moment, an
exception that no method catches ends it too, and the service may be started again at any moment.
The phone keeps the save file, and it goes on counting the readings of its clock and the calls of
`save`.

A process that is killed during a save leaves the file as a save that fails, so such an end is a
save with another outcome, followed by the end of the process.  Packages may be installed and
uninstalled between two actions.
-/

/-- The device when other packages are installed. -/
def Device.withPackages (d : Device) (info : String → Option ApplicationInfo) : Device :=
  { d with applicationInfo := info }

/-- Either there is no service, and the phone keeps the content of the save file, or the service
runs. -/
inductive Process where
  | ended (saveFile : Option Text) (readings saves : ℕ)
  | running (service : LogService)

namespace Process

/-- What happens to the process: the service is started, or the process is killed while the service
is being started, after some of the statements of `onCreate`; the reader passes on a line, or null
when its stream has ended; the process is killed; a page is resumed. -/
inductive Action where
  | start
  | startKilled (statements : ℕ)
  | read (line : Option String)
  | kill
  | resume (page : LauncherFragment)

/-- An action, and the packages that are installed when it happens. -/
structure Moment where
  applicationInfo : String → Option ApplicationInfo
  action : Action

/-- The content of the save file. -/
def saveFile : Process → Option Text
  | ended file _ _ => file
  | running s => s.saveFile

/-- How often the clock has been read. -/
def readings : Process → ℕ
  | ended _ n _ => n
  | running s => s.readings

/-- How often `save` has been called. -/
def saves : Process → ℕ
  | ended _ _ m => m
  | running s => s.saves

/-- The process has been killed. -/
def killed (p : Process) : Process := ended p.saveFile p.readings p.saves

/-- What a method leaves.  An exception that it does not catch ends the process. -/
def after : EStateM.Result JavaException LogService Unit → Process
  | .ok _ s => running s
  | .error _ s => (running s).killed

/-- The statements of `onCreate`. -/
def createStatements (d : Device) : List (Java LogService Unit) :=
  [LogService.prepare d, LogService.startLogcat, LogService.compilePattern, LogService.setSaveFile,
    LogService.createList d, LogService.save d, LogService.loadList d]

/-- Executing statements. -/
def execute : List (Java LogService Unit) → Java LogService Unit
  | [] => pure ()
  | m :: ms => do
      m
      execute ms

/-- The effect of an action.  Starting a service that runs calls `onStartCommand` only, and without
a service no line is read. -/
def step (d : Device) : Process → Action → Process
  | ended file n m, .start => after (LogService.onCreate d (LogService.boot file n m))
  | ended file n m, .startKilled k =>
      (after (execute ((createStatements d).take k) (LogService.boot file n m))).killed
  | running s, .read line => after (LogService.onLineRead d line s)
  | p, .kill => p.killed
  | p, .resume page =>
      match LauncherFragment.onResume d p.saveFile page with
      | .ok _ _ => p
      | .error _ _ => p.killed
  | p, _ => p

/-- The effect of a sequence of actions. -/
def run (d : Device) (ms : List Moment) (p : Process) : Process :=
  ms.foldl (fun p m => step (d.withPackages m.applicationInfo) p m.action) p

variable {d : Device}

theorem run_concat (d : Device) (ms : List Moment) (m : Moment) (p : Process) :
  run d (ms ++ [m]) p = step (d.withPackages m.applicationInfo) (run d ms p) m.action
  := by
  rw [run, List.foldl_concat, run]

/-- What every action keeps holds after every sequence of actions. -/
theorem run_invariant {I : Process → Prop} {allowed : Moment → Prop} {ms : List Moment}
    {p : Process} (hms : ∀ m ∈ ms, allowed m)
    (hstep : ∀ p m, allowed m → I p → I (step (d.withPackages m.applicationInfo) p m.action))
    (hp : I p) :
  I (run d ms p)
  := by
  induction ms using List.reverseRecOn with
  | nil => apply hp
  | append_singleton ms m ih =>
      rw [run_concat]
      apply hstep
      · apply hms m (List.mem_append_right _ (List.mem_singleton_self m))
      · apply ih
        intro m' hm'
        apply hms m' (List.mem_append_left _ hm')

@[simp]
theorem saveFile_killed (p : Process) :
  p.killed.saveFile = p.saveFile
  := rfl

/-- Executing all statements of `onCreate` is `onCreate`. -/
theorem execute_createStatements (d : Device) (s : LogService) :
  execute (createStatements d) s = LogService.onCreate d s
  := by
  simp only [createStatements, execute, bind_pure_unit, LogService.onCreate]

/-! ### The actions -/

theorem step_kill (d : Device) (p : Process) :
  step d p .kill = p.killed
  := by
  cases p <;> rfl

/-- Resuming a page leaves the process as it is, or ends it. -/
theorem step_resume_cases (d : Device) (p : Process) (page : LauncherFragment) :
  (∃ page', LauncherFragment.onResume d p.saveFile page = .ok () page' ∧
      step d p (.resume page) = p) ∨
    ∃ e page', LauncherFragment.onResume d p.saveFile page = .error e page' ∧
      step d p (.resume page) = p.killed
  := by
  have hstep : step d p (.resume page)
      = match LauncherFragment.onResume d p.saveFile page with
        | .ok _ _ => p
        | .error _ _ => p.killed := by
    cases p <;> rfl
  rw [hstep]
  cases h : LauncherFragment.onResume d p.saveFile page with
  | ok a page' =>
      left
      use page'
  | error e page' =>
      right
      use e, page'

end Process
