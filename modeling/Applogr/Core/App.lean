import Applogr.Foundation.Heap
import Mathlib.Tactic.Common

/-!
# An application of the list

An `App` holds what is known about the use of one package.  The fields `packageName`,
`timeUsedMs` and `launchCount` are written to the save file, the fields whose names begin
with `m` are transient.  Time is measured in milliseconds, in 64 bits, and a timer that
holds `0` does not run.
-/

/-- What the package manager knows about an installed package. -/
structure ApplicationInfo where
  packageName : String
  label : String
deriving DecidableEq, Repr

/-- The texts of the entry which a page shows for an application. -/
structure AppEntry where
  mTitle : String
  mCount : String
  mTime : String
deriving DecidableEq, Repr

/-- The use of one package.  A reference that may be null is an `Option`. -/
structure App where
  packageName : Option String
  timeUsedMs : Int64
  launchCount : Int32
  mTimer : Int64
  mInfo : Option ApplicationInfo
  mEntry : Option AppEntry
deriving DecidableEq, Repr, Inhabited

/-- The fields of an `App` which are not transient. -/
structure Record where
  packageName : Option String
  timeUsedMs : Int64
  launchCount : Int32
deriving DecidableEq, Repr

namespace App

/-- `App(String pkg)` -/
def new (pkg : String) : App :=
  { packageName := some pkg, timeUsedMs := 0, launchCount := 0, mTimer := 0,
    mInfo := none, mEntry := none }

/-- `setTimer()`, when the clock reads `now`. -/
def setTimer (now : Int64) (app : App) : App := { app with mTimer := now }

/-- `saveTimer()`, when the clock reads `now`. -/
def saveTimer (now : Int64) (app : App) : App :=
  { app with timeUsedMs := app.timeUsedMs + (now - app.mTimer), mTimer := 0 }

/-- `timerIsStarted()` -/
def timerIsStarted (app : App) : Bool := app.mTimer != 0

/-- `incrementLaunchCount()` -/
def incrementLaunchCount (app : App) : App := { app with launchCount := app.launchCount + 1 }

/-- `setInfo(info)` -/
def setInfo (info : ApplicationInfo) (app : App) : App := { app with mInfo := some info }

/-- `compareTo(app)`: the difference of the launch counts, the larger count first. -/
def compareTo (self app : App) : Int32 := app.launchCount - self.launchCount

/-- The fields which are written to the save file. -/
def record (app : App) : Record := ⟨app.packageName, app.timeUsedMs, app.launchCount⟩

/-- The object whose fields are those of a record.  There is no constructor without
arguments, so the transient fields hold zeros. -/
def ofRecord (r : Record) : App :=
  { packageName := r.packageName, timeUsedMs := r.timeUsedMs, launchCount := r.launchCount,
    mTimer := 0, mInfo := none, mEntry := none }

theorem timerIsStarted_iff (app : App) :
  app.timerIsStarted = true ↔ app.mTimer ≠ 0
  := by
  simp [timerIsStarted]

/-- Saving the timer stops it. -/
@[simp]
theorem mTimer_saveTimer (now : Int64) (app : App) :
  (app.saveTimer now).mTimer = 0
  := rfl

/-- No method changes the package. -/
@[simp]
theorem packageName_setTimer (now : Int64) (app : App) :
  (app.setTimer now).packageName = app.packageName
  := rfl

@[simp]
theorem packageName_saveTimer (now : Int64) (app : App) :
  (app.saveTimer now).packageName = app.packageName
  := rfl

@[simp]
theorem packageName_incrementLaunchCount (app : App) :
  app.incrementLaunchCount.packageName = app.packageName
  := rfl

end App
