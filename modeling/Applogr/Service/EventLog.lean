import Applogr.Foundation.Java
import Applogr.Foundation.Split

/-!
# Lines of the event log

`LogService` splits a line at the runs of white space, slashes, colons, commas and brackets,
and it reads the event name, the package and the activity at fixed positions.  From
Android 4.2 on, an event has the user as an additional first field, and the positions of
the package and of the activity are shifted by `mOffset`.
-/

/-- A compiled pattern which matches the nonempty runs of separators. -/
structure Pattern where
  separator : Char → Bool

/-- The white space that `\s` stands for. -/
def isWhitespace (c : Char) : Bool :=
  c = ' ' || c = '\t' || c = '\n' || c = '\x0b' || c = '\x0c' || c = '\r'

/-- The class of characters of `COMMAND_REGEX`, which is `[\s/:,\[\]]+`. -/
def isSeparator (c : Char) : Bool :=
  isWhitespace c || c = '/' || c = ':' || c = ',' || c = '[' || c = ']'

/-- `Pattern.compile(COMMAND_REGEX)` -/
def commandPattern : Pattern := ⟨isSeparator⟩

/-- `split(read, limit)`, for a positive limit. -/
def Pattern.split (p : Pattern) (read : String) (limit : ℕ) : List String :=
  (Split.splitRuns p.separator (limit - 1) read.toList).map String.ofList

/-- `s[i]` -/
def Java.index {σ α : Type} (s : List α) (i : ℕ) : Java σ α :=
  match s[i]? with
  | some a => pure a
  | none => throw .arrayIndexOutOfBounds

def activityLaunchTime : String := "activity_launch_time"

def amResumeActivity : String := "am_resume_activity"

def amCreateActivity : String := "am_create_activity"

section Extractors

variable {σ : Type} (p : Pattern) (mOffset : ℕ) (read : String)

/-- `getEventName(read)` -/
def getEventName : Java σ String :=
  Java.index (p.split read 3) 1

/-- `getActivityName(read)` -/
def getActivityName : Java σ String := do
  let s := p.split read (7 + mOffset)
  if (← Java.index s 1) ≠ activityLaunchTime then
    Java.index s (5 + mOffset)
  else
    Java.index s (4 + mOffset)

/-- `getPackageName(read)` -/
def getPackageName : Java σ String := do
  let s := p.split read 7
  if (← Java.index s 1) ≠ activityLaunchTime then
    Java.index s (4 + mOffset)
  else
    Java.index s (3 + mOffset)

end Extractors

/-- The recognised events. -/
inductive EventKind where
  | created
  | resumed
  | launched
deriving DecidableEq, Repr

/-- The name of an event. -/
def EventKind.tag : EventKind → String
  | .created => amCreateActivity
  | .resumed => amResumeActivity
  | .launched => activityLaunchTime

/-- The position of the package in a line of an event. -/
def EventKind.position (mOffset : ℕ) : EventKind → ℕ
  | .launched => 3 + mOffset
  | _ => 4 + mOffset

/-- A line of a recognised event: its name is found, and so is the package. -/
structure EventLine (mOffset : ℕ) where
  text : String
  kind : EventKind
  package : String
  event_eq : (commandPattern.split text 3)[1]? = some kind.tag
  package_eq : (commandPattern.split text 7)[kind.position mOffset]? = some package

@[simp]
theorem Java.index_of_some {σ α : Type} {s : List α} {i : ℕ} {a : α} (h : s[i]? = some a)
    (t : σ) :
  (Java.index s i : Java σ α) t = .ok a t
  := by
  rw [Java.index, h]
  rfl

theorem EventKind.tag_injective :
  Function.Injective EventKind.tag
  := by
  intro a b h
  cases a <;> cases b <;> first | rfl | exact absurd h (by decide)

/-- The event name is the second part of the line, however many parts are allowed. -/
theorem split_event (read : String) :
  (commandPattern.split read 7)[1]? = (commandPattern.split read 3)[1]?
  := by
  simp only [Pattern.split, List.getElem?_map]
  rw [Split.splitRuns_getElem_of_lt (m := 2)]
  · omega
  · omega

/-- The service finds the name of an event. -/
theorem getEventName_eventLine {σ : Type} {mOffset : ℕ} (l : EventLine mOffset) (t : σ) :
  getEventName commandPattern l.text t = .ok l.kind.tag t
  := Java.index_of_some l.event_eq t

/-- The service finds the package of an event. -/
theorem getPackageName_eventLine {σ : Type} {mOffset : ℕ} (l : EventLine mOffset) (t : σ) :
  getPackageName commandPattern mOffset l.text t = .ok l.package t
  := by
  have htag := Java.index_of_some (Eq.trans (split_event l.text) l.event_eq) t
  have hpkg := l.package_eq
  rw [getPackageName, Java.bind_of_ok htag]
  cases hk : l.kind with
  | launched =>
      rw [hk] at hpkg
      apply Java.index_of_some hpkg
  | created =>
      rw [hk] at hpkg
      apply Java.index_of_some hpkg
  | resumed =>
      rw [hk] at hpkg
      apply Java.index_of_some hpkg
