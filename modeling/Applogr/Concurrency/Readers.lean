import Applogr.Foundation.Transition
import Applogr.Service.LogService

/-!
# The readers

Each `LogcatBuffer` has a thread that executes `run`.  When the output of its `logcat` ends, the
thread calls `onLineRead(null)`, where the service stops the reader and starts another one.  The
threads share the fields of the readers and the field `mLogcat` of the service, and they take
steps in any order.  The main thread starts the first reader, in `onCreate`.
-/

/-- Where a thread is in `run`. -/
inductive RunPc where
  | unstarted
  | clear
  | waitFor
  | exec
  | write
  | loop
  | readLine
  | deliver (read : String)
  | calling
  | stop
  | tell
  | forget
  | check
  | destroy
  | finished
  | crashed
deriving DecidableEq, Repr

/-- Where a thread is in the statements of the service that replace a reader. -/
inductive CallPc where
  | stopLogcat
  | construct
  | assign (b : Ref)
  | listen
deriving DecidableEq, Repr

/-- Where a thread is: in `run`, or in the service, from where it returns to `run`. -/
inductive Pc where
  | run (p : RunPc)
  | call (c : CallPc) (ret : RunPc)
deriving DecidableEq, Repr

/-- What happens in a step: the call returns, a process exits, `readLine` returns a line or null,
or an exception is thrown. -/
inductive Outcome where
  | returns
  | exits (code : ℤ)
  | line (read : String)
  | endOfStream
  | ioException
  | interrupted
  | throws
deriving DecidableEq, Repr

/-- What is seen of a step: a thread has started a reader, a reader has called `onLineRead`, its
start-up has failed, or an exception has been thrown in its loop. -/
inductive Event where
  | started (starter : Option Ref)
  | heard (r : Ref) (read : Option String)
  | startFailed (r : Ref)
  | loopFailed (r : Ref)
deriving DecidableEq, Repr

/-! ### The thread of a reader -/

/-- A thread after a step: where it is, the fields of its reader, and what is seen. -/
structure Ran where
  pc : Pc
  buffer : LogcatBuffer
  events : List Event
deriving DecidableEq, Repr

namespace LogcatBuffer

/-- `listener = null` -/
def forgetListener (b : LogcatBuffer) : LogcatBuffer := { b with listener := false }

/-- `run = false` in a handler, or when the event log could not be cleared. -/
def giveUp (e : Event) (b : LogcatBuffer) (p : RunPc) : Ran := ⟨.run p, b.stop, [e]⟩

/-- `onLineRead(null)`, which returns to `p`. -/
def callNull (r : Ref) (b : LogcatBuffer) (p : RunPc) : Ran :=
  ⟨.call .stopLogcat p, b, [.heard r none]⟩

/-- A step of `run` in the thread of the reader `r`.  A handler of the start-up catches the
exceptions of its processes, and the handler of the loop those of `readLine`. -/
def runStep (d : Device) (r : Ref) (b : LogcatBuffer) : RunPc → Outcome → Option Ran
  | .clear, .returns => some ⟨.run .waitFor, b, []⟩
  | .clear, .ioException => some (giveUp (.startFailed r) b .loop)
  | .waitFor, .exits code =>
      if code = 0 then some ⟨.run .exec, b, []⟩ else some (giveUp (.startFailed r) b .exec)
  | .waitFor, .interrupted => some (giveUp (.startFailed r) b .loop)
  | .exec, .returns => some ⟨.run (if d.sdkInt ≥ jellyBean then .write else .loop), b, []⟩
  | .exec, .ioException => some (giveUp (.startFailed r) b .loop)
  | .write, .returns => some ⟨.run .loop, b, []⟩
  | .write, .ioException => some (giveUp (.startFailed r) b .loop)
  | .loop, .returns => some ⟨.run (if b.run then .readLine else .destroy), b, []⟩
  | .readLine, .line read => some ⟨.run (.deliver read), b, []⟩
  | .readLine, .endOfStream => some ⟨.run .stop, b, []⟩
  | .readLine, .ioException => some (giveUp (.loopFailed r) b .loop)
  | .deliver read, .returns =>
      if b.listener then some ⟨.run .calling, b, [.heard r (some read)]⟩
      else some ⟨.run .loop, b, []⟩
  | .calling, .returns => some ⟨.run .loop, b, []⟩
  | .calling, .throws => some ⟨.run .crashed, b, [.loopFailed r]⟩
  | .stop, .returns => some ⟨.run .tell, b.stop, []⟩
  | .tell, .returns =>
      if b.listener then some (callNull r b .forget) else some ⟨.run .crashed, b, [.loopFailed r]⟩
  | .forget, .returns => some ⟨.run .check, b.forgetListener, []⟩
  | .check, .returns =>
      if b.listener then some (callNull r b .loop) else some ⟨.run .loop, b, []⟩
  | .destroy, .returns => some ⟨.run .finished, b, []⟩
  | .destroy, .interrupted => some ⟨.run .finished, b, []⟩
  | _, _ => none

end LogcatBuffer

/-! ### All threads -/

/-- The fields of the readers, the field `mLogcat` of the service, where the threads are, and what
has been seen.  The thread of the reader `r` is `some r`, and the main thread is `none`. -/
structure Readers where
  buffers : Heap LogcatBuffer
  mLogcat : Option Ref
  pc : Option Ref → Pc
  seen : List Event

namespace Readers

/-- The thread goes to `p`. -/
def goto (t : Option Ref) (p : Pc) (s : Readers) : Readers :=
  { s with pc := fun t' => if t' = t then p else s.pc t' }

/-- The fields of a reader change. -/
def update (r : Ref) (f : LogcatBuffer → LogcatBuffer) (s : Readers) : Readers :=
  { s with buffers := s.buffers.modify r f }

/-- Something is seen. -/
def see (es : List Event) (s : Readers) : Readers := { s with seen := s.seen ++ es }

/-- A reader is constructed, and its thread is started. -/
def construct (t : Option Ref) (s : Readers) : Readers :=
  see [.started t] (goto (some s.buffers.next) (.run .clear)
    { s with buffers := s.buffers.alloc LogcatBuffer.new })

/-- A thread executes a statement of the service.  It dies if `mLogcat` is null. -/
def callStep (t : Option Ref) (ret : RunPc) (s : Readers) : CallPc → Readers
  | .stopLogcat =>
      match s.mLogcat with
      | some b => goto t (.call .construct ret) (update b LogcatBuffer.stop s)
      | none => goto t (.run .crashed) s
  | .construct => goto t (.call (.assign s.buffers.next) ret) (construct t s)
  | .assign b => goto t (.call .listen ret) { s with mLogcat := some b }
  | .listen =>
      match s.mLogcat with
      | some b => goto t (.run ret) (update b LogcatBuffer.setOnLineReadListener s)
      | none => goto t (.run .crashed) s

/-- The effect of a step of the thread of a reader on all readers. -/
def ran (r : Ref) (a : Ran) (s : Readers) : Readers :=
  see a.events (goto (some r) a.pc (update r (fun _ => a.buffer) s))

/-- A step of a thread, if the outcome is possible where the thread is. -/
def step (d : Device) (s : Readers) (t : Option Ref) (o : Outcome) : Option Readers :=
  match s.pc t, t with
  | .call c ret, t => if o = .returns then some (callStep t ret s c) else none
  | .run p, some r => ((s.buffers.get r).runStep d r p o).map (fun a => ran r a s)
  | .run _, none => none

/-- Before `onCreate` starts the first reader. -/
def initial : Readers :=
  { buffers := Heap.empty
    mLogcat := none
    pc := fun t => if t = none then .call .construct .finished else .run .unstarted
    seen := [] }

/-- The steps of the threads. -/
def Step (d : Device) (s : Readers) (a : Option Ref × Outcome) (s' : Readers) : Prop :=
  step d s a.1 a.2 = some s'

/-- How often a reader has called `onLineRead(null)`. -/
def told (s : Readers) (r : Ref) : ℕ := s.seen.count (.heard r none)

/-- How many readers a reader has started. -/
def replacements (s : Readers) (r : Ref) : ℕ := s.seen.count (.started (some r))

/-- The start-up of the reader has failed. -/
def StartFailed (s : Readers) (r : Ref) : Prop := .startFailed r ∈ s.seen

/-- An exception has been thrown in the loop of the reader. -/
def LoopFailed (s : Readers) (r : Ref) : Prop := .loopFailed r ∈ s.seen

/-! ### The service -/

/-- The statements of the service that replace a reader, when no other thread takes a step. -/
def replaceLogcat (t : Option Ref) (ret : RunPc) (s : Readers) : Readers :=
  callStep t ret (callStep t ret (callStep t ret (callStep t ret s .stopLogcat) .construct)
    (.assign s.buffers.next)) .listen

/-- They are those of `onLineRead(null)`. -/
theorem onLineRead_null (d : Device) (s : LogService) {b : Ref} (hb : s.mLogcat = some b)
    (t : Option Ref) (ret : RunPc) {r : Readers} (hbuffers : r.buffers = s.buffers)
    (hlogcat : r.mLogcat = s.mLogcat) :
  LogService.onLineRead d none s = .ok ()
    { s with buffers := (replaceLogcat t ret r).buffers,
             mLogcat := (replaceLogcat t ret r).mLogcat }
  := by
  obtain ⟨buffers, mLogcat, pc, seen⟩ := r
  obtain rfl : buffers = s.buffers := hbuffers
  obtain rfl : mLogcat = s.mLogcat := hlogcat
  rw [LogService.onLineRead, Java.bind_of_ok (Java.get_apply s), hb]
  simp only [replaceLogcat, callStep]
  rfl

/-- The statements of `onCreate` that start the first reader are the last three of them. -/
theorem startLogcat_eq (s : LogService) (t : Option Ref) (ret : RunPc) {r : Readers}
    (hbuffers : r.buffers = s.buffers) (hlogcat : r.mLogcat = s.mLogcat) :
  let r' := callStep t ret (callStep t ret (callStep t ret r .construct)
    (.assign s.buffers.next)) .listen
  LogService.startLogcat s = .ok () { s with buffers := r'.buffers, mLogcat := r'.mLogcat }
  := by
  obtain ⟨buffers, mLogcat, pc, seen⟩ := r
  obtain rfl : buffers = s.buffers := hbuffers
  obtain rfl : mLogcat = s.mLogcat := hlogcat
  rfl

end Readers
