/-!
# The reader of the event log

A `LogcatBuffer` owns a thread that reads the output of `logcat` line by line and passes
the lines to its listener.  The fields shared with other threads are the flag `run`, which
ends the loop of the thread, and the listener, which is set after the thread has been
started.
-/

/-- The fields of a `LogcatBuffer` which other threads write.  The listener is null or the
`LogService`. -/
structure LogcatBuffer where
  run : Bool
  listener : Bool
deriving DecidableEq, Repr, Inhabited

namespace LogcatBuffer

/-- `LogcatBuffer(options, context)`, which starts the thread. -/
def new : LogcatBuffer := ⟨true, false⟩

/-- `setOnLineReadListener(listener)` -/
def setOnLineReadListener (b : LogcatBuffer) : LogcatBuffer := { b with listener := true }

/-- `stop()` -/
def stop (b : LogcatBuffer) : LogcatBuffer := { b with run := false }

end LogcatBuffer
