import Mathlib.Logic.Function.Iterate
import Applogr.Concurrency.Readers

/-!
# A listener that is set late

The constructor of a reader starts its thread, and the listener is set by a later step of the thread
that has constructed it.  The lines that the stream yields and its end are passed on when the
listener is set before the reader looks at it for the first time.
-/

/-- What the listener is called with. -/
def Event.read : Event → Option (Option String)
  | .heard _ read => some read
  | _ => none

/-- The thread of a reader, the lines that its stream has not yet yielded, and what the listener has
been called with. -/
structure Reading where
  pc : Pc
  buffer : LogcatBuffer
  rest : List String
  heard : List (Option String)
deriving DecidableEq

namespace Reading

/-- Whose step is next: that of the thread of the reader, or that of the thread that has constructed
the reader and sets its listener. -/
inductive Turn where
  | reader
  | listener
deriving DecidableEq, Repr

/-- A reader that has been constructed, whose stream yields the lines. -/
def initial (lines : List String) : Reading := ⟨.run .clear, LogcatBuffer.new, lines, []⟩

/-- The start-up succeeds, and the stream ends after the last line. -/
def outcome (s : Reading) : RunPc → Outcome
  | .waitFor => .exits 0
  | .readLine =>
      match s.rest with
      | [] => .endOfStream
      | read :: _ => .line read
  | _ => .returns

/-- A step of the thread of the reader.  The service, when it is called with null, stops the
reader. -/
def reader (d : Device) (r : Ref) (s : Reading) : Reading :=
  match s.pc with
  | .call _ ret => { s with pc := .run ret, buffer := s.buffer.stop }
  | .run p =>
      match s.buffer.runStep d r p (s.outcome p) with
      | some a =>
          { pc := a.pc
            buffer := a.buffer
            rest := if p = .readLine then s.rest.tail else s.rest
            heard := s.heard ++ a.events.filterMap Event.read }
      | none => s

/-- The step of the thread that has constructed the reader. -/
def listen (s : Reading) : Reading := { s with buffer := s.buffer.setOnLineReadListener }

/-- A step of one of the two threads. -/
def turn (d : Device) (r : Ref) (s : Reading) : Turn → Reading
  | .reader => s.reader d r
  | .listener => s.listen

/-- The state after the steps of the threads. -/
def after (d : Device) (r : Ref) (lines : List String) (turns : List Turn) : Reading :=
  turns.foldl (turn d r) (initial lines)

/-- The listener has been called with each line, in order, and then once with null, and the thread
has ended. -/
def Delivers (lines : List String) (s : Reading) : Prop :=
  s.heard = lines.map some ++ [none] ∧ s.pc = .run .finished

/-- The steps of the reader before its listener is set. -/
def readsBefore (turns : List Turn) : ℕ := (turns.takeWhile (· = .reader)).length

/-- The steps of the start-up. -/
def startSteps (d : Device) : ℕ := if d.sdkInt ≥ jellyBean then 4 else 3

/-- The steps before the reader looks at its listener for the first time. -/
def firstLook (d : Device) (lines : List String) : ℕ :=
  startSteps d + if lines = [] then 3 else 2

variable {d : Device} {r : Ref} {lines : List String} {turns : List Turn} {heard : List (Option String)}
  {s : Reading}

/-! ### Runs of the reader -/

/-- The state at the head of the loop. -/
def looping (listener : Bool) (rest : List String) (heard : List (Option String)) : Reading :=
  ⟨.run .loop, ⟨true, listener⟩, rest, heard⟩

theorem starts (d : Device) (r : Ref) (listener : Bool) (lines : List String) :
  (reader d r)^[startSteps d] ⟨.run .clear, ⟨true, listener⟩, lines, []⟩ =
    looping listener lines []
  := by
  have hexec : (reader d r)^[3] ⟨.run .clear, ⟨true, listener⟩, lines, []⟩ =
      ⟨.run (if d.sdkInt ≥ jellyBean then .write else .loop), ⟨true, listener⟩, lines, []⟩ := rfl
  rw [startSteps]
  by_cases hd : d.sdkInt ≥ jellyBean
  · rw [if_pos hd, Function.iterate_succ_apply', hexec, if_pos hd]
    rfl
  · rw [if_neg hd, hexec, if_neg hd]
    rfl

/-- Without a listener a line is dropped. -/
theorem drops_line (read : String) (rest : List String) (heard : List (Option String)) :
  (reader d r)^[3] (looping false (read :: rest) heard) = looping false rest heard
  := by
  simp [looping, reader, outcome, LogcatBuffer.runStep]

/-- Without a listener the end of the stream kills the thread. -/
theorem crashes :
  (reader d r)^[4] (looping false [] heard) = ⟨.run .crashed, ⟨false, false⟩, [], heard⟩
  := by
  simp [looping, reader, outcome, LogcatBuffer.runStep, LogcatBuffer.stop, Event.read]

theorem passes_line (read : String) (rest : List String) (heard : List (Option String)) :
  (reader d r)^[4] (looping true (read :: rest) heard) = looping true rest (heard ++ [some read])
  := by
  simp [looping, reader, outcome, LogcatBuffer.runStep, Event.read]

theorem passes_end :
  (reader d r)^[9] (looping true [] heard) =
    ⟨.run .finished, ⟨false, false⟩, [], heard ++ [none]⟩
  := by
  simp [looping, reader, outcome, LogcatBuffer.runStep, LogcatBuffer.stop, LogcatBuffer.callNull,
    LogcatBuffer.forgetListener, Event.read]

/-- With a listener all lines are passed on, and the thread ends. -/
theorem passes_all (d : Device) (r : Ref) (lines : List String) (heard : List (Option String)) :
  (reader d r)^[4 * lines.length + 9] (looping true lines heard) =
    ⟨.run .finished, ⟨false, false⟩, [], heard ++ lines.map some ++ [none]⟩
  := by
  induction lines generalizing heard with
  | nil =>
      rw [List.map_nil, List.append_nil]
      apply passes_end
  | cons read rest ih =>
      have hsteps : 4 * (read :: rest).length + 9 = 4 * rest.length + 9 + 4 := by
        rw [List.length_cons]
        omega
      rw [hsteps, Function.iterate_add_apply, passes_line, ih, List.map_cons, List.append_assoc heard,
        List.singleton_append]

/-- A thread that has ended or died takes no steps. -/
theorem stays (hs : s.pc = .run .finished ∨ s.pc = .run .crashed) (n : ℕ) :
  (reader d r)^[n] s = s
  := by
  apply Function.iterate_fixed
  rcases hs with hs | hs <;> simp [reader, hs, LogcatBuffer.runStep]

/-! ### When the listener is set -/

/-- The reader is about to look at its listener, or to drop it. -/
def Looks (s : Reading) : Prop :=
  match s.pc with
  | .run (.deliver _) | .run .tell | .run .forget | .run .check => True
  | _ => False

/-- A step that does not look at the listener may as well be taken after it has been set. -/
theorem listen_reader (h : ¬ s.Looks) :
  listen (s.reader d r) = s.listen.reader d r
  := by
  obtain ⟨pc, buffer, rest, heard⟩ := s
  cases pc with
  | call c ret => rfl
  | run p =>
      cases p with
      | deliver | tell | forget | check => exact (h trivial).elim
      | readLine => cases rest <;> rfl
      | unstarted | clear | waitFor | exec | write | loop | calling | stop | destroy | finished
      | crashed => rfl

theorem not_looks_of_lt {n : ℕ} (hn : n < firstLook d lines) :
  ¬ Looks ((reader d r)^[n] (initial lines))
  := by
  have hstart : ∀ n < startSteps d, ¬ Looks ((reader d r)^[n] (initial lines)) := by
    intro n hn
    have hle : startSteps d ≤ 4 := by
      rw [startSteps]
      split <;> omega
    match n, lt_of_lt_of_le hn hle with
    | 0, _ | 1, _ | 2, _ => exact id
    | 3, _ =>
        have hd : d.sdkInt ≥ jellyBean := by
          by_contra hd
          rw [startSteps, if_neg hd] at hn
          exact lt_irrefl 3 hn
        have hexec : (reader d r)^[3] (initial lines) =
            ⟨.run (if d.sdkInt ≥ jellyBean then .write else .loop), ⟨true, false⟩, lines, []⟩ := rfl
        rw [hexec, if_pos hd]
        exact id
  by_cases hlt : n < startSteps d
  · apply hstart n hlt
  · obtain ⟨k, rfl⟩ := Nat.exists_eq_add_of_le (not_lt.mp hlt)
    have hk : k < if lines = [] then 3 else 2 := Nat.lt_of_add_lt_add_left hn
    have hinitial : (reader d r)^[startSteps d] (initial lines) = looping false lines [] :=
      starts d r false lines
    rw [Nat.add_comm, Function.iterate_add_apply, hinitial]
    cases lines with
    | nil =>
        match k, hk with
        | 0, _ | 1, _ | 2, _ => exact id
    | cons read rest =>
        match k, hk with
        | 0, _ | 1, _ => exact id

theorem listen_iterate {n : ℕ} (hn : n ≤ firstLook d lines) :
  listen ((reader d r)^[n] (initial lines)) = (reader d r)^[n] (listen (initial lines))
  := by
  induction n with
  | zero => rfl
  | succ n ih =>
      have hlt : n < firstLook d lines := hn
      rw [Function.iterate_succ_apply', Function.iterate_succ_apply', ← ih (le_of_lt hlt),
        listen_reader (not_looks_of_lt hlt)]

/-- The listener is set in time, and the reader passes everything on. -/
theorem delivers_of_le {m n : ℕ} (hm : m ≤ firstLook d lines)
    (hn : 4 * lines.length + 13 ≤ m + n) :
  Delivers lines ((reader d r)^[n] (listen ((reader d r)^[m] (initial lines))))
  := by
  have hle : startSteps d ≤ 4 := by
    rw [startSteps]
    split <;> omega
  obtain ⟨k, hk⟩ : ∃ k, n + m = k + (4 * lines.length + 9 + startSteps d) :=
    Nat.exists_eq_add_of_le' (by omega)
  have hlisten : (reader d r)^[startSteps d] (listen (initial lines)) = looping true lines [] :=
    starts d r true lines
  rw [listen_iterate hm, ← Function.iterate_add_apply, hk, Function.iterate_add_apply,
    Function.iterate_add_apply, hlisten, passes_all, stays (Or.inl rfl), List.nil_append]
  exact ⟨rfl, rfl⟩

/-! ### When the listener is set too late -/

/-- The lines that a thread has read and not yet passed on or dropped. -/
def carried : Pc → ℕ
  | .run (.deliver _) | .call _ (.deliver _) => 1
  | _ => 0

/-- The lines that the listener has been called with, or may be called with later. -/
def pending (s : Reading) : ℕ := s.heard.countP Option.isSome + carried s.pc + s.rest.length

theorem pending_le_of_delivers (h : s.Delivers lines) :
  lines.length ≤ s.pending
  := by
  obtain ⟨hheard, hpc⟩ := h
  have hcount : (lines.map some).countP Option.isSome = lines.length := by
    rw [List.countP_map]
    exact List.countP_eq_length.mpr (fun _ _ => rfl)
  rw [pending, hheard, List.countP_append, hcount]
  omega

/-- No line is passed on twice. -/
theorem pending_reader_le (s : Reading) :
  (s.reader d r).pending ≤ s.pending
  := by
  obtain ⟨pc, buffer, rest, heard⟩ := s
  cases pc with
  | call c ret => cases ret <;> simp [pending, reader, carried]
  | run p =>
      cases p with
      | deliver read =>
          cases hl : buffer.listener <;>
            simp [pending, reader, carried, outcome, LogcatBuffer.runStep, hl, Event.read]
      | readLine =>
          cases rest <;> simp [pending, reader, carried, outcome, LogcatBuffer.runStep]
          omega
      | tell | check =>
          cases hl : buffer.listener <;>
            simp [pending, reader, carried, outcome, LogcatBuffer.runStep, LogcatBuffer.callNull, hl,
              List.filterMap_cons, Event.read]
      | exec =>
          by_cases hd : d.sdkInt ≥ jellyBean <;>
            simp [pending, reader, carried, outcome, LogcatBuffer.runStep, hd]
      | loop =>
          cases hrun : buffer.run <;>
            simp [pending, reader, carried, outcome, LogcatBuffer.runStep, hrun]
      | unstarted | clear | waitFor | write | calling | stop | forget | destroy | finished | crashed =>
          simp [pending, reader, carried, outcome, LogcatBuffer.runStep]

theorem pending_iterate_le (n : ℕ) (s : Reading) :
  ((reader d r)^[n] s).pending ≤ s.pending
  := by
  induction n with
  | zero => apply le_refl
  | succ n ih =>
      rw [Function.iterate_succ_apply']
      apply (pending_reader_le _).trans ih

/-- The listener is set too late, and the first line is lost, or the end of the stream kills the
thread. -/
theorem not_delivers_of_lt {m : ℕ} (hm : firstLook d lines < m) (n : ℕ) :
  ¬ Delivers lines ((reader d r)^[n] (listen ((reader d r)^[m] (initial lines))))
  := by
  have hinitial : (reader d r)^[startSteps d] (initial lines) = looping false lines [] :=
    starts d r false lines
  obtain ⟨k, rfl⟩ := Nat.exists_eq_add_of_le' (Nat.succ_le_of_lt hm)
  cases lines with
  | nil =>
      have hsteps : (firstLook d []).succ = 4 + startSteps d := by
        rw [firstLook, if_pos rfl]
        omega
      have hcrashed : (reader d r)^[(firstLook d []).succ] (initial []) =
          ⟨.run .crashed, ⟨false, false⟩, [], []⟩ := by
        rw [hsteps, Function.iterate_add_apply, hinitial, crashes]
      have hdead : (reader d r)^[k] ⟨.run .crashed, ⟨false, false⟩, [], []⟩ =
          ⟨.run .crashed, ⟨false, false⟩, [], []⟩ := stays (Or.inr rfl) k
      rw [Function.iterate_add_apply, hcrashed, hdead,
        stays (s := listen ⟨.run .crashed, ⟨false, false⟩, [], []⟩) (Or.inr rfl)]
      rintro ⟨-, ⟨⟩⟩
  | cons read rest =>
      intro h
      have hsteps : (firstLook d (read :: rest)).succ = 3 + startSteps d := by
        rw [firstLook, if_neg (List.cons_ne_nil read rest)]
        omega
      have hdropped : (reader d r)^[(firstLook d (read :: rest)).succ] (initial (read :: rest)) =
          looping false rest [] := by
        rw [hsteps, Function.iterate_add_apply, hinitial, drops_line]
      have hpending := calc
        rest.length + 1 ≤ _ := pending_le_of_delivers h
        _ ≤ ((reader d r)^[k + (firstLook d (read :: rest)).succ] (initial (read :: rest))).pending :=
            pending_iterate_le n _
        _ ≤ (looping false rest []).pending := by
            rw [Function.iterate_add_apply, hdropped]
            apply pending_iterate_le k
      have hlooping : (looping false rest []).pending = rest.length := by
        simp [pending, looping, carried]
      exact Nat.not_succ_le_self rest.length (hpending.trans_eq hlooping)

/-! ### All interleavings -/

/-- The listener is set once, between steps of the reader. -/
theorem exists_steps (h : turns.count .listener = 1) :
  ∃ m n, turns = List.replicate m .reader ++ .listener :: List.replicate n .reader
  := by
  induction turns with
  | nil => cases h
  | cons t turns ih =>
      cases t with
      | reader =>
          obtain ⟨m, n, rfl⟩ := ih h
          exact ⟨m + 1, n, rfl⟩
      | listener =>
          have hnone : turns.count .listener = 0 := Nat.succ.inj (List.count_cons_self.symm.trans h)
          refine ⟨0, turns.length, congrArg _ (List.eq_replicate_of_mem ?_)⟩
          intro t ht
          cases t with
          | reader => rfl
          | listener => exact (List.count_eq_zero.mp hnone ht).elim

theorem foldl_reader (n : ℕ) (s : Reading) :
  (List.replicate n Turn.reader).foldl (turn d r) s = (reader d r)^[n] s
  := by
  induction n generalizing s with
  | zero => rfl
  | succ n ih =>
      rw [List.replicate_succ, List.foldl_cons, ih, Function.iterate_succ_apply]
      rfl

/-- Each line and the end of the stream are passed on, exactly when the listener is set before the
reader looks at it for the first time. -/
theorem delivers_iff (hlistener : turns.count .listener = 1)
    (hreader : 4 * lines.length + 13 ≤ turns.count .reader) :
  Delivers lines (after d r lines turns) ↔ readsBefore turns ≤ firstLook d lines
  := by
  obtain ⟨m, n, rfl⟩ := exists_steps hlistener
  have hafter : after d r lines (List.replicate m .reader ++ .listener :: List.replicate n .reader) =
      (reader d r)^[n] (listen ((reader d r)^[m] (initial lines))) := by
    rw [after, List.foldl_append, foldl_reader, List.foldl_cons, foldl_reader]
    rfl
  have hbefore : readsBefore (List.replicate m .reader ++ .listener :: List.replicate n .reader) =
      m := by
    simp [readsBefore]
  have hle : 4 * lines.length + 13 ≤ m + n := by
    simpa using hreader
  rw [hafter, hbefore]
  constructor
  · intro h
    by_contra hlt
    exact not_delivers_of_lt (not_le.mp hlt) n h
  · intro h
    apply delivers_of_le h hle

/-- The listener is set while the reader waits for its first line. -/
def listensInTime : List Turn :=
  List.replicate 5 .reader ++ .listener :: List.replicate 16 .reader

/-- The stream ends before the listener is set. -/
def listensAfterEnd : List Turn :=
  List.replicate 8 .reader ++ .listener :: List.replicate 5 .reader

/-- Two lines and the end of the stream are passed on. -/
theorem delivers_listensInTime :
  listensInTime.count .listener = 1 ∧
    Delivers ["first", "second"] (after (phone [] tick) 0 ["first", "second"] listensInTime)
  := ⟨by decide, (delivers_iff (by decide) (by decide)).mpr (by decide)⟩

/-- The end of the stream is not told, and the thread dies. -/
theorem not_delivers_listensAfterEnd :
  ¬ ∀ lines (turns : List Turn), turns.count .listener = 1 →
    4 * lines.length + 13 ≤ turns.count .reader →
    Delivers lines (after (phone [] tick) 0 lines turns)
  := by
  intro h
  obtain ⟨-, hpc⟩ := h [] listensAfterEnd (by decide) (by decide)
  revert hpc
  decide

end Reading
