import Applogr.Concurrency.OneReader
import Applogr.Process.Recorder

/-!
# The threads of the process

The lines come from the threads of the readers, which take steps in any order.  A reader whose stream
ends starts the next one while its own thread goes on, and the service may be called by either.  The
process that the recorder describes receives one line after the other, and it replaces a reader at
once.  As long as no stream ends before the listener of its reader is set, the threads do what this
process does with the lines in the order in which they have been passed on.
-/

namespace LogService

variable {buffers : Heap LogcatBuffer} {b : Option Ref}

/-- The fields that the threads of the readers use. -/
def HasReaders (buffers : Heap LogcatBuffer) (b : Option Ref) (s : LogService) : Prop :=
  s.buffers = buffers ∧ s.mLogcat = b

theorem keeps_readers_callAppList {α : Type} (m : Java Apps α) :
  Java.Keeps (HasReaders buffers b) (callAppList m)
  := by
  apply Java.Keeps.bind Java.Keeps.get
  intro s
  apply Java.Keeps.bind (Java.Keeps.deref _)
  intro l
  apply Java.Keeps.zoom
  intro t s h
  apply h

theorem keeps_readers_callApp (app : Option Ref) (f : App → App) :
  Java.Keeps (HasReaders buffers b) (callApp app f)
  := by
  apply Java.Keeps.bind (Java.Keeps.deref _)
  intro r
  apply Java.Keeps.modify (fun _ h => h)

theorem keeps_readers_currentTimeMillis (d : Device) :
  Java.Keeps (HasReaders buffers b) (currentTimeMillis d)
  := by
  apply Java.Keeps.bind Java.Keeps.get
  intro s
  apply Java.Keeps.bind
  · apply Java.Keeps.modify (fun _ h => h)
  · intro _
    apply Java.Keeps.pure

theorem keeps_readers_callForegroundTimer (d : Device) (f : Int64 → App → App) :
  Java.Keeps (HasReaders buffers b) (callForegroundTimer d f)
  := by
  apply Java.Keeps.bind Java.Keeps.get
  intro s
  apply Java.Keeps.bind (Java.Keeps.deref _)
  intro r
  apply Java.Keeps.bind (keeps_readers_currentTimeMillis d)
  intro now
  apply Java.Keeps.modify (fun _ h => h)

theorem keeps_readers_save (d : Device) :
  Java.Keeps (HasReaders buffers b) (save d)
  := by
  apply Java.Keeps.bind Java.Keeps.get
  intro s
  apply Java.Keeps.bind (Java.Keeps.deref _)
  intro f
  apply Java.Keeps.modify (fun _ h => h)

theorem keeps_readers_stopPrevious (d : Device) (packageName : String) :
  Java.Keeps (HasReaders buffers b) (stopPrevious d packageName)
  := by
  apply Java.Keeps.bind Java.Keeps.get
  intro s
  cases s.mForegroundApp with
  | none => apply Java.Keeps.pure
  | some f =>
      simp only
      split
      · apply Java.Keeps.bind (Java.Keeps.deref _)
        intro name
        split
        · apply keeps_readers_callForegroundTimer
        · apply Java.Keeps.pure
      · apply Java.Keeps.pure

theorem keeps_readers_bringKnown (packageName eventName : String) :
  Java.Keeps (HasReaders buffers b) (bringKnown packageName eventName)
  := by
  have hbring : Java.Keeps (HasReaders buffers b) (do
      let app ← callAppList (AppList.getApp packageName)
      modify (fun s => { s with mForegroundApp := app })) := by
    apply Java.Keeps.bind (keeps_readers_callAppList _)
    intro app
    apply Java.Keeps.modify (fun _ h => h)
  apply Java.Keeps.bind Java.Keeps.get
  intro s
  apply Java.Keeps.bind (keeps_readers_callAppList _)
  intro app
  split
  · dsimp only
    split
    · apply Java.Keeps.bind (keeps_readers_callAppList _)
      intro app'
      apply Java.Keeps.bind (keeps_readers_callApp app' _)
      intro _
      apply hbring
    · apply hbring
  · apply Java.Keeps.pure

theorem keeps_readers_bringNew (packageName : String) :
  Java.Keeps (HasReaders buffers b) (bringNew packageName)
  := by
  apply Java.Keeps.bind Java.Keeps.get
  intro s
  apply Java.Keeps.bind
  · apply Java.Keeps.modify (fun _ h => h)
  · intro _
    apply Java.Keeps.bind (keeps_readers_callAppList _)
    intro _
    apply Java.Keeps.bind
    · apply Java.Keeps.modify (fun _ h => h)
    · intro _
      apply Java.Keeps.bind Java.Keeps.get
      intro s'
      apply keeps_readers_callApp

theorem keeps_readers_onEvent (d : Device) (packageName eventName : String) :
  Java.Keeps (HasReaders buffers b) (onEvent d packageName eventName)
  := by
  have hstart : Java.Keeps (HasReaders buffers b) (startThis d packageName eventName) := by
    apply Java.Keeps.bind (keeps_readers_callAppList _)
    intro known
    dsimp only
    split
    · apply Java.Keeps.bind (keeps_readers_bringKnown _ _)
      intro _
      apply keeps_readers_callForegroundTimer
    · apply Java.Keeps.bind (keeps_readers_bringNew _)
      intro _
      apply keeps_readers_callForegroundTimer
  apply Java.Keeps.bind Java.Keeps.get
  intro s
  apply Java.Keeps.bind (keeps_readers_stopPrevious d packageName)
  intro _
  dsimp only
  split
  · apply Java.Keeps.bind hstart
    intro _
    apply keeps_readers_save
  · apply keeps_readers_save

/-- Reading a line does not change the fields of the readers. -/
theorem hasReaders_onLineRead {d : Device} {s s' : LogService}
    (hp : s.mCommandPattern = some commandPattern) (ho : s.mOffset = d.offset) {read : String}
    (h : onLineRead d (some read) s = .ok () s') :
  HasReaders s.buffers s.mLogcat s'
  := by
  rw [onLineRead_eq hp ho] at h
  cases hm : meaning d.offset read with
  | incomplete =>
      rw [hm] at h
      cases h
  | nothing =>
      rw [hm] at h
      cases h
      exact ⟨rfl, rfl⟩
  | event packageName kind =>
      rw [hm] at h
      apply (keeps_readers_onEvent d packageName kind.tag).ok ⟨rfl, rfl⟩ h

/-- The service when the readers have taken a step. -/
def withReaders (R : Readers) (s : LogService) : LogService :=
  { s with buffers := R.buffers, mLogcat := R.mLogcat }

end LogService

/-! ### The steps of the threads -/

namespace Readers

/-- The line with which the thread calls `onLineRead` in a step. -/
def calls (R : Readers) : Option Ref → Outcome → Option String
  | some r, .returns =>
      match R.pc (some r) with
      | .run (.deliver read) => if (R.buffers.get r).listener then some read else none
      | _ => none
  | _, _ => none

/-- The readers when the main thread has started the first one. -/
def started : Readers :=
  callStep none .finished (callStep none .finished (callStep none .finished initial .construct)
    (.assign 0)) .listen

/-- What a reader has called `onLineRead` with. -/
def heard : Event → Option (Option String)
  | .heard _ read => some read
  | _ => none

end Readers

/-- The process, where its threads are, and what has been seen of them. -/
structure Threads where
  process : Process
  pc : Option Ref → Pc
  seen : List Event

namespace Threads

/-- The readers of a service that runs. -/
def readers (T : Threads) (s : LogService) : Readers :=
  { buffers := s.buffers, mLogcat := s.mLogcat, pc := T.pc, seen := T.seen }

/-- The line with which the service is called in a step. -/
def called (T : Threads) (t : Option Ref) (o : Outcome) : Option String :=
  match T.process with
  | .ended _ _ _ => none
  | .running s => (T.readers s).calls t o

/-- What the service has been called with. -/
def lines (T : Threads) : List (Option String) := T.seen.filterMap Readers.heard

/-- The process after a step of a thread that leads from the readers `R` to the readers `R'`.  What
`onLineRead` does with a line happens when it is called, and an exception that is not caught ends the
process. -/
def processAfter (d : Device) (s : LogService) (R R' : Readers) (t : Option Ref) (o : Outcome) :
    Process :=
  match R.calls t o with
  | some read => .after (LogService.onLineRead d (some read) (s.withReaders R'))
  | none =>
      if R'.pc t = .run .crashed then
        (Process.running (s.withReaders R')).killed
      else
        .running (s.withReaders R')

/-- A step of a thread.  When the process has ended, there are no threads, and a call of `onLineRead`
that has not ended the process returns. -/
def step (d : Device) (T : Threads) (t : Option Ref) (o : Outcome) : Option Threads :=
  match T.process with
  | .ended _ _ _ => none
  | .running s =>
      if T.pc t = .run .calling ∧ o = .throws then
        none
      else
        (Readers.step d (T.readers s) t o).map
          (fun R => ⟨processAfter d s (T.readers s) R t o, R.pc, R.seen⟩)

/-- The steps of the threads. -/
def Step (d : Device) (T : Threads) (a : Option Ref × Outcome) (T' : Threads) : Prop :=
  step d T a.1 a.2 = some T'

/-- The stream of a reader does not end before its listener has been set, and the line that is passed
on is not an event of a package that is recorded and not in `U`. -/
def Allowed (d : Device) (U : Set String) (T : Threads) (a : Option Ref × Outcome) : Prop :=
  ∀ s, T.process = .running s → Readers.ListensBeforeEnd (T.readers s) a ∧
    LogService.TracksLine d U ((T.readers s).calls a.1 a.2)

end Threads

namespace Readers

variable {d : Device} {R R' : Readers} {t : Option Ref} {o : Outcome} {r : Ref}

/-- The main thread starts the first reader in three steps. -/
theorem reachable_started (d : Device) :
  Transition.Reachable (Transition.Guarded ListensBeforeEnd (Step d)) initial started
  := by
  have hallowed : ∀ R, ListensBeforeEnd R (none, .returns) := by
    intro R
    trivial
  apply Transition.Reachable.head ⟨hallowed _, rfl⟩
  apply Transition.Reachable.head ⟨hallowed _, rfl⟩
  apply Transition.Reachable.head ⟨hallowed _, rfl⟩
  apply Transition.Reachable.init

/-- Where a reader can be. -/
theorem InTurn.status_cases (h : InTurn R) (hmain : R.pc none = .run .finished) (r : Ref) :
  (R.status r).Unstarted ∨ (R.status r).Waiting ∨ (R.status r).Past ∨ (R.status r).Active ∨
    ∃ c, R.pc (some r) = .call c .forget
  := by
  have hturn : ∀ {t b}, Turn t b R → r ≠ b → some r ≠ t →
      (R.status r).Unstarted ∨ (R.status r).Past := by
    intro t b hturn hr ht
    rcases lt_or_gt_of_ne hr with hlt | hgt
    · exact Or.inr (hturn.past r hlt ht)
    · exact Or.inl (hturn.later r hgt)
  obtain h | ⟨t, ret, b, h⟩ | ⟨b, h⟩ := h
  · cases h.main.symm.trans hmain
  · by_cases hr : r = b
    · subst hr
      exact Or.inr (Or.inl h.waiting)
    · by_cases ht : some r = t
      · subst ht
        obtain ⟨⟨⟩, -⟩ | ⟨-, r', -, ⟨⟩, rfl, -⟩ := h.returns
        right
        right
        right
        right
        rcases h.starter with hpc | ⟨hpc, -⟩
        · exact ⟨_, hpc⟩
        · exact ⟨_, hpc⟩
      · exact (hturn h.toTurn hr ht).imp_right (fun hpast => Or.inr (Or.inl hpast))
  · by_cases hr : r = b
    · subst hr
      exact Or.inr (Or.inr (Or.inr (Or.inl h.active)))
    · exact (hturn h.toTurn hr nofun).imp_right (fun hpast => Or.inr (Or.inl hpast))

/-- A reader that is about to call its listener has one. -/
theorem InTurn.listener_of_tell (h : InTurn R) (hmain : R.pc none = .run .finished)
    (hpc : R.pc (some r) = .run .tell) :
  (R.buffers.get r).listener = true
  := by
  have hstatus : (R.status r).pc = .run .tell := hpc
  obtain hr | hr | hr | hr | ⟨c, hr⟩ := h.status_cases hmain r
  · cases hr.pc.symm.trans hstatus
  · obtain ⟨p, hp, ⟨hearly, -⟩ | ⟨hover, -⟩⟩ := hr.pc
    · cases hp.symm.trans hstatus
      exact hearly.elim
    · cases hp.symm.trans hstatus
      rcases hover with heq | heq <;> cases heq
  · have hpast := hr.pc
    rw [hstatus] at hpast
    exact hpast.elim
  · rw [Status.Active, hstatus] at hr
    apply hr.2.1
  · cases hr.symm.trans hpc

/-- A call of the service returns to the loop of the reader. -/
theorem InTurn.returns (h : InTurn R) (hmain : R.pc none = .run .finished) {c : CallPc} {ret : RunPc}
    (hpc : R.pc (some r) = .call c ret) :
  ret = .forget
  := by
  have hstatus : (R.status r).pc = .call c ret := hpc
  obtain hr | hr | hr | hr | ⟨c', hr⟩ := h.status_cases hmain r
  · cases hr.pc.symm.trans hstatus
  · obtain ⟨p, hp, -⟩ := hr.pc
    cases hp.symm.trans hstatus
  · have hpast := hr.pc
    rw [hstatus] at hpast
    exact hpast.elim
  · rw [Status.Active, hstatus] at hr
    apply hr.1
  · cases hr.symm.trans hpc
    rfl

/-- The service knows a reader once it knows one. -/
theorem mLogcat_step (hlogcat : R.mLogcat ≠ none) (hstep : step d R t o = some R') :
  R'.mLogcat ≠ none
  := by
  obtain ⟨c, ret, -, rfl⟩ | ⟨r, p, a, -, -, -, rfl⟩ := step_cases hstep
  · obtain ⟨b, hb⟩ := Option.ne_none_iff_exists'.mp hlogcat
    cases c with
    | stopLogcat =>
        simp only [callStep, hb]
        apply hlogcat
    | construct => apply hlogcat
    | assign b => apply Option.some_ne_none
    | listen =>
        simp only [callStep, hb]
        apply hlogcat
  · apply hlogcat

/-- The main thread stays where it is when a reader takes a step. -/
theorem pc_none_step (hstep : step d R (some r) o = some R') :
  R'.pc none = R.pc none
  := by
  obtain ⟨c, ret, -, rfl⟩ | ⟨r, p, a, -, -, -, rfl⟩ := step_cases hstep
  · cases c with
    | stopLogcat =>
        rw [callStep]
        split
        · rfl
        · rfl
    | construct => rfl
    | assign b => rfl
    | listen =>
        rw [callStep]
        split
        · rfl
        · rfl
  · apply pc_ran_of_ne (Option.some_ne_none r).symm

/-- A step in which a thread dies. -/
theorem crashed_of_runStep {b : LogcatBuffer} {p : RunPc} {a : Ran}
    (h : b.runStep d r p o = some a) (ha : a.pc = .run .crashed) :
  (p = .calling ∧ o = .throws) ∨ (p = .tell ∧ b.listener = false)
  := by
  revert h
  fun_cases LogcatBuffer.runStep d r b p o <;> intro h <;> cases h <;>
    simp_all [LogcatBuffer.giveUp, LogcatBuffer.callNull]
  · split at ha <;> cases ha
  · split at ha <;> cases ha

/-- No thread dies but in a call of `onLineRead` with a line. -/
theorem InTurn.not_crashed (h : InTurn R) (hmain : R.pc none = .run .finished)
    (hlogcat : R.mLogcat ≠ none) (hstep : step d R (some r) o = some R')
    (hcall : ¬ (R.pc (some r) = .run .calling ∧ o = .throws)) :
  R'.pc (some r) ≠ .run .crashed
  := by
  obtain ⟨b, hb⟩ := Option.ne_none_iff_exists'.mp hlogcat
  obtain ⟨c, ret, hpc, rfl⟩ | ⟨r', p, a, ⟨⟩, hpc, ha, rfl⟩ := step_cases hstep
  · obtain rfl := h.returns hmain hpc
    cases c with
    | stopLogcat => simp [callStep, hb, goto]
    | construct => simp [callStep, goto]
    | assign b => simp [callStep, goto]
    | listen => simp [callStep, hb, goto]
  · have hpc' : (ran r a R).pc (some r) = a.pc := if_pos rfl
    rw [hpc']
    intro hcrashed
    rcases crashed_of_runStep ha hcrashed with ⟨rfl, rfl⟩ | ⟨rfl, hlistener⟩
    · exact hcall ⟨hpc, rfl⟩
    · rw [h.listener_of_tell hmain hpc] at hlistener
      cases hlistener

/-- What is heard in a step of a reader. -/
theorem heard_of_runStep {b : LogcatBuffer} {p : RunPc} {a : Ran} (h : b.runStep d r p o = some a) :
  (∃ read, p = .deliver read ∧ o = .returns ∧ b.listener = true ∧
    a.events.filterMap heard = [some read]) ∨
  ((∀ read, p = .deliver read → b.listener = false) ∧
    (a.events.filterMap heard = [] ∨ a.events.filterMap heard = [none]))
  := by
  revert h
  fun_cases LogcatBuffer.runStep d r b p o <;> intro h <;> cases h <;>
    simp_all [LogcatBuffer.giveUp, LogcatBuffer.callNull, heard]

/-- What is heard in a step is the line with which the service is called, or null, or nothing. -/
theorem heard_step (hstep : step d R t o = some R') :
  ∃ ls, R'.seen.filterMap heard = R.seen.filterMap heard ++ ls ∧
    ((∃ read, R.calls t o = some read ∧ ls = [some read]) ∨
      (R.calls t o = none ∧ (ls = [] ∨ ls = [none])))
  := by
  obtain ⟨c, ret, hpc, rfl⟩ | ⟨r, p, a, rfl, hpc, ha, rfl⟩ := step_cases hstep
  · have hcalls : R.calls t o = none := by
      unfold calls
      split
      · rw [hpc]
      · rfl
    use []
    rw [List.append_nil]
    refine ⟨?_, Or.inr ⟨hcalls, Or.inl rfl⟩⟩
    cases c with
    | stopLogcat =>
        rw [callStep]
        split
        · rfl
        · rfl
    | construct =>
        change (R.seen ++ [Event.started t]).filterMap heard = _
        rw [List.filterMap_append]
        apply List.append_nil
    | assign b => rfl
    | listen =>
        rw [callStep]
        split
        · rfl
        · rfl
  · use a.events.filterMap heard
    have hseen : (ran r a R).seen = R.seen ++ a.events := rfl
    rw [hseen, List.filterMap_append]
    refine ⟨rfl, ?_⟩
    rcases heard_of_runStep ha with ⟨read, rfl, rfl, hlistener, hheard⟩ | ⟨hlistener, hheard⟩
    · left
      use read
      refine ⟨?_, hheard⟩
      simp only [calls, hpc]
      exact if_pos hlistener
    · right
      refine ⟨?_, hheard⟩
      unfold calls
      split
      · rename_i hr
        cases hr
        rw [hpc]
        split
        · rename_i read hread
          cases hread
          rw [hlistener read rfl]
          rfl
        · rfl
      · rfl

end Readers

namespace Threads

variable {d : Device} {U : Set String} {T T' : Threads} {R₀ : Recorder} {s : LogService}
  {t : Option Ref} {o : Outcome}

/-- The process is sound, the readers take turns, and the main thread has started the first one. -/
structure Live (d : Device) (U : Set String) (T : Threads) : Prop where
  sound : T.process.Sound d U
  inTurn : ∀ s, T.process = .running s → Readers.InTurn (T.readers s)
  main : T.pc none = .run .finished

/-- The process does what the recorder does with the lines that have been heard. -/
structure Follows (d : Device) (U : Set String) (R₀ : Recorder) (T : Threads) : Prop
    extends Live d U T where
  recorder : T.process.recorder d = Recorder.run d (T.lines.map Process.Action.read) R₀
  tracked : ∀ read ∈ T.lines, LogService.TracksLine d U read

theorem sound_withReaders {R : Readers} (hs : (Process.running s).Sound d U)
    (hlogcat : R.mLogcat ≠ none) :
  (Process.running (s.withReaders R)).Sound d U
  := by
  obtain ⟨hacc, -, hagrees, hwithin⟩ := hs
  exact ⟨{ hacc with }, hlogcat, hagrees, hwithin⟩

/-- The process after a step of a thread does what the recorder does with what has been heard. -/
theorem sound_processAfter (hg : d.gson.Documented) (hw : d.Writes) (hclock : ∀ n, d.clock n ≠ 0)
    (hs : (Process.running s).Sound d U) {R R' : Readers} (hlogcat : R'.mLogcat ≠ none)
    (htracks : LogService.TracksLine d U (R.calls t o))
    (hcrash : R'.pc t ≠ .run .crashed) :
  (processAfter d s R R' t o).Sound d U ∧
    (processAfter d s R R' t o).recorder d
      = Recorder.run d (((R.calls t o).toList.map some).map Process.Action.read)
          ((Process.running s).recorder d) ∧
    ∀ s', processAfter d s R R' t o = .running s' → LogService.HasReaders R'.buffers R'.mLogcat s'
  := by
  have hs' := sound_withReaders hs hlogcat
  cases hcalls : R.calls t o with
  | none =>
      rw [processAfter, hcalls]
      simp only [if_neg hcrash]
      refine ⟨hs', rfl, ?_⟩
      rintro s' ⟨⟩
      exact ⟨rfl, rfl⟩
  | some read =>
      rw [hcalls] at htracks
      obtain ⟨hsound, hrec⟩ := hs'.read hg hw hclock htracks
      rw [processAfter, hcalls]
      refine ⟨hsound, hrec, ?_⟩
      intro s' h
      obtain ⟨hacc, -⟩ := hs'
      cases hread : LogService.onLineRead d (some read) (s.withReaders R') with
      | ok a s'' =>
          simp only [hread, Process.after] at h
          cases h
          apply LogService.hasReaders_onLineRead hacc.pattern hacc.offset hread
      | error e s'' =>
          simp only [hread, Process.after, Process.killed] at h
          cases h

/-- The recorder does nothing at the end of a stream. -/
theorem run_heard {R : Readers} {ls : List (Option String)}
    (hls : (∃ read, R.calls t o = some read ∧ ls = [some read]) ∨
      (R.calls t o = none ∧ (ls = [] ∨ ls = [none]))) (R₁ : Recorder) :
  Recorder.run d (((R.calls t o).toList.map some).map Process.Action.read) R₁
    = Recorder.run d (ls.map Process.Action.read) R₁
  := by
  rcases hls with ⟨read, hcalls, rfl⟩ | ⟨hcalls, rfl | rfl⟩
  · rw [hcalls]
    rfl
  · rw [hcalls]
    rfl
  · rw [hcalls]
    rfl

theorem tracks_heard {R : Readers} {ls : List (Option String)}
    (htracks : LogService.TracksLine d U (R.calls t o))
    (hls : (∃ read, R.calls t o = some read ∧ ls = [some read]) ∨
      (R.calls t o = none ∧ (ls = [] ∨ ls = [none]))) :
  ∀ read ∈ ls, LogService.TracksLine d U read
  := by
  intro read hread
  rcases hls with ⟨l, hcalls, rfl⟩ | ⟨-, rfl | rfl⟩
  · rw [List.mem_singleton] at hread
    rw [hread, ← hcalls]
    apply htracks
  · cases hread
  · rw [List.mem_singleton] at hread
    rw [hread]
    rintro l packageName kind ⟨⟩

/-- A step is a step of the readers of a service that runs. -/
theorem step_eq_some (hstep : Threads.step d T t o = some T') :
  ∃ s R', T.process = .running s ∧ ¬ (T.pc t = .run .calling ∧ o = .throws) ∧
    Readers.step d (T.readers s) t o = some R' ∧
    T' = ⟨processAfter d s (T.readers s) R' t o, R'.pc, R'.seen⟩
  := by
  cases hp : T.process with
  | ended file n m =>
      simp only [Threads.step, hp, reduceCtorEq] at hstep
  | running s =>
      simp only [Threads.step, hp] at hstep
      split at hstep
      · cases hstep
      · rename_i hcall
        obtain ⟨R', hR, rfl⟩ := Option.map_eq_some_iff.mp hstep
        exact ⟨s, R', rfl, hcall, hR, rfl⟩

theorem called_of_running (hp : T.process = .running s) (t : Option Ref) (o : Outcome) :
  T.called t o = (T.readers s).calls t o
  := by
  rw [called, hp]

/-- In a step the process does what the recorder does with the line with which the service is called. -/
theorem Live.step (hg : d.gson.Documented) (hw : d.Writes) (hclock : ∀ n, d.clock n ≠ 0)
    (h : Live d U T) (hallowed : Allowed d U T (t, o)) (hstep : Threads.step d T t o = some T') :
  Live d U T' ∧ T'.process.recorder d
    = Recorder.run d (((T.called t o).toList.map some).map Process.Action.read)
        (T.process.recorder d)
  := by
  obtain ⟨s, R', hp, hcall, hR, rfl⟩ := step_eq_some hstep
  obtain ⟨hlistens, htracks⟩ := hallowed s hp
  have hinTurn := h.inTurn s hp
  have hsound := h.sound
  rw [hp] at hsound
  have hlogcat : (T.readers s).mLogcat ≠ none := hsound.2.1
  cases t with
  | none => exact (Readers.step_main h.main hR).elim
  | some r =>
      have hcrash := hinTurn.not_crashed h.main hlogcat hR hcall
      obtain ⟨hsound', hrec, hreaders⟩ := sound_processAfter hg hw hclock hsound
        (Readers.mLogcat_step hlogcat hR) htracks hcrash
      rw [called_of_running hp, hp]
      refine ⟨⟨hsound', ?_, ?_⟩, hrec⟩
      · intro s' hs'
        obtain ⟨hbuffers, hlogcat'⟩ := hreaders s' hs'
        have hR' : Readers.mk s'.buffers s'.mLogcat R'.pc R'.seen = R' := by
          rw [hbuffers, hlogcat']
        change Readers.InTurn ⟨s'.buffers, s'.mLogcat, R'.pc, R'.seen⟩
        rw [hR']
        apply Readers.inTurn_step hinTurn hlistens hR
      · apply Eq.trans (Readers.pc_none_step hR) h.main

/-- In a step in which the service is called, the process reads the line, with readers that do not
matter for it. -/
theorem Live.process_called (h : Live d U T) (hstep : Threads.step d T t o = some T')
    {read : String} (hcalled : T.called t o = some read) :
  ∃ p : Process, p.Sound d U ∧ p.saveFile = T.process.saveFile ∧
    p.recorder d = T.process.recorder d ∧ T'.process = p.step d (.read (some read))
  := by
  obtain ⟨s, R', hp, -, hR, rfl⟩ := step_eq_some hstep
  have hsound := h.sound
  rw [hp] at hsound
  rw [called_of_running hp] at hcalled
  cases t with
  | none => exact (Readers.step_main h.main hR).elim
  | some r =>
      have hlogcat : R'.mLogcat ≠ none := Readers.mLogcat_step hsound.2.1 hR
      refine ⟨.running (s.withReaders R'), sound_withReaders hsound hlogcat, ?_, ?_, ?_⟩
      · rw [hp]
        rfl
      · rw [hp]
        rfl
      · rw [processAfter, hcalled]
        rfl

theorem Follows.step (hg : d.gson.Documented) (hw : d.Writes) (hclock : ∀ n, d.clock n ≠ 0)
    (h : Follows d U R₀ T) (hallowed : Allowed d U T (t, o))
    (hstep : Threads.step d T t o = some T') :
  Follows d U R₀ T'
  := by
  obtain ⟨hlive, hrec⟩ := h.toLive.step hg hw hclock hallowed hstep
  obtain ⟨s, R', hp, -, hR, rfl⟩ := step_eq_some hstep
  obtain ⟨ls, hseen, hls⟩ := Readers.heard_step hR
  have hlines : lines ⟨processAfter d s (T.readers s) R' t o, R'.pc, R'.seen⟩ = T.lines ++ ls := hseen
  refine ⟨hlive, ?_, ?_⟩
  · rw [hrec, called_of_running hp, run_heard hls, h.recorder, hlines, List.map_append,
      Recorder.run_append]
  · rw [hlines]
    intro read hread
    rcases List.mem_append.mp hread with hread | hread
    · apply h.tracked read hread
    · apply tracks_heard (hallowed s hp).2 hls read hread

/-- A process that receives lines does what the recorder does with them. -/
theorem recorder_reads (hg : d.gson.Documented) (hw : d.Writes) (hclock : ∀ n, d.clock n ≠ 0)
    {p : Process} (hp : p.Sound d U) {ls : List (Option String)}
    (hls : ∀ read ∈ ls, LogService.TracksLine d U read) :
  (Process.run d (ls.map (fun read => ⟨d.applicationInfo, .read read⟩)) p).recorder d
    = Recorder.run d (ls.map Process.Action.read) (p.recorder d)
  := by
  induction ls generalizing p with
  | nil => rfl
  | cons read ls ih =>
      have hread : (p.step d (.read read)).Sound d U ∧
          (p.step d (.read read)).recorder d = (p.recorder d).step d (.read read) :=
        hp.read_any hg hw hclock (hls read List.mem_cons_self)
      have hrest := ih hread.1 (fun l hl => hls l (List.mem_cons_of_mem _ hl))
      rw [hread.2] at hrest
      apply hrest

/-- However the threads of the readers take their steps after the service has been started, and
however often a reader is replaced by the next one, the process is as if it had received the lines
that have been passed on one after the other, as long as no stream ends before the listener of its
reader is set. -/
theorem follow_recorder (hg : d.gson.Documented) (hw : d.Writes) (hclock : ∀ n, d.clock n ≠ 0)
    {s : LogService} {pc : Option Ref → Pc} {seen : List Event}
    (hs : (Process.running s).Sound d U)
    (hreached : Transition.Reachable
      (Transition.Guarded Readers.ListensBeforeEnd (Readers.Step d)) Readers.initial
      ⟨s.buffers, s.mLogcat, pc, seen⟩)
    (hmain : pc none = .run .finished) (hseen : seen.filterMap Readers.heard = [])
    (h : Transition.Reachable (Transition.Guarded (Allowed d U) (Step d)) ⟨.running s, pc, seen⟩ T) :
  T.process.recorder d
      = (Process.run d (T.lines.map (fun read => ⟨d.applicationInfo, .read read⟩))
          (.running s)).recorder d ∧
    T.process.recorder d
      = Recorder.run d (T.lines.map Process.Action.read) ((Process.running s).recorder d) ∧
    T.process.Sound d U
  := by
  have hstart : Follows d U ((Process.running s).recorder d) ⟨.running s, pc, seen⟩ := by
    refine ⟨⟨hs, ?_, hmain⟩, ?_, ?_⟩
    · rintro s' ⟨⟩
      apply Readers.inTurn_of_reachable hreached
    · rw [lines, hseen]
      rfl
    · rw [lines, hseen]
      rintro read ⟨⟩
  have hfollows : Follows d U ((Process.running s).recorder d) T :=
    h.invariant (fun hT hstep => hT.step hg hw hclock hstep.1 hstep.2) hstart
  refine ⟨?_, hfollows.recorder, hfollows.sound⟩
  rw [hfollows.recorder, recorder_reads hg hw hclock hs hfollows.tracked]

/-! ### A run of the first reader -/

/-- The service on the phone when it has been started. -/
def startedService : LogService := LogService.created Process.onePhone none [] 0 0

theorem start_onePhone :
  Process.step Process.onePhone (.ended none 0 0) .start = .running startedService
  := by
  have hfile : LogService.Holds Process.onePhone none [] := rfl
  have hinstalled : Process.onePhone.AllInstalled [] := by
    rintro r ⟨⟩
  have hcreate := LogService.onCreate_records (d := Process.onePhone) Json.gson_documented
    (fun _ => rfl) hfile hinstalled (Device.sorts_nil _) 0 0
  rw [Process.step, hcreate]
  rfl

theorem sound_startedService :
  (Process.running startedService).Sound Process.onePhone {"com.example"}
  := by
  have hsort := Process.sound_onePhone.sortsFile_of_few Process.few_onePhone
  rw [← start_onePhone]
  apply (Process.Sound.start (d := Process.onePhone) Json.gson_documented (fun _ => rfl) _
    Process.sound_onePhone hsort).1
  rintro pkg rfl
  apply Option.some_ne_none

/-- The process when its first reader has been started. -/
def startedThreads : Threads :=
  ⟨.running startedService, Readers.started.pc, Readers.started.seen⟩

/-- The line of an event of the application. -/
def exampleLine : String :=
  (phoneEvent .created "com.example" token_example : EventLine Process.onePhone.offset).text

theorem tracks_exampleLine :
  LogService.TracksLine Process.onePhone {"com.example"} (some exampleLine)
  := by
  rintro _ packageName kind ⟨⟩ hm -
  cases Eq.trans (meaning_eventLine _).symm hm
  rfl

/-- Threads that are reached from those of the process that has been started. -/
def Reached (T : Threads) : Prop :=
  Transition.Reachable
    (Transition.Guarded (Allowed Process.onePhone {"com.example"}) (Step Process.onePhone))
    startedThreads T

theorem Reached.step (h : Reached T) (o : Outcome)
    (hallowed : Allowed Process.onePhone {"com.example"} T (some 0, o))
    (hstep : Threads.step Process.onePhone T (some 0) o = some T') :
  Reached T'
  := Relation.ReflTransGen.tail h ⟨(some 0, o), hallowed, hstep⟩

/-- A step is allowed if it is not the end of the stream and the line is tracked. -/
theorem allowed_of_tracks {r : Ref} {o : Outcome} (hp : T.process = .running s)
    (hend : o ≠ .endOfStream) (htracks : LogService.TracksLine d U ((T.readers s).calls (some r) o)) :
  Allowed d U T (some r, o)
  := by
  intro s' hs'
  obtain rfl : s' = s := Process.running.inj (hs'.symm.trans hp)
  refine ⟨?_, htracks⟩
  cases o with
  | endOfStream => exact absurd rfl hend
  | _ => trivial

theorem exists_exampleLine_heard :
  ∃ T, Reached T ∧ T.lines = [some exampleLine]
  := by
  have htracks : LogService.TracksLine Process.onePhone {"com.example"} none := by
    rintro _ packageName kind ⟨⟩
  have h₀ : Reached startedThreads := Relation.ReflTransGen.refl
  have h₁ := h₀.step .returns (allowed_of_tracks rfl nofun htracks) rfl
  have h₂ := h₁.step (.exits 0) (allowed_of_tracks rfl nofun htracks) rfl
  have h₃ := h₂.step .returns (allowed_of_tracks rfl nofun htracks) rfl
  have h₄ := h₃.step .returns (allowed_of_tracks rfl nofun htracks) rfl
  have h₅ := h₄.step .returns (allowed_of_tracks rfl nofun htracks) rfl
  have h₆ := h₅.step (.line exampleLine) (allowed_of_tracks rfl nofun htracks) rfl
  have h₇ := h₆.step .returns (allowed_of_tracks rfl nofun tracks_exampleLine) rfl
  exact ⟨_, h₇, rfl⟩

/-- The first reader reads a line and passes it on. -/
theorem follow_recorder_exampleLine :
  ∃ T, Reached T ∧ T.lines = [some exampleLine] ∧
    T.process.recorder Process.onePhone
      = (Process.run Process.onePhone
          ([some exampleLine].map (fun read => ⟨Process.onePhone.applicationInfo, .read read⟩))
          (.running startedService)).recorder Process.onePhone
  := by
  obtain ⟨T, hT, hlines⟩ := exists_exampleLine_heard
  have h := (follow_recorder Json.gson_documented (fun _ => rfl) Process.clock_onePhone
    sound_startedService (Readers.reachable_started _) rfl rfl hT).1
  rw [hlines] at h
  exact ⟨T, hT, hlines, h⟩

end Threads
