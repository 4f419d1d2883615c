import Applogr.Process.Screens
import Applogr.Process.Threads

/-!
# The whole program

The threads of the readers take their steps, the system calls the pages, and the process is started
and killed, all of this in any order.  The history of the program says what matters of what has
happened: the lines with which the service has been called, the callbacks, and the starts and ends.
An exception is an end.  The whole program is in every state what the display makes of the history.
-/

/-- The threads, the pages, and the history. -/
structure World where
  threads : Threads
  pages : Tab → Stage Page
  history : List Program.Moment

namespace World

/-- What happens: a thread takes a step; a thread takes a step in which the service is called, and a
page is called while the list is saved; a page is called; or there is another action of the process. -/
inductive Event where
  | thread (thread : Option Ref) (outcome : Outcome)
  | overlap (thread : Option Ref) (outcome : Outcome) (glimpse : Glimpse) (tab : Tab)
      (callback : Callback)
  | callback (tab : Tab) (callback : Callback)
  | action (action : Process.Action)

/-- An event, and the packages that are installed when it happens. -/
structure Moment where
  applicationInfo : String → Option ApplicationInfo
  event : Event

/-- The phone before the program is started. -/
def off (file : Option Text) (readings saves : ℕ) : World :=
  { threads := ⟨.ended file readings saves, Readers.started.pc, []⟩, pages := fun _ => .absent,
    history := [] }

/-- The process and the pages. -/
def program (w : World) : Program := ⟨w.threads.process, w.pages⟩

/-- The process and the pages change. -/
def update (P : Program) (w : World) : World :=
  { w with threads := { w.threads with process := P.process }, pages := P.pages }

/-- Events of the program are written to the history. -/
def record (d : Device) (es : List Program.Event) (w : World) : World :=
  { w with history := w.history ++ es.map (⟨d.applicationInfo, ·⟩) }

/-- The main thread has started the first reader. -/
def startReaders (w : World) : World :=
  { w with threads := ⟨w.threads.process, Readers.started.pc, Readers.started.seen⟩ }

/-- A step of a thread, with which the pages are lost if it ends the process. -/
def threadStep (d : Device) (w : World) (t : Option Ref) (o : Outcome) : Option World :=
  (Threads.step d w.threads t o).map (fun T =>
    { w with threads := T, pages := if T.process.isRunning then w.pages else fun _ => .absent })

/-- The events of the program that happen, if none of them throws. -/
def events (w : World) : Event → List Program.Event
  | .thread t o => (w.threads.called t o).toList.map (fun read => .action (.read (some read)))
  | .overlap t o glimpse tab c =>
      (w.threads.called t o).toList.map (fun read => .overlap read glimpse tab c)
  | .callback tab c => [.callback tab c]
  | .action a => [.action a]

/-- The effect of an event, if it is possible.  The history tells what it has come to. -/
def step (d : Device) (w : World) : Event → Option World
  | .thread t o =>
      (w.threadStep d t o).map (fun w' =>
        match w.threads.called t o with
        | some read => w'.record d [.action (.read (some read))]
        | none => w')
  | .overlap t o glimpse tab c =>
      match w.threads.called t o with
      | none => none
      | some read =>
          (w.threadStep d t o).map (fun w' =>
            let es := Program.outcome d w.program w'.program (.overlap read glimpse tab c)
            if w'.program.process.isRunning then
              let file := glimpse.file w.program.process.saveFile w'.program.process.saveFile
              (w'.update (w'.program.call d file tab c)).record d es
            else
              w'.record d es)
  | .callback tab c =>
      let es := Program.outcome d w.program w.program (.callback tab c)
      some ((w.update (w.program.call d w.program.process.saveFile tab c)).record d es)
  | .action (.read _) => none
  | .action a =>
      let es := Program.outcome d w.program w.program (.action a)
      let w' := (w.update (w.program.act d a)).record d es
      some (if !w.program.process.isRunning && w'.program.process.isRunning then
        w'.startReaders else w')

/-- The steps of the whole program. -/
def Step (d : Device) (w : World) (m : Moment) (w' : World) : Prop :=
  step (d.withPackages m.applicationInfo) w m.event = some w'

variable {d : Device} {U : Set String} {w w' : World} {V₀ : Display} {t : Option Ref} {o : Outcome}

/-- The packages of `U` are installed, no stream ends before the listener of its reader is set, events
of other packages are not recorded, and a list is saved for an event. -/
structure Usual (d : Device) (U : Set String) (w : World) (m : Moment) : Prop where
  installed : ∀ pkg ∈ U, m.applicationInfo pkg ≠ none
  thread : ∀ t o, m.event = .thread t o → w.threads.Allowed d U (t, o)
  overlap : ∀ t o glimpse tab c, m.event = .overlap t o glimpse tab c →
    w.threads.Allowed d U (t, o) ∧ ∀ read, w.threads.called t o = some read →
      ∃ packageName kind, meaning d.offset read = .event packageName kind
  action : ∀ a, m.event = .action a → Process.Moment.Usual d U ⟨m.applicationInfo, a⟩

/-- The program does what the display does with the history, and its readers take turns. -/
structure Refines (d : Device) (U : Set String) (V₀ : Display) (w : World) : Prop where
  program : Program.Refines d U w.program (Display.run d w.history V₀)
  live : w.threads.Live d U

/-! ### Steps of threads -/

theorem run_record (d : Device) (es : List Program.Event) (w : World) (V₀ : Display) :
  Display.run d (w.record d es).history V₀
    = es.foldl (Display.step d) (Display.run d w.history V₀)
  := by
  rw [record, Display.run_append, Display.run_map]
  rfl

/-- After a step of a thread, the program does what the display does with the line with which the
service is called in the step. -/
theorem Refines.threadStep (hg : d.gson.Documented) (hw : d.Writes) (hclock : ∀ n, d.clock n ≠ 0)
    (h : Refines d U V₀ w) (hallowed : w.threads.Allowed d U (t, o))
    (hstep : w.threadStep d t o = some w') :
  w'.threads.Live d U ∧ w'.history = w.history ∧
    (∀ read, w.threads.called t o = some read →
      Program.Refines d U w'.program ((Display.run d w.history V₀).act d (.read (some read)))) ∧
    (w.threads.called t o = none → Program.Refines d U w'.program (Display.run d w.history V₀))
  := by
  obtain ⟨T', hT, rfl⟩ := Option.map_eq_some_iff.mp hstep
  obtain ⟨hlive, hrec⟩ := h.live.step hg hw hclock hallowed hT
  obtain ⟨s, -, hp, -⟩ := Threads.step_eq_some hT
  have hrecorder : w.threads.process.recorder d = (Display.run d w.history V₀).recorder :=
    h.program.recorder
  have hrecording : (Display.run d w.history V₀).recorder.recording = true := by
    rw [← hrecorder, hp]
    rfl
  have hrunning : T'.process.isRunning = (T'.process.recorder d).recording :=
    (Process.recording_recorder T'.process).symm
  rw [hrecorder] at hrec
  refine ⟨hlive, rfl, ?_, ?_⟩
  · intro read hcalled
    rw [hcalled] at hrec
    refine ⟨hlive.sound, hrec, ?_⟩
    intro tab
    rw [hrec] at hrunning
    change _ = (Recorder.step d _ (.read (some read))).recording at hrunning
    rw [Recorder.recording_read, hrecording, Bool.true_and] at hrunning
    simp only [Display.act, Recorder.ends, hrecording, Bool.true_and, hrunning]
    cases Recorder.stops d (.read (some read)) with
    | true => trivial
    | false => apply h.program.pages
  · intro hcalled
    rw [hcalled] at hrec
    refine ⟨hlive.sound, hrec, ?_⟩
    intro tab
    rw [hrec] at hrunning
    change _ = (Display.run d w.history V₀).recorder.recording at hrunning
    simp only [hrunning, hrecording, if_true]
    apply h.program.pages

/-! ### Steps of the whole program -/

theorem Refines.thread (hg : d.gson.Documented) (hw : d.Writes) (hclock : ∀ n, d.clock n ≠ 0)
    (h : Refines d U V₀ w) (hallowed : w.threads.Allowed d U (t, o))
    (hstep : step d w (.thread t o) = some w') :
  Refines d U V₀ w'
  := by
  obtain ⟨w₁, hw₁, rfl⟩ := Option.map_eq_some_iff.mp hstep
  obtain ⟨hlive, hhistory, hsome, hnone⟩ := h.threadStep hg hw hclock hallowed hw₁
  cases hcalled : w.threads.called t o with
  | none =>
      refine ⟨?_, hlive⟩
      rw [hhistory]
      apply hnone hcalled
  | some read =>
      refine ⟨?_, hlive⟩
      rw [run_record, hhistory]
      apply hsome read hcalled

/-- When a page is called, the process and its threads stay as they are, or the process ends. -/
theorem live_call {V : Display} (h : Program.Refines d U w.program V) (hlive : w.threads.Live d U)
    {file : Option Text} {L : Option (Ledger String Int64 Int32)}
    (hfile : ∀ L' ∈ L, Process.Readable d file L') (tab : Tab) (c : Callback) :
  (w.update (w.program.call d file tab c)).threads.Live d U
  := by
  cases hthrows : w.program.throws d file tab c with
  | true =>
      obtain ⟨hcall, -⟩ := h.call_of_throws hthrows
      rw [hcall]
      refine ⟨hlive.sound.killed.1, ?_, hlive.main⟩
      intro s hs
      have hended : Process.killed w.threads.process = .running s := hs
      cases hp : w.threads.process with
      | ended file n m =>
          rw [hp] at hended
          cases hended
      | running s' =>
          rw [hp] at hended
          cases hended
  | false =>
      have hprocess : (w.program.call d file tab c).process = w.threads.process :=
        (h.call_of_returns hfile hthrows).1
      refine ⟨?_, ?_, hlive.main⟩
      · change (w.program.call d file tab c).process.Sound d U
        rw [hprocess]
        apply hlive.sound
      · intro s hs
        apply hlive.inTurn s (hprocess.symm.trans hs)

theorem Refines.callback (h : Refines d U V₀ w) (hU : ∀ pkg ∈ U, d.applicationInfo pkg ≠ none)
    (tab : Tab) (c : Callback) :
  Refines d U V₀
    ((w.update (w.program.call d w.program.process.saveFile tab c)).record d
      (Program.outcome d w.program w.program (.callback tab c)))
  := by
  have hfile := h.program.sound.readable hU
  constructor
  · rw [run_record]
    apply h.program.callback hU
  · apply live_call h.program h.live (L := some (w.program.process.recorder d).ledger)
    rintro _ ⟨⟩
    apply hfile

/-- While the list is saved for an event with which the service is called, a page that does not read
the file in pieces reads a ledger. -/
theorem Refines.readable_glimpse (hg : d.gson.Documented) (hw : d.Writes)
    (hclock : ∀ n, d.clock n ≠ 0) (h : Refines d U V₀ w)
    (hU : ∀ pkg ∈ U, d.applicationInfo pkg ≠ none) (hallowed : w.threads.Allowed d U (t, o))
    (hstep : w.threadStep d t o = some w') {read packageName : String} {kind : EventKind}
    (hcalled : w.threads.called t o = some read)
    (hm : meaning d.offset read = .event packageName kind)
    (hrunning : w'.program.process.isRunning = true) (glimpse : Glimpse) :
  let V := Display.run d w.history V₀
  ∀ L ∈ glimpse.ledger V.recorder.ledger (V.act d (.read (some read))).recorder.ledger,
    Process.Readable d (glimpse.file w.program.process.saveFile w'.program.process.saveFile) L
  := by
  intro V
  have hact := (h.threadStep hg hw hclock hallowed hstep).2.2.1 read hcalled
  obtain ⟨T', hT, rfl⟩ := Option.map_eq_some_iff.mp hstep
  obtain ⟨p, hsound, hfile, hrec, hprocess⟩ := h.live.process_called hT hcalled
  obtain ⟨s, -, hp, -⟩ := Threads.step_eq_some hT
  have htracks : LogService.TracksLine d U (some read) := by
    rw [← hcalled, Threads.called_of_running hp]
    apply (hallowed s hp).2
  have hbefore : w.threads.process.recorder d = V.recorder := h.program.recorder
  have hafter : T'.process.recorder d = (V.act d (.read (some read))).recorder := hact.recorder
  change T'.process.isRunning = true at hrunning
  change ∀ L ∈ _, Process.Readable d (glimpse.file w.threads.process.saveFile T'.process.saveFile) L
  rw [← hbefore, ← hafter, ← hfile, ← hrec, hprocess]
  rw [hprocess] at hrunning
  apply hsound.readable_glimpse hg hw hclock hU hm htracks hrunning

theorem Refines.overlap (hg : d.gson.Documented) (hw : d.Writes) (hclock : ∀ n, d.clock n ≠ 0)
    (h : Refines d U V₀ w) (hU : ∀ pkg ∈ U, d.applicationInfo pkg ≠ none)
    (hallowed : w.threads.Allowed d U (t, o))
    (hevent : ∀ read, w.threads.called t o = some read →
      ∃ packageName kind, meaning d.offset read = .event packageName kind)
    {glimpse : Glimpse} {tab : Tab} {c : Callback}
    (hstep : step d w (.overlap t o glimpse tab c) = some w') :
  Refines d U V₀ w'
  := by
  rw [step] at hstep
  cases hcalled : w.threads.called t o with
  | none =>
      rw [hcalled] at hstep
      cases hstep
  | some read =>
      simp only [hcalled] at hstep
      obtain ⟨w₁, hw₁, rfl⟩ := Option.map_eq_some_iff.mp hstep
      obtain ⟨hlive, hhistory, hsome, -⟩ := h.threadStep hg hw hclock hallowed hw₁
      have hact := hsome read hcalled
      split
      · rename_i hrunning
        obtain ⟨packageName, kind, hm⟩ := hevent read hcalled
        have hfile := h.readable_glimpse hg hw hclock hU hallowed hw₁ hcalled hm hrunning glimpse
        refine ⟨?_, live_call hact hlive hfile tab c⟩
        rw [run_record]
        change Program.Refines d U _ (_ |> List.foldl _ (Display.run d w₁.history V₀))
        rw [hhistory]
        apply Program.Refines.overlap hact hrunning hfile
      · rename_i hended
        refine ⟨?_, hlive⟩
        rw [run_record, hhistory]
        apply Program.Refines.overlap_ended hact (Bool.eq_false_iff.mpr hended)

/-! ### Actions -/

/-- A service that is started has started its first reader. -/
theorem readers_of_start {file : Option Text} {n m : ℕ} (hg : d.gson.Documented) (hw : d.Writes)
    (hU : ∀ pkg ∈ U, d.applicationInfo pkg ≠ none) (hp : (Process.ended file n m).Sound d U)
    {s : LogService} (hs : Process.step d (.ended file n m) .start = .running s) :
  s.buffers = Readers.started.buffers ∧ s.mLogcat = Readers.started.mLogcat
  := by
  by_cases hsort : d.SortsFile file
  · obtain ⟨rs, hfile, -, hwithin⟩ := hp
    have hcreate := LogService.onCreate_records hg hw hfile
      (Process.allInstalled_of_within hwithin hU) (hfile.sortsFile_iff.mp hsort) n m
    rw [Process.step, hcreate] at hs
    cases hs
    exact ⟨rfl, rfl⟩
  · rw [hp.start_refused hg hw hU hsort] at hs
    cases hs

/-- After an action that is not a line, a service runs if it has run before or has been started. -/
theorem running_of_step {p : Process} {a : Process.Action} (ha : ∀ line, a ≠ .read line)
    {s : LogService} (h : p.step d a = .running s) :
  p = .running s ∨ ∃ file n m, p = .ended file n m ∧ a = .start
  := by
  cases a with
  | start =>
      cases p with
      | ended file n m => exact Or.inr ⟨file, n, m, rfl, rfl⟩
      | running s' => exact Or.inl h
  | startKilled k =>
      cases p with
      | ended file n m => cases h
      | running s' => exact Or.inl h
  | read line => exact absurd rfl (ha line)
  | kill =>
      rw [Process.step_kill] at h
      cases h
  | resume page =>
      rcases Process.step_resume_cases d p page with ⟨page', -, h'⟩ | ⟨e, page', -, h'⟩
      · exact Or.inl (h'.symm.trans h)
      · cases h'.symm.trans h

theorem step_action {a : Process.Action} (hstep : step d w (.action a) = some w') :
  (∀ line, a ≠ .read line) ∧
    w'.program = w.program.act d a ∧
    w'.history
      = w.history ++ [⟨d.applicationInfo, .action (w.program.process.outcome d a)⟩] ∧
    ((w'.threads.pc = w.threads.pc ∧ w'.threads.seen = w.threads.seen ∧
      (w.program.process.isRunning = true ∨ w'.program.process.isRunning = false)) ∨
    (w'.threads.pc = Readers.started.pc ∧ w'.threads.seen = Readers.started.seen ∧
      w.program.process.isRunning = false))
  := by
  have ha : ∀ line, a ≠ .read line := by
    rintro line rfl
    cases hstep
  let w₁ := (w.update (w.program.act d a)).record d (Program.outcome d w.program w.program (.action a))
  have hw' : w' = if !w.program.process.isRunning && w₁.program.process.isRunning then
      w₁.startReaders else w₁ := by
    cases a with
    | read line => exact absurd rfl (ha line)
    | _ => exact (Option.some.inj hstep).symm
  refine ⟨ha, ?_⟩
  rw [hw']
  cases hbefore : w.program.process.isRunning with
  | true => exact ⟨rfl, rfl, Or.inl ⟨rfl, rfl, Or.inl rfl⟩⟩
  | false =>
      cases hafter : w₁.program.process.isRunning with
      | true => exact ⟨rfl, rfl, Or.inr ⟨rfl, rfl, rfl⟩⟩
      | false => exact ⟨rfl, rfl, Or.inl ⟨rfl, rfl, Or.inr hafter⟩⟩

theorem Refines.action (hg : d.gson.Documented) (hw : d.Writes) (hclock : ∀ n, d.clock n ≠ 0)
    (h : Refines d U V₀ w) {a : Process.Action}
    (hu : Process.Moment.Usual d U ⟨d.applicationInfo, a⟩)
    (hstep : step d w (.action a) = some w') :
  Refines d U V₀ w'
  := by
  have hact := h.program.act hg hw hclock hu
  obtain ⟨ha, hprogram, hhistory, hthreads⟩ := step_action hstep
  have hprocess : w'.threads.process = w.threads.process.step d a :=
    congrArg Program.process hprogram
  constructor
  · rw [hprogram, hhistory, Display.run, List.foldl_concat]
    apply hact
  · have hsound : w'.threads.process.Sound d U := by
      rw [hprocess]
      apply hact.sound
    rcases hthreads with ⟨hpc, hseen, hrunning⟩ | ⟨hpc, hseen, hended⟩
    · refine ⟨hsound, ?_, ?_⟩
      · intro s hs
        rcases running_of_step ha (hprocess.symm.trans hs) with hp | ⟨file, n, m, hp, -⟩
        · rw [Threads.readers, hpc, hseen]
          apply h.live.inTurn s hp
        · rcases hrunning with hrunning | hrunning
          · change w.threads.process.isRunning = true at hrunning
            rw [hp] at hrunning
            cases hrunning
          · change w'.threads.process.isRunning = false at hrunning
            rw [hs] at hrunning
            cases hrunning
      · rw [hpc]
        apply h.live.main
    · refine ⟨hsound, ?_, ?_⟩
      · intro s hs
        rcases running_of_step ha (hprocess.symm.trans hs) with hp | ⟨file, n, m, hp, rfl⟩
        · change w.threads.process.isRunning = false at hended
          rw [hp] at hended
          cases hended
        · have hbefore := h.live.sound
          rw [hp] at hbefore
          rw [hprocess, hp] at hs
          obtain ⟨hbuffers, hlogcat⟩ := readers_of_start hg hw hu.installed hbefore hs
          rw [Threads.readers, hpc, hseen, hbuffers, hlogcat]
          apply Readers.inTurn_of_reachable (Readers.reachable_started d)
      · rw [hpc]
        rfl

/-! ### Runs of the whole program -/

theorem refines_withPackages (info : String → Option ApplicationInfo) :
  Refines (d.withPackages info) U V₀ w ↔ Refines d U V₀ w
  := by
  constructor
  · rintro ⟨hprogram, hsound, hinTurn, hmain⟩
    exact ⟨(Program.refines_withPackages info).mp hprogram,
      (Process.sound_withPackages info).mp hsound, hinTurn, hmain⟩
  · rintro ⟨hprogram, hsound, hinTurn, hmain⟩
    exact ⟨(Program.refines_withPackages info).mpr hprogram,
      (Process.sound_withPackages info).mpr hsound, hinTurn, hmain⟩

theorem Refines.step (hg : d.gson.Documented) (hw : d.Writes) (hclock : ∀ n, d.clock n ≠ 0)
    (h : Refines d U V₀ w) {m : Moment} (hu : Usual d U w m) (hstep : Step d w m w') :
  Refines d U V₀ w'
  := by
  obtain ⟨info, e⟩ := m
  have h' := (refines_withPackages info).mpr h
  apply (refines_withPackages info).mp
  cases e with
  | thread t o =>
      apply Refines.thread (d := d.withPackages info) hg hw hclock h' (hu.thread t o rfl) hstep
  | overlap t o glimpse tab c =>
      obtain ⟨hallowed, hevent⟩ := hu.overlap t o glimpse tab c rfl
      apply Refines.overlap (d := d.withPackages info) hg hw hclock h' hu.installed hallowed hevent
        hstep
  | callback tab c =>
      cases hstep
      apply Refines.callback (d := d.withPackages info) h' hu.installed
  | action a =>
      obtain ⟨hinstalled, htracked, hcreated⟩ := hu.action a rfl
      apply Refines.action (d := d.withPackages info) hg hw hclock h'
        ⟨hinstalled, htracked, hcreated⟩ hstep

/-! ### What the history tells -/

/-- The history tells what happens in a step, unless the sort does not accept the file that is read, or
a page reads the file in pieces. -/
def Regular (d : Device) (V : Display) (w : World) (m : Moment) (w' : World) : Prop :=
  w'.history = w.history ++ (w.events m.event).map (⟨m.applicationInfo, ·⟩) ∨
    ∃ e ∈ w.events m.event,
      ¬ d.SortsFile (Program.fileRead w.program w'.program e) ∨ V.ReadsPieces e

/-- A step is regular if an event of the program is, and the history tells what it comes to. -/
theorem regular_of_outcome {V : Display} {m : Moment} {P' : Program} {e : Program.Event}
    (hevents : w.events m.event = [e]) (h : Program.Regular d w.program P' V e)
    (hhistory : w'.history = w.history
      ++ (Program.outcome d w.program P' e).map (⟨m.applicationInfo, ·⟩))
    (hfile : Program.fileRead w.program w'.program e = Program.fileRead w.program P' e) :
  Regular d V w m w'
  := by
  rcases h with houtcome | h
  · left
    rw [hhistory, houtcome, hevents]
  · right
    rw [← hfile] at h
    exact ⟨e, by rw [hevents]; exact List.mem_singleton_self e, h⟩

theorem saveFile_call (d : Device) (P : Program) (file : Option Text) (tab : Tab) (c : Callback) :
  (P.call d file tab c).process.saveFile = P.process.saveFile
  := by
  rw [Program.call]
  cases Stage.call (Page.methods d file {}) c (P.pages tab) with
  | none => apply Process.saveFile_killed
  | some stage => rfl

theorem Refines.regular_callback (h : Refines d U V₀ w)
    (hU : ∀ pkg ∈ U, d.applicationInfo pkg ≠ none) {tab : Tab} {c : Callback}
    (hstep : World.step d w (.callback tab c) = some w') :
  Regular d (Display.run d w.history V₀) w ⟨d.applicationInfo, .callback tab c⟩ w'
  := by
  have hhistory : w'.history = w.history
      ++ (Program.outcome d w.program w.program (.callback tab c)).map (⟨d.applicationInfo, ·⟩) := by
    rw [← Option.some.inj hstep]
    rfl
  exact regular_of_outcome rfl (h.program.regular_callback hU tab c) hhistory rfl

theorem Refines.regular_overlap (hg : d.gson.Documented) (hw : d.Writes)
    (hclock : ∀ n, d.clock n ≠ 0) (h : Refines d U V₀ w)
    (hU : ∀ pkg ∈ U, d.applicationInfo pkg ≠ none) (hallowed : w.threads.Allowed d U (t, o))
    (hevent : ∀ read, w.threads.called t o = some read →
      ∃ packageName kind, meaning d.offset read = .event packageName kind)
    {glimpse : Glimpse} {tab : Tab} {c : Callback}
    (hstep : World.step d w (.overlap t o glimpse tab c) = some w') :
  Regular d (Display.run d w.history V₀) w ⟨d.applicationInfo, .overlap t o glimpse tab c⟩ w'
  := by
  rw [World.step] at hstep
  cases hcalled : w.threads.called t o with
  | none =>
      rw [hcalled] at hstep
      cases hstep
  | some read =>
      simp only [hcalled] at hstep
      obtain ⟨w₁, hw₁, rfl⟩ := Option.map_eq_some_iff.mp hstep
      obtain ⟨-, hhistory, hsome, -⟩ := h.threadStep hg hw hclock hallowed hw₁
      obtain ⟨packageName, kind, hm⟩ := hevent read hcalled
      have hregular : Program.Regular d w.program w₁.program (Display.run d w.history V₀)
          (.overlap read glimpse tab c) :=
        Program.Refines.regular_overlap (hsome read hcalled)
          (fun hrun => h.readable_glimpse hg hw hclock hU hallowed hw₁ hcalled hm hrun glimpse)
      have hevents : w.events (.overlap t o glimpse tab c) = [.overlap read glimpse tab c] := by
        rw [events, hcalled]
        rfl
      apply regular_of_outcome hevents hregular
      · rw [← hhistory]
        split <;> rfl
      · split
        · have hfile := saveFile_call d w₁.program
            (glimpse.file w.program.process.saveFile w₁.program.process.saveFile) tab c
          exact congrArg (fun f => glimpse.file w.program.process.saveFile f) hfile
        · rfl

/-- The history tells what happens in a step, unless the sort does not accept the file that is read, or
a page reads the file in pieces. -/
theorem Refines.regular (hg : d.gson.Documented) (hw : d.Writes) (hclock : ∀ n, d.clock n ≠ 0)
    (h : Refines d U V₀ w) {m : Moment} (hu : Usual d U w m) (hstep : Step d w m w') :
  Regular d (Display.run d w.history V₀) w m w'
  := by
  obtain ⟨info, e⟩ := m
  have h' := (refines_withPackages info).mpr h
  cases e with
  | thread t o =>
      left
      obtain ⟨w₁, hw₁, rfl⟩ := Option.map_eq_some_iff.mp hstep
      obtain ⟨T', -, rfl⟩ := Option.map_eq_some_iff.mp hw₁
      rw [events]
      cases w.threads.called t o with
      | none => exact (List.append_nil _).symm
      | some read => rfl
  | overlap t o glimpse tab c =>
      obtain ⟨hallowed, hevent⟩ := hu.overlap t o glimpse tab c rfl
      apply Refines.regular_overlap (d := d.withPackages info) hg hw hclock h' hu.installed hallowed
        hevent hstep
  | callback tab c =>
      apply Refines.regular_callback (d := d.withPackages info) h' hu.installed hstep
  | action a =>
      obtain ⟨-, -, hhistory, -⟩ := step_action hstep
      by_cases hsort : d.SortsFile w.program.process.saveFile
      · left
        have houtcome := Process.outcome_of_sortsFile (d := d.withPackages info) hsort a
        change w.program.process.outcome (d.withPackages info) a = a at houtcome
        rw [hhistory, houtcome]
        rfl
      · exact Or.inr ⟨.action a, List.mem_singleton_self _, Or.inl hsort⟩

open Process (onePhone)
open Threads (exampleLine startedService)

/-- What is reached on the phone, on which there is no file. -/
def Reached (w : World) : Prop :=
  Transition.Reachable (Transition.Guarded (Usual onePhone {"com.example"}) (Step onePhone))
    (off none 0 0) w

theorem Reached.step (h : Reached w) {e : Event}
    (hu : Usual onePhone {"com.example"} w ⟨onePhone.applicationInfo, e⟩)
    (hstep : World.step onePhone w e = some w') :
  Reached w'
  := Relation.ReflTransGen.tail h ⟨⟨onePhone.applicationInfo, e⟩, hu, hstep⟩

/-- The page of the launcher has been created and shown. -/
def opened : World :=
  let created : Page :=
    { heap := Heap.empty, mAppList := some AppList.new, mSaveFile := some applistFile,
      mInflater := none, mEntryAdapter := none }
  { threads := ⟨.ended none 0 0, Readers.started.pc, []⟩
    pages := Function.update (Function.update (fun _ => .absent) .launcher (.created created)) .launcher
      (.viewed { created with mInflater := some {}, mEntryAdapter := some {} })
    history :=
      [⟨onePhone.applicationInfo, .callback .launcher .create⟩,
        ⟨onePhone.applicationInfo, .callback .launcher .createView⟩] }

end World
