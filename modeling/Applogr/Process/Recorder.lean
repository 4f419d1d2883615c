import Applogr.Accounting.ForegroundTime
import Applogr.Foundation.Restarts
import Applogr.Process.Accounts
import Applogr.Process.Lost
import Mathlib.Data.Set.Card

/-!
# The recorder

What the program is for can be said without lists, objects, files and pages.  A recorder keeps a
ledger of the packages, and it records or it does not.  When it records, it enters each event of a
line into the ledger, and it is stopped by an incomplete line.  When it is stopped, the ledger
forgets the current package and keeps the rest.

If saves succeed and the packages that are recorded stay installed, then the process does exactly
this, however often it is killed and started again.  When the sort does not accept the launch counts in
the file, a service that is started and a page that is resumed end the process, as if it were killed.
-/

/-- A ledger of packages, and whether events are recorded. -/
structure Recorder where
  ledger : Ledger String Int64 Int32
  recording : Bool

namespace Recorder

/-- The entry of an event. -/
def entry (d : Device) (packageName : String) (kind : EventKind) : Ledger.Entry String :=
  .event packageName (!d.excluded packageName) (decide (kind ≠ .resumed))

/-- The recorder is stopped. -/
def stopped (R : Recorder) : Recorder := ⟨R.ledger.restart, false⟩

/-- The effect of an action. -/
def step (d : Device) (R : Recorder) : Process.Action → Recorder
  | .start => { R with recording := true }
  | .read (some line) =>
      if R.recording then
        match meaning d.offset line with
        | .incomplete => R.stopped
        | .nothing => R
        | .event packageName kind =>
            { R with ledger := R.ledger.add d.clock (entry d packageName kind) }
      else
        R
  | .kill => R.stopped
  | _ => R

/-- The effect of a sequence of actions. -/
def run (d : Device) (actions : List Process.Action) (R : Recorder) : Recorder :=
  actions.foldl (step d) R

variable {d : Device}

theorem run_append (d : Device) (as as' : List Process.Action) (R : Recorder) :
  run d (as ++ as') R = run d as' (run d as R)
  := List.foldl_append

/-- The entries of an action, which depend on whether events are recorded. -/
def entriesOf (d : Device) (recording : Bool) : Process.Action → List (Ledger.Entry String)
  | .read (some line) =>
      if recording then
        match meaning d.offset line with
        | .incomplete => [.restart]
        | .nothing => []
        | .event packageName kind => [entry d packageName kind]
      else
        []
  | .kill => [.restart]
  | _ => []

/-- The entries of a sequence of actions. -/
def entries (d : Device) : List Process.Action → Recorder → List (Ledger.Entry String)
  | [], _ => []
  | a :: as, R => entriesOf d R.recording a ++ entries d as (R.step d a)

/-- The ledger with the events that the recorder enters, if it is not stopped in between. -/
def uninterrupted (d : Device) (as : List Process.Action) (R : Recorder) :
  Ledger String Int64 Int32
  := Ledger.addAll d.clock (Ledger.uninterrupted (entries d as R)) R.ledger

/-- An action enters its entries into the ledger. -/
theorem ledger_step (d : Device) (R : Recorder) (a : Process.Action) :
  (R.step d a).ledger = Ledger.addAll d.clock (entriesOf d R.recording a) R.ledger
  := by
  cases a with
  | start => rfl
  | startKilled k => rfl
  | read line =>
      cases line with
      | none => rfl
      | some line =>
          rw [step, entriesOf]
          split
          · cases meaning d.offset line <;> rfl
          · rfl
  | kill => rfl
  | resume page => rfl

/-- A sequence of actions enters its entries into the ledger. -/
theorem ledger_run (d : Device) (as : List Process.Action) (R : Recorder) :
  (R.run d as).ledger = Ledger.addAll d.clock (entries d as R) R.ledger
  := by
  induction as generalizing R with
  | nil => rfl
  | cons a as ih =>
      rw [run, List.foldl_cons, ← run, ih, ledger_step, entries, Ledger.addAll_append]

/-- Whether an action stops the recorder while it records. -/
def stops (d : Device) : Process.Action → Bool
  | .read (some line) =>
      match meaning d.offset line with
      | .incomplete => true
      | _ => false
  | .kill => true
  | _ => false

theorem restarts_entriesOf_le (d : Device) (recording : Bool) (a : Process.Action) :
  Ledger.restarts (entriesOf d recording a) ≤ if stops d a then 1 else 0
  := by
  cases a with
  | start => apply le_refl
  | startKilled k => apply le_refl
  | read line =>
      cases line with
      | none => apply le_refl
      | some line =>
          rw [entriesOf, stops]
          split
          · cases meaning d.offset line with
            | incomplete => apply le_refl
            | nothing => apply le_refl
            | event packageName kind => apply le_refl
          · apply Nat.zero_le
  | kill => apply le_refl
  | resume page => apply le_refl

/-- The ledger is restarted no more often than there are actions that stop the recorder. -/
theorem restarts_entries_le (d : Device) (as : List Process.Action) (R : Recorder) :
  Ledger.restarts (entries d as R) ≤ as.countP (stops d)
  := by
  induction as generalizing R with
  | nil => apply le_refl
  | cons a as ih =>
      have hfirst := restarts_entriesOf_le d R.recording a
      have hrest := ih (R.step d a)
      rw [entries, Ledger.restarts_append, List.countP_cons]
      omega

end Recorder

/-! ### The recorder of a process -/

namespace Process

variable {d : Device} {p : Process} {U : Set String}

/-- A clock that shows positive times does not show zero. -/
theorem clock_ne_zero (hc : d.SteadyClock) (n : ℕ) :
  d.clock n ≠ 0
  := by
  intro h
  have hpos := hc.positive n
  rw [h] at hpos
  apply Int64.lt_irrefl hpos

/-- The recorder that a process implements. -/
def recorder (d : Device) : Process → Recorder
  | ended file n _ => ⟨Ledger.ofRecords (d.fileEntries file).reduceOption n, false⟩
  | running s => ⟨s.accounts, true⟩

/-- What an action comes to.  A service that is started and a page that is resumed end the process if
the sort does not accept the launch counts in the file. -/
def outcome (d : Device) : Process → Action → Action
  | ended file _ _, .start =>
      if d.SortsFile file then .start else .startKilled (createStatements d).length
  | p, .resume page => if d.SortsFile p.saveFile then .resume page else .kill
  | _, a => a

/-- What the actions of a sequence come to. -/
def outcomes (d : Device) : Process → List Moment → List Action
  | _, [] => []
  | p, m :: ms =>
      outcome d p m.action :: outcomes d (step (d.withPackages m.applicationInfo) p m.action) ms

theorem outcomes_append (d : Device) (ms ms' : List Moment) (p : Process) :
  p.outcomes d (ms ++ ms') = p.outcomes d ms ++ (run d ms p).outcomes d ms'
  := by
  induction ms generalizing p with
  | nil => rfl
  | cons m ms ih => exact congrArg (List.cons _) (ih _)

/-- If the sort accepts the file, every action comes to what it is. -/
theorem outcome_of_sortsFile (h : d.SortsFile p.saveFile) (a : Action) :
  p.outcome d a = a
  := by
  cases a with
  | start =>
      cases p with
      | ended file n m => exact if_pos h
      | running s => rfl
  | resume page =>
      have hif : (if d.SortsFile p.saveFile then Action.resume page else .kill) = .resume page :=
        if_pos h
      cases p <;> exact hif
  | _ => cases p <;> rfl

/-- If the sort does not accept the file, a page that is resumed ends the process. -/
theorem outcome_resume_refused (h : ¬ d.SortsFile p.saveFile) (page : LauncherFragment) :
  p.outcome d (.resume page) = .kill
  := by
  cases p <;> exact if_neg h

@[simp]
theorem outcome_startKilled (d : Device) (p : Process) (k : ℕ) :
  p.outcome d (.startKilled k) = .startKilled k
  := by
  cases p <;> rfl

@[simp]
theorem outcome_read (d : Device) (p : Process) (line : Option String) :
  p.outcome d (.read line) = .read line
  := by
  cases p <;> rfl

@[simp]
theorem outcome_kill (d : Device) (p : Process) :
  p.outcome d .kill = .kill
  := by
  cases p <;> rfl

/-- The file holds the records of the list, which have packages of the set `U`. -/
def Sound (d : Device) (U : Set String) : Process → Prop
  | ended file _ _ => ∃ rs, LogService.Holds d file rs ∧ Orderly rs ∧ Within U rs
  | running s => s.Accounted d ∧ s.mLogcat ≠ none ∧ LogService.FileAgrees d s ∧ Within U s.records

/-- The packages of `U` are installed, events of other packages are not recorded, and pages have been
created. -/
structure Moment.Usual (d : Device) (U : Set String) (m : Moment) : Prop where
  installed : ∀ pkg ∈ U, m.applicationInfo pkg ≠ none
  tracked : m.action.Tracks d U
  created : ∀ page, m.action = .resume page → page.mSaveFile = some applistFile

theorem allInstalled_of_within {rs : List Record} (hrs : Within U rs)
    (hU : ∀ pkg ∈ U, d.applicationInfo pkg ≠ none) :
  d.AllInstalled rs
  := fun r hr pkg hpkg => hU pkg (hrs r hr pkg hpkg)

/-- The entries of a file that holds records. -/
theorem fileEntries_of_holds {file : Option Text} {rs : List Record}
    (h : LogService.Holds d file rs) :
  (d.fileEntries file).reduceOption = rs
  := by
  cases file with
  | none =>
      obtain rfl : rs = [] := h
      rfl
  | some t =>
      have hd : d.gson.fromJson t = .ok (some (Document.ofRecords rs)) := h
      have hentries : d.fileEntries (some t) = rs.map some := by
        simp only [Device.fileEntries, hd, Document.ofRecords, Option.getD_some]
      rw [hentries, List.reduceOption, List.filterMap_map]
      apply List.filterMap_some

/-- A process that is killed keeps its file, and its recorder is stopped. -/
theorem Sound.killed (hp : p.Sound d U) :
  p.killed.Sound d U ∧ p.killed.recorder d = (p.recorder d).stopped
  := by
  cases p with
  | ended file n m => exact ⟨hp, rfl⟩
  | running s =>
      obtain ⟨hacc, -, ⟨t, rs, ht, hd, hperm⟩, hwithin⟩ := hp
      have hrs : Orderly rs := hacc.orderly.perm hperm
      have hholds : LogService.Holds d s.saveFile rs := by
        rw [ht]
        apply hd
      constructor
      · exact ⟨rs, hholds, hrs, hwithin.subset hperm.subset⟩
      · have hledger := Ledger.ofRecords_perm hrs hperm s.readings
        change (⟨Ledger.ofRecords (d.fileEntries s.saveFile).reduceOption s.readings, false⟩ :
          Recorder) = _
        rw [fileEntries_of_holds hholds, hledger, ← LogService.restart_accounts]
        rfl

/-- If there are only few packages, the sort accepts the file. -/
theorem Sound.sortsFile_of_few (hp : p.Sound d U) (hfew : U.encard < minMerge) :
  d.SortsFile p.saveFile
  := by
  obtain ⟨rs, hfile, hrs, hwithin⟩ := hp.killed.1
  apply hfile.sortsFile_iff.mpr (d.sorts_of_short _)
  let names := rs.map (fun r => r.packageName.getD "")
  have hname : ∀ r ∈ rs, r.packageName = some (r.packageName.getD "") := by
    intro r hr
    obtain ⟨pkg, hpkg⟩ := Option.ne_none_iff_exists'.mp (hrs.named r hr)
    rw [hpkg, Option.getD_some]
  have hmap : names.map some = rs.map Record.packageName := by
    rw [List.map_map]
    apply List.map_congr_left (fun r hr => (hname r hr).symm)
  have hnodup : names.Nodup := by
    apply List.Nodup.of_map some
    rw [hmap]
    apply hrs.distinct
  have hsub : (↑names.toFinset : Set String) ⊆ U := by
    intro pkg hpkg
    obtain ⟨r, hr, rfl⟩ := List.mem_map.mp (List.mem_toFinset.mp hpkg)
    apply hwithin r hr _ (hname r hr)
  have hcard := lt_of_le_of_lt (Set.encard_le_encard hsub) hfew
  rw [Set.encard_coe_eq_coe_finsetCard, List.toFinset_card_of_nodup hnodup, List.length_map] at hcard
  exact_mod_cast hcard

/-- A service that is started keeps the ledger of the file, if the sort accepts it. -/
theorem Sound.start {file : Option Text} {n m : ℕ} (hg : d.gson.Documented) (hw : d.Writes)
    (hU : ∀ pkg ∈ U, d.applicationInfo pkg ≠ none) (hp : (ended file n m).Sound d U)
    (hsort : d.SortsFile file) :
  (after (LogService.onCreate d (LogService.boot file n m))).Sound d U ∧
    (after (LogService.onCreate d (LogService.boot file n m))).recorder d
      = { (ended file n m).recorder d with recording := true }
  := by
  obtain ⟨rs, hfile, hrs, hwithin⟩ := hp
  have hcreate := LogService.onCreate_records hg hw hfile (allInstalled_of_within hwithin hU)
    (hfile.sortsFile_iff.mp hsort) n m
  have hfresh := LogService.Fresh.onCreate hcreate
  have hperm := LogService.records_created d file rs n m
  have hacc : (LogService.created d file rs n m).Accounted d :=
    hfresh.accounted (LogService.list_created d file rs n m) (hrs.perm hperm)
  rw [hcreate]
  constructor
  · refine ⟨hacc, Option.some_ne_none 0, ?_, hwithin.subset hperm.subset⟩
    apply (LogService.fileAgrees_created hg hw hfile n m).1
  · have hledger := Ledger.ofRecords_perm (hrs.perm hperm) hperm n
    change (⟨Ledger.ofRecords (LogService.created d file rs n m).records n, true⟩ : Recorder)
      = ⟨Ledger.ofRecords (d.fileEntries file).reduceOption n, true⟩
    rw [fileEntries_of_holds hfile, hledger]

/-- A process that is killed while the service is started has the records of the file. -/
theorem Sound.startKilled {file : Option Text} {n m : ℕ} (hg : d.gson.Documented) (hw : d.Writes)
    (hp : (ended file n m).Sound d U) (k : ℕ) :
  (Process.step d (ended file n m) (.startKilled k)).Sound d U ∧
    (Process.step d (ended file n m) (.startKilled k)).recorder d = (ended file n m).recorder d
  := by
  obtain ⟨rs, hfile, hrs, hwithin⟩ := hp
  obtain ⟨hreadings, hcases⟩ := saveFile_execute d file n m k
  have hholds : LogService.Holds d (Process.step d (ended file n m) (.startKilled k)).saveFile rs := by
    rw [Process.step, saveFile_killed]
    rcases hcases with h | ⟨rfl, h⟩ | h
    · rw [h]
      apply hfile
    · obtain rfl : rs = [] := hfile
      rw [h, hw m]
      apply hg.restores []
    · obtain ⟨t, ht, hd⟩ := LogService.fileBeforeLoad_holds hg hw hfile m
      rw [h, ht]
      apply hd
  constructor
  · exact ⟨rs, hholds, hrs, hwithin⟩
  · let file' := (Process.step d (ended file n m) (.startKilled k)).saveFile
    let n' := (after (execute ((createStatements d).take k) (LogService.boot file n m))).readings
    have hn' : n' = n := hreadings
    change (⟨Ledger.ofRecords (d.fileEntries file').reduceOption n', false⟩ : Recorder)
      = ⟨Ledger.ofRecords (d.fileEntries file).reduceOption n, false⟩
    rw [fileEntries_of_holds hholds, hn', fileEntries_of_holds hfile]

/-- If the sort does not accept the file, the process ends while the service is started. -/
theorem Sound.start_refused {file : Option Text} {n m : ℕ} (hg : d.gson.Documented)
    (hw : d.Writes) (hU : ∀ pkg ∈ U, d.applicationInfo pkg ≠ none)
    (hp : (ended file n m).Sound d U) (hsort : ¬ d.SortsFile file) :
  Process.step d (ended file n m) .start
    = Process.step d (ended file n m) (.startKilled (createStatements d).length)
  := by
  obtain ⟨rs, hfile, -, hwithin⟩ := hp
  obtain ⟨s, hthrow, -⟩ := LogService.onCreate_refused hg hw hfile
    (allInstalled_of_within hwithin hU) (mt hfile.sortsFile_iff.mpr hsort) n m
  rw [Process.step, Process.step, List.take_length, execute_createStatements, hthrow]
  rfl

/-- A service that reads a line enters what the line means into the ledger. -/
theorem Sound.read {s : LogService} (hg : d.gson.Documented) (hw : d.Writes)
    (hclock : ∀ n, d.clock n ≠ 0) (hp : (running s).Sound d U) {line : Option String}
    (hline : LogService.TracksLine d U line) :
  (Process.step d (running s) (.read line)).Sound d U ∧
    (Process.step d (running s) (.read line)).recorder d
      = ((running s).recorder d).step d (.read line)
  := by
  obtain ⟨hacc, hreader, hagrees, hwithin⟩ := hp
  cases line with
  | none =>
      obtain ⟨b, hb⟩ := Option.ne_none_iff_exists'.mp hreader
      rw [Process.step, LogService.onLineRead_none hb]
      exact ⟨⟨{ hacc with }, Option.some_ne_none _, hagrees, hwithin⟩, rfl⟩
  | some l =>
      have hrec : ((running s).recorder d).recording = true := rfl
      rw [Process.step, hacc.onLineRead_meaning, Recorder.step, if_pos hrec]
      cases hm : meaning d.offset l with
      | incomplete => apply Sound.killed (p := running s) ⟨hacc, hreader, hagrees, hwithin⟩
      | nothing => exact ⟨⟨hacc, hreader, hagrees, hwithin⟩, rfl⟩
      | event packageName kind =>
          have hacc' := hacc.handled packageName kind
          obtain ⟨t, ht, -, -, hlogcat⟩ := hacc.exists_saved packageName kind
          obtain ⟨text, hfile, hd⟩ := hacc.holds_handled hg packageName kind (hw _)
          constructor
          · refine ⟨hacc', ?_, ⟨text, _, hfile, hd, List.Perm.refl _⟩, ?_⟩
            · rw [ht]
              apply ne_of_eq_of_ne hlogcat hreader
            · apply hacc.within_handled hwithin _ kind
              apply hline l packageName kind rfl hm
          · have hledger := hacc.accounts_handled hclock packageName kind
            exact congrArg (fun L => (⟨L, true⟩ : Recorder)) hledger

/-- A line that is read when there is no service changes nothing. -/
theorem Sound.read_any (hg : d.gson.Documented) (hw : d.Writes) (hclock : ∀ n, d.clock n ≠ 0)
    (hp : p.Sound d U) {line : Option String} (hline : LogService.TracksLine d U line) :
  (Process.step d p (.read line)).Sound d U ∧
    (Process.step d p (.read line)).recorder d = (p.recorder d).step d (.read line)
  := by
  cases p with
  | ended file n m =>
      refine ⟨hp, ?_⟩
      cases line <;> rfl
  | running s => apply Sound.read hg hw hclock hp hline

/-- A page that is resumed shows the records of the file, if the sort accepts them. -/
theorem Sound.onResume (hU : ∀ pkg ∈ U, d.applicationInfo pkg ≠ none) (hp : p.Sound d U)
    (hsort : d.SortsFile p.saveFile) {page : LauncherFragment}
    (hpage : page.mSaveFile = some applistFile) :
  ∃ rs page' rs', LogService.Holds d p.saveFile rs ∧ Orderly rs ∧
    LauncherFragment.onResume d p.saveFile page = .ok () page' ∧ rs'.Perm rs ∧
    page'.ShowsRecords d.applicationInfo rs' ∧
    (LaunchesFit rs → rs'.Pairwise (fun a b => b.launchCount ≤ a.launchCount))
  := by
  obtain ⟨rs, hfile, hrs, hwithin⟩ := hp.killed.1
  obtain ⟨page', rs', h⟩ := LauncherFragment.onResume_shows hpage (Or.inl hfile) hrs.named
    (allInstalled_of_within hwithin hU) (hfile.sortsFile_iff.mp hsort)
  exact ⟨rs, page', rs', hfile, hrs, h⟩

/-- A page that is resumed throws if the sort does not accept the records of the file. -/
theorem Sound.onResume_refused (hU : ∀ pkg ∈ U, d.applicationInfo pkg ≠ none) (hp : p.Sound d U)
    (hsort : ¬ d.SortsFile p.saveFile) {page : LauncherFragment}
    (hpage : page.mSaveFile = some applistFile) :
  ∃ page', LauncherFragment.onResume d p.saveFile page = .error .illegalArgument page'
  := by
  obtain ⟨rs, hfile, -, hwithin⟩ := hp.killed.1
  have hgets : LauncherFragment.GetsRecords d p.saveFile rs := Or.inl hfile
  apply LauncherFragment.onResume_refuses hpage hgets (allInstalled_of_within hwithin hU)
  apply mt hgets.sortsFile_iff.mpr hsort

/-- Resuming a page changes nothing, or it ends the process because the sort does not accept the
file. -/
theorem Sound.resume (hU : ∀ pkg ∈ U, d.applicationInfo pkg ≠ none) (hp : p.Sound d U)
    {page : LauncherFragment} (hpage : page.mSaveFile = some applistFile) :
  (Process.step d p (.resume page)).Sound d U ∧
    (Process.step d p (.resume page)).recorder d
      = (p.recorder d).step d (p.outcome d (.resume page))
  := by
  have hcases := step_resume_cases d p page
  by_cases hsort : d.SortsFile p.saveFile
  · obtain ⟨-, page', -, -, -, hresume, -⟩ := hp.onResume hU hsort hpage
    rw [outcome_of_sortsFile hsort]
    rcases hcases with ⟨page'', -, h⟩ | ⟨e, page'', herror, -⟩
    · rw [h]
      exact ⟨hp, rfl⟩
    · rw [hresume] at herror
      cases herror
  · obtain ⟨page', hthrow⟩ := hp.onResume_refused hU hsort hpage
    rw [outcome_resume_refused hsort]
    rcases hcases with ⟨page'', hreturn, -⟩ | ⟨e, page'', -, h⟩
    · rw [hthrow] at hreturn
      cases hreturn
    · rw [h]
      apply hp.killed

/-- Every action does to the recorder of a process what it comes to. -/
theorem Sound.step (hg : d.gson.Documented) (hw : d.Writes) (hclock : ∀ n, d.clock n ≠ 0)
    (hp : p.Sound d U) {a : Action} (hu : Moment.Usual d U ⟨d.applicationInfo, a⟩) :
  (Process.step d p a).Sound d U ∧
    (Process.step d p a).recorder d = (p.recorder d).step d (p.outcome d a)
  := by
  cases a with
  | start =>
      cases p with
      | ended file n m =>
          by_cases hsort : d.SortsFile file
          · rw [outcome, if_pos hsort]
            apply Sound.start hg hw hu.installed hp hsort
          · rw [outcome, if_neg hsort, hp.start_refused hg hw hu.installed hsort]
            apply Sound.startKilled hg hw hp
      | running s => exact ⟨hp, rfl⟩
  | startKilled k =>
      cases p with
      | ended file n m => apply Sound.startKilled hg hw hp
      | running s => exact ⟨hp, rfl⟩
  | read line =>
      rw [outcome_read]
      apply hp.read_any hg hw hclock hu.tracked
  | kill =>
      rw [outcome_kill, step_kill]
      apply hp.killed
  | resume page => apply hp.resume hu.installed (hu.created page rfl)

theorem sound_withPackages (info : String → Option ApplicationInfo) :
  p.Sound (d.withPackages info) U ↔ p.Sound d U
  := by
  cases p with
  | ended file n m => exact Iff.rfl
  | running s =>
      constructor
      · rintro ⟨hacc, h⟩
        exact ⟨{ hacc with }, h⟩
      · rintro ⟨hacc, h⟩
        exact ⟨{ hacc with }, h⟩

theorem recorder_withPackages (info : String → Option ApplicationInfo) (p : Process) :
  p.recorder (d.withPackages info) = p.recorder d
  := by
  cases p with
  | ended file n m => rfl
  | running s => rfl

/-- However often the process is killed and started again, it does what the recorder does. -/
theorem Sound.run (hg : d.gson.Documented) (hw : d.Writes) (hclock : ∀ n, d.clock n ≠ 0)
    (hp : p.Sound d U) {ms : List Moment} (hms : ∀ m ∈ ms, Moment.Usual d U m) :
  (Process.run d ms p).Sound d U ∧
    (Process.run d ms p).recorder d = Recorder.run d (p.outcomes d ms) (p.recorder d)
  := by
  induction ms using List.reverseRecOn with
  | nil => exact ⟨hp, rfl⟩
  | append_singleton ms m ih =>
      obtain ⟨hsound, hrec⟩ := ih (fun m' hm' => hms m' (List.mem_append_left _ hm'))
      have hu := hms m (List.mem_append_right _ (List.mem_singleton_self m))
      have hstep := Sound.step (d := d.withPackages m.applicationInfo) hg hw hclock
        ((sound_withPackages m.applicationInfo).mpr hsound)
        (a := m.action) ⟨hu.installed, hu.tracked, hu.created⟩
      rw [sound_withPackages, recorder_withPackages, recorder_withPackages, hrec] at hstep
      rw [run_concat, outcomes_append, Recorder.run_append]
      apply hstep

/-- If there are only few packages, every action of a run comes to what it is. -/
theorem Sound.outcomes_of_few (hg : d.gson.Documented) (hw : d.Writes)
    (hclock : ∀ n, d.clock n ≠ 0) (hp : p.Sound d U) {ms : List Moment}
    (hms : ∀ m ∈ ms, Moment.Usual d U m) (hfew : U.encard < minMerge) :
  p.outcomes d ms = ms.map Moment.action
  := by
  induction ms using List.reverseRecOn with
  | nil => rfl
  | append_singleton ms m ih =>
      have hbefore : ∀ m' ∈ ms, Moment.Usual d U m' := fun m' hm' => hms m' (List.mem_append_left _ hm')
      have hsort := (hp.run hg hw hclock hbefore).1.sortsFile_of_few hfew
      rw [outcomes_append, ih hbefore, List.map_append]
      apply congrArg (fun a => ms.map Moment.action ++ [a])
      apply outcome_of_sortsFile hsort

/-- As long as saves succeed and the packages that are recorded stay installed, what happens to the
process, to its lists, objects and files, is what happens to the recorder, whenever the process is
killed and started again, and whenever the sort ends it.  The sort does not end it if there are only few
packages. -/
theorem refines_recorder (hg : d.gson.Documented) (hw : d.Writes) (hclock : ∀ n, d.clock n ≠ 0)
    (hp : p.Sound d U) {ms : List Moment} (hms : ∀ m ∈ ms, Moment.Usual d U m) :
  (Process.run d ms p).recorder d = Recorder.run d (p.outcomes d ms) (p.recorder d) ∧
    (Process.run d ms p).Sound d U ∧
    (U.encard < minMerge → p.outcomes d ms = ms.map Moment.action)
  := by
  obtain ⟨hsound, hrec⟩ := Sound.run hg hw hclock hp hms
  exact ⟨hrec, hsound, hp.outcomes_of_few hg hw hclock hms⟩

/-- A phone on which one application is installed. -/
def onePhone : Device := phone ["com.example"] tick

/-- The application is used, the process is killed, and the application is used again. -/
def usedTwice : List Moment :=
  [⟨onePhone.applicationInfo, .start⟩,
    ⟨onePhone.applicationInfo, .read (some (phoneEvent .created "com.example" token_example :
      EventLine onePhone.offset).text)⟩,
    ⟨onePhone.applicationInfo, .kill⟩, ⟨onePhone.applicationInfo, .start⟩,
    ⟨onePhone.applicationInfo, .read (some (phoneEvent .created "com.android.launcher"
      token_launcher : EventLine onePhone.offset).text)⟩]

theorem sound_onePhone :
  (ended none 0 0).Sound onePhone {"com.example"}
  := by
  refine ⟨[], rfl, ⟨?_, List.nodup_nil⟩, ?_⟩
  · rintro r ⟨⟩
  · rintro r ⟨⟩

theorem usual_onePhone {a : Action} (ha : a.Tracks onePhone {"com.example"})
    (hpage : ∀ page, a ≠ .resume page) :
  Moment.Usual onePhone {"com.example"} ⟨onePhone.applicationInfo, a⟩
  := by
  constructor
  · rintro pkg rfl
    apply Option.some_ne_none
  · apply ha
  · intro page h
    exact absurd h (hpage page)

theorem usual_usedTwice :
  ∀ m ∈ usedTwice, Moment.Usual onePhone {"com.example"} m
  := by
  intro m hm
  simp only [usedTwice, List.mem_cons, List.not_mem_nil, or_false] at hm
  rcases hm with rfl | rfl | rfl | rfl | rfl
  · apply usual_onePhone
    · trivial
    · rintro _ ⟨⟩
  · apply usual_onePhone
    · rintro _ packageName kind ⟨⟩ hm -
      cases Eq.trans (meaning_eventLine _).symm hm
      rfl
    · rintro _ ⟨⟩
  · apply usual_onePhone
    · trivial
    · rintro _ ⟨⟩
  · apply usual_onePhone
    · trivial
    · rintro _ ⟨⟩
  · apply usual_onePhone
    · rintro _ packageName kind ⟨⟩ hm hx
      cases Eq.trans (meaning_eventLine _).symm hm
      cases hx
    · rintro _ ⟨⟩

theorem clock_onePhone (n : ℕ) :
  onePhone.clock n ≠ 0
  := clock_ne_zero (LogService.steadyClock_tick ["com.example"]) n

theorem few_onePhone :
  ({"com.example"} : Set String).encard < minMerge
  := by
  rw [Set.encard_singleton]
  decide

theorem refines_recorder_usedTwice :
  (Process.run onePhone usedTwice (ended none 0 0)).recorder onePhone
    = Recorder.run onePhone (usedTwice.map Moment.action) ((ended none 0 0).recorder onePhone)
  := by
  obtain ⟨hrec, -, hfew⟩ := refines_recorder Json.gson_documented (fun _ => rfl) clock_onePhone
    sound_onePhone usual_usedTwice
  rw [hrec, hfew few_onePhone]

end Process
