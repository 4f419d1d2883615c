import Applogr.Fragment.Page
import Applogr.Process.Usage

/-!
# The program and its pages

The pages live in the process of the service, and they die with it.  Whenever a page is created or
resumed it reads the save file, which the service may be writing at this very moment.  What the user
sees can be said without files: a page remembers what the ledger of the recorder was when it was
created or resumed last, and it shows this ledger while it has a view.  If the list was being saved,
then the page has read the ledger before the event or the ledger after it, or nothing at all, unless it
has read the file in pieces, some before and some after a write.  A page that throws ends the process,
as if it were killed.
-/

/-- The pages that read the save file, `LauncherFragment` and `TopFragment`. -/
inductive Tab where
  | launcher
  | top
deriving DecidableEq, Repr

namespace Process

/-- Whether the service runs. -/
def isRunning : Process → Bool
  | ended _ _ _ => false
  | running _ => true

/-- Whether an action ends the process. -/
def ends (d : Device) (p : Process) : Action → Bool
  | .start => !(step d p .start).isRunning
  | .startKilled _ => !p.isRunning
  | .read line => p.isRunning && !(step d p (.read line)).isRunning
  | .kill => true
  | .resume page =>
      match LauncherFragment.onResume d p.saveFile page with
      | .ok _ _ => false
      | .error _ _ => true

end Process

namespace Recorder

/-- Whether an action ends the process of a recorder. -/
def ends (d : Device) (R : Recorder) : Process.Action → Bool
  | .startKilled _ => !R.recording
  | .read line => R.recording && stops d (.read line)
  | a => stops d a

/-- The recorder records until a line stops it. -/
theorem recording_read (d : Device) (R : Recorder) (line : Option String) :
  (R.step d (.read line)).recording = (R.recording && !stops d (.read line))
  := by
  cases line with
  | none => exact (Bool.and_true R.recording).symm
  | some line =>
      rw [step, stops]
      cases hrec : R.recording with
      | false => exact hrec
      | true =>
          cases meaning d.offset line with
          | incomplete => rfl
          | nothing => exact hrec
          | event packageName kind => rfl

end Recorder

/-- The process and its pages. -/
structure Program where
  process : Process
  pages : Tab → Stage Page

/-- What a page has read: the infos of the packages, and the ledger. -/
structure Snapshot where
  applicationInfo : String → Option ApplicationInfo
  ledger : Ledger String Int64 Int32

/-- A recorder, and what its pages have read, if it is known. -/
structure Display where
  recorder : Recorder
  pages : Tab → Stage (Option Snapshot)

/-- What a page sees of the save file while the service saves its list: the file before the save, a
part of the new text, or the file after the save.  The page reads the file in pieces, so that it may
also see a beginning of one text and the rest of another, and whatever this is decoded to. -/
inductive Glimpse where
  | before
  | torn (n : ℕ)
  | mixed (seen : Text)
  | after

namespace Glimpse

/-- The content of the file that is seen.  The part that has been written is not all of the text. -/
def file (old new : Option Text) : Glimpse → Option Text
  | .before => old
  | .torn n => new.map (fun t => t.dropLast.take n)
  | .mixed seen => some seen
  | .after => new

/-- The ledger that is seen, if it is known. -/
def ledger (old new : Ledger String Int64 Int32) : Glimpse → Option (Ledger String Int64 Int32)
  | .before => some old
  | .torn _ => some (Ledger.ofRecords [] 0)
  | .mixed _ => none
  | .after => some new

end Glimpse

namespace Program

/-- What happens to the program: an action of the process, or a callback of a page; or the service
reads a line, and a page is called while the list is saved. -/
inductive Event where
  | action (action : Process.Action)
  | callback (tab : Tab) (callback : Callback)
  | overlap (read : String) (glimpse : Glimpse) (tab : Tab) (callback : Callback)

/-- An event, and the packages that are installed when it happens. -/
structure Moment where
  applicationInfo : String → Option ApplicationInfo
  event : Event

/-- The effect of an action. -/
def act (d : Device) (P : Program) (a : Process.Action) : Program :=
  { process := P.process.step d a,
    pages := if P.process.ends d a then fun _ => .absent else P.pages }

/-- Whether a callback throws, when the page sees the content `file`. -/
def throws (d : Device) (P : Program) (file : Option Text) (tab : Tab) (c : Callback) : Bool :=
  (Stage.call (Page.methods d file {}) c (P.pages tab)).isNone

/-- The effect of a callback, when the page sees the content `file`.  An exception ends the
process. -/
def call (d : Device) (P : Program) (file : Option Text) (tab : Tab) (c : Callback) : Program :=
  match Stage.call (Page.methods d file {}) c (P.pages tab) with
  | some stage => { P with pages := Function.update P.pages tab stage }
  | none => { process := P.process.killed, pages := fun _ => .absent }

/-- The effect of an event. -/
def step (d : Device) (P : Program) : Event → Program
  | .action a => P.act d a
  | .callback tab c => P.call d P.process.saveFile tab c
  | .overlap read glimpse tab c =>
      let P' := P.act d (.read (some read))
      if P'.process.isRunning then
        P'.call d (glimpse.file P.process.saveFile P'.process.saveFile) tab c
      else
        P'

/-- The effect of a sequence of events. -/
def run (d : Device) (ms : List Moment) (P : Program) : Program :=
  ms.foldl (fun P m => step (d.withPackages m.applicationInfo) P m.event) P

/-- The program after the line of an event. -/
def afterLine (d : Device) (P : Program) : Event → Program
  | .overlap read _ _ _ => P.act d (.read (some read))
  | _ => P

/-- The content of the save file that is read in an event, the line of which turns `P` into `P'`. -/
def fileRead (P P' : Program) : Event → Option Text
  | .overlap _ glimpse _ _ => glimpse.file P.process.saveFile P'.process.saveFile
  | _ => P.process.saveFile

/-- What an event comes to, the line of which turns `P` into `P'`.  A callback that throws ends the
process, as if it were killed. -/
def outcome (d : Device) (P P' : Program) : Event → List Event
  | .action a => [.action (P.process.outcome d a)]
  | .callback tab c =>
      if P'.throws d P.process.saveFile tab c then [.action .kill] else [.callback tab c]
  | .overlap read glimpse tab c =>
      if P'.process.isRunning &&
          P'.throws d (glimpse.file P.process.saveFile P'.process.saveFile) tab c then
        [.action (.read (some read)), .action .kill]
      else
        [.overlap read glimpse tab c]

/-- What the events of a sequence come to. -/
def outcomes (d : Device) : Program → List Moment → List Moment
  | _, [] => []
  | P, m :: ms =>
      let d' := d.withPackages m.applicationInfo
      (outcome d' P (P.afterLine d' m.event) m.event).map (⟨m.applicationInfo, ·⟩) ++
        outcomes d (P.step d' m.event) ms

theorem outcomes_append (d : Device) (ms ms' : List Moment) (P : Program) :
  P.outcomes d (ms ++ ms') = P.outcomes d ms ++ (run d ms P).outcomes d ms'
  := by
  induction ms generalizing P with
  | nil => rfl
  | cons m ms ih =>
      rw [List.cons_append, outcomes, outcomes, ih, List.append_assoc]
      rfl

end Program

namespace Display

/-- The effect of an action. -/
def act (d : Device) (V : Display) (a : Process.Action) : Display :=
  { recorder := V.recorder.step d a,
    pages := if V.recorder.ends d a then fun _ => .absent else V.pages }

/-- The effect of a callback, when the page sees the ledger `L`, or when it is not known what it
sees. -/
def call (d : Device) (V : Display) (L : Option (Ledger String Int64 Int32)) (tab : Tab)
    (c : Callback) : Display :=
  let now := L.map (Snapshot.mk d.applicationInfo)
  { V with pages := Function.update V.pages tab (Stage.next now c (V.pages tab)) }

/-- The effect of an event. -/
def step (d : Device) (V : Display) : Program.Event → Display
  | .action a => V.act d a
  | .callback tab c => V.call d (some V.recorder.ledger) tab c
  | .overlap read glimpse tab c =>
      let V' := V.act d (.read (some read))
      if V'.recorder.recording then
        V'.call d (glimpse.ledger V.recorder.ledger V'.recorder.ledger) tab c
      else
        V'

/-- The effect of a sequence of events. -/
def run (d : Device) (ms : List Program.Moment) (V : Display) : Display :=
  ms.foldl (fun V m => step (d.withPackages m.applicationInfo) V m.event) V

/-- The page of an event reads the save file in pieces, or it has read it so when it was created, and
gets its view now. -/
def ReadsPieces (V : Display) : Program.Event → Prop
  | .action _ => False
  | .callback tab _ => V.pages tab = .created none
  | .overlap _ glimpse tab _ => (∃ seen, glimpse = .mixed seen) ∨ V.pages tab = .created none

theorem run_append (d : Device) (ms ms' : List Program.Moment) (V : Display) :
  run d (ms ++ ms') V = run d ms' (run d ms V)
  := List.foldl_append

/-- The effect of events that happen while the same packages are installed. -/
theorem run_map (d : Device) (info : String → Option ApplicationInfo) (es : List Program.Event)
    (V : Display) :
  run d (es.map (⟨info, ·⟩)) V = es.foldl (step (d.withPackages info)) V
  := List.foldl_map

end Display

/-! ### What a page has read -/

/-- The records are those of the ledger, in the order in which a page shows them. -/
structure RecordsOf (L : Ledger String Int64 Int32) (rs : List Record) : Prop where
  orderly : Orderly rs
  ledger : ∃ n, Ledger.ofRecords rs n = L.restart
  sorted : LaunchesFit rs → rs.Pairwise (fun a b => b.launchCount ≤ a.launchCount)

namespace Page

variable {d : Device} {page : Page} {r : Snapshot} {o : Option Snapshot}

/-- The page has read the ledger, if it is known what it has read. -/
def HasRead (page : Page) : Option Snapshot → Prop
  | none => page.mSaveFile = some applistFile
  | some r => ∃ rs, RecordsOf r.ledger rs ∧ Page.Created r.applicationInfo rs page

/-- The page has read the ledger and shows it, if it is known what it has read. -/
def ShowsSnapshot (page : Page) : Option Snapshot → Prop
  | none => page.Attached
  | some r => ∃ rs, RecordsOf r.ledger rs ∧ Page.Viewed r.applicationInfo rs page

theorem HasRead.mSaveFile (h : page.HasRead o) :
  page.mSaveFile = some applistFile
  := by
  cases o with
  | none => apply h
  | some r =>
      obtain ⟨rs, -, hcreated⟩ := h
      apply hcreated.mSaveFile

theorem ShowsSnapshot.attached (h : page.ShowsSnapshot o) :
  page.Attached
  := by
  cases o with
  | none => apply h
  | some r =>
      obtain ⟨rs, -, hviewed⟩ := h
      apply hviewed.toAttached

theorem ShowsSnapshot.hasRead (h : page.ShowsSnapshot o) :
  page.HasRead o
  := by
  cases o with
  | none => apply Attached.mSaveFile h
  | some r =>
      obtain ⟨rs, hrs, hviewed⟩ := h
      exact ⟨rs, hrs, hviewed.toCreated⟩

theorem ShowsSnapshot.showsLedger (h : page.ShowsSnapshot (some r)) :
  Process.ShowsLedger r.applicationInfo r.ledger page.toLauncherFragment
  := by
  obtain ⟨rs, hrs, hviewed⟩ := h
  obtain ⟨n, hn⟩ := hrs.ledger
  have hshows := Process.showsLedger_of_showsRecords hrs.orderly (List.Perm.refl rs) hviewed.shows
    hrs.sorted n
  rw [hn] at hshows
  apply hshows

end Page

namespace Process

variable {d : Device} {p : Process} {U : Set String}

/-- A page that reads the file gets the records of the ledger. -/
def Readable (d : Device) (file : Option Text) (L : Ledger String Int64 Int32) : Prop :=
  ∃ rs n, LauncherFragment.GetsRecords d file rs ∧ Orderly rs ∧ d.AllInstalled rs ∧
    Ledger.ofRecords rs n = L.restart

/-- A page reads the ledger from the save file. -/
theorem Sound.readable (hp : p.Sound d U) (hU : ∀ pkg ∈ U, d.applicationInfo pkg ≠ none) :
  Readable d p.saveFile (p.recorder d).ledger
  := by
  obtain ⟨hkilled, hrec⟩ := hp.killed
  obtain ⟨rs, hfile, hrs, hwithin⟩ := hkilled
  refine ⟨rs, p.readings, Or.inl hfile, hrs, allInstalled_of_within hwithin hU, ?_⟩
  rw [← fileEntries_of_holds hfile]
  exact congrArg Recorder.ledger hrec

/-- A page that sees a part of a text that is being written reads nothing. -/
theorem readable_torn (hg : d.gson.Documented) (apps : List (Option Record)) (n : ℕ) :
  Readable d (some ((d.gson.toJson ⟨some apps⟩).dropLast.take n)) (Ledger.ofRecords [] 0)
  := by
  let t := d.gson.toJson ⟨some apps⟩
  have hpos : 0 < t.length := by
    apply List.length_pos_of_ne_nil
    intro hnil
    have hrestores := hg.restores apps
    have hempty := hg.fromJson_empty
    rw [← hnil] at hempty
    cases hrestores.symm.trans hempty
  have hprefix : t.dropLast.take n <+: t := (List.take_prefix n _).trans (List.dropLast_prefix t)
  have hne : t.dropLast.take n ≠ t := by
    intro heq
    have hlength := congrArg List.length heq
    rw [List.length_take, List.length_dropLast] at hlength
    omega
  refine ⟨[], 0, Or.inr ⟨rfl, _, rfl, hg.givesNothing hprefix hne⟩, ⟨?_, List.nodup_nil⟩, ?_, rfl⟩
  · rintro r ⟨⟩
  · rintro r ⟨⟩

/-- An event that is recorded is saved as the text of a list. -/
theorem exists_text_of_read (hw : d.Writes) {s : LogService} (hs : s.Accounted d) {read : String}
    {packageName : String} {kind : EventKind} (hm : meaning d.offset read = .event packageName kind) :
  ∃ apps, (step d (running s) (.read (some read))).saveFile = some (d.gson.toJson ⟨some apps⟩)
  := by
  obtain ⟨t, ht, hloaded, -, -⟩ := hs.exists_saved packageName kind
  use t.records.map some
  have hfile : (LogService.saved d t).saveFile
      = LogService.writeFile (d.disk t.saves) t.saveFile (t.json d) := rfl
  rw [step, hs.onLineRead_meaning, hm]
  change (LogService.handled d packageName kind s).saveFile = _
  rw [ht, hfile, hloaded.json_eq, hw]
  cases t.saveFile <;> rfl

/-- Unless a page reads the save file in pieces while an event is saved, it reads the ledger before the
event, or nothing, or the ledger after the event. -/
theorem Sound.readable_glimpse (hg : d.gson.Documented) (hw : d.Writes)
    (hclock : ∀ n, d.clock n ≠ 0) (hU : ∀ pkg ∈ U, d.applicationInfo pkg ≠ none)
    (hp : p.Sound d U) {read packageName : String} {kind : EventKind}
    (hm : meaning d.offset read = .event packageName kind)
    (htracks : LogService.TracksLine d U (some read))
    (hrunning : (Process.step d p (.read (some read))).isRunning = true) (glimpse : Glimpse) :
  ∀ L ∈ glimpse.ledger (p.recorder d).ledger
      ((Process.step d p (.read (some read))).recorder d).ledger,
    Readable d (glimpse.file p.saveFile (Process.step d p (.read (some read))).saveFile) L
  := by
  intro L hL
  cases glimpse with
  | before =>
      obtain rfl := Option.some.inj hL
      apply hp.readable hU
  | torn n =>
      obtain rfl := Option.some.inj hL
      cases p with
      | ended file m m' => cases hrunning
      | running s =>
          obtain ⟨apps, happs⟩ := exists_text_of_read hw hp.1 hm
          rw [Glimpse.file, happs]
          apply readable_torn hg
  | mixed seen => cases hL
  | after =>
      obtain rfl := Option.some.inj hL
      apply (hp.read_any hg hw hclock htracks).1.readable hU

theorem recordsOf_of_perm {L : Ledger String Int64 Int32} {rs rs' : List Record} {n : ℕ}
    (hrs : Orderly rs) (hperm : rs'.Perm rs) (hledger : Ledger.ofRecords rs n = L.restart)
    (hsorted : LaunchesFit rs → rs'.Pairwise (fun a b => b.launchCount ≤ a.launchCount)) :
  RecordsOf L rs'
  := by
  constructor
  · apply hrs.perm hperm
  · use n
    rw [← hledger, Ledger.ofRecords_perm (hrs.perm hperm) hperm]
  · intro hfit
    apply hsorted
    intro a ha b hb
    apply hfit a (hperm.symm.subset ha) b (hperm.symm.subset hb)

/-- A page that is created reads the ledger, or it throws because the sort does not accept the file. -/
theorem Readable.onCreate {file : Option Text} {L : Ledger String Int64 Int32}
    (hfile : Readable d file L) (page : Page) :
  (∃ page', Page.onCreate d file page = .ok () page' ∧
    page'.HasRead (some ⟨d.applicationInfo, L⟩)) ∨
  (¬ d.SortsFile file ∧ ∃ page', Page.onCreate d file page = .error .illegalArgument page')
  := by
  obtain ⟨rs, n, hgets, hrs, hinstalled, hledger⟩ := hfile
  by_cases hsort : d.Sorts rs
  · obtain ⟨page', rs', hcreate, hperm, hcreated, hsorted⟩ :=
      Page.onCreate_reads hgets hrs.named hinstalled hsort page
    exact Or.inl ⟨page', hcreate, rs', recordsOf_of_perm hrs hperm hledger hsorted, hcreated⟩
  · have hrefused := mt hgets.sortsFile_iff.mp hsort
    exact Or.inr ⟨hrefused, Page.onCreate_refuses hgets hinstalled hsort page⟩

/-- A page that is resumed reads the ledger, or it throws because the sort does not accept the file. -/
theorem Readable.onResume {file : Option Text} {L : Ledger String Int64 Int32}
    (hfile : Readable d file L) {page : Page} (hpage : page.Attached) :
  (∃ page', Page.onResume d file page = .ok () page' ∧
    page'.ShowsSnapshot (some ⟨d.applicationInfo, L⟩)) ∨
  (¬ d.SortsFile file ∧ ∃ page', Page.onResume d file page = .error .illegalArgument page')
  := by
  obtain ⟨rs, n, hgets, hrs, hinstalled, hledger⟩ := hfile
  by_cases hsort : d.Sorts rs
  · obtain ⟨page', rs', hresume, hperm, hviewed, hsorted⟩ :=
      hpage.onResume hgets hrs.named hinstalled hsort
    exact Or.inl ⟨page', hresume, rs', recordsOf_of_perm hrs hperm hledger hsorted, hviewed⟩
  · have hrefused := mt hgets.sortsFile_iff.mp hsort
    exact Or.inr ⟨hrefused, hpage.onResume_refuses hgets hinstalled hsort⟩

/-- A page that is created or resumed, and does not throw, has read what it has seen. -/
theorem related_call {file : Option Text} {L : Option (Ledger String Int64 Int32)}
    (hfile : ∀ L' ∈ L, Readable d file L') {s s' : Stage Page} {t : Stage (Option Snapshot)}
    (h : Stage.Related Page.HasRead Page.ShowsSnapshot s t) {c : Callback}
    (hcall : Stage.call (Page.methods d file {}) c s = some s') :
  Stage.Related Page.HasRead Page.ShowsSnapshot s'
    (Stage.next (L.map (Snapshot.mk d.applicationInfo)) c t)
  := by
  apply Stage.Related.call _ _ _ _ h hcall
  · intro page hreturned
    have hcreate := Page.ok_of_returned hreturned
    cases L with
    | none => apply Page.mSaveFile_onCreate hcreate
    | some L =>
        rcases (hfile L rfl).onCreate Page.new with ⟨page', hok, hread⟩ | ⟨-, page', herror⟩
        · cases hcreate.symm.trans hok
          apply hread
        · cases hcreate.symm.trans herror
  · intro page o hread page' hreturned
    have hview := Page.ok_of_returned hreturned
    cases o with
    | none => apply Page.attached_onCreateView hread hview
    | some r =>
        obtain ⟨rs, hrs, hcreated⟩ := hread
        obtain ⟨page'', hok, hviewed⟩ := hcreated.onCreateView {}
        cases hview.symm.trans hok
        exact ⟨rs, hrs, hviewed⟩
  · intro page o hshows page' hreturned
    have hresume := Page.ok_of_returned hreturned
    cases L with
    | none => apply hshows.attached.onResume_of_ok hresume
    | some L =>
        rcases (hfile L rfl).onResume hshows.attached with ⟨page'', hok, hshown⟩ | ⟨-, page'', herror⟩
        · cases hresume.symm.trans hok
          apply hshown
        · cases hresume.symm.trans herror
  · intro page o hshows
    apply hshows.hasRead

/-- A page throws only if the sort does not accept the file, or if the page has read the file in pieces
and gets its view now. -/
theorem call_throws {file : Option Text} {L : Ledger String Int64 Int32} (hfile : Readable d file L)
    {s : Stage Page} {t : Stage (Option Snapshot)}
    (h : Stage.Related Page.HasRead Page.ShowsSnapshot s t) {c : Callback}
    (hcall : Stage.call (Page.methods d file {}) c s = none) :
  ¬ d.SortsFile file ∨ t = .created none
  := by
  rcases Stage.call_eq_none hcall with ⟨rfl, hnone⟩ | ⟨page, rfl, hnone⟩ | ⟨page, rfl, hnone⟩
  · rcases hfile.onCreate Page.new with ⟨page', hok, -⟩ | ⟨hsort, -⟩
    · cases hnone.symm.trans (Page.returned_of_ok hok)
    · exact Or.inl hsort
  · cases t with
    | created o =>
        cases o with
        | none => exact Or.inr rfl
        | some r =>
            obtain ⟨rs, -, hcreated⟩ := h
            obtain ⟨page', hok, -⟩ := hcreated.onCreateView {}
            cases hnone.symm.trans (Page.returned_of_ok hok)
    | _ => exact absurd h id
  · cases t with
    | viewed o =>
        have hattached : page.Attached := Page.ShowsSnapshot.attached h
        rcases hfile.onResume hattached with ⟨page', hok, -⟩ | ⟨hsort, -⟩
        · cases hnone.symm.trans (Page.returned_of_ok hok)
        · exact Or.inl hsort
    | _ => exact absurd h id

theorem recording_recorder (p : Process) :
  (p.recorder d).recording = p.isRunning
  := by
  cases p <;> rfl

/-- An action ends a process if and only if what it comes to ends the process of the recorder. -/
theorem Sound.ends (hg : d.gson.Documented) (hw : d.Writes) (hclock : ∀ n, d.clock n ≠ 0)
    (hp : p.Sound d U) {a : Action} (hu : Moment.Usual d U ⟨d.applicationInfo, a⟩) :
  p.ends d a = (p.recorder d).ends d (p.outcome d a)
  := by
  have hrunning : (Process.step d p a).isRunning
      = ((p.recorder d).step d (p.outcome d a)).recording := by
    rw [← (hp.step hg hw hclock hu).2, recording_recorder]
  cases a with
  | start =>
      rw [Process.ends, hrunning]
      cases p with
      | ended file n m =>
          by_cases hsort : d.SortsFile file
          · rw [outcome, if_pos hsort]
            rfl
          · rw [outcome, if_neg hsort]
            rfl
      | running s => rfl
  | startKilled k =>
      rw [Process.ends, outcome_startKilled, Recorder.ends, recording_recorder]
  | read line =>
      rw [outcome_read] at hrunning ⊢
      rw [Process.ends, hrunning, Recorder.recording_read, recording_recorder, Recorder.ends,
        recording_recorder]
      cases p.isRunning <;> cases Recorder.stops d (.read line) <;> rfl
  | kill =>
      rw [outcome_kill]
      rfl
  | resume page =>
      by_cases hsort : d.SortsFile p.saveFile
      · obtain ⟨-, page', -, -, -, hresume, -⟩ :=
          hp.onResume hu.installed hsort (hu.created page rfl)
        rw [Process.ends, hresume, outcome_of_sortsFile hsort]
        rfl
      · obtain ⟨page', hthrow⟩ := hp.onResume_refused hu.installed hsort (hu.created page rfl)
        rw [Process.ends, hthrow, outcome_resume_refused hsort]
        rfl

end Process

namespace Program

open Process (onePhone)

variable {d : Device} {U : Set String} {P : Program} {V : Display}

/-- The packages of `U` are installed, the actions are as they usually are, and a list is saved for an
event. -/
structure Moment.Usual (d : Device) (U : Set String) (m : Moment) : Prop where
  installed : ∀ pkg ∈ U, m.applicationInfo pkg ≠ none
  action : ∀ a, m.event = .action a → Process.Moment.Usual d U ⟨m.applicationInfo, a⟩
  overlap : ∀ read glimpse tab c, m.event = .overlap read glimpse tab c →
    LogService.TracksLine d U (some read) ∧
      ∃ packageName kind, meaning d.offset read = .event packageName kind

/-- The process does what the recorder does, and each page has read what it should have read. -/
structure Refines (d : Device) (U : Set String) (P : Program) (V : Display) : Prop where
  sound : P.process.Sound d U
  recorder : P.process.recorder d = V.recorder
  pages : ∀ tab, Stage.Related Page.HasRead Page.ShowsSnapshot (P.pages tab) (V.pages tab)

/-- When the process has ended, there are no pages. -/
theorem refines_absent {p : Process} (hp : p.Sound d U) :
  Refines d U ⟨p, fun _ => .absent⟩ ⟨p.recorder d, fun _ => .absent⟩
  := ⟨hp, rfl, fun _ => trivial⟩

theorem Refines.act (hg : d.gson.Documented) (hw : d.Writes) (hclock : ∀ n, d.clock n ≠ 0)
    (h : Refines d U P V) {a : Process.Action}
    (hu : Process.Moment.Usual d U ⟨d.applicationInfo, a⟩) :
  Refines d U (P.act d a) (V.act d (P.process.outcome d a))
  := by
  obtain ⟨hsound, hrec⟩ := h.sound.step hg hw hclock hu
  have hends := h.sound.ends hg hw hclock hu
  rw [h.recorder] at hrec hends
  refine ⟨hsound, hrec, ?_⟩
  intro tab
  rw [Program.act, Display.act, hends]
  split
  · trivial
  · apply h.pages

/-- The effect of a line. -/
theorem Refines.read (hg : d.gson.Documented) (hw : d.Writes) (hclock : ∀ n, d.clock n ≠ 0)
    (h : Refines d U P V) (hU : ∀ pkg ∈ U, d.applicationInfo pkg ≠ none) {read : String}
    (htracks : LogService.TracksLine d U (some read)) :
  Refines d U (P.act d (.read (some read))) (V.act d (.read (some read)))
  := by
  have hact := h.act hg hw hclock (a := .read (some read)) ⟨hU, htracks, by rintro page ⟨⟩⟩
  rw [Process.outcome_read] at hact
  apply hact

/-- A callback that throws ends the process. -/
theorem Refines.call_of_throws (h : Refines d U P V) {file : Option Text} {tab : Tab} {c : Callback}
    (hthrows : P.throws d file tab c = true) :
  P.call d file tab c = ⟨P.process.killed, fun _ => .absent⟩ ∧
    Refines d U (P.call d file tab c) (V.act d .kill)
  := by
  have hcall : P.call d file tab c = ⟨P.process.killed, fun _ => .absent⟩ := by
    rw [Program.call, Option.isNone_iff_eq_none.mp hthrows]
  obtain ⟨hkilled, hrec⟩ := h.sound.killed
  refine ⟨hcall, ?_⟩
  rw [hcall]
  rw [h.recorder] at hrec
  exact ⟨hkilled, hrec, fun _ => trivial⟩

/-- A callback that does not throw leaves the process as it is, and its page has read what it has
seen. -/
theorem Refines.call_of_returns (h : Refines d U P V) {file : Option Text}
    {L : Option (Ledger String Int64 Int32)} (hfile : ∀ L' ∈ L, Process.Readable d file L')
    {tab : Tab} {c : Callback} (hthrows : P.throws d file tab c = false) :
  (P.call d file tab c).process = P.process ∧ Refines d U (P.call d file tab c) (V.call d L tab c)
  := by
  obtain ⟨s', hcall⟩ := Option.isSome_iff_exists.mp (Option.isNone_eq_false_iff.mp hthrows)
  have hrel := Process.related_call hfile (h.pages tab) hcall
  rw [Program.call, hcall]
  refine ⟨rfl, h.sound, h.recorder, ?_⟩
  intro tab'
  change Stage.Related _ _ (Function.update P.pages tab s' tab')
    (Function.update V.pages tab _ tab')
  by_cases htab : tab' = tab
  · subst htab
    rw [Function.update_self, Function.update_self]
    apply hrel
  · rw [Function.update_of_ne htab, Function.update_of_ne htab]
    apply h.pages

/-- A callback throws only if the sort does not accept the file, or if its page has read the file in
pieces and gets its view now. -/
theorem Refines.sortsFile_of_throws (h : Refines d U P V) {file : Option Text}
    {L : Ledger String Int64 Int32} (hfile : Process.Readable d file L) {tab : Tab} {c : Callback}
    (hthrows : P.throws d file tab c = true) :
  ¬ d.SortsFile file ∨ V.pages tab = .created none
  := Process.call_throws hfile (h.pages tab) (Option.isNone_iff_eq_none.mp hthrows)

/-- The effect of a callback is the effect of what it comes to. -/
theorem Refines.callback (h : Refines d U P V) (hU : ∀ pkg ∈ U, d.applicationInfo pkg ≠ none)
    (tab : Tab) (c : Callback) :
  Refines d U (P.call d P.process.saveFile tab c)
    ((outcome d P P (.callback tab c)).foldl (Display.step d) V)
  := by
  cases hthrows : P.throws d P.process.saveFile tab c with
  | true =>
      simp only [outcome, hthrows, if_true]
      apply (h.call_of_throws hthrows).2
  | false =>
      have hfile := h.sound.readable hU
      rw [h.recorder] at hfile
      simp only [outcome, hthrows, Bool.false_eq_true, if_false]
      apply (h.call_of_returns (L := some V.recorder.ledger) _ hthrows).2
      rintro _ ⟨⟩
      apply hfile

/-- The effect of a callback during a line is the effect of what they come to. -/
theorem Refines.overlap {P' : Program} {read : String} {glimpse : Glimpse} {tab : Tab} {c : Callback}
    (h' : Refines d U P' (V.act d (.read (some read))))
    (hrun : P'.process.isRunning = true)
    (hfile : ∀ L ∈ glimpse.ledger V.recorder.ledger (V.act d (.read (some read))).recorder.ledger,
      Process.Readable d (glimpse.file P.process.saveFile P'.process.saveFile) L) :
  Refines d U (P'.call d (glimpse.file P.process.saveFile P'.process.saveFile) tab c)
    ((outcome d P P' (.overlap read glimpse tab c)).foldl (Display.step d) V)
  := by
  have hrecording : (V.act d (.read (some read))).recorder.recording = true := by
    rw [← h'.recorder, Process.recording_recorder, hrun]
  cases hthrows : P'.throws d (glimpse.file P.process.saveFile P'.process.saveFile) tab c with
  | true =>
      simp only [outcome, hrun, hthrows, Bool.and_self, if_true]
      apply (h'.call_of_throws hthrows).2
  | false =>
      simp only [outcome, hrun, hthrows, Bool.true_and, Bool.false_eq_true, if_false, List.foldl_cons,
        List.foldl_nil, Display.step, hrecording, if_true]
      apply (h'.call_of_returns hfile hthrows).2

/-- A line that ends the process leaves no pages to be called. -/
theorem Refines.overlap_ended {P' : Program} {read : String} {glimpse : Glimpse} {tab : Tab}
    {c : Callback} (h' : Refines d U P' (V.act d (.read (some read))))
    (hrun : P'.process.isRunning = false) :
  Refines d U P' ((outcome d P P' (.overlap read glimpse tab c)).foldl (Display.step d) V)
  := by
  have hrecording : (V.act d (.read (some read))).recorder.recording = false := by
    rw [← h'.recorder, Process.recording_recorder, hrun]
  simp only [outcome, hrun, Bool.false_and, Bool.false_eq_true, if_false, List.foldl_cons,
    List.foldl_nil, Display.step, hrecording]
  apply h'

/-- While an event is saved, a page that does not read the file in pieces reads a ledger. -/
theorem Refines.readable_glimpse (hg : d.gson.Documented) (hw : d.Writes)
    (hclock : ∀ n, d.clock n ≠ 0) (h : Refines d U P V)
    (hU : ∀ pkg ∈ U, d.applicationInfo pkg ≠ none) {read packageName : String} {kind : EventKind}
    (hm : meaning d.offset read = .event packageName kind)
    (htracks : LogService.TracksLine d U (some read))
    (hrun : (P.act d (.read (some read))).process.isRunning = true) (glimpse : Glimpse) :
  ∀ L ∈ glimpse.ledger V.recorder.ledger (V.act d (.read (some read))).recorder.ledger,
    Process.Readable d
      (glimpse.file P.process.saveFile (P.act d (.read (some read))).process.saveFile) L
  := by
  have hfile := h.sound.readable_glimpse hg hw hclock hU hm htracks hrun glimpse
  have hrec := (h.read hg hw hclock hU htracks).recorder
  rw [h.recorder] at hfile
  rw [← hrec]
  apply hfile

theorem Refines.step (hg : d.gson.Documented) (hw : d.Writes) (hclock : ∀ n, d.clock n ≠ 0)
    (h : Refines d U P V) {e : Event} (hu : Moment.Usual d U ⟨d.applicationInfo, e⟩) :
  Refines d U (P.step d e) ((outcome d P (P.afterLine d e) e).foldl (Display.step d) V)
  := by
  cases e with
  | action a => apply h.act hg hw hclock (hu.action a rfl)
  | callback tab c => apply h.callback hu.installed
  | overlap read glimpse tab c =>
      obtain ⟨htracks, packageName, kind, hm⟩ := hu.overlap read glimpse tab c rfl
      have h' := h.read hg hw hclock hu.installed htracks
      rw [Program.step]
      cases hrun : (P.act d (.read (some read))).process.isRunning with
      | true =>
          simp only [if_true]
          apply Refines.overlap h' hrun
          apply h.readable_glimpse hg hw hclock hu.installed hm htracks hrun
      | false =>
          simp only [Bool.false_eq_true, if_false]
          apply Refines.overlap_ended h' hrun

/-- The event comes to what it is, unless the sort does not accept the file that is read, or the page
reads the file in pieces. -/
def Regular (d : Device) (P P' : Program) (V : Display) (e : Event) : Prop :=
  outcome d P P' e = [e] ∨ ¬ d.SortsFile (fileRead P P' e) ∨ V.ReadsPieces e

theorem Refines.regular_callback (h : Refines d U P V)
    (hU : ∀ pkg ∈ U, d.applicationInfo pkg ≠ none) (tab : Tab) (c : Callback) :
  Regular d P P V (.callback tab c)
  := by
  cases hthrows : P.throws d P.process.saveFile tab c with
  | true => exact Or.inr (h.sortsFile_of_throws (h.sound.readable hU) hthrows)
  | false =>
      left
      simp only [outcome, hthrows, Bool.false_eq_true, if_false]

theorem Refines.regular_overlap {P' : Program} {read : String} {glimpse : Glimpse} {tab : Tab}
    {c : Callback} (h' : Refines d U P' (V.act d (.read (some read))))
    (hfile : P'.process.isRunning = true →
      ∀ L ∈ glimpse.ledger V.recorder.ledger (V.act d (.read (some read))).recorder.ledger,
        Process.Readable d (glimpse.file P.process.saveFile P'.process.saveFile) L) :
  Regular d P P' V (.overlap read glimpse tab c)
  := by
  cases hthrows : (P'.process.isRunning &&
      P'.throws d (glimpse.file P.process.saveFile P'.process.saveFile) tab c) with
  | false =>
      left
      simp only [outcome, hthrows, Bool.false_eq_true, if_false]
  | true =>
      right
      obtain ⟨hrun, hthrows⟩ := Bool.and_eq_true_iff.mp hthrows
      have hpages : (V.act d (.read (some read))).pages tab = .created none →
          V.pages tab = .created none := by
        intro hcreated
        rw [Display.act] at hcreated
        split at hcreated
        · cases hcreated
        · apply hcreated
      have hledger : ∀ L ∈ glimpse.ledger V.recorder.ledger
            (V.act d (.read (some read))).recorder.ledger,
          ¬ d.SortsFile (glimpse.file P.process.saveFile P'.process.saveFile) ∨
            V.pages tab = .created none := by
        intro L hL
        exact (h'.sortsFile_of_throws (hfile hrun L hL) hthrows).imp_right hpages
      cases glimpse with
      | before => exact (hledger _ rfl).imp_right Or.inr
      | torn n => exact (hledger _ rfl).imp_right Or.inr
      | mixed seen => exact Or.inr (Or.inl ⟨seen, rfl⟩)
      | after => exact (hledger _ rfl).imp_right Or.inr

theorem Refines.regular (hg : d.gson.Documented) (hw : d.Writes) (hclock : ∀ n, d.clock n ≠ 0)
    (h : Refines d U P V) {e : Event} (hu : Moment.Usual d U ⟨d.applicationInfo, e⟩) :
  Regular d P (P.afterLine d e) V e
  := by
  cases e with
  | action a =>
      by_cases hsort : d.SortsFile P.process.saveFile
      · left
        rw [outcome, Process.outcome_of_sortsFile hsort]
      · exact Or.inr (Or.inl hsort)
  | callback tab c => apply h.regular_callback hu.installed
  | overlap read glimpse tab c =>
      obtain ⟨htracks, packageName, kind, hm⟩ := hu.overlap read glimpse tab c rfl
      apply Refines.regular_overlap (h.read hg hw hclock hu.installed htracks)
      intro hrun
      apply h.readable_glimpse hg hw hclock hu.installed hm htracks hrun

theorem refines_withPackages (info : String → Option ApplicationInfo) :
  Refines (d.withPackages info) U P V ↔ Refines d U P V
  := by
  constructor
  · rintro ⟨hsound, hrec, hpages⟩
    exact ⟨(Process.sound_withPackages info).mp hsound,
      Eq.trans (Process.recorder_withPackages info P.process).symm hrec, hpages⟩
  · rintro ⟨hsound, hrec, hpages⟩
    exact ⟨(Process.sound_withPackages info).mpr hsound,
      Eq.trans (Process.recorder_withPackages info P.process) hrec, hpages⟩

theorem Moment.Usual.withPackages {m : Moment} (hu : Moment.Usual d U m) :
  Moment.Usual (d.withPackages m.applicationInfo) U
    ⟨(d.withPackages m.applicationInfo).applicationInfo, m.event⟩
  := by
  constructor
  · apply hu.installed
  · intro a ha
    obtain ⟨hinstalled, htracked, hcreated⟩ := hu.action a ha
    exact ⟨hinstalled, htracked, hcreated⟩
  · apply hu.overlap

theorem Refines.run (hg : d.gson.Documented) (hw : d.Writes) (hclock : ∀ n, d.clock n ≠ 0)
    (h : Refines d U P V) {ms : List Moment} (hms : ∀ m ∈ ms, Moment.Usual d U m) :
  Refines d U (P.run d ms) (V.run d (P.outcomes d ms))
  := by
  induction ms using List.reverseRecOn with
  | nil => apply h
  | append_singleton ms m ih =>
      have hbefore := ih (fun m' hm' => hms m' (List.mem_append_left _ hm'))
      have hu := (hms m (List.mem_append_right _ (List.mem_singleton_self m))).withPackages
      have hstep := Refines.step (d := d.withPackages m.applicationInfo) hg hw hclock
        ((refines_withPackages m.applicationInfo).mpr hbefore) hu
      rw [outcomes_append, Display.run_append, outcomes, outcomes, List.append_nil, Display.run_map,
        Program.run, List.foldl_concat]
      apply (refines_withPackages m.applicationInfo).mp hstep

/-- A page that has a view shows the ledger that it has read, if it is known what it has read. -/
theorem Refines.shows (h : Refines d U P V) (tab : Tab) :
  Stage.Related (fun page _ => page.mSaveFile = some applistFile)
    (fun page o => ∀ r ∈ o, Process.ShowsLedger r.applicationInfo r.ledger page.toLauncherFragment)
    (P.pages tab) (V.pages tab)
  := by
  apply (h.pages tab).mono
  · intro page o hread
    apply hread.mSaveFile
  · rintro page o hshows r rfl
    apply hshows.showsLedger

/-- Whatever happens to the process and to its pages in any order, the process does what the recorder
does, and each page that has a view shows the ledger of the recorder at the time at which the page was
created or resumed last.  A page that was called during a save shows what it saw then: the ledger
before or after the event, or no entries, or it is not known what, if it has read the file in pieces.
An action or a callback ends the process like a kill only where the sort does not accept the launch
counts in the file that is read, or where the page has read the file in pieces. -/
theorem shows_snapshots (hg : d.gson.Documented) (hw : d.Writes) (hclock : ∀ n, d.clock n ≠ 0)
    {p : Process} (hp : p.Sound d U) {ms : List Moment} (hms : ∀ m ∈ ms, Moment.Usual d U m) :
  let P₀ : Program := ⟨p, fun _ => .absent⟩
  let V₀ : Display := ⟨p.recorder d, fun _ => .absent⟩
  (run d ms P₀).process.recorder d = (Display.run d (P₀.outcomes d ms) V₀).recorder ∧
    (∀ tab, Stage.Related (fun page _ => page.mSaveFile = some applistFile)
      (fun page o => ∀ r ∈ o,
        Process.ShowsLedger r.applicationInfo r.ledger page.toLauncherFragment)
      ((run d ms P₀).pages tab) ((Display.run d (P₀.outcomes d ms) V₀).pages tab)) ∧
    ∀ ms₁ m, ms₁ ++ [m] <+: ms →
      Regular (d.withPackages m.applicationInfo) (run d ms₁ P₀)
        (afterLine (d.withPackages m.applicationInfo) (run d ms₁ P₀) m.event)
        (Display.run d (P₀.outcomes d ms₁) V₀) m.event
  := by
  intro P₀ V₀
  have h := (refines_absent hp).run hg hw hclock hms
  refine ⟨h.recorder, h.shows, ?_⟩
  intro ms₁ m hpre
  have husual : ∀ m' ∈ ms₁ ++ [m], Moment.Usual d U m' := fun m' hm' => hms m' (hpre.subset hm')
  have hbefore := (refines_absent hp).run hg hw hclock
    (fun m' hm' => husual m' (List.mem_append_left [m] hm'))
  have hu := (husual m (List.mem_append_right ms₁ (List.mem_singleton_self m))).withPackages
  exact Refines.regular (d := d.withPackages m.applicationInfo) hg hw hclock
    ((refines_withPackages m.applicationInfo).mpr hbefore) hu

/-- The page of the launcher is opened, an application is used, the page is resumed while this is
saved, and once more. -/
def watched : List Moment :=
  [⟨onePhone.applicationInfo, .action .start⟩, ⟨onePhone.applicationInfo, .callback .launcher .create⟩,
    ⟨onePhone.applicationInfo, .callback .launcher .createView⟩,
    ⟨onePhone.applicationInfo, .overlap (phoneEvent .created "com.example" token_example :
      EventLine onePhone.offset).text (.torn 2) .launcher .resume⟩,
    ⟨onePhone.applicationInfo, .callback .launcher .resume⟩]

theorem usual_watched :
  ∀ m ∈ watched, Moment.Usual onePhone {"com.example"} m
  := by
  have hinstalled : ∀ pkg ∈ ({"com.example"} : Set String), onePhone.applicationInfo pkg ≠ none := by
    rintro pkg rfl
    apply Option.some_ne_none
  have hcallback : ∀ tab c, Moment.Usual onePhone {"com.example"}
      ⟨onePhone.applicationInfo, .callback tab c⟩ := by
    intro tab c
    constructor
    · apply hinstalled
    · rintro _ ⟨⟩
    · rintro _ _ _ _ ⟨⟩
  intro m hm
  simp only [watched, List.mem_cons, List.not_mem_nil, or_false] at hm
  rcases hm with rfl | rfl | rfl | rfl | rfl
  · constructor
    · apply hinstalled
    · rintro _ ⟨⟩
      apply Process.usual_usedTwice _ (List.mem_cons_self)
    · rintro _ _ _ _ ⟨⟩
  · apply hcallback
  · apply hcallback
  · have husual := Process.usual_usedTwice _ (List.mem_cons_of_mem _ List.mem_cons_self)
    constructor
    · apply hinstalled
    · rintro _ ⟨⟩
    · rintro _ _ _ _ ⟨⟩
      exact ⟨husual.tracked, _, _, meaning_eventLine _⟩
  · apply hcallback

theorem shows_snapshots_watched :
  let P₀ : Program := ⟨.ended none 0 0, fun _ => .absent⟩
  let V₀ : Display := ⟨(Process.ended none 0 0).recorder onePhone, fun _ => .absent⟩
  (run onePhone watched P₀).process.recorder onePhone
    = (Display.run onePhone (P₀.outcomes onePhone watched) V₀).recorder
  := (shows_snapshots (d := onePhone) Json.gson_documented (fun _ => rfl) Process.clock_onePhone
    Process.sound_onePhone usual_watched).1

end Program
