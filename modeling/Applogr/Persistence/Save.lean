import Applogr.Fragment.LauncherFragment
import Applogr.Service.Startup

/-!
# The steps of a save

`save` creates the file if it is missing, opens a writer, which truncates the file, passes on
the text in pieces, flushes the writer and closes it.  The process may be killed between two
steps, and a page may read the file there.  What is read is the old list before the writer is
opened, the new list once its whole text has been passed on, and nothing in between.
-/

namespace LogService

/-! ### The file after some of the steps -/

/-- A step of `save`. -/
inductive SaveStep where
  | createNewFile
  | openWriter
  | write (piece : Text)
  | flush (piece : Text)
  | close
deriving DecidableEq, Repr

/-- The content of the file after a step.  A flush passes on what the writer still has. -/
def SaveStep.apply (file : Option Text) : SaveStep → Option Text
  | .createNewFile => some (file.getD [])
  | .openWriter => some []
  | .write piece => file.map (· ++ piece)
  | .flush piece => file.map (· ++ piece)
  | .close => file

/-- The content of the file after some steps. -/
def afterSteps (steps : List SaveStep) (file : Option Text) : Option Text :=
  steps.foldl SaveStep.apply file

/-- The steps with an open writer, which passes on some pieces when they are written and the
rest when it is flushed. -/
def writerSteps (pieces : List Text) (rest : Text) : List SaveStep :=
  pieces.map .write ++ [.flush rest, .close]

/-- The steps of `save`, when the content of the file is `file`. -/
def saveSteps (file : Option Text) (pieces : List Text) (rest : Text) : List SaveStep :=
  (if file = none then [.createNewFile] else []) ++ .openWriter :: writerSteps pieces rest

/-- What has been passed on by the first `k` steps with an open writer. -/
def passedOn (pieces : List Text) (rest : Text) (k : ℕ) : Text :=
  ((pieces ++ [rest]).take k).flatten

theorem afterSteps_writerSteps (pieces : List Text) (rest t : Text) (k : ℕ) :
  afterSteps ((writerSteps pieces rest).take k) (some t) = some (t ++ passedOn pieces rest k)
  := by
  induction pieces generalizing t k with
  | nil =>
      obtain _ | _ | k := k
      · simp [afterSteps, passedOn]
      · simp [afterSteps, passedOn, writerSteps, SaveStep.apply]
      · cases k <;> simp [afterSteps, passedOn, writerSteps, SaveStep.apply]
  | cons piece pieces ih =>
      cases k with
      | zero => simp [afterSteps, passedOn]
      | succ k =>
          apply Eq.trans (ih (t ++ piece) k)
          simp [passedOn]

/-- The file during a save, if it was there before. -/
theorem afterSteps_saveSteps (old : Text) (pieces : List Text) (rest : Text) (k : ℕ) :
  afterSteps ((saveSteps (some old) pieces rest).take (k + 1)) (some old)
    = some (passedOn pieces rest k)
  := by
  apply Eq.trans (afterSteps_writerSteps pieces rest [] k)
  rw [List.nil_append]

theorem passedOn_prefix (pieces : List Text) (rest : Text) (k : ℕ) :
  passedOn pieces rest k <+: pieces.flatten ++ rest
  := by
  have hall : (pieces ++ [rest]).flatten = pieces.flatten ++ rest := by simp
  rw [← hall, ← List.take_append_drop k (pieces ++ [rest]), List.flatten_append, passedOn]
  apply List.prefix_append

/-- Whatever happens when `save` writes the file, it has executed some of the steps. -/
theorem writeFile_eq_afterSteps (o : WriteOutcome) (file : Option Text) (text : Text) :
  ∃ pieces rest k, pieces.flatten ++ rest = text ∧
    writeFile o file (some text) = afterSteps ((saveSteps file pieces rest).take k) file
  := by
  cases file with
  | none =>
      cases o with
      | written => exact ⟨[], text, 4, rfl, rfl⟩
      | createFails => exact ⟨[], text, 0, rfl, rfl⟩
      | openFails => exact ⟨[], text, 1, rfl, rfl⟩
      | writeFails n =>
          use [text.take n], text.drop n, 3
          constructor
          · simp
          · rfl
  | some old =>
      cases o with
      | written => exact ⟨[], text, 3, rfl, rfl⟩
      | createFails => exact ⟨[], text, 3, rfl, rfl⟩
      | openFails => exact ⟨[], text, 0, rfl, rfl⟩
      | writeFails n =>
          use [text.take n], text.drop n, 2
          constructor
          · simp
          · rfl

/-- When all steps have been executed, the file holds the text. -/
theorem afterSteps_all (file : Option Text) (pieces : List Text) (rest : Text) :
  afterSteps (saveSteps file pieces rest) file
    = writeFile .written file (some (pieces.flatten ++ rest))
  := by
  have hall := afterSteps_writerSteps pieces rest [] (writerSteps pieces rest).length
  have hpassed : passedOn pieces rest (writerSteps pieces rest).length = pieces.flatten ++ rest := by
    rw [passedOn, List.take_of_length_le]
    · simp
    · simp [writerSteps]
  rw [List.take_length, hpassed, List.nil_append] at hall
  cases file <;> exact hall

/-! ### What is read from the file -/

/-- The service and the page read a list from the file.  They load all of it if its packages
are installed, and the sort accepts the launch counts. -/
structure Reads (d : Device) (file : Option Text) (apps : List (Option Record)) : Prop where
  service : ∀ n m, ∃ s, readList d (beforeLoad d file n m) = .ok () s ∧
    s.mAppList.map (AppList.document s.heap) = some ⟨some apps⟩
  page : ∀ f : LauncherFragment, f.mSaveFile = some applistFile →
    ∃ f', LauncherFragment.readList d file f = .ok () f' ∧
      f'.mAppList.map (AppList.document f'.heap) = some ⟨some apps⟩
  loads : ∀ rs, apps = rs.map some → d.AllInstalled rs → d.Sorts rs → ∀ n m,
    ∃ s, onCreate d (boot file n m) = .ok () s ∧ s.records.Perm rs
  shows : ∀ rs, apps = rs.map some → d.AllInstalled rs → d.Sorts rs →
    ∀ f : LauncherFragment, f.mSaveFile = some applistFile →
      ∃ f', LauncherFragment.refresh d file f = .ok () f' ∧ f'.Shows ∧ f'.records.Perm rs

/-- The service loads no entry from the file and does not change it, and the page shows an empty
list. -/
structure ReadsNothing (d : Device) (file : Option Text) : Prop where
  loads : ∀ n m, ∃ s, onCreate d (boot file n m) = .ok () s ∧ s.refs = [] ∧ s.saveFile = file
  shows : ∀ f : LauncherFragment, f.mSaveFile = some applistFile →
    ∃ f', LauncherFragment.refresh d file f = .ok () f' ∧ f'.mAppList = some AppList.new

variable {d : Device}

theorem reads_toJson (hg : d.gson.Documented) (apps : List (Option Record)) :
  Reads d (some (d.gson.toJson ⟨some apps⟩)) apps
  := by
  have hd := hg.restores apps
  constructor
  · intro n m
    refine ⟨_, readList_of_document rfl rfl hd, ?_⟩
    apply congrArg some
    apply AppList.document_ofDocument
  · intro f hf
    refine ⟨_, LauncherFragment.readList_of_document hf hd, ?_⟩
    apply congrArg some
    apply AppList.document_ofDocument
  · rintro rs rfl hi hsort n m
    have hd : d.gson.fromJson (d.gson.toJson ⟨some (rs.map some)⟩)
      = .ok (some (Document.ofRecords rs)) := hd
    refine ⟨_, onCreate_of_text hd hi hsort n m, ?_⟩
    apply records_created
  · rintro rs rfl hi hsort f hf
    apply LauncherFragment.refresh_records hf hd hi hsort

theorem readsNothing_of_givesNothing {t : Text} (ht : d.gson.GivesNothing t) :
  ReadsNothing d (some t)
  := by
  constructor
  · intro n m
    refine ⟨_, Eq.trans (onCreate_eq d (some t) n m) (loadList_of_nothing rfl rfl rfl ht), rfl, rfl⟩
  · intro f hf
    apply LauncherFragment.refresh_of_nothing hf ht

/-- A list is being saved: the file has the text of the old list, and the pieces that are passed on
make up the text of the list of the service. -/
structure Saving (d : Device) (old new : List (Option Record)) (pieces : List Text) (rest : Text)
    (s : LogService) : Prop where
  file : s.saveFile = some (d.gson.toJson ⟨some old⟩)
  list : s.mAppList.map (AppList.document s.heap) = some ⟨some new⟩
  text : s.json d = some (pieces.flatten ++ rest)

/-- The save file after `k` steps of `save`. -/
def duringSave (pieces : List Text) (rest : Text) (k : ℕ) (s : LogService) : Option Text :=
  afterSteps ((saveSteps s.saveFile pieces rest).take k) s.saveFile

theorem Saving.text_eq {old new : List (Option Record)} {pieces : List Text} {rest : Text}
    {s : LogService} (hs : Saving d old new pieces rest s) :
  pieces.flatten ++ rest = d.gson.toJson ⟨some new⟩
  := by
  obtain ⟨l, hl, hnew⟩ := Option.map_eq_some_iff.mp hs.list
  have htext := hs.text
  rw [json, hl, Option.map_some, hnew] at htext
  apply (Option.some.inj htext).symm

/-- What is read from the file after some steps of a save: the old list before the writer is
opened, the new list when its whole text has been passed on, and otherwise nothing. -/
theorem reads_during_save (hg : d.gson.Documented) {old new : List (Option Record)}
    {pieces : List Text} {rest : Text} {s : LogService} (hs : Saving d old new pieces rest s) :
  Reads d (duringSave pieces rest 0 s) old ∧
    ∀ k, (passedOn pieces rest k = pieces.flatten ++ rest →
        Reads d (duringSave pieces rest (k + 1) s) new) ∧
      (passedOn pieces rest k ≠ pieces.flatten ++ rest →
        ReadsNothing d (duringSave pieces rest (k + 1) s))
  := by
  have hzero : duringSave pieces rest 0 s = some (d.gson.toJson ⟨some old⟩) := hs.file
  have hsucc : ∀ k, duringSave pieces rest (k + 1) s = some (passedOn pieces rest k) := by
    intro k
    rw [duringSave, hs.file]
    apply afterSteps_saveSteps
  constructor
  · rw [hzero]
    apply reads_toJson hg
  · intro k
    rw [hsucc, hs.text_eq]
    constructor
    · intro hk
      rw [hk]
      apply reads_toJson hg
    · intro hk
      apply readsNothing_of_givesNothing
      apply hg.givesNothing _ hk
      rw [← hs.text_eq]
      apply passedOn_prefix

/-- A list of one app that has been launched `n` times. -/
def launched (n : Int32) : List (Option Record) := [some ⟨some "com.a", 5, n⟩]

/-- A service in which the app has been launched once more than the file says. -/
def relaunched : LogService :=
  { boot (some (Json.gson.toJson ⟨some (launched 1)⟩)) 0 0 with
    heap := Heap.empty.alloc (App.ofRecord ⟨some "com.a", 5, 2⟩)
    mAppList := some ⟨some [some 0]⟩ }

theorem saving_relaunched :
  Saving (phone ["com.a"] tick) (launched 1) (launched 2) [] (Json.gson.toJson ⟨some (launched 2)⟩)
    relaunched
  := ⟨rfl, rfl, rfl⟩

/-- Neither list is read after the first step of a save, which truncates the file. -/
theorem not_reads_truncated :
  ¬ ∀ old new pieces rest s, Saving (phone ["com.a"] tick) old new pieces rest s → ∀ k,
    Reads (phone ["com.a"] tick) (duringSave pieces rest k s) old ∨
      Reads (phone ["com.a"] tick) (duringSave pieces rest k s) new
  := by
  intro hclaim
  have hnone : ∀ apps, ¬ Reads (phone ["com.a"] tick) (some []) apps := by
    intro apps h
    obtain ⟨s, hs, happs⟩ := h.service 0 0
    have hread : readList (phone ["com.a"] tick) (beforeLoad (phone ["com.a"] tick) (some []) 0 0)
        = .ok () (beforeLoad (phone ["com.a"] tick) (some []) 0 0) := rfl
    rw [hread] at hs
    cases hs
    cases happs
  rcases hclaim _ _ _ _ _ saving_relaunched 1 with h | h
  · apply hnone (launched 1) h
  · apply hnone (launched 2) h

/-- The new list is read when its text has been passed on. -/
theorem reads_during_save_relaunched :
  Reads (phone ["com.a"] tick)
    (duringSave [] (Json.gson.toJson ⟨some (launched 2)⟩) 2 relaunched) (launched 2)
  := ((reads_during_save Json.gson_documented saving_relaunched).2 1).1 rfl

end LogService
