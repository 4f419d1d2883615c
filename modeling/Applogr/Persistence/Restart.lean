import Applogr.Accounting.History
import Applogr.Fragment.LauncherFragment

/-!
# Restarting the service

After each event the save file holds the text of the list.  When the process is killed between
two events, a new service and a new page load the records that the list had, in the order in
which the list is sorted, if they can be sorted.  A sort may find out that launch counts that are far
apart break the contract of the comparison, and nothing catches its exception.
-/

namespace LogService

variable {d : Device} {s : LogService}

/-! ### The packages of the list -/

/-- The events of tracked packages are events of installed packages. -/
def EventsInstalled (d : Device) (ls : List (EventLine d.offset)) : Prop :=
  ∀ l ∈ ls, d.excluded l.package = false → d.applicationInfo l.package ≠ none

/-- An event adds at most its package to the list, and only if it is not excluded. -/
theorem Loaded.mem_packages_handled (hs : s.Loaded d) (p : String) (kind : EventKind) {q : String}
    (hq : q ∈ (LogService.handled d p kind s).packages) :
  q ∈ s.packages ∨ (q = p ∧ d.excluded p = false)
  := by
  rw [hs.packages_handled] at hq
  split at hq
  · left
    apply hq
  · rename_i hp
    rcases List.mem_append.mp hq with hq | hq
    · left
      apply hq
    · right
      use List.mem_singleton.mp hq
      simpa using (not_or.mp hp).1

theorem Loaded.allInstalled_iff (hs : s.Loaded d) :
  d.AllInstalled s.records ↔ ∀ p ∈ s.packages, d.applicationInfo p ≠ none
  := by
  constructor
  · intro hi p hp
    obtain ⟨r, hr, rfl⟩ := List.mem_map.mp hp
    apply hi _ (mem_records hr)
    apply hs.packageName_eq hr
  · intro hi a ha pkg hpkg
    obtain ⟨r, hr, rfl⟩ := List.mem_map.mp ha
    have heq : some (s.packageOf r) = some pkg := Eq.trans (hs.packageName_eq hr).symm hpkg
    rw [← Option.some.inj heq]
    apply hi
    apply List.mem_map_of_mem hr

theorem Loaded.allInstalled_handledAll (hs : s.Loaded d) (hi : d.AllInstalled s.records)
    {ls : List (EventLine d.offset)} (hls : EventsInstalled d ls) :
  d.AllInstalled (LogService.handledAll d ls s).records
  := by
  induction ls using List.reverseRecOn with
  | nil => apply hi
  | append_singleton ls l ih =>
      have hls' : EventsInstalled d ls := fun l' hl' => hls l' (List.mem_append_left _ hl')
      have hload := hs.handledAll ls
      have ih := hload.allInstalled_iff.mp (ih hls')
      apply (hs.handledAll (ls ++ [l])).allInstalled_iff.mpr
      intro p hp
      rw [handledAll_concat] at hp
      rcases hload.mem_packages_handled l.package l.kind hp with hp | ⟨rfl, hx⟩
      · apply ih p hp
      · apply hls l (List.mem_append_right _ (List.mem_singleton_self l)) hx

/-! ### The save file -/

theorem Loaded.json_eq (hs : s.Loaded d) :
  s.json d = some (d.gson.toJson (Document.ofRecords s.records))
  := by
  rw [json, hs.list, Option.map_some, AppList.document, Document.ofRecords, records]
  simp only [Option.map_some, List.map_map]
  rfl

theorem Loaded.named_records (hs : s.Loaded d) :
  Named s.records
  := by
  intro a ha
  obtain ⟨r, hr, rfl⟩ := List.mem_map.mp ha
  apply hs.named r hr

/-- The outcome of the last call of `save`. -/
def lastSave (d : Device) (s : LogService) : WriteOutcome := d.disk (s.saves - 1)

/-- When the list has been saved, the file holds the records of the list. -/
theorem Loaded.holds_saved (hs : s.Loaded d) (hg : d.gson.Documented)
    (hw : lastSave d (LogService.saved d s) = .written) :
  ∃ t, (LogService.saved d s).saveFile = some t ∧
    d.gson.fromJson t = .ok (some (Document.ofRecords s.records))
  := by
  have hw : d.disk s.saves = .written := hw
  use d.gson.toJson (Document.ofRecords s.records)
  constructor
  · rw [LogService.saved, hs.json_eq, hw]
    cases s.saveFile <;> rfl
  · apply hg.restores

/-- After each event that has been saved the file holds the records of the list. -/
theorem Loaded.holds_handled (hs : s.Loaded d) (hg : d.gson.Documented) (p : String)
    (kind : EventKind) (hw : lastSave d (LogService.handled d p kind s) = .written) :
  ∃ t, (LogService.handled d p kind s).saveFile = some t ∧
    d.gson.fromJson t = .ok (some (Document.ofRecords (LogService.handled d p kind s).records))
  := by
  rw [LogService.handled] at hw ⊢
  split at hw
  · rename_i hx
    rw [if_pos hx]
    apply (hs.stopFor p).holds_saved hg hw
  · rename_i hx
    rw [if_neg hx]
    apply ((hs.stopFor p).brought p kind).afterStart.holds_saved hg hw

/-- A file that holds the records of the list, up to their order. -/
def FileAgrees (d : Device) (s : LogService) : Prop :=
  ∃ t rs, s.saveFile = some t ∧ d.gson.fromJson t = .ok (some (Document.ofRecords rs)) ∧
    rs.Perm s.records

/-- In every state of a run the file holds the records of the list. -/
theorem Loaded.fileAgrees_handledAll (hs : s.Loaded d) (hg : d.gson.Documented) (hw : d.Writes)
    (hfile : FileAgrees d s) (ls : List (EventLine d.offset)) :
  FileAgrees d (LogService.handledAll d ls s)
  := by
  induction ls using List.reverseRecOn with
  | nil => apply hfile
  | append_singleton ls l ih =>
      obtain ⟨t, ht, hd⟩ := (hs.handledAll ls).holds_handled hg l.package l.kind (hw _)
      rw [handledAll_concat]
      exact ⟨t, _, ht, hd, List.Perm.refl _⟩

/-- The sort looks at the records of the list. -/
theorem FileAgrees.sortsFile_iff (hfile : FileAgrees d s) :
  d.SortsFile s.saveFile ↔ ∃ rs, rs.Perm s.records ∧ d.Sorts rs ∧ Holds d s.saveFile rs
  := by
  obtain ⟨t, rs, ht, hd, hperm⟩ := hfile
  have hholds : Holds d s.saveFile rs := by
    rw [ht]
    apply hd
  constructor
  · intro h
    use rs, hperm, hholds.sortsFile_iff.mp h
  · rintro ⟨rs', -, hsort, hholds'⟩
    apply hholds'.sortsFile_iff.mpr hsort

/-- A new service loads the records of the list, if the sort accepts them. -/
theorem FileAgrees.onCreate (hfile : FileAgrees d s) (hs : s.Loaded d) (hg : d.gson.Documented)
    (hw : d.Writes) (hi : d.AllInstalled s.records) (hsort : d.SortsFile s.saveFile) (n m : ℕ) :
  ∃ s', LogService.onCreate d (boot s.saveFile n m) = .ok () s' ∧ s'.Loaded d ∧
    s'.records.Perm s.records ∧ ∀ r ∈ s'.refs, (s'.heap.get r).mTimer = 0
  := by
  obtain ⟨rs, hperm, hsort, hholds⟩ := hfile.sortsFile_iff.mp hsort
  have hn : Named rs := fun r hr => hs.named_records r (hperm.subset hr)
  have hcreate := onCreate_records hg hw hholds (fun r hr => hi r (hperm.subset hr)) hsort n m
  have hfresh := Fresh.onCreate hcreate
  refine ⟨_, hcreate, ?_, ?_, ?_⟩
  · apply hfresh.loaded
    · apply list_created
    · apply named_created hn
  · apply (records_created d s.saveFile rs n m).trans hperm
  · intro r _
    apply hfresh.stopped

/-- A page loads the records of the list, if the sort accepts them. -/
theorem FileAgrees.refresh (hfile : FileAgrees d s) (hi : d.AllInstalled s.records)
    (hsort : d.SortsFile s.saveFile) {f : LauncherFragment} (hf : f.mSaveFile = some applistFile) :
  ∃ f', LauncherFragment.refresh d s.saveFile f = .ok () f' ∧ f'.Shows ∧
    f'.records.Perm s.records
  := by
  obtain ⟨t, rs, ht, hd, hperm⟩ := hfile
  have hholds : Holds d (some t) rs := hd
  rw [ht] at hsort
  obtain ⟨f', hrun, hshows, hf'⟩ := LauncherFragment.refresh_records hf hd
    (fun r hr => hi r (hperm.subset hr)) (hholds.sortsFile_iff.mp hsort)
  use f'
  refine ⟨ht ▸ hrun, hshows, hf'.trans hperm⟩

/-- If the sort does not accept the records of the list, a new service throws. -/
theorem FileAgrees.onCreate_refused (hfile : FileAgrees d s) (hg : d.gson.Documented)
    (hw : d.Writes) (hi : d.AllInstalled s.records) (hsort : ¬ d.SortsFile s.saveFile) (n m : ℕ) :
  ∃ s', LogService.onCreate d (boot s.saveFile n m) = .error .illegalArgument s'
  := by
  obtain ⟨t, rs, ht, hd, hperm⟩ := hfile
  have hholds : Holds d s.saveFile rs := by
    rw [ht]
    apply hd
  obtain ⟨s', hs', -⟩ := LogService.onCreate_refused hg hw hholds
    (fun r hr => hi r (hperm.subset hr)) (mt hholds.sortsFile_iff.mpr hsort) n m
  use s'

/-- The service that has loaded a list of records, and the file it has left. -/
theorem fileAgrees_created (hg : d.gson.Documented) (hw : d.Writes) {file : Option Text}
    {rs : List Record} (hfile : Holds d file rs) (n m : ℕ) :
  FileAgrees d (created d file rs n m) ∧
    ∀ t, file = some t → (created d file rs n m).saveFile = some t
  := by
  obtain ⟨t, ht, hd⟩ := fileBeforeLoad_holds hg hw hfile m
  constructor
  · use t, rs, ht, hd
    apply (records_created d file rs n m).symm
  · rintro t rfl
    rfl

/-- An event adds at most one record. -/
theorem Loaded.length_records_handledAll (hs : s.Loaded d) (ls : List (EventLine d.offset)) :
  (LogService.handledAll d ls s).records.length ≤ s.records.length + ls.length
  := by
  have hlen : ∀ s : LogService, s.records.length = s.packages.length := by
    intro s
    rw [records, packages, List.length_map, List.length_map]
  induction ls using List.reverseRecOn with
  | nil => apply le_refl
  | append_singleton ls l ih =>
      have hhandled := (hs.handledAll ls).packages_handled l.package l.kind
      rw [handledAll_concat, List.length_append, List.length_singleton, hlen, hhandled]
      rw [hlen] at ih
      split
      · omega
      · rw [List.length_append, List.length_singleton]
        omega

/-- A new service and a page load the records of the list from the file. -/
structure Reloads (d : Device) (s : LogService) : Prop where
  service : ∀ n m, ∃ s', onCreate d (boot s.saveFile n m) = .ok () s' ∧ s'.Loaded d ∧
    s'.records.Perm s.records ∧ ∀ r ∈ s'.refs, (s'.heap.get r).mTimer = 0
  page : ∀ f : LauncherFragment, f.mSaveFile = some applistFile →
    ∃ f', LauncherFragment.refresh d s.saveFile f = .ok () f' ∧ f'.Shows ∧
      f'.records.Perm s.records

/-- What has been recorded when the process is killed between two events is in the save file,
and a new service and a page load it.  A file that exists is not changed before it is loaded. -/
def Survives (d : Device) (file : Option Text) (n m : ℕ) (ls : List (EventLine d.offset)) : Prop :=
  ∃ s₀ s, onCreate d (boot file n m) = .ok () s₀ ∧ (∀ t, file = some t → s₀.saveFile = some t) ∧
    onLinesRead d ls s₀ = .ok () s ∧ s.Loaded d ∧ FileAgrees d s ∧
    (ls ≠ [] → ∃ t, s.saveFile = some t ∧
      d.gson.fromJson t = .ok (some (Document.ofRecords s.records))) ∧
    Reloads d s

/-- Each time that a file is read in the run, the sort accepts the launch counts in it: when the
service is started, and after it has been killed. -/
def SortsEachFile (d : Device) (file : Option Text) (n m : ℕ) (ls : List (EventLine d.offset)) :
    Prop :=
  d.SortsFile file ∧ ∀ s₀ s, onCreate d (boot file n m) = .ok () s₀ →
    onLinesRead d ls s₀ = .ok () s → d.SortsFile s.saveFile

/-- A service is started, and it handles some events. -/
structure Ran (d : Device) (file : Option Text) (rs : List Record) (n m : ℕ)
    (ls : List (EventLine d.offset)) (s₀ s : LogService) : Prop where
  starts : onCreate d (boot file n m) = .ok () s₀
  loaded : s₀.Loaded d
  perm : s₀.records.Perm rs
  keeps : ∀ t, file = some t → s₀.saveFile = some t
  reads : onLinesRead d ls s₀ = .ok () s
  handled : s = handledAll d ls s₀
  agrees : FileAgrees d s
  installed : d.AllInstalled s.records

theorem exists_ran (hg : d.gson.Documented) (hw : d.Writes) {file : Option Text}
    {rs : List Record} (hfile : Holds d file rs) (hn : Named rs) (hi : d.AllInstalled rs)
    (hsort : d.SortsFile file) (n m : ℕ) {ls : List (EventLine d.offset)}
    (hls : EventsInstalled d ls) :
  ∃ s₀ s, Ran d file rs n m ls s₀ s
  := by
  have hcreate := onCreate_records hg hw hfile hi (hfile.sortsFile_iff.mp hsort) n m
  have hload : (created d file rs n m).Loaded d :=
    (Fresh.onCreate hcreate).loaded (list_created d file rs n m) (named_created hn n m)
  have hperm := records_created d file rs n m
  obtain ⟨hagrees, hkeep⟩ := fileAgrees_created hg hw hfile n m
  refine ⟨_, _, ⟨hcreate, hload, hperm, hkeep, hload.onLinesRead ls, rfl, ?_, ?_⟩⟩
  · apply hload.fileAgrees_handledAll hg hw hagrees
  · apply hload.allInstalled_handledAll _ hls
    intro a ha
    apply hi a (hperm.subset ha)

/-- What has been recorded survives a restart exactly if the sort accepts the launch counts each time
that a file is read. -/
theorem survives_restart_iff (hg : d.gson.Documented) (hw : d.Writes) {file : Option Text}
    {rs : List Record} (hfile : Holds d file rs) (hn : Named rs) (hi : d.AllInstalled rs) (n m : ℕ)
    {ls : List (EventLine d.offset)} (hls : EventsInstalled d ls) :
  Survives d file n m ls ↔ SortsEachFile d file n m ls
  := by
  constructor
  · rintro ⟨s₀, s, hcreate, -, hrun, -, -, -, hreload⟩
    have hsort : d.SortsFile file := by
      by_contra hsort
      obtain ⟨s', hthrow, -⟩ := onCreate_refused hg hw hfile hi
        (mt hfile.sortsFile_iff.mpr hsort) n m
      cases hcreate.symm.trans hthrow
    obtain ⟨s₀', s', hran⟩ := exists_ran hg hw hfile hn hi hsort n m hls
    cases hran.starts.symm.trans hcreate
    cases hran.reads.symm.trans hrun
    use hsort
    intro s₁ s₂ h₁ h₂
    cases hcreate.symm.trans h₁
    cases hrun.symm.trans h₂
    by_contra hsort'
    obtain ⟨t, ht, -⟩ := hreload.service 0 0
    obtain ⟨t', hthrow⟩ := hran.agrees.onCreate_refused hg hw hran.installed hsort' 0 0
    cases ht.symm.trans hthrow
  · rintro ⟨hsort, hsort'⟩
    obtain ⟨s₀, s, hran⟩ := exists_ran hg hw hfile hn hi hsort n m hls
    have hload : s.Loaded d := by
      rw [hran.handled]
      apply hran.loaded.handledAll
    have hsort' := hsort' s₀ s hran.starts hran.reads
    refine ⟨s₀, s, hran.starts, hran.keeps, hran.reads, hload, hran.agrees, ?_, ?_, ?_⟩
    · intro hne
      obtain ⟨ls, l, rfl⟩ := List.eq_nil_or_concat' ls |>.resolve_left hne
      rw [hran.handled, handledAll_concat]
      apply (hran.loaded.handledAll ls).holds_handled hg _ _ (hw _)
    · intro n' m'
      apply hran.agrees.onCreate hload hg hw hran.installed hsort'
    · intro f hf
      apply hran.agrees.refresh hran.installed hsort' hf

/-- A list that stays short is sorted. -/
theorem sortsEachFile_of_short (hg : d.gson.Documented) (hw : d.Writes) {file : Option Text}
    {rs : List Record} (hfile : Holds d file rs) (hn : Named rs) (hi : d.AllInstalled rs) (n m : ℕ)
    {ls : List (EventLine d.offset)} (hls : EventsInstalled d ls)
    (hshort : rs.length + ls.length < minMerge) :
  SortsEachFile d file n m ls
  := by
  have hsort : d.SortsFile file := by
    apply hfile.sortsFile_iff.mpr (d.sorts_of_short _)
    omega
  use hsort
  obtain ⟨s₀, s, hran⟩ := exists_ran hg hw hfile hn hi hsort n m hls
  intro s₁ s₂ h₁ h₂
  cases hran.starts.symm.trans h₁
  cases hran.reads.symm.trans h₂
  obtain ⟨t, rs', ht, hd, hperm⟩ := hran.agrees
  have hholds : Holds d (some t) rs' := hd
  have hlen := hran.loaded.length_records_handledAll ls
  rw [← hran.handled, ← hperm.length_eq, hran.perm.length_eq] at hlen
  rw [ht]
  apply hholds.sortsFile_iff.mpr (d.sorts_of_short _)
  omega

/-- A list of one record, and an event of another package. -/
theorem survives_restart_iff_sample :
  Survives (phone ["com.a", "com.example"] tick)
    (some (Json.gson.toJson (Document.ofRecords [⟨some "com.a", 5, 1⟩]))) 0 0
    [phoneEvent .created "com.example" token_example]
  := by
  have hn : Named [⟨some "com.a", 5, 1⟩] := by
    intro r hr hnone
    rw [List.mem_singleton.mp hr] at hnone
    cases hnone
  have hi : (phone ["com.a", "com.example"] tick).AllInstalled [⟨some "com.a", 5, 1⟩] := by
    intro r hr pkg hpkg
    rw [List.mem_singleton.mp hr] at hpkg
    cases hpkg
    intro hnone
    cases hnone
  have hls : EventsInstalled (phone ["com.a", "com.example"] tick)
      [phoneEvent .created "com.example" token_example] := by
    intro l hl _ hnone
    rw [List.mem_singleton.mp hl] at hnone
    cases hnone
  have hholds : Holds (phone ["com.a", "com.example"] tick)
      (some (Json.gson.toJson (Document.ofRecords [⟨some "com.a", 5, 1⟩]))) [⟨some "com.a", 5, 1⟩] :=
    holds_toJson Json.gson_documented _
  apply (survives_restart_iff Json.gson_documented (fun _ => rfl) hholds hn hi 0 0 hls).mpr
  apply sortsEachFile_of_short Json.gson_documented (fun _ => rfl) hholds hn hi 0 0 hls
  decide

/-! ### Launch counts that are far apart -/

/-- The package of the application number `i`. -/
def crowdPackage (i : ℕ) : String := "com.app" ++ toString i

/-- The launches of the application number `i`. -/
def crowdLaunches (i : ℕ) : Int32 :=
  if i = 0 then 2000000000 else if i = 1 then -2000000000 else if i < 18 then 0 else 2000000000

/-- Applications whose counts have been read from a file, and are far apart. -/
def crowd : List Record :=
  (List.range 32).map (fun i => ⟨some (crowdPackage i), 5, crowdLaunches i⟩)

/-- A phone on which the applications are installed. -/
def crowdPhone : Device := phone ((List.range 32).map crowdPackage) tick

/-- The first application comes before the third one, the third one before the second one, and the
second one before the first one. -/
theorem not_sorts_crowd :
  ¬ crowdPhone.Sorts crowd
  := by
  have hcontract : ¬ Contract (fun a b : Record => b.launchCount - a.launchCount) crowd := by
    intro h
    have hmem : ∀ i < 32, (⟨some (crowdPackage i), 5, crowdLaunches i⟩ : Record) ∈ crowd := by
      intro i hi
      apply List.mem_map_of_mem (List.mem_range.mpr hi)
    have hle := h.trans _ (hmem 0 (by decide)) _ (hmem 2 (by decide)) _ (hmem 1 (by decide))
      (by decide) (by decide)
    revert hle
    decide
  have hrefused := Sorter.strict_accepts_of_not_contract (by decide) hcontract
  rw [Device.Sorts, AppList.accepts]
  apply Bool.eq_false_iff.mp hrefused

/-- The service is not started with such a file. -/
theorem not_survives_restart_crowd :
  ¬ ∀ (d : Device) (file : Option Text) (rs : List Record) (n m : ℕ)
    (ls : List (EventLine d.offset)), d.gson.Documented → d.Writes → Holds d file rs → Named rs →
    d.AllInstalled rs → EventsInstalled d ls → Survives d file n m ls
  := by
  intro h
  have hn : Named crowd := by
    intro r hr
    obtain ⟨i, -, rfl⟩ := List.mem_map.mp hr
    apply Option.some_ne_none
  have hi : crowdPhone.AllInstalled crowd := by
    intro r hr pkg hpkg
    obtain ⟨i, hi, rfl⟩ := List.mem_map.mp hr
    cases hpkg
    intro hnone
    have hmem : crowdPackage i ∈ (List.range 32).map crowdPackage := List.mem_map_of_mem hi
    have hsome : crowdPhone.applicationInfo (crowdPackage i)
        = some ⟨crowdPackage i, crowdPackage i⟩ := if_pos hmem
    rw [hsome] at hnone
    cases hnone
  have hholds : Holds crowdPhone (some (crowdPhone.gson.toJson (Document.ofRecords crowd))) crowd :=
    holds_toJson Json.gson_documented crowd
  obtain ⟨s₀, -, hcreate, -⟩ := h crowdPhone _ crowd 0 0 [] Json.gson_documented (fun _ => rfl)
    hholds hn hi (by rintro l ⟨⟩)
  obtain ⟨s', hthrow, -⟩ := onCreate_refused Json.gson_documented (fun _ => rfl) hholds hi
    not_sorts_crowd 0 0
  cases hcreate.symm.trans hthrow

end LogService
