import Applogr.Core.Usable
import Applogr.Persistence.Restart

/-!
# Starting from any save file

`onCreate` returns for most contents of the save file, but what it leaves is not always a
service that records events.  It is one exactly if the list is usable.  It throws if the loop of
`setContext` finds out that an entry has been removed, or if the sort does not accept the launch counts.
-/

namespace LogService

variable {d : Device} {s : LogService}

/-- The service handles every sequence of events.  Afterwards the packages of the events that are
not excluded are in the list, and the list is in the save file if the last save has written it. -/
def RecordsEvents (d : Device) (s : LogService) : Prop :=
  ∀ ls : List (EventLine d.offset), ∃ s', onLinesRead d ls s = .ok () s' ∧
    ∀ l ∈ ls, d.excluded l.package = false → l.package ∈ s'.packages ∧
      (lastSave d s' = .written → ∃ t, s'.saveFile = some t ∧
        d.gson.fromJson t = .ok (some (Document.ofRecords s'.records)))

/-- `onCreate` returns, and the service records events. -/
def Recovers (d : Device) (file : Option Text) (n m : ℕ) : Prop :=
  ∃ s, onCreate d (boot file n m) = .ok () s ∧ s.RecordsEvents d

/-! ### Services that record events -/

/-- A service with a loaded list records events. -/
theorem Loaded.recordsEvents (hs : s.Loaded d) (hg : d.gson.Documented) :
  s.RecordsEvents d
  := by
  intro ls
  use LogService.handledAll d ls s, hs.onLinesRead ls
  intro l hl hx
  constructor
  · apply (hs.mem_packages_handledAll ls hx).mpr
    right
    use l
  · obtain ⟨ls, l', rfl⟩ := (List.eq_nil_or_concat' ls).resolve_left (List.ne_nil_of_mem hl)
    rw [handledAll_concat]
    apply (hs.handledAll ls).holds_handled hg

/-- A service without a foreground app, whose list is not usable, throws at an event of a package
that is not in the list. -/
theorem Fresh.onLineRead_throws (hs : s.Fresh d)
    (hl : ∀ l, s.mAppList = some l → ¬ AppList.Usable ⟨s.heap, l⟩) :
  ∃ (l : EventLine d.offset) (s' : LogService),
    onLineRead d (some l.text) s = .error .nullPointer s'
  := by
  let names := s.refs.filterMap (fun r => (s.heap.get r).packageName)
  obtain ⟨pkg, hpkg, hfresh⟩ := exists_token (applogrPackage :: d.homePackage :: systemuiPackage :: names)
  have hx : s.isExcluded pkg = false := by
    simp only [List.mem_cons, not_or] at hfresh
    simp [isExcluded, hs.launcher, hfresh]
  let l : EventLine d.offset :=
    Logged.eventLine d.offset_le_one ⟨.created, 0, 1, 2, pkg, "Main", []⟩ hpkg token_main
  have hstop : stopPrevious d pkg s = .ok () s := by
    rw [stopPrevious, Java.bind_of_ok (Java.get_apply s), hs.idle]
    rfl
  have hsearch : ∃ s', callAppList (AppList.hasPackage pkg) s = .error .nullPointer s' := by
    rcases happs : s.mAppList with _ | list
    · use s
      rw [callAppList, Java.bind_of_ok (Java.get_apply s), happs]
      rfl
    · have hthrows : AppList.hasPackage pkg ⟨s.heap, list⟩ = .error .nullPointer ⟨s.heap, list⟩ := by
        apply AppList.hasPackage_of_not_usable (hl list happs)
        intro apps hlist r hr hname
        apply hfresh
        apply List.mem_cons_of_mem _ (List.mem_cons_of_mem _ (List.mem_cons_of_mem _ _))
        apply List.mem_filterMap.mpr
        use r
        constructor
        · apply List.reduceOption_mem_iff.mpr
          rw [happs, Option.bind_some, hlist]
          apply hr
        · apply hname
      rw [callAppList_eq happs, hthrows]
      exact ⟨_, rfl⟩
  obtain ⟨s', hsearch⟩ := hsearch
  have hevent : onEvent d pkg amCreateActivity s = .error .nullPointer s' := by
    rw [onEvent, Java.bind_of_ok (Java.get_apply s), Java.bind_of_ok hstop, hx]
    apply Java.bind_of_error
    apply Java.bind_of_error hsearch
  use l, s'
  have hname := getPackageName_eventLine l s
  have htag := getEventName_eventLine l s
  have hrec : isRecognised l.kind.tag = true := rfl
  simp only [onLineRead, Java.bind_apply, Java.get_apply, hs.pattern, hs.offset, Java.deref_some,
    Java.pure_apply, hname, htag, hrec, if_true]
  apply hevent

/-- A service without a foreground app records events exactly if its list is usable. -/
theorem Fresh.recordsEvents_iff (hs : s.Fresh d) (hg : d.gson.Documented) :
  s.RecordsEvents d ↔ ∃ l, s.mAppList = some l ∧ AppList.Usable ⟨s.heap, l⟩
  := by
  constructor
  · intro hr
    by_contra hl
    obtain ⟨l, s', h⟩ := hs.onLineRead_throws (fun l hl' hu => hl ⟨l, hl', hu⟩)
    obtain ⟨s'', hrun, -⟩ := hr [l]
    rw [onLinesRead, Java.bind_of_error h] at hrun
    cases hrun
  · rintro ⟨⟨_ | apps⟩, hl, refs, hrefs, hnamed⟩
    · cases hrefs
    · cases hrefs
      have hr := refs_eq hl
      apply (hs.loaded _ _).recordsEvents hg
      · rw [hr]
        apply hl
      · rw [hr]
        apply hnamed

/-! ### Loading a usable list -/

/-- The service has a usable list. -/
def HasUsable (s : LogService) : Prop := ∃ l, s.mAppList = some l ∧ AppList.Usable ⟨s.heap, l⟩

/-- Loading returns and leaves a usable list. -/
def LoadsUsable (d : Device) (s : LogService) : Prop := ∃ s', loadList d s = .ok () s' ∧ s'.HasUsable

theorem recovers_iff_loadsUsable (hg : d.gson.Documented) (file : Option Text) (n m : ℕ) :
  Recovers d file n m ↔ (beforeLoad d file n m).LoadsUsable d
  := by
  rw [Recovers, LoadsUsable, onCreate_eq]
  apply exists_congr
  intro s
  apply and_congr_right
  intro h
  apply ((keeps_loadList d).ok (Fresh.beforeLoad d file n m) h).recordsEvents_iff hg

theorem loadsUsable_of_ok {s' : LogService} (h : loadList d s = .ok () s') :
  s.LoadsUsable d ↔ s'.HasUsable
  := by
  constructor
  · rintro ⟨s'', h', hu⟩
    cases Eq.trans h.symm h'
    apply hu
  · intro hu
    use s'

/-- If the file cannot be read, the list stays as it was. -/
theorem loadsUsable_of_caught {e : JavaException} (he : isCaught e = true)
    (h : readList d s = .error e s) :
  s.LoadsUsable d ↔ s.HasUsable
  := by
  rw [loadsUsable_of_ok (loadList_of_caught he h)]
  rfl

theorem loadsUsable_null (hs : s.Fresh d) {t : Text} (ht : s.saveFile = some t)
    (hd : d.gson.fromJson t = .ok none) :
  ¬ s.LoadsUsable d
  := by
  rw [loadsUsable_of_ok (loadList_of_null hs.file ht hd)]
  rintro ⟨l, hl, -⟩
  cases hl

/-- A usable list is loaded from the documents that `setContext` passes, and that are sorted. -/
theorem loadsUsable_document (hs : s.Fresh d) {t : Text} (ht : s.saveFile = some t) {doc : Document}
    (hd : d.gson.fromJson t = .ok (some doc)) :
  s.LoadsUsable d ↔ ∃ rs, doc = Document.ofRecords rs ∧ Named rs ∧
    AppList.Passes (AppList.recordInstalled d.applicationInfo) rs ∧
    d.Sorts (AppList.remainingRecords d.applicationInfo rs)
  := by
  have hload := loadList_of_read (d := d) (readList_of_document hs.file ht hd)
  have hlist : (withDocument doc s).mAppList = some (AppList.ofDocument s.heap doc).list := rfl
  apply Iff.trans _ (AppList.usable_ofDocument_iff s.heap doc)
  cases hset : AppList.setContext d.sorter d.applicationInfo (AppList.ofDocument s.heap doc) with
  | ok a t' =>
      rw [setListContext_of_ok hlist hset] at hload
      rw [loadsUsable_of_ok hload]
      constructor
      · rintro ⟨_, ⟨⟩, hu⟩
        exact ⟨t', rfl, hu⟩
      · rintro ⟨_, ⟨⟩, hu⟩
        exact ⟨t'.list, rfl, hu⟩
  | error e t' =>
      rw [setListContext_of_error hlist hset] at hload
      have hleft : ¬ s.LoadsUsable d := by
        rcases AppList.setContext_error hset with rfl | rfl | ⟨rfl, hu⟩
        · rintro ⟨s', h, -⟩
          cases Eq.trans h.symm hload
        · rintro ⟨s', h, -⟩
          cases Eq.trans h.symm hload
        · rw [loadsUsable_of_ok hload]
          rintro ⟨_, ⟨⟩, hu'⟩
          apply hu hu'
      constructor
      · intro h
        exact absurd h hleft
      · rintro ⟨_, h, -⟩
        cases h

/-! ### What the file must hold -/

/-- The save of a text leaves a new file empty, or does not create it. -/
def writesNothing (o : WriteOutcome) : Bool :=
  o = .createFails || o = .openFails || o = .writeFails 0

/-- Two saves of a text leave a new file empty. -/
def leaveEmpty (o : WriteOutcome) : WriteOutcome → Bool
  | .writeFails n => n = 0
  | .openFails => writesNothing o
  | _ => false

/-- The save files from which `onCreate` recovers. -/
def Recoverable (d : Device) (saves : ℕ) : Option Text → Prop
  | none => leaveEmpty (d.disk saves) (d.disk (saves + 1)) = false
  | some t => ∃ rs, d.gson.fromJson t = .ok (some (Document.ofRecords rs)) ∧ Named rs ∧
      AppList.Passes (AppList.recordInstalled d.applicationInfo) rs ∧
      d.Sorts (AppList.remainingRecords d.applicationInfo rs)

/-- What `save` leaves of a text. -/
theorem writeFile_text (o : WriteOutcome) (file : Option Text) (t : Text) :
  writeFile o file (some t) = match o with
    | .written => some t
    | .createFails => file.map (fun _ => t)
    | .openFails => some (file.getD [])
    | .writeFails n => some (t.take n)
  := by
  cases file <;> cases o <;> rfl

theorem writeFile_prefix (o : WriteOutcome) {file : Option Text} {t : Text}
    (hfile : ∀ u, file = some u → u <+: t) :
  ∀ u, writeFile o file (some t) = some u → u <+: t
  := by
  intro u hu
  rw [writeFile_text] at hu
  cases o with
  | written =>
      cases hu
      apply List.prefix_refl
  | createFails =>
      obtain ⟨-, -, rfl⟩ := Option.map_eq_some_iff.mp hu
      apply List.prefix_refl
  | openFails =>
      cases hu
      cases file with
      | none => apply List.nil_prefix
      | some u => apply hfile u rfl
  | writeFails n =>
      cases hu
      apply List.take_prefix

theorem writeFile_eq_empty_iff {t : Text} (ht : t ≠ []) (o o' : WriteOutcome) :
  writeFile o' (writeFile o none (some t)) (some t) = some [] ↔ leaveEmpty o o' = true
  := by
  have htake : ∀ n, t.take n = [] ↔ n = 0 := by
    intro n
    rw [List.take_eq_nil_iff]
    exact ⟨fun h => h.resolve_right ht, Or.inl⟩
  rw [writeFile_text, writeFile_text]
  cases o' with
  | written => simp [leaveEmpty, ht]
  | createFails => simp [leaveEmpty, ht]
  | openFails => cases o <;> simp [leaveEmpty, writesNothing, ht, htake]
  | writeFails n => simp [leaveEmpty, htake]

/-- What the two saves of `onCreate` leave of the text of the new list. -/
theorem fileBeforeLoad_new (hg : d.gson.Documented) (m : ℕ) :
  (∀ t, fileBeforeLoad d m none = some t → t <+: d.gson.toJson emptyDocument) ∧
    (fileBeforeLoad d m none = some [] ↔ leaveEmpty (d.disk m) (d.disk (m + 1)) = true)
  := by
  have hne : d.gson.toJson emptyDocument ≠ [] := by
    intro h
    have hr := hg.restores []
    cases Eq.trans hr.symm (Eq.trans (congrArg d.gson.fromJson h) hg.fromJson_empty)
  constructor
  · apply writeFile_prefix
    apply writeFile_prefix
    rintro u ⟨⟩
  · apply writeFile_eq_empty_iff hne

/-- A service without a list gets a usable one from the files that `setContext` passes. -/
theorem loadsUsable_of_text (hs : s.Fresh d) (hl : s.mAppList = none) {t : Text}
    (ht : s.saveFile = some t) (m : ℕ) :
  s.LoadsUsable d ↔ Recoverable d m (some t)
  := by
  have hnone : ¬ s.HasUsable := by
    rintro ⟨l, hlist, -⟩
    cases hl.symm.trans hlist
  rcases hd : d.gson.fromJson t with e | _ | doc
  · obtain ⟨e', he', hread⟩ := readList_malformed hs.file ht hd
    rw [loadsUsable_of_caught he' hread, Recoverable, hd]
    constructor
    · intro h
      exact absurd h hnone
    · rintro ⟨rs, h, -⟩
      cases h
  · rw [Recoverable, hd]
    constructor
    · intro h
      exact absurd h (loadsUsable_null hs ht hd)
    · rintro ⟨rs, h, -⟩
      cases h
  · rw [loadsUsable_document hs ht hd, Recoverable, hd]
    simp only [Except.ok.injEq, Option.some.injEq]

/-- A service with the new list has a usable one unless the file is empty. -/
theorem loadsUsable_new (hs : s.Fresh d) (hg : d.gson.Documented) (hl : s.HasUsable)
    (hbegin : ∀ t, s.saveFile = some t → t <+: d.gson.toJson emptyDocument) :
  s.LoadsUsable d ↔ s.saveFile ≠ some []
  := by
  rcases ht : s.saveFile with _ | _ | ⟨c, t⟩
  · rw [loadsUsable_of_caught rfl (readList_missing hs.file ht)]
    apply iff_of_true hl
    rintro ⟨⟩
  · apply iff_of_false (loadsUsable_null hs ht hg.fromJson_empty)
    intro h
    exact h rfl
  · have hright : some (c :: t) ≠ some [] := by
      rintro ⟨⟩
    apply iff_of_true _ hright
    by_cases hfull : c :: t = d.gson.toJson emptyDocument
    · have hd := hg.restores []
      rw [emptyDocument] at hfull
      rw [← hfull] at hd
      rw [loadsUsable_document hs ht hd]
      use [], rfl
      refine ⟨?_, ?_, d.sorts_nil⟩
      · rintro r ⟨⟩
      · left
        rintro r ⟨⟩
    · obtain ⟨e, hd⟩ := hg.truncated [] (c :: t) (hbegin _ ht) (List.cons_ne_nil c t) hfull
      obtain ⟨e', he', hread⟩ := readList_malformed hs.file ht hd
      rw [loadsUsable_of_caught he' hread]
      apply hl

/-- `onCreate` recovers from a save file exactly if the file holds a list in which each entry has
a package, the packages are installed, except that the first package that is not installed may be
that of the next to last entry, and the sort accepts the launch counts of the others; or if there is no
file, unless it is created and left empty. -/
theorem recovers_iff (hg : d.gson.Documented) (file : Option Text) (n m : ℕ) :
  Recovers d file n m ↔ Recoverable d m file
  := by
  rw [recovers_iff_loadsUsable hg]
  have hfresh := Fresh.beforeLoad d file n m
  cases file with
  | some t => apply loadsUsable_of_text hfresh rfl rfl
  | none =>
      obtain ⟨hbegin, hempty⟩ := fileBeforeLoad_new (d := d) hg m
      have hnew : (beforeLoad d none n m).HasUsable := by
        use AppList.new, rfl, [], rfl
        rintro r ⟨⟩
      rw [loadsUsable_new hfresh hg hnew hbegin, Recoverable, Bool.eq_false_iff, Ne, Ne, ← hempty]
      rfl

/-- A list of two apps. -/
def twoApps : List Record := [⟨some "com.a", 5, 1⟩, ⟨some "com.b", 7, 3⟩]

/-- The first app of the list has been uninstalled. -/
theorem recovers_uninstalled :
  Recovers (phone ["com.b"] tick) (some (Json.gson.toJson (Document.ofRecords twoApps))) 0 0
  := by
  have hholds : Holds (phone ["com.b"] tick)
      (some (Json.gson.toJson (Document.ofRecords twoApps))) twoApps :=
    holds_toJson Json.gson_documented twoApps
  apply (recovers_iff Json.gson_documented _ 0 0).mpr
  refine ⟨twoApps, hholds, ?_, ?_, ?_⟩
  · intro r hr hnone
    rcases List.mem_pair.mp hr with rfl | rfl
    · cases hnone
    · cases hnone
  · have hmissing : "com.a" ∉ ["com.b"] := by decide
    right
    use [], ⟨some "com.a", 5, 1⟩, ⟨some "com.b", 7, 3⟩, rfl
    constructor
    · rintro b ⟨⟩
    · intro h
      exact h "com.a" rfl (if_neg (t := some ⟨"com.a", "com.a"⟩) hmissing)
  · apply Device.sorts_of_short
    apply lt_of_le_of_lt List.length_eraseP_le
    decide

/-- `onCreate` does not recover from an empty file. -/
theorem not_recovers_empty :
  ¬ Recovers (phone [] tick) (some []) 0 0
  := by
  rw [recovers_iff_loadsUsable Json.gson_documented]
  apply loadsUsable_null (Fresh.beforeLoad (phone [] tick) (some []) 0 0) rfl rfl

end LogService
