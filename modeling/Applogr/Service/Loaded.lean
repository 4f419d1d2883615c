import Applogr.Service.LogService

/-!
# A service with a loaded list

In a service with a loaded list the fields are not null, the entries of the list are
objects with packages, and the foreground app is null or an entry of the list.  There each
method returns, and its effect is a function of the state: `stopFor`, `brought`, `started`
and `saved` are the effects of the parts of `onLineRead`, and `handled` is the effect of
an event.
-/

namespace LogService

/-- The entries of the list which are not null. -/
def refs (s : LogService) : List Ref :=
  ((s.mAppList.bind AppList.apps).getD []).reduceOption

/-- The service has a loaded list. -/
structure Loaded (d : Device) (s : LogService) : Prop where
  pattern : s.mCommandPattern = some commandPattern
  file : s.mSaveFile = some applistFile
  launcher : s.mLauncherPackage = some d.homePackage
  offset : s.mOffset = d.offset
  list : s.mAppList = some ⟨some (s.refs.map some)⟩
  allocated : ∀ r ∈ s.refs, r < s.heap.next
  named : ∀ r ∈ s.refs, (s.heap.get r).packageName ≠ none
  foreground : ∀ f, s.mForegroundApp = some f → f ∈ s.refs

/-- The entry that `getApp` finds. -/
def lookup (s : LogService) (pkg : String) : Option Ref :=
  s.refs.find? (fun r => (s.heap.get r).packageName = some pkg)

/-- Changing an object of the heap. -/
def update (r : Ref) (f : App → App) (s : LogService) : LogService :=
  { s with heap := s.heap.modify r f }

/-- Changing an object of the heap by a method that reads the clock. -/
def updateTimed (d : Device) (r : Ref) (f : Int64 → App → App) (s : LogService) : LogService :=
  { s with heap := s.heap.modify r (f (d.clock s.readings)), readings := s.readings + 1 }

/-- The effect of `stopPrevious`. -/
def stopFor (d : Device) (pkg : String) (s : LogService) : LogService :=
  match s.mForegroundApp with
  | none => s
  | some f =>
      if (s.heap.get f).timerIsStarted ∧ (s.heap.get f).packageName ≠ some pkg then
        s.updateTimed d f App.saveTimer
      else
        s

/-- The effect of `bringKnown` or `bringNew`. -/
def brought (pkg : String) (kind : EventKind) (s : LogService) : LogService :=
  match s.lookup pkg with
  | some r =>
      if s.mForegroundApp = some r then
        s
      else
        { s with heap := if kind = .resumed then s.heap
                         else s.heap.modify r App.incrementLaunchCount,
                 mForegroundApp := some r }
  | none =>
      { s with heap := (s.heap.alloc (App.new pkg)).modify s.heap.next App.incrementLaunchCount,
               mAppList := some ⟨some ((s.refs ++ [s.heap.next]).map some)⟩,
               mForegroundApp := some s.heap.next }

/-- The effect of `mForegroundApp.setTimer()`. -/
def started (d : Device) (s : LogService) : LogService :=
  match s.mForegroundApp with
  | none => s
  | some f => s.updateTimed d f App.setTimer

/-- The effect of `save`. -/
def saved (d : Device) (s : LogService) : LogService :=
  { s with saveFile := writeFile (d.disk s.saves) s.saveFile (s.json d), saves := s.saves + 1 }

/-- The effect of an event. -/
def handled (d : Device) (pkg : String) (kind : EventKind) (s : LogService) : LogService :=
  saved d (if s.isExcluded pkg then stopFor d pkg s
    else started d (brought pkg kind (stopFor d pkg s)))

/-! ### Methods of the list -/

section Methods

variable {s : LogService} {d : Device}

theorem getAppLoop_eq {heap : Heap App} {l : AppList} (pkg : String) {refs : List Ref}
    (h : ∀ r ∈ refs, (heap.get r).packageName ≠ none) :
  AppList.getAppLoop pkg (refs.map some) ⟨heap, l⟩
    = .ok (refs.find? (fun r => (heap.get r).packageName = some pkg)) ⟨heap, l⟩
  := by
  induction refs with
  | nil => rfl
  | cons r refs ih =>
      obtain ⟨name, hname⟩ := Option.ne_none_iff_exists'.mp (h r List.mem_cons_self)
      have ih := ih (fun r' hr' => h r' (List.mem_cons_of_mem _ hr'))
      have heq : AppList.packageEquals pkg (some r) ⟨heap, l⟩
          = .ok (decide (name = pkg)) ⟨heap, l⟩ := by
        simp [AppList.packageEquals, Java.bind_apply, hname]
      rw [List.map_cons, AppList.getAppLoop, Java.bind_of_ok heq]
      by_cases hn : name = pkg
      · simp [hn, hname]
      · simp [hn, hname, ih]

theorem hasPackageLoop_eq {heap : Heap App} {l : AppList} (pkg : String) {refs : List Ref}
    (h : ∀ r ∈ refs, (heap.get r).packageName ≠ none) :
  AppList.hasPackageLoop pkg (refs.map some) ⟨heap, l⟩
    = .ok (refs.find? (fun r => (heap.get r).packageName = some pkg)).isSome ⟨heap, l⟩
  := by
  induction refs with
  | nil => rfl
  | cons r refs ih =>
      obtain ⟨name, hname⟩ := Option.ne_none_iff_exists'.mp (h r List.mem_cons_self)
      have ih := ih (fun r' hr' => h r' (List.mem_cons_of_mem _ hr'))
      have heq : AppList.packageEquals pkg (some r) ⟨heap, l⟩
          = .ok (decide (name = pkg)) ⟨heap, l⟩ := by
        simp [AppList.packageEquals, Java.bind_apply, hname]
      rw [List.map_cons, AppList.hasPackageLoop, Java.bind_of_ok heq]
      by_cases hn : name = pkg
      · simp [hn, hname]
      · simp [hn, hname, ih]

/-- A method of the list runs on the objects of the service. -/
theorem callAppList_eq {α : Type} {l : AppList} (hl : s.mAppList = some l) (m : Java Apps α) :
  callAppList m s = match m ⟨s.heap, l⟩ with
    | .ok a t => .ok a { s with heap := t.heap, mAppList := some t.list }
    | .error e t => .error e { s with heap := t.heap, mAppList := some t.list }
  := by
  simp only [callAppList, Java.bind_apply, Java.get_apply, hl, Java.deref_some, Java.pure_apply,
    Java.zoom]
  cases m ⟨s.heap, l⟩ <;> rfl

/-- A method of the list which changes nothing. -/
theorem callAppList_of_pure {α : Type} {l : AppList} (hl : s.mAppList = some l) {m : Java Apps α}
    {a : α} (hm : m ⟨s.heap, l⟩ = .ok a ⟨s.heap, l⟩) :
  callAppList m s = .ok a s
  := by
  rw [callAppList_eq hl, hm]
  simp only [← hl]

theorem Loaded.getApp (hs : s.Loaded d) (pkg : String) :
  callAppList (AppList.getApp pkg) s = .ok (s.lookup pkg) s
  := by
  apply callAppList_of_pure hs.list
  apply getAppLoop_eq pkg hs.named

theorem Loaded.hasPackage (hs : s.Loaded d) (pkg : String) :
  callAppList (AppList.hasPackage pkg) s = .ok (s.lookup pkg).isSome s
  := by
  apply callAppList_of_pure hs.list
  apply hasPackageLoop_eq pkg hs.named

/-- The entry that is found is in the list, and it has the package. -/
theorem lookup_eq_some {pkg : String} {r : Ref} (h : s.lookup pkg = some r) :
  r ∈ s.refs ∧ (s.heap.get r).packageName = some pkg
  := by
  constructor
  · apply List.mem_of_find?_eq_some h
  · simpa using List.find?_some h

theorem lookup_eq_none {pkg : String} :
  s.lookup pkg = none ↔ ∀ r ∈ s.refs, (s.heap.get r).packageName ≠ some pkg
  := by
  simp [lookup, List.find?_eq_none]

theorem refs_eq {l : List Ref} (h : s.mAppList = some ⟨some (l.map some)⟩) :
  s.refs = l
  := by
  rw [refs, h]
  apply reduceOption_map_some

end Methods

/-! ### The parts of `onLineRead` -/

section Parts

variable {s : LogService} {d : Device}

theorem callForegroundTimer_eq {f : Ref} (hf : s.mForegroundApp = some f)
    (g : Int64 → App → App) :
  callForegroundTimer d g s = .ok () (s.updateTimed d f g)
  := by
  simp [callForegroundTimer, currentTimeMillis, Java.bind_apply, hf, updateTimed]

theorem save_eq (hs : s.mSaveFile = some applistFile) :
  save d s = .ok () (saved d s)
  := by
  simp [save, saved, Java.bind_apply, hs]

theorem Loaded.stopPrevious (hs : s.Loaded d) (pkg : String) :
  LogService.stopPrevious d pkg s = .ok () (stopFor d pkg s)
  := by
  rw [LogService.stopPrevious, Java.bind_of_ok (Java.get_apply s), stopFor]
  cases hf : s.mForegroundApp with
  | none => rfl
  | some f =>
      obtain ⟨name, hname⟩ := Option.ne_none_iff_exists'.mp (hs.named f (hs.foreground f hf))
      simp only [hname]
      by_cases ht : (s.heap.get f).timerIsStarted = true
      · by_cases hn : name = pkg
        · simp [ht, hn]
        · simp [ht, hn, callForegroundTimer_eq hf]
      · simp [ht]

theorem Loaded.started (hf : s.mForegroundApp ≠ none) :
  callForegroundTimer d App.setTimer s = .ok () (LogService.started d s)
  := by
  obtain ⟨f, hf⟩ := Option.ne_none_iff_exists'.mp hf
  rw [callForegroundTimer_eq hf, LogService.started, hf]

theorem packageName_update {f : App → App} (hf : ∀ a, (f a).packageName = a.packageName)
    (r r' : Ref) :
  ((s.update r f).heap.get r').packageName = (s.heap.get r').packageName
  := s.heap.get_modify_field App.packageName hf r r'

theorem lookup_update {f : App → App} (hf : ∀ a, (f a).packageName = a.packageName) (r : Ref)
    (pkg : String) :
  (s.update r f).lookup pkg = s.lookup pkg
  := by
  simp only [lookup, packageName_update hf]
  rfl

theorem Loaded.update (hs : s.Loaded d) {f : App → App}
    (hf : ∀ a, (f a).packageName = a.packageName) (r : Ref) :
  (s.update r f).Loaded d
  := { hs with
    named := by
      intro r' hr'
      rw [packageName_update hf]
      apply hs.named r' hr' }

theorem Loaded.updateTimed (hs : s.Loaded d) {f : Int64 → App → App}
    (hf : ∀ now a, (f now a).packageName = a.packageName) (r : Ref) :
  (s.updateTimed d r f).Loaded d
  := { hs.update (hf (d.clock s.readings)) r with }

theorem callApp_eq (r : Ref) (f : App → App) :
  callApp (some r) f s = .ok () (s.update r f)
  := rfl

theorem addApp_eq {l : List Ref} (hl : s.mAppList = some ⟨some (l.map some)⟩) (r : Ref) :
  callAppList (AppList.addApp r) s
    = .ok () { s with mAppList := some ⟨some ((l ++ [r]).map some)⟩ }
  := by
  rw [callAppList_eq hl]
  simp [AppList.addApp, AppList.getApps, AppList.setApps, Java.bind_apply]

theorem Loaded.bringKnown (hs : s.Loaded d) {pkg : String} {r : Ref}
    (h : s.lookup pkg = some r) (kind : EventKind) :
  LogService.bringKnown pkg kind.tag s = .ok () (brought pkg kind s)
  := by
  have hget := hs.getApp pkg
  rw [LogService.bringKnown, Java.bind_of_ok (Java.get_apply s), Java.bind_of_ok hget, brought, h]
  by_cases hf : s.mForegroundApp = some r
  · simp [hf]
  · have hkind : kind.tag = amResumeActivity ↔ kind = .resumed := by
      apply EventKind.tag_injective.eq_iff (b := .resumed)
    by_cases hk : kind = .resumed
    · have htag : EventKind.resumed.tag = amResumeActivity := rfl
      simp [hf, hk, htag, Java.bind_apply, hget, h]
    · have hget' := (hs.update App.packageName_incrementLaunchCount r).getApp pkg
      rw [lookup_update App.packageName_incrementLaunchCount, h] at hget'
      simp [hf, hk, mt hkind.mp hk, Java.bind_apply, hget, h, callApp_eq, hget']
      simp [LogService.update]

theorem Loaded.bringNew (hs : s.Loaded d) {pkg : String} (h : s.lookup pkg = none)
    (kind : EventKind) :
  LogService.bringNew pkg s = .ok () (brought pkg kind s)
  := by
  have hadd := addApp_eq (s := { s with heap := s.heap.alloc (App.new pkg) }) hs.list s.heap.next
  rw [LogService.bringNew, Java.bind_of_ok (Java.get_apply s),
    Java.bind_of_ok (Java.modify_apply _ s), Java.bind_of_ok hadd, brought, h]
  rfl

/-- The app which was brought forward is the foreground app. -/
theorem foreground_brought (pkg : String) (kind : EventKind) (s : LogService) :
  (brought pkg kind s).mForegroundApp ≠ none
  := by
  rw [brought]
  cases h : s.lookup pkg with
  | none => simp
  | some r =>
      by_cases hf : s.mForegroundApp = some r
      · simp [hf]
      · simp [hf]

theorem Loaded.startThis (hs : s.Loaded d) (pkg : String) (kind : EventKind) :
  LogService.startThis d pkg kind.tag s = .ok () (LogService.started d (brought pkg kind s))
  := by
  have htimer := Loaded.started (d := d) (foreground_brought pkg kind s)
  rw [LogService.startThis, Java.bind_of_ok (hs.hasPackage pkg)]
  cases h : s.lookup pkg with
  | none =>
      simp only [Option.isSome_none, Bool.false_eq_true, if_false]
      rw [Java.bind_of_ok (hs.bringNew h kind), htimer]
  | some r =>
      simp only [Option.isSome_some, if_true]
      rw [Java.bind_of_ok (hs.bringKnown h kind), htimer]

end Parts

/-! ### Events -/

section Events

variable {s : LogService} {d : Device}

/-- Stopping the timer of the previous app changes at most its object and the number of
readings. -/
theorem stopFor_cases (d : Device) (pkg : String) (s : LogService) :
  stopFor d pkg s = s ∨ ∃ f, s.mForegroundApp = some f ∧ (s.heap.get f).mTimer ≠ 0 ∧
    (s.heap.get f).packageName ≠ some pkg ∧ stopFor d pkg s = s.updateTimed d f App.saveTimer
  := by
  rw [stopFor]
  cases hf : s.mForegroundApp with
  | none => simp
  | some f =>
      by_cases h : (s.heap.get f).timerIsStarted ∧ (s.heap.get f).packageName ≠ some pkg
      · right
        use f, rfl, (App.timerIsStarted_iff _).mp h.1, h.2
        simp only [if_pos h]
      · left
        simp only [if_neg h]

theorem Loaded.stopFor (hs : s.Loaded d) (pkg : String) :
  (LogService.stopFor d pkg s).Loaded d
  := by
  rcases stopFor_cases d pkg s with h | ⟨f, -, -, -, h⟩
  · rw [h]
    apply hs
  · rw [h]
    apply hs.updateTimed App.packageName_saveTimer

theorem Loaded.brought (hs : s.Loaded d) (pkg : String) (kind : EventKind) :
  (LogService.brought pkg kind s).Loaded d
  := by
  rw [LogService.brought]
  cases h : s.lookup pkg with
  | some r =>
      simp only
      split
      · apply hs
      · have hr := (lookup_eq_some h).1
        have hfg : ∀ f, some r = some f → f ∈ s.refs := by
          rintro f ⟨⟩
          apply hr
        by_cases hk : kind = .resumed
        · simp only [hk, if_true]
          exact { hs with foreground := hfg }
        · simp only [hk, if_false]
          exact { hs.update App.packageName_incrementLaunchCount r with foreground := hfg }
  | none =>
      have hrefs := refs_eq (s := LogService.brought pkg kind s) (l := s.refs ++ [s.heap.next])
        (by rw [LogService.brought, h])
      rw [LogService.brought, h] at hrefs
      have hmem : ∀ {P : Ref → Prop}, (∀ r ∈ s.refs, P r) → P s.heap.next →
          ∀ r ∈ s.refs ++ [s.heap.next], P r := by
        intro P hold hnew r hr
        rcases List.mem_append.mp hr with hr | hr
        · apply hold r hr
        · rw [List.mem_singleton.mp hr]
          apply hnew
      constructor
      · apply hs.pattern
      · apply hs.file
      · apply hs.launcher
      · apply hs.offset
      · rw [hrefs]
      · rw [hrefs]
        apply hmem
        · intro r hr
          apply Nat.lt_succ_of_lt (hs.allocated r hr)
        · apply Nat.lt_succ_self
      · rw [hrefs]
        apply hmem
        · intro r hr
          have hlt := hs.allocated r hr
          simp only
          rw [Heap.get_modify_of_ne _ (Nat.ne_of_lt hlt), Heap.get_alloc_of_lt _ hlt]
          apply hs.named r hr
        · simp [App.new]
      · rw [hrefs]
        rintro f ⟨⟩
        simp

theorem Loaded.afterStart (hs : s.Loaded d) :
  (LogService.started d s).Loaded d
  := by
  rw [LogService.started]
  split
  · apply hs
  · apply hs.updateTimed App.packageName_setTimer

theorem Loaded.saved (hs : s.Loaded d) :
  (LogService.saved d s).Loaded d
  := { hs with }

/-- Handling an event leaves the service with a loaded list. -/
theorem Loaded.handled (hs : s.Loaded d) (pkg : String) (kind : EventKind) :
  (LogService.handled d pkg kind s).Loaded d
  := by
  rw [LogService.handled]
  apply Loaded.saved
  split
  · apply hs.stopFor
  · apply Loaded.afterStart
    apply Loaded.brought
    apply hs.stopFor

theorem Loaded.onEvent (hs : s.Loaded d) (pkg : String) (kind : EventKind) :
  LogService.onEvent d pkg kind.tag s = .ok () (LogService.handled d pkg kind s)
  := by
  have hstop := hs.stopFor pkg
  rw [LogService.onEvent, Java.bind_of_ok (Java.get_apply s), Java.bind_of_ok (hs.stopPrevious pkg),
    LogService.handled]
  by_cases he : s.isExcluded pkg = true
  · simp only [he, Bool.not_true, Bool.false_eq_true, if_false, if_true]
    apply save_eq hstop.file
  · simp only [he, Bool.not_false, if_true, Bool.false_eq_true, if_false]
    rw [Java.bind_of_ok (hstop.startThis pkg kind)]
    apply save_eq (hstop.brought pkg kind).afterStart.file

/-- In a service with a loaded list every line of an event is handled. -/
theorem Loaded.onLineRead (hs : s.Loaded d) (l : EventLine d.offset) :
  LogService.onLineRead d (some l.text) s = .ok () (LogService.handled d l.package l.kind s)
  := by
  have hrec : isRecognised l.kind.tag = true := by
    cases l.kind <;> decide
  have hpkg := getPackageName_eventLine l s
  have hevent := getEventName_eventLine l s
  simp only [LogService.onLineRead, Java.bind_apply, Java.get_apply, hs.pattern, hs.offset,
    Java.deref_some, Java.pure_apply, hpkg, hevent, hrec, if_true]
  apply hs.onEvent

/-- The effect of a sequence of events. -/
def handledAll (d : Device) (ls : List (EventLine d.offset)) (s : LogService) : LogService :=
  ls.foldl (fun s l => handled d l.package l.kind s) s

theorem Loaded.handledAll (hs : s.Loaded d) (ls : List (EventLine d.offset)) :
  (LogService.handledAll d ls s).Loaded d
  := by
  induction ls generalizing s with
  | nil => apply hs
  | cons l ls ih => apply ih (hs.handled l.package l.kind)

/-- In a service with a loaded list every sequence of lines of events is handled. -/
theorem Loaded.onLinesRead (hs : s.Loaded d) (ls : List (EventLine d.offset)) :
  LogService.onLinesRead d ls s = .ok () (LogService.handledAll d ls s)
  := by
  induction ls generalizing s with
  | nil => rfl
  | cons l ls ih =>
      rw [LogService.onLinesRead, Java.bind_of_ok (hs.onLineRead l)]
      apply ih (hs.handled l.package l.kind)

end Events

end LogService
