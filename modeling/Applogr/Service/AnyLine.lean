import Applogr.Service.Startup

/-!
# Lines of any text

The service looks for the package of a line before it looks whether the line is an event that it
recognises.  A line carries an event if it is in the format of an event up to the slash that ends the
package.  A line is harmless if it is handled, and if it changes nothing unless it carries an event.
The harmless lines are those that carry an event, and those with another event name that have the
parts at which the service looks.
-/

/-- The line of an event up to the slash that ends the package. -/
def Logged.upToPackage (mOffset : ℕ) (e : Logged) : String :=
  "I/" ++ e.kind.tag ++ ": ["
    ++ ",".intercalate ((e.ids mOffset).map toString ++ [e.package ++ "/"])

section Lines

variable (mOffset : ℕ) (read : String)

/-- The position at which `getPackageName` looks, when the event name is `eventName`. -/
def packagePosition (eventName : String) : ℕ :=
  if eventName ≠ activityLaunchTime then 4 + mOffset else 3 + mOffset

/-- The line is in the format of a recognised event up to the slash that ends the package, and
anything may follow. -/
def CarriesEvent : Prop :=
  ∃ (e : Logged) (rest : String), Token e.package ∧ read = e.upToPackage mOffset ++ rest

/-- The line has the parts at which the service looks, but its event name is not recognised. -/
def HasOtherParts : Prop :=
  ∃ eventName packageName, (commandPattern.split read 7)[1]? = some eventName ∧
    (commandPattern.split read 7)[packagePosition mOffset eventName]? = some packageName ∧
    LogService.isRecognised eventName = false

end Lines

namespace Logged

variable {mOffset : ℕ} {e : Logged}

/-- The words of the line up to the package, with the runs that follow them. -/
def wordsUpToPackage (mOffset : ℕ) (e : Logged) : List (List Char × List Char) :=
  [("I".toList, "/".toList), (e.kind.tag.toList, ": [".toList)]
    ++ (e.ids mOffset).map (fun n => ((toString n).toList, [',']))
    ++ [(e.package.toList, "/".toList)]

theorem toList_upToPackage (mOffset : ℕ) (e : Logged) :
  (e.upToPackage mOffset).toList = Split.textOf (e.wordsUpToPackage mOffset)
  := by
  have hi : "I/".toList = "I".toList ++ "/".toList := by decide
  rw [upToPackage]
  simp only [String.toList_append, toList_intercalate_comma, hi]
  simp [Split.textOf, wordsUpToPackage, List.flatMap_map]

/-- Every event that is logged is carried by its line. -/
theorem carriesEvent_line (mOffset : ℕ) (e : Logged) (hp : Token e.package) :
  CarriesEvent mOffset (e.line mOffset)
  := by
  let rest := e.activity.toList ++ e.more.flatMap (fun f => ',' :: f.toList) ++ "]".toList
  use e, String.ofList rest, hp
  apply String.toList_inj.mp
  rw [line, fields, upToPackage]
  simp only [String.toList_append, toList_intercalate_comma, component, String.toList_ofList, rest]
  simp

/-- The parts of a line that carries an event are its event name and its package. -/
theorem split_upToPackage (h : mOffset ≤ 1) (hp : Token e.package) (rest : String) :
  (commandPattern.split (e.upToPackage mOffset ++ rest) 7)[1]? = some e.kind.tag ∧
    (commandPattern.split (e.upToPackage mOffset ++ rest) 7)[e.kind.position mOffset]?
      = some e.package
  := by
  have hi : Token "I" := token_of_all (by decide) rfl
  have hrun : ∀ w ∈ e.wordsUpToPackage mOffset, Split.WordRun isSeparator w := by
    intro w hw
    rw [wordsUpToPackage, List.mem_append, List.mem_append] at hw
    rcases hw with (hw | hw) | hw
    · obtain rfl | rfl : w = _ ∨ w = _ := by simpa using hw
      · apply hi.wordRun (by decide) rfl
      · apply (token_tag e.kind).wordRun (by decide) rfl
    · obtain ⟨n, -, rfl⟩ := List.mem_map.mp hw
      apply (token_toString n).wordRun (by decide) rfl
    · obtain rfl := List.mem_singleton.mp hw
      apply hp.wordRun (by decide) rfl
  have hlen : (e.wordsUpToPackage mOffset).length = 3 + (e.ids mOffset).length := by
    simp only [wordsUpToPackage, List.length_append, List.length_cons, List.length_nil,
      List.length_map]
    omega
  have hwords : ((e.wordsUpToPackage mOffset).map Prod.fst).map String.ofList
      = ["I", e.kind.tag] ++ (e.ids mOffset).map toString ++ [e.package] := by
    simp [wordsUpToPackage, Function.comp_def]
  have hids := length_ids_le mOffset e
  have hpos := position_eq h e
  have hpart : ∀ i, i < 3 + (e.ids mOffset).length →
      (commandPattern.split (e.upToPackage mOffset ++ rest) 7)[i]?
        = (["I", e.kind.tag] ++ (e.ids mOffset).map toString ++ [e.package])[i]? := by
    intro i hlt
    have hsplit := Split.splitRuns_textOf hrun rest.toList (i := i) (n := 6) (by omega) (by omega)
    rw [← toList_upToPackage, ← String.toList_append] at hsplit
    rw [Pattern.split, List.getElem?_map, ← hwords, List.getElem?_map]
    exact congrArg (Option.map String.ofList) hsplit
  constructor
  · rw [hpart 1 (by omega)]
    rfl
  · rw [hpart _ (by omega), hpos, List.getElem?_append_right]
    · simp
    · simp

end Logged

theorem EventKind.position_eq (mOffset : ℕ) (kind : EventKind) :
  kind.position mOffset = packagePosition mOffset kind.tag
  := by
  cases kind <;> rfl

theorem LogService.isRecognised_iff (eventName : String) :
  isRecognised eventName = true ↔ ∃ kind : EventKind, eventName = kind.tag
  := by
  simp only [isRecognised, Bool.or_eq_true, decide_eq_true_eq]
  constructor
  · rintro ((rfl | rfl) | rfl)
    · use .resumed
      rfl
    · use .launched
      rfl
    · use .created
      rfl
  · rintro ⟨_ | _ | _, rfl⟩
    · right
      rfl
    · left
      left
      rfl
    · left
      right
      rfl

/-- The event name and the package are found in a line that has the parts. -/
theorem getPackageName_of_parts {σ : Type} {mOffset : ℕ} {read eventName packageName : String}
    (hevent : (commandPattern.split read 7)[1]? = some eventName)
    (hpkg : (commandPattern.split read 7)[packagePosition mOffset eventName]? = some packageName)
    (t : σ) :
  getPackageName commandPattern mOffset read t = .ok packageName t ∧
    getEventName commandPattern read t = .ok eventName t
  := by
  constructor
  · rw [getPackageName, Java.bind_of_ok (Java.index_of_some hevent t)]
    rw [packagePosition] at hpkg
    split at hpkg
    · rename_i h
      rw [if_pos h]
      apply Java.index_of_some hpkg
    · rename_i h
      rw [if_neg h]
      apply Java.index_of_some hpkg
  · apply Java.index_of_some
    rw [← split_event]
    apply hevent

/-- If `getPackageName` returns, the parts are there. -/
theorem parts_of_getPackageName {σ : Type} {mOffset : ℕ} {read packageName : String} {t t' : σ}
    (h : getPackageName commandPattern mOffset read t = .ok packageName t') :
  ∃ eventName, (commandPattern.split read 7)[1]? = some eventName ∧
    (commandPattern.split read 7)[packagePosition mOffset eventName]? = some packageName
  := by
  have hindex : ∀ {i : ℕ} {a : String} {u u' : σ},
      (Java.index (commandPattern.split read 7) i : Java σ String) u = .ok a u' →
        (commandPattern.split read 7)[i]? = some a := by
    intro i a u u' h
    rcases hi : (commandPattern.split read 7)[i]? with _ | b
    · rw [Java.index, hi] at h
      cases h
    · rw [Java.index_of_some hi] at h
      cases h
      rfl
  obtain ⟨eventName, u, hevent, h⟩ := Java.bind_eq_ok_iff.mp h
  use eventName, hindex hevent
  rw [packagePosition]
  split at h
  · rename_i hne
    rw [if_pos hne]
    apply hindex h
  · rename_i hne
    rw [if_neg hne]
    apply hindex h

namespace LogService

variable {d : Device} {s : LogService}

/-- The list, the objects, the foreground app and the save file are the same. -/
structure Unchanged (s s' : LogService) : Prop where
  list : s'.mAppList = s.mAppList
  apps : s'.heap = s.heap
  foreground : s'.mForegroundApp = s.mForegroundApp
  file : s'.saveFile = s.saveFile

/-- In every service with a loaded list the line is handled, and it changes nothing unless it carries
a recognised event with a package. -/
def Harmless (d : Device) (read : String) : Prop :=
  ∀ s : LogService, s.Loaded d → ∃ s', onLineRead d (some read) s = .ok () s' ∧
    (¬ CarriesEvent d.offset read → Unchanged s s')

/-- A service in which the timer of the only app runs. -/
def running (d : Device) (name : String) : LogService :=
  { beforeLoad d none 0 0 with
    heap := Heap.empty.alloc (App.setTimer 1 (App.new name))
    mAppList := some ⟨some [some 0]⟩
    mForegroundApp := some 0 }

theorem loaded_running (d : Device) (name : String) :
  (running d name).Loaded d
  := by
  have hmem : ∀ {r : Ref}, r ∈ (running d name).refs → r = 0 := by
    intro r hr
    apply List.mem_singleton.mp hr
  constructor
  · rfl
  · rfl
  · rfl
  · rfl
  · rfl
  · intro r hr
    rw [hmem hr]
    apply Nat.zero_lt_one
  · intro r hr hnone
    rw [hmem hr] at hnone
    cases hnone
  · rintro f ⟨⟩
    apply List.mem_singleton_self

/-- An event of another package stops the timer of the app. -/
theorem handled_running (d : Device) {name packageName : String} (hne : name ≠ packageName)
    (kind : EventKind) :
  ((handled d packageName kind (running d name)).heap.get 0).mTimer = 0
  := by
  have hother : ((running d name).heap.get 0).packageName ≠ some packageName := by
    rintro ⟨⟩
    apply hne rfl
  have hstop : stopFor d packageName (running d name)
      = (running d name).updateTimed d 0 App.saveTimer := if_pos ⟨rfl, hother⟩
  have hlookup : ((running d name).updateTimed d 0 App.saveTimer).lookup packageName = none := by
    apply lookup_eq_none.mpr
    intro r hr
    rw [List.mem_singleton.mp hr]
    apply hother
  rw [handled, hstop]
  split
  · rfl
  · rw [brought, hlookup]
    rfl

/-- What the service does with a line that has the parts. -/
theorem Loaded.onLineRead_parts (hs : s.Loaded d) {read eventName packageName : String}
    (hevent : (commandPattern.split read 7)[1]? = some eventName)
    (hpkg : (commandPattern.split read 7)[packagePosition d.offset eventName]? = some packageName) :
  LogService.onLineRead d (some read) s
    = if isRecognised eventName then LogService.onEvent d packageName eventName s else .ok () s
  := by
  obtain ⟨hname, htag⟩ := getPackageName_of_parts hevent hpkg s
  simp only [LogService.onLineRead, Java.bind_apply, Java.get_apply, hs.pattern, hs.offset,
    Java.deref_some, Java.pure_apply, hname, htag]
  split <;> rfl

/-- A line that is handled has the parts. -/
theorem Loaded.parts_of_onLineRead (hs : s.Loaded d) {read : String} {s' : LogService}
    (h : LogService.onLineRead d (some read) s = .ok () s') :
  ∃ eventName packageName, (commandPattern.split read 7)[1]? = some eventName ∧
    (commandPattern.split read 7)[packagePosition d.offset eventName]? = some packageName
  := by
  rcases hname : (getPackageName commandPattern d.offset read : Java LogService String) s with
    packageName | e
  · obtain ⟨eventName, hevent, hpkg⟩ := parts_of_getPackageName hname
    use eventName, packageName
  · simp only [LogService.onLineRead, Java.bind_apply, Java.get_apply, hs.pattern, hs.offset,
      Java.deref_some, Java.pure_apply, hname] at h
    cases h

/-- The event of a line that has the parts, if it is recognised. -/
def eventOfParts {mOffset : ℕ} {read packageName : String} {kind : EventKind}
    (hevent : (commandPattern.split read 7)[1]? = some kind.tag)
    (hpkg : (commandPattern.split read 7)[packagePosition mOffset kind.tag]? = some packageName) :
    EventLine mOffset where
  text := read
  kind := kind
  package := packageName
  event_eq := Eq.trans (split_event read).symm hevent
  package_eq := by
    rw [EventKind.position_eq]
    apply hpkg

/-- An event of any package changes some service with a loaded list. -/
theorem exists_changed (d : Device) (packageName : String) (kind : EventKind) :
  ∃ s : LogService, s.Loaded d ∧ ¬ Unchanged s (handled d packageName kind s)
  := by
  obtain ⟨name, -, hname⟩ := exists_token [packageName]
  have hne : name ≠ packageName := fun h => hname (List.mem_singleton.mpr h)
  use running d name, loaded_running d name
  intro hsame
  have htimer := handled_running d hne kind
  have hone : ((running d name).heap.get 0).mTimer = 1 := rfl
  rw [← hsame.apps] at hone
  cases Eq.trans hone.symm htimer

/-- A line is harmless exactly if it carries an event, or if its event name is another one and it has
the parts at which the service looks. -/
theorem harmless_iff (d : Device) (read : String) :
  Harmless d read ↔ CarriesEvent d.offset read ∨ HasOtherParts d.offset read
  := by
  constructor
  · intro h
    have hs := loaded_running d "com.a"
    obtain ⟨s', hrun, -⟩ := h (running d "com.a") hs
    obtain ⟨eventName, packageName, hevent, hpkg⟩ := hs.parts_of_onLineRead hrun
    cases hrec : isRecognised eventName with
    | false => exact Or.inr ⟨eventName, packageName, hevent, hpkg, hrec⟩
    | true =>
        left
        by_contra hnone
        obtain ⟨kind, rfl⟩ := (isRecognised_iff eventName).mp hrec
        obtain ⟨s, hs, hchanged⟩ := exists_changed d packageName kind
        obtain ⟨s', hrun, hsame⟩ := h s hs
        cases Eq.trans hrun.symm (hs.onLineRead (eventOfParts hevent hpkg))
        apply hchanged (hsame hnone)
  · rintro (⟨e, rest, hp, rfl⟩ | ⟨eventName, packageName, hevent, hpkg, hrec⟩) s hs
    · obtain ⟨hevent, hpkg⟩ := Logged.split_upToPackage d.offset_le_one hp rest
      rw [EventKind.position_eq] at hpkg
      use handled d e.package e.kind s, hs.onLineRead (eventOfParts hevent hpkg)
      intro hnone
      exact absurd ⟨e, rest, hp, rfl⟩ hnone
    · have hline := hs.onLineRead_parts hevent hpkg
      rw [hrec] at hline
      use s, hline
      intro _
      exact ⟨rfl, rfl, rfl, rfl⟩

/-- A divider that `logcat` prints is not harmless. -/
theorem not_harmless_divider :
  ¬ Harmless (phone [] tick) "--------- beginning of events"
  := by
  intro h
  have hs := loaded_running (phone [] tick) "com.a"
  obtain ⟨s', hrun, -⟩ := h (running (phone [] tick) "com.a") hs
  obtain ⟨eventName, packageName, hevent, hpkg⟩ := hs.parts_of_onLineRead hrun
  have hsplit : commandPattern.split "--------- beginning of events" 7
      = ["---------", "beginning", "of", "events"] := rfl
  rw [hsplit] at hevent hpkg
  cases hevent
  cases hpkg

end LogService
