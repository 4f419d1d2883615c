import Applogr.Service.AnyLine

/-!
# The meaning of a line

A line is incomplete if it lacks a part at which the service looks.  A line that is not incomplete
is a recognised event of a package, or it means nothing to the service.
-/

/-- What a line means to the service. -/
inductive Meaning where
  | incomplete
  | nothing
  | event (packageName : String) (kind : EventKind)
deriving DecidableEq, Repr

/-- The recognised event of a name. -/
def EventKind.ofName (eventName : String) : Option EventKind :=
  if eventName = amCreateActivity then some .created
  else if eventName = amResumeActivity then some .resumed
  else if eventName = activityLaunchTime then some .launched
  else none

/-- What a line means when the positions are shifted by `mOffset`. -/
def meaning (mOffset : ℕ) (read : String) : Meaning :=
  match (commandPattern.split read 7)[1]? with
  | none => .incomplete
  | some eventName =>
      match (commandPattern.split read 7)[packagePosition mOffset eventName]? with
      | none => .incomplete
      | some packageName =>
          match EventKind.ofName eventName with
          | none => .nothing
          | some kind => .event packageName kind

theorem EventKind.ofName_tag (kind : EventKind) :
  EventKind.ofName kind.tag = some kind
  := by
  cases kind with
  | created => rfl
  | resumed => rfl
  | launched => rfl

theorem EventKind.tag_of_ofName {eventName : String} {kind : EventKind}
    (h : EventKind.ofName eventName = some kind) :
  kind.tag = eventName
  := by
  rw [EventKind.ofName] at h
  split at h
  · cases h
    symm
    assumption
  · split at h
    · cases h
      symm
      assumption
    · split at h
      · cases h
        symm
        assumption
      · cases h

/-- The names that are recognised are the names of the recognised events. -/
theorem EventKind.isRecognised_eq (eventName : String) :
  LogService.isRecognised eventName = (EventKind.ofName eventName).isSome
  := by
  rw [Bool.eq_iff_iff, LogService.isRecognised_iff, Option.isSome_iff_exists]
  constructor
  · rintro ⟨kind, rfl⟩
    use kind, kind.ofName_tag
  · rintro ⟨kind, h⟩
    use kind, (tag_of_ofName h).symm

/-- A line of an event means the event. -/
theorem meaning_eventLine {mOffset : ℕ} (l : EventLine mOffset) :
  meaning mOffset l.text = .event l.package l.kind
  := by
  have hevent := Eq.trans (split_event l.text) l.event_eq
  have hpkg := l.package_eq
  rw [EventKind.position_eq] at hpkg
  simp only [meaning, hevent, hpkg, EventKind.ofName_tag]

/-- A line that means an event is a line of the event. -/
theorem exists_eventLine {mOffset : ℕ} {read packageName : String} {kind : EventKind}
    (h : meaning mOffset read = .event packageName kind) :
  ∃ l : EventLine mOffset, l.text = read ∧ l.package = packageName ∧ l.kind = kind
  := by
  rw [meaning] at h
  split at h
  · cases h
  · rename_i eventName hevent
    split at h
    · cases h
    · rename_i pkg hpkg
      split at h
      · cases h
      · rename_i k hk
        cases h
        rw [← EventKind.tag_of_ofName hk] at hevent hpkg
        exact ⟨LogService.eventOfParts hevent hpkg, rfl, rfl, rfl⟩

/-- The package of a line that lacks a part is not found. -/
theorem getPackageName_incomplete {σ : Type} {mOffset : ℕ} {read : String}
    (h : meaning mOffset read = .incomplete) (t : σ) :
  getPackageName commandPattern mOffset read t = .error .arrayIndexOutOfBounds t
  := by
  have hindex : ∀ {l : List String} {i : ℕ}, l[i]? = none →
      (Java.index l i : Java σ String) t = .error .arrayIndexOutOfBounds t := by
    intro l i hnone
    rw [Java.index, hnone]
    rfl
  rw [getPackageName]
  rcases hevent : (commandPattern.split read 7)[1]? with _ | eventName
  · apply Java.bind_of_error (hindex hevent)
  · have hpkg : (commandPattern.split read 7)[packagePosition mOffset eventName]? = none := by
      simp only [meaning, hevent] at h
      split at h
      · assumption
      · split at h
        · cases h
        · cases h
    rw [Java.bind_of_ok (Java.index_of_some hevent t)]
    rw [packagePosition] at hpkg
    by_cases hname : eventName ≠ activityLaunchTime
    · rw [if_pos hname] at hpkg ⊢
      apply hindex hpkg
    · rw [if_neg hname] at hpkg ⊢
      apply hindex hpkg

namespace LogService

variable {d : Device} {s : LogService}

/-- What a service that has been prepared does with a line is decided by what the line means.  At an
incomplete line it throws before it has changed anything. -/
theorem onLineRead_eq (hp : s.mCommandPattern = some commandPattern) (ho : s.mOffset = d.offset)
    (read : String) :
  onLineRead d (some read) s = match meaning d.offset read with
    | .incomplete => .error .arrayIndexOutOfBounds s
    | .nothing => .ok () s
    | .event packageName kind => onEvent d packageName kind.tag s
  := by
  cases hm : meaning d.offset read with
  | incomplete =>
      simp only [onLineRead, Java.bind_apply, Java.get_apply, hp, ho, Java.deref_some,
        Java.pure_apply, getPackageName_incomplete hm]
  | nothing =>
      rw [meaning] at hm
      split at hm
      · cases hm
      · rename_i eventName hevent
        split at hm
        · cases hm
        · rename_i packageName hpkg
          split at hm
          · rename_i hnone
            have hrec : isRecognised eventName = false := by
              rw [EventKind.isRecognised_eq, hnone]
              rfl
            obtain ⟨hname, htag⟩ := getPackageName_of_parts hevent hpkg s
            simp only [onLineRead, Java.bind_apply, Java.get_apply, hp, ho, Java.deref_some,
              Java.pure_apply, hname, htag, hrec, Bool.false_eq_true, if_false]
          · cases hm
  | event packageName kind =>
      obtain ⟨l, rfl, rfl, rfl⟩ := exists_eventLine hm
      have hname := getPackageName_eventLine l s
      have htag := getEventName_eventLine l s
      have hrec : isRecognised l.kind.tag = true := (isRecognised_iff _).mpr ⟨l.kind, rfl⟩
      simp only [onLineRead, Java.bind_apply, Java.get_apply, hp, ho, Java.deref_some,
        Java.pure_apply, hname, htag, hrec, if_true]

/-- What a service with a loaded list does with a line. -/
theorem Loaded.onLineRead_meaning (hs : s.Loaded d) (read : String) :
  LogService.onLineRead d (some read) s = match meaning d.offset read with
    | .incomplete => .error .arrayIndexOutOfBounds s
    | .nothing => .ok () s
    | .event packageName kind => .ok () (LogService.handled d packageName kind s)
  := by
  rw [onLineRead_eq hs.pattern hs.offset]
  cases meaning d.offset read with
  | incomplete => rfl
  | nothing => rfl
  | event packageName kind => apply hs.onEvent

end LogService
