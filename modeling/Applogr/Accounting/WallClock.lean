import Applogr.Accounting.ForegroundTime
import Applogr.Accounting.Objects

/-!
# The wall clock

The time of an app is the sum of differences of two readings of the wall clock, which may be set
back or forward at any moment.  Nothing in the service compares the readings.  So the time of an app
decreases exactly when the clock shows less than when the timer was started, or when the sum does
not fit into 64 bits.
-/

namespace LogService

variable {d : Device} {s s' : LogService} {p : String} {kind : EventKind}

/-- No entry is lost, no time has become less, and none is negative. -/
structure Forward (s s' : LogService) : Prop where
  increases : ∀ r ∈ s.refs, r ∈ s'.refs ∧ (s.heap.get r).timeUsedMs ≤ (s'.heap.get r).timeUsedMs
  nonneg : ∀ r ∈ s'.refs, 0 ≤ (s'.heap.get r).timeUsedMs

/-- The timer that an event of the package stops was started when the clock showed no more than it
shows now, and the time of the app, with the time since then, fits into 64 bits. -/
def TimerFits (d : Device) (p : String) (s : LogService) : Prop :=
  ∀ r, StopsAt p s r → (s.heap.get r).mTimer.toInt ≤ (d.clock s.readings).toInt ∧
    (s.heap.get r).timeUsedMs.toInt
      + ((d.clock s.readings).toInt - (s.heap.get r).mTimer.toInt) < 2 ^ 63

instance (d : Device) (p : String) (s : LogService) : Decidable (TimerFits d p s) :=
  decidable_of_iff (∀ r ∈ s.mForegroundApp, StopsAt p s r →
      (s.heap.get r).mTimer.toInt ≤ (d.clock s.readings).toInt ∧
        (s.heap.get r).timeUsedMs.toInt
          + ((d.clock s.readings).toInt - (s.heap.get r).mTimer.toInt) < 2 ^ 63)
    ⟨fun h r hr => h r hr.1 hr, fun h r _ hr => h r hr⟩

/-- In a run each line is handled, and the relation holds between the states before and after
it. -/
def EveryStep (d : Device) (P : String → LogService → LogService → Prop)
    (ls : List (EventLine d.offset)) (s : LogService) : Prop :=
  ∀ ls₁ l ls₂, ls = ls₁ ++ l :: ls₂ → ∃ s₁ s₂, onLinesRead d ls₁ s = .ok () s₁ ∧
    onLineRead d (some l.text) s₁ = .ok () s₂ ∧ P l.package s₁ s₂

/-- In a run no time of an app ever decreases, and none becomes negative. -/
def NeverBackwards (d : Device) (ls : List (EventLine d.offset)) (s : LogService) : Prop :=
  EveryStep d (fun _ s₁ s₂ => Forward s₁ s₂) ls s

/-- In a run each timer that is stopped fits. -/
def TimersFit (d : Device) (ls : List (EventLine d.offset)) (s : LogService) : Prop :=
  EveryStep d (fun p s₁ _ => TimerFits d p s₁) ls s

/-- The timers hold nothing or the time at which they were started. -/
def TimersNonneg (s : LogService) : Prop := ∀ r ∈ s.refs, 0 ≤ (s.heap.get r).mTimer

/-! ### One event -/

theorem ListEffect.timersNonneg (h : ListEffect d p kind s s') (hs : s.TimersNonneg)
    (hclock : ∀ n, 0 < d.clock n) :
  s'.TimersNonneg
  := by
  have hread : 0 ≤ d.clock (s'.readings - 1) := Int64.le_of_lt (hclock _)
  intro r hr
  rcases h.mem_or_new hr with hr | ⟨rfl, hp, hl⟩
  · rw [h.mTimer r hr]
    split
    · apply hread
    · split
      · apply Int64.le_refl
      · apply hs r hr
  · rw [h.new hp hl]
    apply hread

/-- An event makes no time decrease exactly when the timer that it stops fits. -/
theorem ListEffect.forward_iff (h : ListEffect d p kind s s') (hs : s.Loaded d)
    (htimers : s.TimersNonneg) (hnonneg : ∀ r ∈ s.refs, 0 ≤ (s.heap.get r).timeUsedMs)
    (hclock : ∀ n, 0 < d.clock n) :
  Forward s s' ↔ TimerFits d p s
  := by
  have hstop : ∀ r ∈ s.refs, StopsAt p s r →
      ((s.heap.get r).timeUsedMs ≤ (s'.heap.get r).timeUsedMs ↔
        (s.heap.get r).mTimer.toInt ≤ (d.clock s.readings).toInt ∧
          (s.heap.get r).timeUsedMs.toInt
            + ((d.clock s.readings).toInt - (s.heap.get r).mTimer.toInt) < 2 ^ 63) := by
    intro r hr hstops
    rw [h.timeUsedMs r hr, if_pos hstops]
    apply Int64.le_add_sub_iff
    · apply Int64.le_iff_toInt_le.mp (hnonneg r hr)
    · apply Int64.le_iff_toInt_le.mp (htimers r hr)
    · apply Int64.le_iff_toInt_le.mp (Int64.le_of_lt (hclock _))
  constructor
  · intro hforward r hstops
    have hr := hs.foreground r hstops.1
    apply (hstop r hr hstops).mp (hforward.increases r hr).2
  · intro hfits
    have hincreases : ∀ r ∈ s.refs, (s.heap.get r).timeUsedMs ≤ (s'.heap.get r).timeUsedMs := by
      intro r hr
      by_cases hstops : StopsAt p s r
      · apply (hstop r hr hstops).mpr (hfits r hstops)
      · rw [h.timeUsedMs r hr, if_neg hstops, Int64.add_zero]
        apply Int64.le_refl
    constructor
    · intro r hr
      exact ⟨h.mem_refs hr, hincreases r hr⟩
    · intro r hr
      rcases h.mem_or_new hr with hr | ⟨rfl, hp, hl⟩
      · apply Int64.le_trans (hnonneg r hr) (hincreases r hr)
      · rw [h.new hp hl]
        apply Int64.le_refl

/-! ### Runs -/

theorem everyStep_nil (P : String → LogService → LogService → Prop) (s : LogService) :
  EveryStep d P [] s
  := by
  intro ls₁ l ls₂ h
  cases ls₁ <;> cases h

theorem Loaded.everyStep_cons (hs : s.Loaded d) (P : String → LogService → LogService → Prop)
    (l : EventLine d.offset) (ls : List (EventLine d.offset)) :
  EveryStep d P (l :: ls) s ↔ P l.package s (LogService.handled d l.package l.kind s) ∧
    EveryStep d P ls (LogService.handled d l.package l.kind s)
  := by
  have hline := hs.onLineRead l
  constructor
  · intro h
    constructor
    · obtain ⟨s₁, s₂, hs₁, hs₂, hP⟩ := h [] l ls rfl
      cases hs₁
      rw [hline] at hs₂
      cases hs₂
      apply hP
    · rintro ls₁ l' ls₂ rfl
      obtain ⟨s₁, s₂, hs₁, hs₂, hP⟩ := h (l :: ls₁) l' ls₂ rfl
      rw [LogService.onLinesRead, Java.bind_of_ok hline] at hs₁
      exact ⟨s₁, s₂, hs₁, hs₂, hP⟩
  · rintro ⟨hP, h⟩ ls₁ l' ls₂ heq
    cases ls₁ with
    | nil =>
        cases heq
        exact ⟨s, _, rfl, hline, hP⟩
    | cons l₁ ls₁ =>
        cases heq
        obtain ⟨s₁, s₂, hs₁, hs₂, hP⟩ := h ls₁ l' ls₂ rfl
        refine ⟨s₁, s₂, ?_, hs₂, hP⟩
        rw [LogService.onLinesRead, Java.bind_of_ok hline, hs₁]

/-- In a run from a loaded list no time decreases exactly when each timer that is stopped fits. -/
theorem Loaded.neverBackwards_iff (hs : s.Loaded d) (htimers : s.TimersNonneg)
    (hnonneg : ∀ r ∈ s.refs, 0 ≤ (s.heap.get r).timeUsedMs) (hclock : ∀ n, 0 < d.clock n)
    (ls : List (EventLine d.offset)) :
  NeverBackwards d ls s ↔ TimersFit d ls s
  := by
  induction ls generalizing s with
  | nil =>
      constructor <;> intro _ <;> apply everyStep_nil
  | cons l ls ih =>
      have heffect := hs.listEffect l.package l.kind
      have hstep := heffect.forward_iff hs htimers hnonneg hclock
      have ih := ih (hs.handled l.package l.kind) (heffect.timersNonneg htimers hclock)
      rw [NeverBackwards, TimersFit, hs.everyStep_cons, hs.everyStep_cons, hstep]
      constructor
      · rintro ⟨hfits, hrun⟩
        exact ⟨hfits, (ih (hstep.mpr hfits).nonneg).mp hrun⟩
      · rintro ⟨hfits, hrun⟩
        exact ⟨hfits, (ih (hstep.mpr hfits).nonneg).mpr hrun⟩

/-- From a list that has been loaded, the times of the apps never decrease and never become negative,
exactly when at each event that stops a timer the clock shows no less than when it was started, and
the sum fits into 64 bits. -/
theorem never_backwards_iff {file : Option Text} {n m : ℕ}
    (hcreate : onCreate d (boot file n m) = .ok () s)
    (hlist : s.mAppList = some ⟨some (s.refs.map some)⟩)
    (hnamed : ∀ r ∈ s.refs, (s.heap.get r).packageName ≠ none)
    (hnonneg : ∀ r ∈ s.refs, 0 ≤ (s.heap.get r).timeUsedMs) (hclock : ∀ n, 0 < d.clock n)
    (ls : List (EventLine d.offset)) :
  NeverBackwards d ls s ↔ TimersFit d ls s
  := by
  have hfresh := Fresh.onCreate hcreate
  apply (hfresh.loaded hlist hnamed).neverBackwards_iff
  · intro r _
    rw [hfresh.stopped r]
    apply Int64.le_refl
  · apply hnonneg
  · apply hclock

/-- The time of an app that is opened and left for the launcher does not decrease on a clock that
goes forward. -/
theorem never_backwards_openedStint :
  NeverBackwards (phone [] tick) openedStint (created (phone [] tick) none [] 0 0)
  := by
  have hload := (ready_phone tick).toLoaded
  apply (never_backwards_iff (onCreate_phone tick) (list_created _ _ _ _ _) _ _ _ openedStint).mpr
  · rw [TimersFit, openedStint, hload.everyStep_cons, Loaded.everyStep_cons (hload.handled _ _)]
    refine ⟨?_, ?_, everyStep_nil _ _⟩
    · decide
    · decide
  · rintro r ⟨⟩
  · rintro r ⟨⟩
  · apply (steadyClock_tick []).positive

/-- A clock that is set back after its first reading. -/
def setBack (n : ℕ) : Int64 := if n = 0 then 100 else 50

/-- An app that is opened, and left for the launcher after the clock has been set back. -/
def setBackStint : List (EventLine (phone [] setBack).offset) :=
  [phoneEvent .created "com.example" token_example,
    phoneEvent .created "com.android.launcher" token_launcher]

theorem not_never_backwards_setBack :
  onCreate (phone [] setBack) (boot none 0 0) = .ok () (created (phone [] setBack) none [] 0 0) ∧
    (∀ n, 0 < (phone [] setBack).clock n) ∧
    ¬ NeverBackwards (phone [] setBack) setBackStint (created (phone [] setBack) none [] 0 0)
  := by
  have hload := (ready_phone setBack).toLoaded
  refine ⟨onCreate_phone setBack, ?_, ?_⟩
  · intro n
    change 0 < setBack n
    rw [setBack]
    split <;> decide
  · intro h
    rw [NeverBackwards, setBackStint, hload.everyStep_cons,
      Loaded.everyStep_cons (hload.handled _ _)] at h
    obtain ⟨-, hforward, -⟩ := h
    have hnonneg := hforward.nonneg 0
    revert hnonneg
    decide

end LogService
