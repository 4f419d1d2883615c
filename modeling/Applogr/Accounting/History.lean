import Applogr.Accounting.Effects
import Applogr.Foundation.Durations
import Applogr.Service.Startup
import Mathlib.Tactic.Linarith

/-!
# The history of a run

The history of a run is the sequence of the events that the service has handled, each with
the numbers of clock readings that were taken before and after it.  In a run that starts
without a foreground app, the foreground app and its timer are functions of the history.
-/

/-- An event that the service has handled.  It took the clock readings from the number
`before` to the number `after - 1`. -/
structure Handled where
  package : String
  kind : EventKind
  before : ℕ
  after : ℕ
deriving DecidableEq, Repr

namespace Handled

variable (d : Device)

/-- The first reading of the event, at which the timer of another app is stopped. -/
def stop (e : Handled) : ℤ := (d.clock e.before).toInt

/-- The last reading of the event, at which the timer of its own app is started. -/
def start (e : Handled) : ℤ := (d.clock (e.after - 1)).toInt

/-- The package of the event is not excluded. -/
def tracked (e : Handled) : Bool := !d.excluded e.package

end Handled

/-- The package of the last event which is not excluded. -/
def lastTracked (d : Device) (h : List Handled) : Option String :=
  (h.filter (Handled.tracked d)).getLast?.map Handled.package

namespace LogService

variable {d : Device} {s : LogService}

/-- The events that are handled when lines are read. -/
def history (d : Device) : List (EventLine d.offset) → LogService → List Handled
  | [], _ => []
  | l :: ls, s =>
      match onLineRead d (some l.text) s with
      | .ok _ s' => ⟨l.package, l.kind, s.readings, s'.readings⟩ :: history d ls s'
      | .error _ _ => []

/-- The list is loaded, its packages are distinct, there is no foreground app, and no timer
runs. -/
structure Ready (d : Device) (s : LogService) : Prop extends Loaded d s where
  distinct : s.packages.Nodup
  idle : s.mForegroundApp = none
  stopped : ∀ r ∈ s.refs, (s.heap.get r).mTimer = 0

theorem Ready.accounted (hs : s.Ready d) :
  s.Accounted d
  := { hs with
    running := by
      intro r hr ht
      exact absurd (hs.stopped r hr) ht
    tracked := by
      intro f hf
      rw [hs.idle] at hf
      cases hf }

/-- A service that has loaded a list of distinct packages is ready. -/
theorem Fresh.ready (hs : s.Fresh d) (hl : s.mAppList = some ⟨some (s.refs.map some)⟩)
    (hn : ∀ r ∈ s.refs, (s.heap.get r).packageName ≠ none) (hd : s.packages.Nodup) :
  s.Ready d
  := { hs.loaded hl hn with
    distinct := hd
    idle := hs.idle
    stopped := by
      intro r _
      apply hs.stopped r }

/-- A service that has created the list is ready. -/
theorem ready_created (hg : d.gson.Documented) (hw : d.Writes) (n m : ℕ) :
  (created d none [] n m).Ready d
  := by
  have hholds : Holds d none [] := rfl
  have hcreate := onCreate_records hg hw hholds (by rintro _ ⟨⟩) d.sorts_nil n m
  apply (Fresh.onCreate hcreate).ready
  · apply list_created
  · apply named_created
    rintro _ ⟨⟩
  · have hrefs := List.map_eq_nil_iff.mp (records_created d none [] n m).eq_nil
    rw [packages, hrefs]
    apply List.nodup_nil

theorem handledAll_concat (ls : List (EventLine d.offset)) (l : EventLine d.offset) :
  handledAll d (ls ++ [l]) s = handled d l.package l.kind (handledAll d ls s)
  := by
  rw [handledAll, List.foldl_append, handledAll]
  rfl

theorem Loaded.history_cons (hs : s.Loaded d) (l : EventLine d.offset)
    (ls : List (EventLine d.offset)) :
  history d (l :: ls) s
    = ⟨l.package, l.kind, s.readings, (LogService.handled d l.package l.kind s).readings⟩
      :: history d ls (LogService.handled d l.package l.kind s)
  := by
  rw [history, hs.onLineRead l]

/-- The history, computed from the effects of the events. -/
def recorded (d : Device) : List (EventLine d.offset) → LogService → List Handled
  | [], _ => []
  | l :: ls, s =>
      ⟨l.package, l.kind, s.readings, (handled d l.package l.kind s).readings⟩
        :: recorded d ls (handled d l.package l.kind s)

theorem Loaded.history_eq (hs : s.Loaded d) (ls : List (EventLine d.offset)) :
  history d ls s = recorded d ls s
  := by
  induction ls generalizing s with
  | nil => rfl
  | cons l ls ih =>
      rw [hs.history_cons, ih (hs.handled l.package l.kind)]
      rfl

theorem Loaded.history_concat (hs : s.Loaded d) (ls : List (EventLine d.offset))
    (l : EventLine d.offset) :
  history d (ls ++ [l]) s = history d ls s
    ++ [⟨l.package, l.kind, (LogService.handledAll d ls s).readings,
          (LogService.handledAll d (ls ++ [l]) s).readings⟩]
  := by
  induction ls generalizing s with
  | nil => apply hs.history_cons
  | cons l' ls ih =>
      rw [List.cons_append, hs.history_cons, hs.history_cons,
        ih (hs.handled l'.package l'.kind)]
      rfl

/-- Every run from a service whose accounts are in order leaves the accounts in order. -/
theorem Accounted.handledAll (hs : s.Accounted d) (ls : List (EventLine d.offset)) :
  (LogService.handledAll d ls s).Accounted d
  := by
  induction ls using List.reverseRecOn with
  | nil => apply hs
  | append_singleton ls l ih =>
      rw [handledAll_concat]
      apply ih.handled

/-! ### The readings of a run -/

/-- An event of a package which is not excluded reads the clock. -/
theorem Effect.readings_lt {p : String} {kind : EventKind} {s' : LogService}
    (h : Effect d p kind s s') (hp : d.excluded p = false) :
  s.readings < s'.readings
  := by
  rw [h.readings, hp, if_neg Bool.false_ne_true]
  apply Nat.lt_succ_of_le (Nat.le_add_right _ _)

theorem Effect.readings_le {p : String} {kind : EventKind} {s' : LogService}
    (h : Effect d p kind s s') :
  s.readings ≤ s'.readings
  := by
  rw [h.readings, Nat.add_assoc]
  apply Nat.le_add_right

/-- The readings of an event are taken during the run. -/
theorem Accounted.history_bounds (hs : s.Accounted d) (ls : List (EventLine d.offset)) :
  s.readings ≤ (LogService.handledAll d ls s).readings ∧
    ∀ e ∈ history d ls s, s.readings ≤ e.before ∧ e.before ≤ e.after ∧
      e.after ≤ (LogService.handledAll d ls s).readings ∧
      (e.tracked d = true → e.before < e.after)
  := by
  induction ls using List.reverseRecOn with
  | nil =>
      constructor
      · apply le_refl
      · intro e he
        cases he
  | append_singleton ls l ih =>
      obtain ⟨hle, hih⟩ := ih
      have heff := (hs.handledAll ls).effect l.package l.kind
      rw [hs.history_concat, handledAll_concat]
      constructor
      · apply le_trans hle heff.readings_le
      · intro e he
        rcases List.mem_append.mp he with he | he
        · obtain ⟨h₁, h₂, h₃, h₄⟩ := hih e he
          use h₁, h₂, le_trans h₃ heff.readings_le
        · obtain rfl := List.mem_singleton.mp he
          use hle, heff.readings_le, le_refl _
          intro ht
          apply heff.readings_lt
          simpa [Handled.tracked] using ht

/-- The events of a run take their readings one after the other. -/
theorem Accounted.history_ordered (hs : s.Accounted d) (ls : List (EventLine d.offset)) :
  (history d ls s).Pairwise (fun a b => a.after ≤ b.before)
  := by
  induction ls using List.reverseRecOn with
  | nil => apply List.Pairwise.nil
  | append_singleton ls l ih =>
      rw [hs.history_concat]
      apply List.pairwise_append.mpr
      refine ⟨ih, List.pairwise_singleton _ _, ?_⟩
      intro a ha b hb
      obtain rfl := List.mem_singleton.mp hb
      apply ((hs.history_bounds ls).2 a ha).2.2.1

/-! ### The state after a run -/

/-- The foreground app is the app of the last event which is not excluded. -/
theorem Ready.foregroundPackage_handledAll (hs : s.Ready d) (ls : List (EventLine d.offset)) :
  (handledAll d ls s).foregroundPackage = lastTracked d (history d ls s)
  := by
  induction ls using List.reverseRecOn with
  | nil =>
      rw [handledAll, List.foldl_nil, foregroundPackage, hs.idle]
      rfl
  | append_singleton ls l ih =>
      have heff := (hs.accounted.handledAll ls).effect l.package l.kind
      rw [lastTracked] at ih ⊢
      rw [hs.history_concat, List.filter_append, handledAll_concat, heff.foreground]
      by_cases hp : d.excluded l.package = true
      · simp [Handled.tracked, hp, ih]
      · simp [Handled.tracked, hp]

/-- The timer of the foreground app holds the last reading of the last event, and zero if that
event was an event of an excluded package. -/
theorem Ready.timer_handledAll (hs : s.Ready d) (ls : List (EventLine d.offset)) :
  (handledAll d ls s).timer
    = (((history d ls s).getLast?.filter (Handled.tracked d)).map
        (fun e => d.clock (e.after - 1))).getD 0
  := by
  induction ls using List.reverseRecOn with
  | nil =>
      rw [handledAll, List.foldl_nil, timer, hs.idle]
      rfl
  | append_singleton ls l ih =>
      have hacc := hs.accounted.handledAll ls
      have heff := hacc.effect l.package l.kind
      rw [hs.history_concat, handledAll_concat, heff.timer, List.getLast?_concat]
      by_cases hp : d.excluded l.package = true
      · simp only [hp, if_true, Handled.tracked, Option.filter, Bool.not_true,
          Bool.false_eq_true, if_false, Option.map_none, Option.getD_none]
        split
        · rfl
        · rename_i hstops
          -- the foreground app is not excluded, so its timer would have been stopped
          by_contra ht
          apply hstops
          use ht
          intro hf
          obtain ⟨f, hfg, hpf⟩ := Option.map_eq_some_iff.mp hf
          have htr := hacc.tracked f hfg
          rw [hpf, hp] at htr
          cases htr
      · simp [Handled.tracked, Option.filter, hp]

/-- The packages of the list are those that were there before and those of the events. -/
theorem Loaded.mem_packages_handledAll (hs : s.Loaded d) (ls : List (EventLine d.offset))
    {p : String} (hp : d.excluded p = false) :
  p ∈ (LogService.handledAll d ls s).packages ↔ p ∈ s.packages ∨ ∃ l ∈ ls, l.package = p
  := by
  induction ls generalizing s with
  | nil => simp [LogService.handledAll]
  | cons l ls ih =>
      apply Iff.trans (ih (hs.handled l.package l.kind))
      rw [hs.packages_handled, List.exists_mem_cons_iff, ← or_assoc]
      apply or_congr_left
      split
      · rename_i h
        constructor
        · apply Or.inl
        · rintro (h' | rfl)
          · apply h'
          · rw [hp] at h
            apply h.resolve_left Bool.false_ne_true
      · rw [List.mem_append, List.mem_singleton, eq_comm]

/-- The packages of the history are the packages of the lines. -/
theorem Loaded.packages_history (hs : s.Loaded d) (ls : List (EventLine d.offset)) :
  (history d ls s).map Handled.package = ls.map EventLine.package
  := by
  induction ls generalizing s with
  | nil => rfl
  | cons l ls ih => rw [hs.history_cons, List.map_cons, List.map_cons, ih (hs.handled _ _)]

theorem Accounted.mem_packages_handledAll (hs : s.Accounted d) (ls : List (EventLine d.offset))
    {p : String} (hp : d.excluded p = false) :
  p ∈ (LogService.handledAll d ls s).packages
    ↔ p ∈ s.packages ∨ ∃ e ∈ history d ls s, e.package = p
  := by
  rw [hs.toLoaded.mem_packages_handledAll ls hp, ← List.mem_map, ← List.mem_map,
    hs.toLoaded.packages_history]

end LogService
