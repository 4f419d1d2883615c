import Applogr.Accounting.ForegroundTime
import Applogr.Accounting.Objects

/-!
# What one event touches

In a service that has loaded a list of distinct packages, an event changes the app that it names,
which comes to the foreground, and the app that it displaces, whose timer it stops.  All other
entries stay what they are and where they are.
-/

namespace LogService

variable {d : Device} {s s' : LogService} {q : String} {kind : EventKind}

/-- After an event of an excluded package the list is the same, no launch has been counted, and no
timer runs. -/
structure Pauses (s s' : LogService) : Prop where
  refs : s'.refs = s.refs
  launchCount : ∀ r ∈ s.refs, (s'.heap.get r).launchCount = (s.heap.get r).launchCount
  stopped : ∀ r ∈ s'.refs, (s'.heap.get r).mTimer = 0

/-- After an event of the package `q` the list has one entry `r` of this package, which has been
there or has been appended, it is the foreground app, and it is the only one whose timer runs if
the clock is positive. -/
structure Foregrounds (d : Device) (q : String) (s s' : LogService) (r : Ref) : Prop where
  mem : r ∈ s'.refs
  packageName : (s'.heap.get r).packageName = some q
  once : s'.packages.count q = 1
  refs : s'.refs = if q ∈ s.packages then s.refs else s.refs ++ [r]
  foreground : s'.mForegroundApp = some r
  running : (∀ n, 0 < d.clock n) → ∀ r' ∈ s'.refs, (s'.heap.get r').mTimer ≠ 0 ↔ r' = r

/-- What an event of the package `q` touches. -/
structure Touches (d : Device) (q : String) (s s' : LogService) : Prop where
  kept : s.refs <+: s'.refs
  packageName : ∀ r ∈ s.refs, (s'.heap.get r).packageName = (s.heap.get r).packageName
  launchCount : ∀ r ∈ s.refs, (s'.heap.get r).launchCount = (s.heap.get r).launchCount ∨
    ((s.heap.get r).packageName = some q ∧
      (s'.heap.get r).launchCount = (s.heap.get r).launchCount + 1)
  timeUsedMs : ∀ r ∈ s.refs, (s'.heap.get r).timeUsedMs = (s.heap.get r).timeUsedMs ∨
    ((s.heap.get r).mTimer ≠ 0 ∧ (s.heap.get r).packageName ≠ some q)
  pauses : d.excluded q = true → Pauses s s'
  foregrounds : d.excluded q = false → ∃ r, Foregrounds d q s s' r

/-- An event of an excluded package stops the timer of the foreground app, whose package is not
excluded. -/
theorem ListEffect.pauses (h : ListEffect d q kind s s') (hs : s.Accounted d)
    (hq : d.excluded q = true) :
  Pauses s s'
  := by
  have hrefs : s'.refs = s.refs := by
    rw [h.refs, if_pos (Or.inl hq)]
  constructor
  · apply hrefs
  · intro r hr
    rw [h.launchCount r hr, hq, if_neg (fun hx => nomatch hx.1), Int32.add_zero]
  · intro r hr
    rw [hrefs] at hr
    rw [h.mTimer r hr, hq, if_neg (fun hx => nomatch hx.1)]
    split
    · rfl
    · rename_i hstops
      by_contra ht
      have hf := hs.running r hr ht
      apply hstops
      refine ⟨hf, ht, ?_⟩
      intro hname
      have htracked := hs.tracked r hf
      rw [packageOf, hname, Option.getD_some, hq] at htracked
      cases htracked

/-- The entry that an event brings to the foreground. -/
theorem ListEffect.foregrounds (h : ListEffect d q kind s s') (hs : s.Accounted d)
    (hs' : s'.Accounted d) (hq : d.excluded q = false) :
  Foregrounds d q s s' ((s.lookup q).getD s.heap.next)
  := by
  have hforeground : s'.mForegroundApp = some ((s.lookup q).getD s.heap.next) := by
    rw [h.foreground, hq, if_neg Bool.false_ne_true]
  have hmem := hs'.foreground _ hforeground
  have hlookup : q ∈ s.packages ↔ s.lookup q ≠ none := hs.mem_packages
  have hname : (s'.heap.get ((s.lookup q).getD s.heap.next)).packageName = some q ∧
      (s'.heap.get ((s.lookup q).getD s.heap.next)).mTimer = d.clock (s'.readings - 1) := by
    cases hl : s.lookup q with
    | some r =>
        obtain ⟨hr, hname⟩ := lookup_eq_some hl
        rw [Option.getD_some, h.packageName r hr, h.mTimer r hr, hq, hl, if_pos ⟨rfl, rfl⟩]
        exact ⟨hname, rfl⟩
    | none =>
        rw [Option.getD_none, h.new hq hl]
        exact ⟨rfl, rfl⟩
  have hpackage : s'.packageOf ((s.lookup q).getD s.heap.next) = q := by
    rw [packageOf, hname.1, Option.getD_some]
  refine ⟨hmem, hname.1, ?_, ?_, hforeground, ?_⟩
  · apply List.count_eq_one_of_mem hs'.distinct
    rw [← hpackage]
    apply List.mem_map_of_mem hmem
  · rw [h.refs]
    by_cases hmem : q ∈ s.packages
    · rw [if_pos hmem, if_pos (Or.inr (hlookup.mp hmem))]
    · have hnone : s.lookup q = none := by
        rw [hlookup] at hmem
        simpa using hmem
      rw [if_neg hmem, hnone, Option.getD_none, hq, if_neg]
      simp
  · intro hclock r' hr'
    constructor
    · intro ht
      exact Option.some.inj ((hs'.running r' hr' ht).symm.trans hforeground)
    · rintro rfl hzero
      have hpos := hclock (s'.readings - 1)
      rw [← hname.2, hzero] at hpos
      exact Int64.lt_irrefl hpos

theorem ListEffect.touched (h : ListEffect d q kind s s') (hs : s.Accounted d)
    (hs' : s'.Accounted d) :
  Touches d q s s'
  := by
  constructor
  · rw [h.refs]
    split
    · apply List.prefix_refl
    · apply List.prefix_append
  · apply h.packageName
  · intro r hr
    rw [h.launchCount r hr]
    split
    · rename_i hlaunches
      right
      exact ⟨(lookup_eq_some hlaunches.2.1).2, rfl⟩
    · left
      apply Int32.add_zero
  · intro r hr
    rw [h.timeUsedMs r hr]
    split
    · rename_i hstops
      right
      exact hstops.2
    · left
      apply Int64.add_zero
  · apply h.pauses hs
  · intro hq
    use (s.lookup q).getD s.heap.next
    apply h.foregrounds hs hs' hq

/-- In every state that is reached from a list of distinct packages, an event touches at most the
app that it names and the app that it displaces. -/
theorem touches {file : Option Text} {n m : ℕ} (hcreate : onCreate d (boot file n m) = .ok () s)
    (hlist : s.mAppList = some ⟨some (s.refs.map some)⟩)
    (hnamed : ∀ r ∈ s.refs, (s.heap.get r).packageName ≠ none) (hdistinct : s.packages.Nodup)
    (ls : List (EventLine d.offset)) (l : EventLine d.offset) :
  ∃ s₁ s₂, onLinesRead d ls s = .ok () s₁ ∧ onLineRead d (some l.text) s₁ = .ok () s₂ ∧
    Touches d l.package s₁ s₂
  := by
  have hready := (Fresh.onCreate hcreate).ready hlist hnamed hdistinct
  have hacc := hready.accounted.handledAll ls
  have heffect := hacc.listEffect l.package l.kind
  exact ⟨_, _, hready.onLinesRead ls, hacc.onLineRead l,
    heffect.touched hacc (hacc.handled l.package l.kind)⟩

/-- The launcher comes to the foreground. -/
def launcherEvent : EventLine (phone [] tick).offset :=
  phoneEvent .created "com.android.launcher" token_launcher

/-- An app that has been opened is displaced by the launcher. -/
theorem touches_launcherEvent :
  ∃ s₁ s₂, onLinesRead (phone [] tick) [phoneEvent .created "com.example" token_example]
      (created (phone [] tick) none [] 0 0) = .ok () s₁ ∧
    onLineRead (phone [] tick) (some launcherEvent.text) s₁ = .ok () s₂ ∧
    Touches (phone [] tick) launcherEvent.package s₁ s₂
  := by
  apply touches (onCreate_phone tick) (list_created _ _ _ _ _) _ List.nodup_nil
    [phoneEvent .created "com.example" token_example] launcherEvent
  rintro r ⟨⟩

end LogService
