import Applogr.Foundation.Ledger

/-!
# Ledgers that are restarted

A restart forgets the current key, so the next event of this key may open it once more.  Compared
with a ledger into which the same events are entered without restarts, a ledger that is restarted
counts every opening, and each restart adds at most one.
-/

namespace Ledger

variable {κ τ ν : Type*}

/-- Whether an entry is a restart. -/
def Entry.restarts : Entry κ → Bool
  | .event _ _ _ => false
  | .restart => true

/-- The entries without the restarts. -/
def uninterrupted (es : List (Entry κ)) : List (Entry κ) := es.filter (fun e => !e.restarts)

/-- The number of restarts. -/
def restarts (es : List (Entry κ)) : ℕ := es.countP Entry.restarts

theorem restarts_append (es es' : List (Entry κ)) :
  restarts (es ++ es') = restarts es + restarts es'
  := List.countP_append

section Counted

variable [DecidableEq κ] [Add ν] [OfNat ν 1]

/-- How a ledger `L` that has been restarted no more than `r` times compares with a ledger `L'` that
has not been restarted, if the keys `extra` have been counted once more than in `L'`. -/
structure Recounts (extra : List κ) (r : ℕ) (L L' : Ledger κ τ ν) : Prop where
  known : L.known = L'.known
  last : L.last = none ∨ L.last = L'.last
  count : ∀ k, L.count k = (· + 1)^[extra.count k] (L'.count k)
  length_le : extra.length + (if L.last = L'.last then 0 else 1) ≤ r

theorem Recounts.refl (L : Ledger κ τ ν) :
  Recounts [] 0 L L
  := by
  constructor
  · rfl
  · right
    rfl
  · intro k
    rfl
  · rw [if_pos rfl, List.length_nil]

variable {extra : List κ} {r : ℕ} {L L' : Ledger κ τ ν}

theorem Recounts.restart (h : Recounts extra r L L') :
  Recounts extra (r + 1) L.restart L'
  := by
  constructor
  · apply h.known
  · left
    rfl
  · apply h.count
  · have hlength := h.length_le
    split <;> split at hlength <;> omega

variable [Add τ] [Sub τ] {clock : ℕ → τ}

theorem last_add_event (k : κ) (recorded opens : Bool) (L : Ledger κ τ ν) :
  (add clock L (.event k recorded opens)).last = if recorded then some k else L.last
  := by
  rw [add, ← last_leave clock k L]
  split
  · rfl
  · rfl

/-- An event that is not recorded changes neither the keys nor the counts. -/
theorem Recounts.skip (h : Recounts extra r L L') (k : κ) (opens : Bool) :
  Recounts extra r (add clock L (.event k false opens)) (add clock L' (.event k false opens))
  := by
  have hlast : ∀ M : Ledger κ τ ν, (add clock M (.event k false opens)).last = M.last :=
    fun M => last_add_event k false opens M
  have hcount : ∀ M : Ledger κ τ ν, (add clock M (.event k false opens)).count = M.count :=
    fun M => count_leave clock k M
  constructor
  · simp only [known_add_event, Bool.false_eq_true, if_false, h.known]
  · rw [hlast, hlast]
    apply h.last
  · rw [hcount, hcount]
    apply h.count
  · rw [hlast, hlast]
    apply h.length_le

/-- After an event that is recorded both ledgers have the same current key.  If only the ledger that
has been restarted counts the event, then the last restart has made the difference. -/
theorem Recounts.record (h : Recounts extra r L L') (k : κ) (opens : Bool) :
  ∃ extra', Recounts extra' r (add clock L (.event k true opens))
    (add clock L' (.event k true opens))
  := by
  have hknown : (add clock L (.event k true opens)).known
      = (add clock L' (.event k true opens)).known := by
    rw [known_add_event, known_add_event, h.known]
  have hlast : (add clock L (.event k true opens)).last
      = (add clock L' (.event k true opens)).last := by
    rw [last_add_event, last_add_event, if_pos rfl, if_pos rfl]
  have hlength := h.length_le
  by_cases hboth : L.last = L'.last ∨ k ∉ L'.known ∨ L'.last ≠ some k ∨ opens = false
  · use extra
    have hsame : (k ∉ L.known ∨ (L.last ≠ some k ∧ opens = true))
        ↔ (k ∉ L'.known ∨ (L'.last ≠ some k ∧ opens = true)) := by
      rw [h.known]
      rcases hboth with hsame | hnew | hother | hclosed
      · rw [hsame]
      · exact ⟨fun _ => Or.inl hnew, fun _ => Or.inl hnew⟩
      · have hother' : L.last ≠ some k := by
          rcases h.last with hnone | hsame
          · rw [hnone]
            rintro ⟨⟩
          · rw [hsame]
            apply hother
        simp only [hother, hother', ne_eq, not_false_eq_true]
      · simp only [hclosed, Bool.false_eq_true, and_false]
    refine ⟨hknown, Or.inr hlast, ?_, ?_⟩
    · intro j
      rw [count_add_event, count_add_event]
      simp only [hsame, true_and]
      split
      · by_cases hj : j = k
        · subst hj
          rw [Function.update_self, Function.update_self, h.count, ← Function.iterate_succ_apply,
            Function.iterate_succ_apply']
        · rw [Function.update_of_ne hj, Function.update_of_ne hj, h.count]
      · apply h.count
    · rw [if_pos hlast]
      split at hlength <;> omega
  · simp only [not_or, not_not] at hboth
    obtain ⟨hdiffer, hold, hcurrent, hopens⟩ := hboth
    have hopens : opens = true := eq_true_of_ne_false hopens
    have hnone : L.last = none := h.last.resolve_right hdiffer
    use k :: extra
    refine ⟨hknown, Or.inr hlast, ?_, ?_⟩
    · have hcounts : k ∉ L.known ∨ (L.last ≠ some k ∧ opens = true) := by
        right
        rw [hnone]
        exact ⟨Option.some_ne_none k |>.symm, hopens⟩
      have hcounts' : ¬ (k ∉ L'.known ∨ (L'.last ≠ some k ∧ opens = true)) := by
        rintro (hnew | ⟨hother, -⟩)
        · apply hnew hold
        · apply hother hcurrent
      intro j
      rw [count_add_event, count_add_event, if_pos ⟨rfl, hcounts⟩,
        if_neg (fun h => hcounts' h.2)]
      by_cases hj : j = k
      · subst hj
        rw [Function.update_self, List.count_cons_self, h.count, Function.iterate_succ_apply']
      · rw [Function.update_of_ne hj, List.count_cons_of_ne (Ne.symm hj), h.count]
    · rw [if_neg hdiffer] at hlength
      rw [if_pos hlast, List.length_cons]
      omega

/-- Entering the same entries, with and without the restarts: the same keys become known, and the
keys `extra` that are counted once more are no more than the restarts. -/
theorem exists_recounts (clock : ℕ → τ) (es : List (Entry κ)) (L : Ledger κ τ ν) :
  ∃ extra, Recounts extra (restarts es) (addAll clock es L) (addAll clock (uninterrupted es) L)
  := by
  induction es using List.reverseRecOn with
  | nil => exact ⟨[], Recounts.refl L⟩
  | append_singleton es e ih =>
      obtain ⟨extra, h⟩ := ih
      rw [restarts_append, uninterrupted, List.filter_append, ← uninterrupted, addAll_append,
        addAll_append]
      cases e with
      | event k recorded opens =>
          cases recorded with
          | false => exact ⟨extra, h.skip k opens⟩
          | true => apply h.record k opens
      | restart => exact ⟨extra, h.restart⟩

end Counted

end Ledger
