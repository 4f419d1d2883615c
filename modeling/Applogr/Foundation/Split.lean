import Mathlib.Data.List.TakeWhile
import Mathlib.Data.Nat.Notation
import Mathlib.Tactic.Common

/-!
# Splitting at runs of separators

`splitRuns sep n l` splits `l` at the runs of separators, at most `n` times and from the
left.  Each part but the last is free of separators, and the last one is what remains
after the last run at which `l` was split.  It may be empty, as may the first one.
-/

namespace Split

variable {α : Type*} (sep : α → Bool)

/-- The parts of `l` when it is split at most `n` times. -/
def splitRuns : ℕ → List α → List (List α)
  | 0, l => [l]
  | n + 1, l =>
      match l.dropWhile (fun c => !sep c) with
      | [] => [l]
      | rest => l.takeWhile (fun c => !sep c) :: splitRuns n (rest.dropWhile sep)

variable {sep}

/-- A word that a separator follows is split off, together with the run that the separator
begins. -/
theorem splitRuns_word (n : ℕ) {w : List α} (hw : ∀ c ∈ w, sep c = false) {c : α}
    (hc : sep c = true) (rest : List α) :
  splitRuns sep (n + 1) (w ++ c :: rest) = w :: splitRuns sep n (rest.dropWhile sep)
  := by
  have hpos : ∀ a ∈ w, (!sep a) = true := by
    intro a ha
    simp [hw a ha]
  rw [splitRuns, List.dropWhile_append_of_pos hpos, List.takeWhile_append_of_pos hpos]
  simp [hc]

/-- A word is split off from the word that follows after one separator. -/
theorem splitRuns_word_word (n : ℕ) {w w' : List α} (hw : ∀ c ∈ w, sep c = false) {c : α}
    (hc : sep c = true) (hne : w' ≠ []) (hw' : ∀ c ∈ w', sep c = false) (rest : List α) :
  splitRuns sep (n + 1) (w ++ c :: (w' ++ rest)) = w :: splitRuns sep n (w' ++ rest)
  := by
  rw [splitRuns_word n hw hc]
  obtain ⟨a, w', rfl⟩ := List.exists_cons_of_ne_nil hne
  simp [hw' a List.mem_cons_self]

/-- A word is not split. -/
theorem splitRuns_of_word (n : ℕ) {w : List α} (hw : ∀ c ∈ w, sep c = false) :
  splitRuns sep n w = [w]
  := by
  cases n with
  | zero => rfl
  | succ n =>
      have hdrop : w.dropWhile (fun c => !sep c) = [] := by
        apply List.dropWhile_eq_nil_iff.mpr
        intro c hc
        simp [hw c hc]
      rw [splitRuns, hdrop]

/-- The first part. -/
theorem splitRuns_head (n : ℕ) (l : List α) :
  (splitRuns sep (n + 1) l)[0]? = some (l.takeWhile (fun c => !sep c))
  := by
  rw [splitRuns]
  split
  · rename_i h
    have hl := List.dropWhile_eq_nil_iff.mp h
    rw [List.takeWhile_eq_self_iff.mpr hl]
    rfl
  · rfl

/-- A part that is not the last one allowed does not depend on how many are allowed. -/
theorem splitRuns_getElem_of_lt {i n m : ℕ} (hn : i < n) (hm : i < m) (l : List α) :
  (splitRuns sep n l)[i]? = (splitRuns sep m l)[i]?
  := by
  induction i generalizing n m l with
  | zero =>
      obtain ⟨n, rfl⟩ := Nat.exists_eq_succ_of_ne_zero (Nat.ne_of_gt hn)
      obtain ⟨m, rfl⟩ := Nat.exists_eq_succ_of_ne_zero (Nat.ne_of_gt hm)
      rw [splitRuns_head, splitRuns_head]
  | succ i ih =>
      cases n with
      | zero => omega
      | succ n =>
          cases m with
          | zero => omega
          | succ m =>
              rw [splitRuns, splitRuns]
              split
              · rfl
              · apply ih
                · omega
                · omega

/-! ### Words and runs -/

/-- A nonempty word without separators, and a nonempty run of separators. -/
structure WordRun (sep : α → Bool) (w : List α × List α) : Prop where
  word_ne : w.1 ≠ []
  word : ∀ c ∈ w.1, sep c = false
  run_ne : w.2 ≠ []
  run : ∀ c ∈ w.2, sep c = true

/-- The text made of words and of the runs that follow them. -/
def textOf (ws : List (List α × List α)) : List α := ws.flatMap (fun w => w.1 ++ w.2)

/-- The words of a text are its parts, whatever follows them. -/
theorem splitRuns_textOf {ws : List (List α × List α)} (hws : ∀ w ∈ ws, WordRun sep w)
    (rest : List α) {i n : ℕ} (hi : i < ws.length) (hn : i < n) :
  (splitRuns sep n (textOf ws ++ rest))[i]? = (ws.map Prod.fst)[i]?
  := by
  induction i generalizing n ws with
  | zero =>
      obtain ⟨n, rfl⟩ := Nat.exists_eq_succ_of_ne_zero (Nat.ne_of_gt hn)
      obtain ⟨w, ws, rfl⟩ := List.exists_cons_of_length_pos hi
      obtain ⟨-, hfree, hne, hrun⟩ := hws w List.mem_cons_self
      obtain ⟨c, cs, hc⟩ := List.exists_cons_of_ne_nil hne
      have hsep : sep c = true := hrun c (by rw [hc]; apply List.mem_cons_self)
      have hpos : ∀ a ∈ w.1, (!sep a) = true := by
        intro a ha
        rw [hfree a ha]
        rfl
      rw [splitRuns_head, textOf, List.flatMap_cons, List.append_assoc, List.append_assoc,
        List.takeWhile_append_of_pos hpos, hc]
      simp [hsep]
  | succ i ih =>
      obtain ⟨n, rfl⟩ := Nat.exists_eq_succ_of_ne_zero (Nat.ne_of_gt (Nat.zero_lt_of_lt hn))
      obtain ⟨w, ws, rfl⟩ := List.exists_cons_of_length_pos (Nat.zero_lt_of_lt hi)
      obtain ⟨-, hfree, hne, hrun⟩ := hws w List.mem_cons_self
      have hrest := fun v hv => hws v (List.mem_cons_of_mem w hv)
      obtain ⟨c, cs, hc⟩ := List.exists_cons_of_ne_nil hne
      rw [hc] at hrun
      -- the run ends where the next word begins
      have hnext : (cs ++ (textOf ws ++ rest)).dropWhile sep = textOf ws ++ rest := by
        obtain ⟨v, vs, rfl⟩ := List.exists_cons_of_length_pos
          (Nat.zero_lt_of_lt (Nat.lt_of_succ_lt_succ hi))
        obtain ⟨hv, hvfree, -, -⟩ := hrest v List.mem_cons_self
        obtain ⟨e, es, he⟩ := List.exists_cons_of_ne_nil hv
        have hsep : sep e = false := hvfree e (by rw [he]; apply List.mem_cons_self)
        rw [List.dropWhile_append_of_pos (fun a ha => hrun a (List.mem_cons_of_mem c ha)), textOf,
          List.flatMap_cons, he]
        simp [hsep]
      have htext : textOf (w :: ws) ++ rest = w.1 ++ c :: (cs ++ (textOf ws ++ rest)) := by
        rw [textOf, List.flatMap_cons, hc, textOf]
        simp
      rw [htext, splitRuns_word n hfree (hrun c List.mem_cons_self), hnext, List.map_cons,
        List.getElem?_cons_succ, List.getElem?_cons_succ]
      apply ih hrest
      · apply Nat.lt_of_succ_lt_succ hi
      · apply Nat.lt_of_succ_lt_succ hn

end Split
