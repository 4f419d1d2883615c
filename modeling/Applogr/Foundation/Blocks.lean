import Mathlib.Data.List.SplitBy

/-!
# Maximal blocks of a sequence

The blocks of a sequence `l` with keys `key : α → κ` are the maximal segments of `l`
whose elements have the same key.  `openings key l` are the first elements of the
blocks, and `closedBlocks key l` are the blocks which another block follows.  A closed
block is followed by the element that leaves it, so its last element and that element
form a departure, a pair of consecutive elements with different keys.
-/

namespace Blocks

variable {α κ : Type*} [DecidableEq κ] (key : α → κ)

/-- The maximal segments of `l` whose elements have the same key. -/
def blocks (l : List α) : List (List α) :=
  l.splitBy (fun a b => key a == key b)

/-- The first elements of the blocks. -/
def openings (l : List α) : List α :=
  (blocks key l).filterMap List.head?

/-- A block that another block follows: its first element, its last element, and the
first element of the block that follows. -/
structure Closed (α : Type*) where
  first : α
  last : α
  next : α
deriving DecidableEq, Repr

/-- The closed block formed by a block and the block that follows. -/
def Closed.ofPair : List α × List α → Option (Closed α)
  | (b, b') =>
      match b.head?, b.getLast?, b'.head? with
      | some first, some last, some next => some ⟨first, last, next⟩
      | _, _, _ => none

/-- The blocks of `l` which another block follows. -/
def closedBlocks (l : List α) : List (Closed α) :=
  ((blocks key l).zip (blocks key l).tail).filterMap Closed.ofPair

/-- The pairs of consecutive elements of `l` with different keys. -/
def departures (l : List α) : List (α × α) :=
  (l.zip l.tail).filter (fun e => key e.1 != key e.2)

/-! ### Recursion on the sequence -/

private theorem loop_closed (r : α → α → Bool) (l : List α) (a : α) (g : List α)
    (gs : List (List α)) :
  List.splitBy.loop r l a g gs = gs.reverse ++ List.splitBy.loop r l a g []
  := by
  induction l generalizing a g gs with
  | nil => simp [List.splitBy.loop]
  | cons b l ih =>
      simp only [List.splitBy.loop]
      cases r a b with
      | true => apply ih
      | false =>
          simp only
          rw [ih, ih b [] [_]]
          simp

private theorem loop_open (r : α → α → Bool) (l : List α) (a : α) (g : List α) :
  List.splitBy.loop r l a g []
    = (List.splitBy.loop r l a [] []).modifyHead (g.reverse ++ ·)
  := by
  induction l generalizing a g with
  | nil => simp [List.splitBy.loop]
  | cons b l ih =>
      simp only [List.splitBy.loop]
      cases r a b with
      | true =>
          simp only
          rw [ih b (a :: g), ih b [a], List.modifyHead_modifyHead]
          congr 1
          funext x
          simp
      | false =>
          simp only
          rw [loop_closed, loop_closed r l b [] [_]]
          simp

@[simp]
theorem blocks_nil :
  blocks key [] = []
  := rfl

@[simp]
theorem blocks_singleton (a : α) :
  blocks key [a] = [[a]]
  := rfl

/-- An element with the key of the next one joins the block of the next one. -/
theorem blocks_cons_of_eq {a b : α} (h : key a = key b) (l : List α) :
  blocks key (a :: b :: l) = (blocks key (b :: l)).modifyHead (a :: ·)
  := by
  have hr : (key a == key b) = true := beq_iff_eq.mpr h
  simp only [blocks, List.splitBy, List.splitBy.loop, hr]
  rw [loop_open]
  rfl

/-- An element with another key than the next one is a block of its own. -/
theorem blocks_cons_of_ne {a b : α} (h : key a ≠ key b) (l : List α) :
  blocks key (a :: b :: l) = [a] :: blocks key (b :: l)
  := by
  have hr : (key a == key b) = false := beq_eq_false_iff_ne.mpr h
  simp only [blocks, List.splitBy, List.splitBy.loop, hr]
  rw [loop_closed]
  rfl

/-- The blocks of a nonempty sequence begin with a block that begins with its first
element. -/
theorem blocks_cons (a : α) (l : List α) :
  ∃ g gs, blocks key (a :: l) = (a :: g) :: gs
  := by
  induction l generalizing a with
  | nil => use [], []; rfl
  | cons b l ih =>
      obtain ⟨g, gs, h⟩ := ih b
      by_cases hk : key a = key b
      · rw [blocks_cons_of_eq key hk, h]
        use b :: g, gs
        rfl
      · rw [blocks_cons_of_ne key hk]
        use [], blocks key (b :: l)

@[simp]
theorem openings_nil :
  openings key [] = []
  := rfl

@[simp]
theorem openings_singleton (a : α) :
  openings key [a] = [a]
  := rfl

/-- The first element of a sequence is the first opening. -/
theorem openings_cons (a : α) (l : List α) :
  ∃ os, openings key (a :: l) = a :: os
  := by
  obtain ⟨g, gs, h⟩ := blocks_cons key a l
  use gs.filterMap List.head?
  simp [openings, h]

theorem openings_cons_of_eq {a b : α} (h : key a = key b) (l : List α) :
  openings key (a :: b :: l) = a :: (openings key (b :: l)).tail
  := by
  obtain ⟨g, gs, hb⟩ := blocks_cons key b l
  simp [openings, blocks_cons_of_eq key h, hb]

theorem openings_cons_of_ne {a b : α} (h : key a ≠ key b) (l : List α) :
  openings key (a :: b :: l) = a :: openings key (b :: l)
  := by
  simp [openings, blocks_cons_of_ne key h]

@[simp]
theorem closedBlocks_nil :
  closedBlocks key [] = []
  := rfl

@[simp]
theorem closedBlocks_singleton (a : α) :
  closedBlocks key [a] = []
  := rfl

/-- An element with the key of the next one becomes the first element of the closed
block of the next one. -/
theorem closedBlocks_cons_of_eq {a b : α} (h : key a = key b) (l : List α) :
  closedBlocks key (a :: b :: l)
    = (closedBlocks key (b :: l)).modifyHead (fun c => { c with first := a })
  := by
  obtain ⟨g, gs, hb⟩ := blocks_cons key b l
  rw [closedBlocks, closedBlocks, blocks_cons_of_eq key h, hb]
  cases gs with
  | nil => rfl
  | cons g' gs =>
      cases g' with
      | nil =>
          exfalso
          apply List.nil_notMem_splitBy (fun a b => key a == key b) (b :: l)
          rw [blocks] at hb
          rw [hb]
          simp
      | cons c g' => simp [Closed.ofPair, List.getLast?_cons]

/-- An element with another key than the next one is a closed block of its own. -/
theorem closedBlocks_cons_of_ne {a b : α} (h : key a ≠ key b) (l : List α) :
  closedBlocks key (a :: b :: l) = ⟨a, a, b⟩ :: closedBlocks key (b :: l)
  := by
  obtain ⟨g, gs, hb⟩ := blocks_cons key b l
  rw [closedBlocks, closedBlocks, blocks_cons_of_ne key h, hb]
  rfl

/-- The first closed block of a nonempty sequence begins with its first element. -/
theorem closedBlocks_head_first (a : α) (l : List α) :
  ∀ c ∈ (closedBlocks key (a :: l)).head?, c.first = a
  := by
  induction l generalizing a with
  | nil => simp
  | cons b l ih =>
      intro c hc
      by_cases hk : key a = key b
      · rw [closedBlocks_cons_of_eq key hk, List.head?_modifyHead] at hc
        obtain ⟨d, -, rfl⟩ := Option.map_eq_some_iff.mp hc
        rfl
      · rw [closedBlocks_cons_of_ne key hk] at hc
        obtain rfl := Option.mem_some_iff.mp hc
        rfl

/-- The elements of a closed block have the same key, and the element that follows has
another one. -/
theorem closedBlocks_key {l : List α} {c : Closed α} (hc : c ∈ closedBlocks key l) :
  key c.first = key c.last ∧ key c.last ≠ key c.next
  := by
  induction l generalizing c with
  | nil => simp at hc
  | cons a l ih =>
      cases l with
      | nil => simp at hc
      | cons b l =>
          by_cases hk : key a = key b
          · rw [closedBlocks_cons_of_eq key hk] at hc
            have hfirst := closedBlocks_head_first key b l
            cases hcs : closedBlocks key (b :: l) with
            | nil => simp [hcs] at hc
            | cons d ds =>
                rw [hcs, List.modifyHead_cons, List.mem_cons] at hc
                rw [hcs] at hfirst ih
                obtain ⟨hd, hn⟩ := ih List.mem_cons_self
                have hda : d.first = b := hfirst d rfl
                rcases hc with rfl | hc
                · constructor
                  · rw [hk, ← hda, hd]
                  · apply hn
                · apply ih (List.mem_cons_of_mem _ hc)
          · rw [closedBlocks_cons_of_ne key hk, List.mem_cons] at hc
            rcases hc with rfl | hc
            · exact ⟨rfl, hk⟩
            · apply ih hc

/-! ### Departures -/

@[simp]
theorem departures_nil :
  departures key [] = []
  := rfl

@[simp]
theorem departures_singleton (a : α) :
  departures key [a] = []
  := rfl

theorem departures_cons_of_eq {a b : α} (h : key a = key b) (l : List α) :
  departures key (a :: b :: l) = departures key (b :: l)
  := by
  simp [departures, h]

theorem departures_cons_of_ne {a b : α} (h : key a ≠ key b) (l : List α) :
  departures key (a :: b :: l) = (a, b) :: departures key (b :: l)
  := by
  simp [departures, h]

/-- The departures are the ends of the closed blocks. -/
theorem closedBlocks_departures (l : List α) :
  (closedBlocks key l).map (fun c => (c.last, c.next)) = departures key l
  := by
  induction l with
  | nil => rfl
  | cons a l ih =>
      cases l with
      | nil => rfl
      | cons b l =>
          by_cases hk : key a = key b
          · rw [closedBlocks_cons_of_eq key hk, departures_cons_of_eq key hk, ← ih]
            cases closedBlocks key (b :: l) <;> rfl
          · rw [closedBlocks_cons_of_ne key hk, departures_cons_of_ne key hk, ← ih]
            rfl

/-- The end of a closed block is an element of the sequence, as its beginning is. -/
theorem closedBlocks_mem {l : List α} {c : Closed α} (hc : c ∈ closedBlocks key l) :
  c.first ∈ l ∧ c.last ∈ l ∧ c.next ∈ l
  := by
  have hmem : ∀ b ∈ blocks key l, ∀ x ∈ b, x ∈ l := by
    intro b hb x hx
    rw [← List.flatten_splitBy (fun a b => key a == key b) l]
    apply List.mem_flatten_of_mem hb hx
  obtain ⟨⟨b, b'⟩, hbb, hp⟩ := List.mem_filterMap.mp hc
  obtain ⟨hb, hb'⟩ := List.of_mem_zip hbb
  have hb' := List.mem_of_mem_tail hb'
  simp only [Closed.ofPair] at hp
  split at hp
  · rename_i first last next hfirst hlast hnext
    obtain rfl := Option.some.inj hp
    use hmem b hb _ (List.mem_of_head? hfirst), hmem b hb _ (List.mem_of_getLast? hlast)
    apply hmem b' hb' _ (List.mem_of_head? hnext)
  · cases hp

/-- In a sequence whose elements are related by `R` in their order, the second element of a
departure is the first element of the next one, or is related to it. -/
theorem departures_pairwise {R : α → α → Prop} {l : List α} (h : l.Pairwise R) :
  (departures key l).Pairwise (fun d e => d.2 = e.1 ∨ R d.2 e.1)
  := by
  induction l with
  | nil => apply List.Pairwise.nil
  | cons a l ih =>
      cases l with
      | nil => apply List.Pairwise.nil
      | cons b l =>
          obtain ⟨-, hl⟩ := List.pairwise_cons.mp h
          by_cases hk : key a = key b
          · rw [departures_cons_of_eq key hk]
            apply ih hl
          · rw [departures_cons_of_ne key hk]
            apply List.pairwise_cons.mpr
            constructor
            · intro e he
              have hmem : e.1 ∈ b :: l := by
                apply (List.of_mem_zip (List.mem_of_mem_filter he)).1
              rcases List.mem_cons.mp hmem with heq | hmem
              · left
                apply heq.symm
              · right
                apply (List.pairwise_cons.mp hl).1 _ hmem
            · apply ih hl

/-- The elements of a departure are elements of the sequence. -/
theorem departures_mem {l : List α} {d : α × α} (hd : d ∈ departures key l) :
  d.1 ∈ l ∧ d.2 ∈ l
  := by
  obtain ⟨h₁, h₂⟩ := List.of_mem_zip (List.mem_of_mem_filter hd)
  exact ⟨h₁, List.mem_of_mem_tail h₂⟩

/-- A departure leaves an element for an element related to it. -/
theorem departures_rel {R : α → α → Prop} {l : List α} (h : l.Pairwise R) {d : α × α}
    (hd : d ∈ departures key l) :
  R d.1 d.2
  := by
  induction l with
  | nil => cases hd
  | cons a l ih =>
      cases l with
      | nil => cases hd
      | cons b l =>
          obtain ⟨ha, hl⟩ := List.pairwise_cons.mp h
          by_cases hk : key a = key b
          · rw [departures_cons_of_eq key hk] at hd
            apply ih hl hd
          · rw [departures_cons_of_ne key hk, List.mem_cons] at hd
            rcases hd with rfl | hd
            · apply ha b List.mem_cons_self
            · apply ih hl hd

/-! ### Appending an element -/

/-- Appending an element adds a departure exactly when its key differs from the key of
the last element. -/
theorem departures_concat (l : List α) (b : α) :
  departures key (l ++ [b])
    = departures key l ++ (l.getLast?.toList.filter (key · != key b)).map (·, b)
  := by
  induction l with
  | nil => rfl
  | cons a l ih =>
      cases l with
      | nil =>
          by_cases hk : key a = key b
          · simp [departures, hk]
          · simp [departures, hk]
      | cons c l =>
          rw [List.getLast?_cons_cons]
          by_cases hk : key a = key c
          · rw [departures_cons_of_eq key hk, ← ih]
            apply departures_cons_of_eq key hk
          · rw [departures_cons_of_ne key hk]
            apply Eq.trans (departures_cons_of_ne key hk _)
            apply congrArg ((a, c) :: ·) ih

/-- Appending an element adds an opening exactly when its key differs from the key of the
last element. -/
theorem openings_concat (l : List α) (b : α) :
  openings key (l ++ [b])
    = openings key l ++ (if l.getLast?.map key = some (key b) then [] else [b])
  := by
  induction l with
  | nil => rfl
  | cons a l ih =>
      cases l with
      | nil =>
          by_cases hk : key a = key b
          · rw [List.singleton_append, openings_cons_of_eq key hk]
            simp [hk]
          · rw [List.singleton_append, openings_cons_of_ne key hk]
            simp [hk]
      | cons c l =>
          rw [List.getLast?_cons_cons]
          simp only [List.cons_append] at ih ⊢
          obtain ⟨os, hos⟩ := openings_cons key c l
          by_cases hk : key a = key c
          · rw [openings_cons_of_eq key hk, openings_cons_of_eq key hk, ih, hos]
            rfl
          · rw [openings_cons_of_ne key hk, openings_cons_of_ne key hk, ih]
            rfl

/-! ### Occurrences -/

/-- The elements of a sequence, each with the elements of `seen` and of the sequence that
precede it. -/
def occurrencesAfter (seen : List α) : List α → List (List α × α)
  | [] => []
  | a :: l => (seen, a) :: occurrencesAfter (seen ++ [a]) l

/-- The elements of a sequence, each with the elements that precede it. -/
def occurrences (l : List α) : List (List α × α) := occurrencesAfter [] l

theorem occurrencesAfter_concat (seen l : List α) (b : α) :
  occurrencesAfter seen (l ++ [b]) = occurrencesAfter seen l ++ [(seen ++ l, b)]
  := by
  induction l generalizing seen with
  | nil => simp [occurrencesAfter]
  | cons a l ih => simp [occurrencesAfter, ih]

@[simp]
theorem occurrences_nil :
  occurrences ([] : List α) = []
  := rfl

theorem occurrences_concat (l : List α) (b : α) :
  occurrences (l ++ [b]) = occurrences l ++ [(l, b)]
  := occurrencesAfter_concat [] l b

/-- The first element of a key is an opening. -/
theorem openings_find? (k : κ) (l : List α) :
  (openings key l).find? (fun a => key a = k) = l.find? (fun a => key a = k)
  := by
  induction l using List.reverseRecOn with
  | nil => rfl
  | append_singleton l b ih =>
      rw [openings_concat, List.find?_append, List.find?_append, ih]
      split
      · rename_i h
        by_cases hk : key b = k
        · -- the element before has the key as well, so the element is not the first one
          have hsome : (l.find? (fun a => key a = k)).isSome := by
            obtain ⟨a, ha, hka⟩ := Option.map_eq_some_iff.mp h
            apply List.find?_isSome.mpr
            use a, List.mem_of_getLast? ha
            simp [hka, hk]
          obtain ⟨a, ha⟩ := Option.isSome_iff_exists.mp hsome
          simp [ha]
        · simp [hk]
      · rfl

end Blocks
