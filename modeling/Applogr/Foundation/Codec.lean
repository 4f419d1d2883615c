import Mathlib.Data.List.Infix
import Mathlib.Data.Nat.Notation
import Mathlib.Tactic.Common

/-!
# Codecs

A codec writes the elements of a type as texts, and reads an element off the beginning of a
text.  It is lawful if it reads what it has written, provided that the text which follows is
allowed to follow, and if it reads nothing else.
-/

/-- A writer and a reader of texts. -/
structure Codec (α : Type*) where
  encode : α → List Char
  decode : List Char → Option (α × List Char)

namespace Codec

variable {α β : Type*}

/-- The codec reads what it has written before a text that may follow, and only that. -/
structure Lawful (c : Codec α) (follow : List Char → Prop) : Prop where
  complete : ∀ a t, follow t → c.decode (c.encode a ++ t) = some (a, t)
  sound : ∀ s a t, c.decode s = some (a, t) → s = c.encode a ++ t

/-- Every text may follow. -/
abbrev anything : List Char → Prop := fun _ => True

/-- Reading what a lawful codec has written does not stop before the end. -/
theorem Lawful.prefix_eq {c : Codec α} (hc : c.Lawful anything) {a b : α}
    (h : c.encode a <+: c.encode b) :
  a = b
  := by
  obtain ⟨t, ht⟩ := h
  have ha := hc.complete a t trivial
  have hb := hc.complete b [] trivial
  rw [List.append_nil, ← ht, ha] at hb
  apply (Prod.mk.inj (Option.some.inj hb)).1

/-! ### Words -/

/-- The rest of the text after the word `w`. -/
def strip (w s : List Char) : Option (List Char) :=
  if w.isPrefixOf s then some (s.drop w.length) else none

theorem strip_append (w t : List Char) :
  strip w (w ++ t) = some t
  := by
  have h : w.isPrefixOf (w ++ t) = true := List.isPrefixOf_iff_prefix.mpr (List.prefix_append w t)
  rw [strip, if_pos h, List.drop_left]

theorem strip_eq_some {w s t : List Char} :
  strip w s = some t ↔ s = w ++ t
  := by
  constructor
  · intro h
    rw [strip] at h
    split at h
    · rename_i hp
      obtain ⟨r, rfl⟩ := List.isPrefixOf_iff_prefix.mp hp
      rw [List.drop_left] at h
      rw [Option.some.inj h]
    · cases h
  · rintro rfl
    apply strip_append

/-- The word `w` before an element. -/
def before (w : List Char) (c : Codec α) : Codec α where
  encode a := w ++ c.encode a
  decode s := (strip w s).bind c.decode

/-- The word `w` after an element. -/
def after (c : Codec α) (w : List Char) : Codec α where
  encode a := c.encode a ++ w
  decode s := (c.decode s).bind (fun r => (strip w r.2).map (r.1, ·))

theorem Lawful.before {c : Codec α} {follow : List Char → Prop} (hc : c.Lawful follow)
    (w : List Char) :
  (c.before w).Lawful follow
  := by
  constructor
  · intro a t ht
    simp only [Codec.before, List.append_assoc, strip_append, Option.bind_some]
    apply hc.complete a t ht
  · intro s a t h
    obtain ⟨r, hr, h⟩ := Option.bind_eq_some_iff.mp h
    rw [strip_eq_some.mp hr, hc.sound r a t h, Codec.before, List.append_assoc]

theorem Lawful.after {c : Codec α} {follow : List Char → Prop} (hc : c.Lawful follow)
    {w : List Char} (hw : ∀ t, follow (w ++ t)) :
  (c.after w).Lawful anything
  := by
  constructor
  · intro a t _
    simp only [Codec.after, List.append_assoc]
    rw [hc.complete a _ (hw t), Option.bind_some, strip_append]
    rfl
  · intro s a t h
    obtain ⟨r, hr, h⟩ := Option.bind_eq_some_iff.mp h
    obtain ⟨u, hu, heq⟩ := Option.map_eq_some_iff.mp h
    cases heq
    rw [hc.sound s r.1 r.2 hr, strip_eq_some.mp hu, Codec.after, List.append_assoc]

/-! ### Composition -/

/-- An element of `α` and an element of `β`. -/
def seq (c : Codec α) (e : Codec β) : Codec (α × β) where
  encode p := c.encode p.1 ++ e.encode p.2
  decode s := (c.decode s).bind (fun r => (e.decode r.2).map (fun q => ((r.1, q.1), q.2)))

theorem Lawful.seq {c : Codec α} {e : Codec β} {f g : List Char → Prop} (hc : c.Lawful f)
    (he : e.Lawful g) (h : ∀ b t, g t → f (e.encode b ++ t)) :
  (c.seq e).Lawful g
  := by
  constructor
  · rintro ⟨a, b⟩ t ht
    simp only [Codec.seq, List.append_assoc]
    rw [hc.complete a _ (h b t ht), Option.bind_some, he.complete b t ht]
    rfl
  · rintro s ⟨a, b⟩ t hd
    obtain ⟨⟨a', r⟩, hr, hd⟩ := Option.bind_eq_some_iff.mp hd
    obtain ⟨⟨b', u⟩, hu, heq⟩ := Option.map_eq_some_iff.mp hd
    cases heq
    rw [hc.sound s _ r hr, he.sound r _ _ hu]
    simp only [Codec.seq, List.append_assoc]

/-- An element of `β`, written as an element of `α`. -/
def via (c : Codec α) (into : β → α) (back : α → Option β) : Codec β where
  encode b := c.encode (into b)
  decode s := (c.decode s).bind (fun r => (back r.1).map (·, r.2))

theorem Lawful.via {c : Codec α} {f : List Char → Prop} (hc : c.Lawful f) {into : β → α}
    {back : α → Option β} (h : ∀ a b, back a = some b ↔ a = into b) :
  (c.via into back).Lawful f
  := by
  constructor
  · intro b t ht
    simp only [Codec.via]
    rw [hc.complete _ t ht, Option.bind_some, (h _ b).mpr rfl]
    rfl
  · intro s b t hd
    obtain ⟨⟨a, r⟩, hr, hd⟩ := Option.bind_eq_some_iff.mp hd
    obtain ⟨b', hb, heq⟩ := Option.map_eq_some_iff.mp hd
    cases heq
    rw [hc.sound s a _ hr, (h a _).mp hb]
    rfl

/-- The word `w` for nothing, or an element. -/
def orWord (c : Codec α) (w : List Char) : Codec (Option α) where
  encode
    | none => w
    | some a => c.encode a
  decode s :=
    match strip w s with
    | some t => some (none, t)
    | none => (c.decode s).map (fun r => (some r.1, r.2))

theorem Lawful.orWord {c : Codec α} {f : List Char → Prop} (hc : c.Lawful f) {w : List Char}
    (hw : ∀ a t, f t → ¬ w <+: c.encode a ++ t) :
  (c.orWord w).Lawful f
  := by
  constructor
  · rintro (_ | a) t ht
    · simp only [Codec.orWord, strip_append]
    · have hs : strip w (c.encode a ++ t) = none := by
        by_contra h
        obtain ⟨u, hu⟩ := Option.ne_none_iff_exists'.mp h
        apply hw a t ht
        use u
        apply (strip_eq_some.mp hu).symm
      simp only [Codec.orWord, hs, hc.complete a t ht, Option.map_some]
  · rintro s o t hd
    simp only [Codec.orWord] at hd
    split at hd
    · rename_i u hu
      cases hd
      apply strip_eq_some.mp hu
    · obtain ⟨⟨a, r⟩, hr, heq⟩ := Option.map_eq_some_iff.mp hd
      cases heq
      apply hc.sound s a r hr

/-! ### Sequences -/

/-- Reading at most `n` elements up to the closing character. -/
def decodeMany (c : Codec α) (close : Char) : ℕ → List Char → Option (List α × List Char)
  | 0, s => (strip [close] s).map ([], ·)
  | n + 1, s =>
      match strip [close] s with
      | some t => some ([], t)
      | none => (c.decode s).bind (fun r => (decodeMany c close n r.2).map (fun q => (r.1 :: q.1, q.2)))

/-- Elements one after the other, and a closing character. -/
def many (c : Codec α) (close : Char) : Codec (List α) where
  encode l := l.flatMap c.encode ++ [close]
  decode s := decodeMany c close s.length s

theorem decodeMany_encode {c : Codec α} {close : Char} (hc : c.Lawful anything)
    (hne : ∀ a t, (c.encode a ++ t).head? ≠ some close) (l : List α) (t : List Char) {n : ℕ}
    (hn : l.length ≤ n) :
  decodeMany c close n (l.flatMap c.encode ++ [close] ++ t) = some (l, t)
  := by
  induction l generalizing n with
  | nil =>
      have hstrip := strip_append [close] t
      cases n with
      | zero => rw [List.flatMap_nil, List.nil_append, decodeMany, hstrip, Option.map_some]
      | succ n => rw [List.flatMap_nil, List.nil_append, decodeMany, hstrip]
  | cons a l ih =>
      cases n with
      | zero => cases hn
      | succ n =>
          let rest := l.flatMap c.encode ++ [close] ++ t
          have hopen : strip [close] (c.encode a ++ rest) = none := by
            by_contra h
            obtain ⟨u, hu⟩ := Option.ne_none_iff_exists'.mp h
            apply hne a rest
            rw [strip_eq_some.mp hu]
            rfl
          have hrest : decodeMany c close n rest = some (l, t) := ih (Nat.le_of_succ_le_succ hn)
          rw [List.flatMap_cons, List.append_assoc, List.append_assoc, ← List.append_assoc _ _ t,
            decodeMany, hopen]
          simp only
          rw [hc.complete a rest trivial, Option.bind_some, hrest]
          rfl

theorem encode_of_decodeMany {c : Codec α} {close : Char} (hc : c.Lawful anything) {n : ℕ}
    {s t : List Char} {l : List α} (h : decodeMany c close n s = some (l, t)) :
  s = l.flatMap c.encode ++ [close] ++ t
  := by
  induction n generalizing s l with
  | zero =>
      obtain ⟨u, hu, heq⟩ := Option.map_eq_some_iff.mp h
      cases heq
      apply strip_eq_some.mp hu
  | succ n ih =>
      rw [decodeMany] at h
      split at h
      · rename_i u hu
        cases h
        apply strip_eq_some.mp hu
      · obtain ⟨⟨a, r⟩, hr, h⟩ := Option.bind_eq_some_iff.mp h
        obtain ⟨⟨l', u⟩, hu, heq⟩ := Option.map_eq_some_iff.mp h
        cases heq
        rw [hc.sound _ a r hr, ih (s := r) hu]
        simp only [List.flatMap_cons, List.append_assoc]

/-- No element begins with the closing character. -/
theorem Lawful.many {c : Codec α} {close : Char} (hc : c.Lawful anything)
    (hne : ∀ a t, (c.encode a ++ t).head? ≠ some close) :
  (c.many close).Lawful anything
  := by
  have hpos : ∀ a, 1 ≤ (c.encode a).length := by
    intro a
    apply List.length_pos_of_ne_nil
    intro hnil
    apply hne a [close]
    rw [hnil]
    rfl
  have hlength : ∀ l : List α, l.length ≤ (l.flatMap c.encode).length := by
    intro l
    induction l with
    | nil => apply le_refl
    | cons a l ih =>
        have ha := hpos a
        rw [List.flatMap_cons, List.length_append, List.length_cons]
        omega
  constructor
  · intro l t _
    apply decodeMany_encode hc hne
    have hl := hlength l
    simp only [Codec.many, List.length_append]
    omega
  · intro s l t h
    apply encode_of_decodeMany hc h

/-! ### Lists -/

/-- The elements of a list after the first one, each after a comma, and a closing bracket. -/
def encodeTail (c : Codec α) : List α → List Char
  | [] => [']']
  | a :: l => ',' :: (c.encode a ++ encodeTail c l)

/-- Reading at most `n` elements after the first one. -/
def decodeTail (c : Codec α) : ℕ → List Char → Option (List α × List Char)
  | _, ']' :: s => some ([], s)
  | n + 1, ',' :: s =>
      (c.decode s).bind (fun r => (decodeTail c n r.2).map (fun q => (r.1 :: q.1, q.2)))
  | _, _ => none

/-- A list in brackets. -/
def list (c : Codec α) : Codec (List α) where
  encode
    | [] => ['[', ']']
    | a :: l => '[' :: (c.encode a ++ encodeTail c l)
  decode s :=
    (strip ['['] s).bind (fun s =>
      match strip [']'] s with
      | some t => some ([], t)
      | none => (c.decode s).bind (fun r =>
          (decodeTail c s.length r.2).map (fun q => (r.1 :: q.1, q.2))))

theorem decodeTail_encodeTail {c : Codec α} {f : List Char → Prop} (hc : c.Lawful f)
    (hf : ∀ l t, f (encodeTail c l ++ t)) (l : List α) (t : List Char) {n : ℕ}
    (hn : l.length ≤ n) :
  decodeTail c n (encodeTail c l ++ t) = some (l, t)
  := by
  induction l generalizing n with
  | nil =>
      rw [encodeTail, List.singleton_append, decodeTail]
  | cons a l ih =>
      cases n with
      | zero => cases hn
      | succ n =>
          rw [encodeTail, List.cons_append, List.append_assoc, decodeTail,
            hc.complete a _ (hf l t), Option.bind_some, ih (Nat.le_of_succ_le_succ hn)]
          rfl

theorem encodeTail_of_decodeTail {c : Codec α} {f : List Char → Prop} (hc : c.Lawful f) {n : ℕ}
    {s t : List Char} {l : List α} (h : decodeTail c n s = some (l, t)) :
  s = encodeTail c l ++ t
  := by
  induction n generalizing s l with
  | zero =>
      rw [decodeTail.eq_def] at h
      split at h
      · cases h
        rfl
      · rename_i heq
        cases heq
      · cases h
  | succ n ih =>
      rw [decodeTail.eq_def] at h
      split at h
      · cases h
        rfl
      · rename_i heq
        cases heq
        obtain ⟨⟨a, r⟩, hr, h⟩ := Option.bind_eq_some_iff.mp h
        obtain ⟨⟨l', u⟩, hu, heq⟩ := Option.map_eq_some_iff.mp h
        cases heq
        rw [hc.sound _ a r hr, ih (s := r) hu]
        simp only [encodeTail, List.cons_append, List.append_assoc]
      · cases h

theorem length_le_encodeTail (c : Codec α) (l : List α) :
  l.length ≤ (encodeTail c l).length
  := by
  induction l with
  | nil => apply Nat.zero_le
  | cons a l ih =>
      simp only [encodeTail, List.length_cons, List.length_append]
      omega

theorem Lawful.list {c : Codec α} {f : List Char → Prop} (hc : c.Lawful f)
    (hcomma : ∀ t, f (',' :: t)) (hclose : ∀ t, f (']' :: t))
    (hne : ∀ a t, (c.encode a ++ t).head? ≠ some ']') :
  (c.list).Lawful anything
  := by
  have hf : ∀ l t, f (encodeTail c l ++ t) := by
    intro l t
    cases l with
    | nil => apply hclose
    | cons a l => apply hcomma
  constructor
  · rintro (_ | ⟨a, l⟩) t _
    · rfl
    · have hlen : l.length ≤ (c.encode a ++ (encodeTail c l ++ t)).length := by
        have hl := length_le_encodeTail c l
        simp only [List.length_append]
        omega
      have hopen : strip [']'] (c.encode a ++ (encodeTail c l ++ t)) = none := by
        by_contra h
        obtain ⟨u, hu⟩ := Option.ne_none_iff_exists'.mp h
        apply hne a (encodeTail c l ++ t)
        rw [strip_eq_some.mp hu]
        rfl
      have hstrip := strip_append ['['] (c.encode a ++ (encodeTail c l ++ t))
      simp only [Codec.list, List.cons_append, List.append_assoc]
      rw [List.singleton_append] at hstrip
      rw [hstrip, Option.bind_some, hopen]
      simp only
      rw [hc.complete a _ (hf l t), Option.bind_some, decodeTail_encodeTail hc hf l t hlen]
      rfl
  · intro s l t h
    obtain ⟨s', hs, h⟩ := Option.bind_eq_some_iff.mp h
    rw [strip_eq_some.mp hs]
    split at h
    · rename_i u hu
      cases h
      rw [strip_eq_some.mp hu]
      rfl
    · obtain ⟨⟨a, r⟩, hr, h⟩ := Option.bind_eq_some_iff.mp h
      obtain ⟨⟨l', u⟩, hu, heq⟩ := Option.map_eq_some_iff.mp h
      cases heq
      rw [hc.sound _ a r hr, encodeTail_of_decodeTail (s := r) hc hu]
      simp only [Codec.list, List.cons_append, List.nil_append, List.append_assoc]

end Codec
