import Applogr.Core.Gson
import Applogr.Foundation.Codec

/-!
# The JSON text of a list

`gson` writes an `AppList` in the format of the JSON library: an object with the field
`apps`, a list of objects with the fields `packageName`, `timeUsedMs` and `launchCount`.  A
field that is null is left out, and an entry that is null is the word `null`.  In a string, the
quotation mark, the backslash, the characters below the blank and those that mean something in a
page are escaped.  `gson` reads the texts that it writes, where the library reads others, too.
-/

namespace Json

/-- The quotation mark. -/
def quote : Char := '\x22'

/-- The backslash. -/
def backslash : Char := '\x5c'

/-! ### Numbers -/

/-- Whether the character occurs in a number. -/
def isNumeral (c : Char) : Bool := c.isDigit || c = '-'

/-- The number whose numeral is `w`. -/
def numeralValue : List Char → ℤ
  | '-' :: w => - (Nat.ofDigitChars 10 w 0 : ℤ)
  | w => Nat.ofDigitChars 10 w 0

/-- Integers. -/
def integer : Codec ℤ where
  encode n := (toString n).toList
  decode s :=
    let w := s.takeWhile isNumeral
    if (toString (numeralValue w)).toList = w then some (numeralValue w, s.dropWhile isNumeral)
    else none

/-- A numeral is not followed by another character of a number. -/
def EndsNumber (s : List Char) : Prop := ∀ c ∈ s.head?, isNumeral c = false

theorem toString_ofNat (n : ℕ) :
  (toString (n : ℤ)).toList = Nat.toDigits 10 n
  := Nat.toList_repr

theorem toString_negSucc (n : ℕ) :
  (toString (Int.negSucc n)).toList = '-' :: Nat.toDigits 10 (n + 1)
  := by
  have h : toString (Int.negSucc n) = "-" ++ (n + 1).repr := rfl
  rw [h, String.toList_append, Nat.toList_repr]
  rfl

theorem isDigit_of_mem {n : ℕ} {c : Char} (hc : c ∈ Nat.toDigits 10 n) :
  c.isDigit = true
  := Nat.isDigit_of_mem_toDigits (by decide) (by decide) hc

theorem isNumeral_of_mem {n : ℤ} {c : Char} (hc : c ∈ (toString n).toList) :
  isNumeral c = true
  := by
  rw [isNumeral, Bool.or_eq_true]
  cases n with
  | ofNat n =>
      left
      apply isDigit_of_mem
      rw [← toString_ofNat]
      apply hc
  | negSucc n =>
      rw [toString_negSucc] at hc
      rcases List.mem_cons.mp hc with rfl | hc
      · right
        rfl
      · left
        apply isDigit_of_mem hc

theorem numeralValue_toString (n : ℤ) :
  numeralValue (toString n).toList = n
  := by
  cases n with
  | ofNat n =>
      have hv : numeralValue (Nat.toDigits 10 n) = Nat.ofDigitChars 10 (Nat.toDigits 10 n) 0 := by
        rw [numeralValue.eq_def]
        split
        · rename_i w hw
          have hd := isDigit_of_mem (n := n) (c := '-') (by rw [hw]; apply List.mem_cons_self)
          exact absurd hd (by decide)
        · rfl
      apply Eq.trans (congrArg numeralValue (toString_ofNat n))
      rw [hv, Nat.ofDigitChars_ten_toDigits]
      rfl
  | negSucc n =>
      rw [toString_negSucc, numeralValue, Nat.ofDigitChars_ten_toDigits]
      rfl

theorem integer_lawful : integer.Lawful EndsNumber := by
  constructor
  · intro n t ht
    have htake : ((toString n).toList ++ t).takeWhile isNumeral = (toString n).toList := by
      rw [List.takeWhile_append_of_pos (fun c hc => isNumeral_of_mem hc)]
      cases t with
      | nil => simp
      | cons c t => simp [ht c rfl]
    have hdrop : ((toString n).toList ++ t).dropWhile isNumeral = t := by
      rw [List.dropWhile_append_of_pos (fun c hc => isNumeral_of_mem hc)]
      cases t with
      | nil => rfl
      | cons c t => simp [ht c rfl]
    simp only [integer, htake, hdrop, numeralValue_toString, if_true]
  · intro s n t h
    simp only [integer] at h
    split at h
    · rename_i hw
      cases h
      apply Eq.trans List.takeWhile_append_dropWhile.symm
      apply congrArg (· ++ s.dropWhile isNumeral) hw.symm
    · cases h

/-- Integers of 64 bits. -/
def int64 : Codec Int64 :=
  integer.via Int64.toInt (fun n => if (Int64.ofInt n).toInt = n then some (Int64.ofInt n) else none)

/-- Integers of 32 bits. -/
def int32 : Codec Int32 :=
  integer.via Int32.toInt (fun n => if (Int32.ofInt n).toInt = n then some (Int32.ofInt n) else none)

theorem int64_lawful : int64.Lawful EndsNumber := by
  apply integer_lawful.via
  intro n x
  constructor
  · intro h
    split at h
    · rename_i hn
      cases h
      apply hn.symm
    · cases h
  · rintro rfl
    simp

theorem int32_lawful : int32.Lawful EndsNumber := by
  apply integer_lawful.via
  intro n x
  constructor
  · intro h
    split at h
    · rename_i hn
      cases h
      apply hn.symm
    · cases h
  · rintro rfl
    simp

/-! ### Strings -/

/-- The escape of a character by its number. -/
def unicode (c : Char) : List Char :=
  [backslash, 'u', Nat.digitChar (c.toNat / 4096 % 16), Nat.digitChar (c.toNat / 256 % 16),
    Nat.digitChar (c.toNat / 16 % 16), Nat.digitChar (c.toNat % 16)]

/-- The characters that have a short escape, each with its letter. -/
def shortEscapes : List (Char × Char) :=
  [(quote, quote), (backslash, backslash), ('\t', 't'), ('\x08', 'b'), ('\n', 'n'), ('\r', 'r'),
    ('\x0c', 'f')]

/-- The other characters that are escaped: those below the blank, those that mean something in a page,
and the separators of lines and paragraphs. -/
def otherEscapes : List Char :=
  ((List.range 32).map Char.ofNat).filter (fun c => (shortEscapes.lookup c).isNone)
    ++ ['<', '>', '&', '=', '\x27', Char.ofNat 0x2028, Char.ofNat 0x2029]

/-- The characters that are escaped, with their escapes. -/
def escapes : List (Char × List Char) :=
  shortEscapes.map (fun e => (e.1, [backslash, e.2])) ++ otherEscapes.map (fun c => (c, unicode c))

/-- The escape of a character, if it has one. -/
def escape (c : Char) : Option (List Char) := (escapes.find? (fun e => e.1 = c)).map Prod.snd

/-- Characters of a string. -/
def char : Codec Char where
  encode c := (escape c).getD [c]
  decode s :=
    match escapes.find? (fun e => e.2.isPrefixOf s) with
    | some e => some (e.1, s.drop e.2.length)
    | none =>
        match s with
        | [] => none
        | c :: t => if escape c = none then some (c, t) else none

/-- Strings in quotation marks. -/
def string : Codec String :=
  Codec.before [quote]
    (Codec.via (char.many quote) String.toList (fun w => some (String.ofList w)))

/-- Every escape begins with a backslash. -/
theorem head_escapes :
  ∀ e ∈ escapes, e.2.head? = some backslash
  := by decide +kernel

/-- No escape begins with another one. -/
theorem escapes_prefixFree :
  ∀ e ∈ escapes, ∀ e' ∈ escapes, e.2.isPrefixOf e'.2 = true → e = e'
  := by decide +kernel

/-- Every character has one escape. -/
theorem escape_of_mem :
  ∀ e ∈ escapes, escape e.1 = some e.2
  := by decide +kernel

theorem mem_of_escape {c : Char} {w : List Char} (h : escape c = some w) :
  (c, w) ∈ escapes
  := by
  obtain ⟨e, he, rfl⟩ := Option.map_eq_some_iff.mp h
  obtain rfl : e.1 = c := by simpa using List.find?_some he
  apply List.mem_of_find?_eq_some he

/-- A text that begins with an escape begins with no other escape. -/
theorem find_escape {e : Char × List Char} (he : e ∈ escapes) (t : List Char) :
  escapes.find? (fun e' => e'.2.isPrefixOf (e.2 ++ t)) = some e
  := by
  cases h : escapes.find? (fun e' => e'.2.isPrefixOf (e.2 ++ t)) with
  | none =>
      have hnone := List.find?_eq_none.mp h e he
      exact absurd (List.isPrefixOf_iff_prefix.mpr (List.prefix_append e.2 t)) hnone
  | some e' =>
      have he' := List.mem_of_find?_eq_some h
      have hprefix : e'.2 <+: e.2 ++ t := by simpa using List.find?_some h
      rcases List.prefix_or_prefix_of_prefix hprefix (List.prefix_append e.2 t) with hle | hle
      · rw [escapes_prefixFree e' he' e he (List.isPrefixOf_iff_prefix.mpr hle)]
      · rw [escapes_prefixFree e he e' he' (List.isPrefixOf_iff_prefix.mpr hle)]

/-- A text that begins with a character which is not escaped does not begin with an escape. -/
theorem find_escape_none {c : Char} (hc : escape c = none) (t : List Char) :
  escapes.find? (fun e => e.2.isPrefixOf (c :: t)) = none
  := by
  apply List.find?_eq_none.mpr
  intro e he hprefix
  obtain ⟨u, hu⟩ := List.isPrefixOf_iff_prefix.mp hprefix
  have hhead := head_escapes e he
  cases hw : e.2 with
  | nil =>
      rw [hw] at hhead
      cases hhead
  | cons b w =>
      rw [hw] at hu hhead
      obtain rfl : b = backslash := Option.some.inj hhead
      obtain rfl : backslash = c := (List.cons.inj hu).1
      have hbackslash := escape_of_mem (backslash, [backslash, backslash]) (by decide)
      cases hc.symm.trans hbackslash

theorem char_lawful : char.Lawful Codec.anything := by
  constructor
  · intro c t _
    cases hc : escape c with
    | none =>
        have hencode : char.encode c = [c] := by simp only [char, hc, Option.getD_none]
        rw [hencode, List.singleton_append]
        simp only [char, find_escape_none hc t, hc, if_true]
    | some w =>
        have hencode : char.encode c = w := by simp only [char, hc, Option.getD_some]
        have hfind := find_escape (mem_of_escape hc) t
        rw [hencode]
        simp only [char, hfind, List.drop_left]
  · intro s c t h
    simp only [char] at h
    split at h
    · rename_i e he
      cases h
      have hmem := List.mem_of_find?_eq_some he
      have hprefix : e.2 <+: s := by simpa using List.find?_some he
      simp only [char, escape_of_mem e hmem, Option.getD_some]
      exact (List.prefix_iff_eq_append.mp hprefix).symm
    · split at h
      · cases h
      · split at h
        · rename_i hc
          cases h
          simp only [char, hc, Option.getD_none, List.singleton_append]
        · cases h

/-- No character is written with a quotation mark at its beginning. -/
theorem head_char (c : Char) (t : List Char) :
  (char.encode c ++ t).head? ≠ some quote
  := by
  cases hc : escape c with
  | none =>
      have hencode : char.encode c = [c] := by simp only [char, hc, Option.getD_none]
      rw [hencode]
      rintro ⟨⟩
      have hquote := escape_of_mem (quote, [backslash, quote]) (by decide)
      cases hc.symm.trans hquote
  | some w =>
      have hencode : char.encode c = w := by simp only [char, hc, Option.getD_some]
      have hhead : w.head? = some backslash := head_escapes (c, w) (mem_of_escape hc)
      rw [hencode]
      cases w with
      | nil => cases hhead
      | cons b w =>
          obtain rfl : b = backslash := Option.some.inj hhead
          intro h
          exact absurd (Option.some.inj h) (by decide)

theorem string_lawful : string.Lawful Codec.anything := by
  apply Codec.Lawful.before
  apply (char_lawful.many head_char).via
  intro w x
  constructor
  · intro h
    cases h
    simp
  · rintro rfl
    simp

/-! ### Lists of applications -/

/-- The beginning of an object, up to the time. -/
def name : Codec (Option String) :=
  ((string.before "\x7b\x22packageName\x22:".toList).after ",\x22timeUsedMs\x22:".toList).orWord
    "\x7b\x22timeUsedMs\x22:".toList

/-- An object of the list. -/
def record : Codec Record :=
  ((name.seq (int64.after ",\x22launchCount\x22:".toList)).seq (int32.after "\x7d".toList)).via
    (fun r => ((r.packageName, r.timeUsedMs), r.launchCount))
    (fun p => some ⟨p.1.1, p.1.2, p.2⟩)

/-- An entry of the list. -/
def entry : Codec (Option Record) := record.orWord "null".toList

/-- The object whose field is the list. -/
def document : Codec Document :=
  (((entry.list.before "\x7b\x22apps\x22:".toList).after "\x7d".toList).orWord
    "\x7b\x7d".toList).via Document.apps (fun apps => some ⟨apps⟩)

theorem name_lawful : name.Lawful Codec.anything := by
  apply Codec.Lawful.orWord
  · apply (string_lawful.before _).after
    intro t
    trivial
  · rintro x t - ⟨u, hu⟩
    have h : some 't' = some 'p' := congrArg (fun l : List Char => l[2]?) hu
    exact absurd h (by decide)

theorem record_lawful : record.Lawful Codec.anything := by
  have hends : ∀ {c : Char} {t : List Char}, isNumeral c = false → EndsNumber (c :: t) := by
    rintro c t hc _ ⟨⟩
    apply hc
  apply Codec.Lawful.via
  · apply Codec.Lawful.seq
    · apply name_lawful.seq
      · apply int64_lawful.after
        intro t
        apply hends
        decide
      · intro b t ht
        trivial
    · apply int32_lawful.after
      intro t
      apply hends
      decide
    · intro b t ht
      trivial
  · rintro ⟨⟨x, y⟩, z⟩ r
    constructor
    · intro h
      cases h
      rfl
    · intro h
      cases h
      rfl

theorem encode_record (r : Record) : ∃ t, record.encode r = '\x7b' :: t := by
  obtain ⟨_ | x, y, z⟩ := r
  · exact ⟨_, rfl⟩
  · exact ⟨_, rfl⟩

theorem entry_lawful : entry.Lawful Codec.anything := by
  apply record_lawful.orWord
  rintro r t - ⟨u, hu⟩
  obtain ⟨v, hv⟩ := encode_record r
  rw [hv] at hu
  have h : some 'n' = some '\x7b' := congrArg List.head? hu
  exact absurd h (by decide)

theorem document_lawful : document.Lawful Codec.anything := by
  apply Codec.Lawful.via
  · apply Codec.Lawful.orWord
    · apply Codec.Lawful.after
      · apply Codec.Lawful.before
        apply entry_lawful.list
        · intro t
          trivial
        · intro t
          trivial
        · rintro (_ | r) t h
          · cases h
          · obtain ⟨v, hv⟩ := encode_record r
            have he : entry.encode (some r) = record.encode r := rfl
            rw [he, hv] at h
            cases h
      · intro t
        trivial
    · rintro l t - ⟨u, hu⟩
      have h : some '\x7d' = some quote := congrArg (fun l : List Char => l[1]?) hu
      exact absurd h (by decide)
  · rintro apps ⟨apps'⟩
    constructor
    · intro h
      cases h
      rfl
    · rintro rfl
      rfl

/-- The object without fields, which is read as the list of the constructor `AppList()`. -/
def noFields : Text := "\x7b\x7d".toList

/-- The object whose field is null. -/
def nullField : Text := "\x7b\x22apps\x22:null\x7d".toList

/-- The library. -/
def gson : Gson where
  toJson := document.encode
  fromJson t :=
    if t = [] ∨ t = "null".toList then .ok none
    else if t = noFields then .ok (some ⟨some []⟩)
    else if t = nullField then .ok (some ⟨none⟩)
    else match document.decode t with
      | some (doc, []) => .ok (some doc)
      | _ => .error .syntaxError

/-- The beginning of the text of a list. -/
theorem encode_document (apps : List (Option Record)) :
  ∃ t, document.encode ⟨some apps⟩ = "\x7b\x22apps\x22:[".toList ++ t
  := by
  cases apps with
  | nil => exact ⟨_, rfl⟩
  | cons app apps => exact ⟨_, rfl⟩

/-- The beginning of the text of a list is not one of the other texts that are read. -/
theorem fromJson_beginning {apps : List (Option Record)} {t : Text}
    (ht : t <+: document.encode ⟨some apps⟩) (hne : t ≠ []) :
  gson.fromJson t = match document.decode t with
    | some (doc, []) => .ok (some doc)
    | _ => .error .syntaxError
  := by
  obtain ⟨u, hu⟩ := ht
  obtain ⟨v, hv⟩ := encode_document apps
  have hother : ∀ {w : Text} (i : ℕ), i < 9 → w[i]? ≠ none →
      w[i]? ≠ "\x7b\x22apps\x22:[".toList[i]? → t ≠ w := by
    rintro w i hi hsome hdiff rfl
    obtain ⟨c, hc⟩ := Option.ne_none_iff_exists'.mp hsome
    apply hdiff
    have hlt := (List.getElem?_eq_some_iff.mp hc).1
    have hsame : (t ++ u)[i]? = t[i]? := List.getElem?_append_left hlt
    rw [← hsame, Eq.trans hu hv, List.getElem?_append_left hi]
  have hnull : ¬ (t = [] ∨ t = "null".toList) := by
    rintro (h | h)
    · apply hne h
    · exact hother 0 (by decide) (by decide) (by decide) h
  simp only [gson]
  rw [if_neg hnull, if_neg (hother (w := noFields) 1 (by decide) (by decide) (by decide)),
    if_neg (hother (w := nullField) 8 (by decide) (by decide) (by decide))]

/-- The library does what is documented. -/
theorem gson_documented : gson.Documented := by
  constructor
  · intro apps
    have hd := document_lawful.complete ⟨some apps⟩ [] trivial
    rw [List.append_nil] at hd
    have hne : document.encode ⟨some apps⟩ ≠ [] := by
      obtain ⟨t, ht⟩ := encode_document apps
      intro h
      cases Eq.trans ht.symm h
    apply Eq.trans (fromJson_beginning (List.prefix_refl _) hne)
    rw [hd]
  · rfl
  · rfl
  · intro apps t ht hne hpre
    use .syntaxError
    rw [fromJson_beginning ht hne]
    split
    · rename_i doc h
      have hsound := document_lawful.sound t doc [] h
      rw [List.append_nil] at hsound
      have heq := document_lawful.prefix_eq (a := doc) (b := ⟨some apps⟩) (by rw [← hsound]; apply ht)
      exact absurd (heq ▸ hsound) hpre
    · rfl

end Json
