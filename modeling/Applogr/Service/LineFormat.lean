import Applogr.Service.EventLog

/-!
# The format of an event

The system logs an event as `I/`, the name of the event, and its fields in brackets.  The
fields are the user (from Android 4.2 on), a token, the task (unless the event is a launch),
the component, which is the package and the activity with a slash between them, and further
fields, whose texts are arbitrary.
-/

/-- A nonempty text without separators. -/
def Token (w : String) : Prop := w ≠ "" ∧ ∀ c ∈ w.toList, isSeparator c = false

/-- What the system logs. -/
structure Logged where
  kind : EventKind
  user : ℤ
  token : ℤ
  task : ℤ
  package : String
  activity : String
  more : List String

namespace Logged

variable (mOffset : ℕ) (e : Logged)

/-- The fields before the component. -/
def ids : List ℤ :=
  (if mOffset = 0 then [] else [e.user]) ++ [e.token] ++
    (if e.kind = .launched then [] else [e.task])

/-- The component. -/
def component : String := e.package ++ "/" ++ e.activity

/-- The fields. -/
def fields : List String := (e.ids mOffset).map toString ++ e.component :: e.more

/-- The line. -/
def line : String := "I/" ++ e.kind.tag ++ ": [" ++ ",".intercalate (e.fields mOffset) ++ "]"

end Logged

/-! ### Tokens -/

theorem token_of_all {w : String} (hw : w ≠ "") (h : w.toList.all (fun c => !isSeparator c) = true) :
  Token w
  := by
  use hw
  intro c hc
  simpa using List.all_eq_true.mp h c hc

/-- Every number is a token. -/
theorem token_toString (n : ℤ) :
  Token (toString n)
  := by
  have hdigit : ∀ {m : ℕ} {c : Char}, c ∈ Nat.toDigits 10 m → isSeparator c = false := by
    intro m c hc
    have hd := Nat.isDigit_of_mem_toDigits (by decide) (by decide) hc
    by_contra hs
    simp only [isSeparator, isWhitespace, Bool.not_eq_false, Bool.or_eq_true,
      decide_eq_true_eq] at hs
    rcases hs with ((((((((((h | h) | h) | h) | h) | h) | h) | h) | h) | h) | h) <;> subst h <;>
      exact absurd hd (by decide)
  have hnat : ∀ m : ℕ, Token m.repr := by
    intro m
    use Nat.repr_ne_empty
    intro c hc
    rw [Nat.toList_repr] at hc
    apply hdigit hc
  cases n with
  | ofNat m => apply hnat
  | negSucc m =>
      have h : toString (Int.negSucc m) = "-" ++ (m + 1).repr := rfl
      rw [h]
      constructor
      · intro hn
        have hlist := congrArg String.toList hn
        rw [String.toList_append] at hlist
        have hminus : some '-' = none := congrArg List.head? hlist
        cases hminus
      · intro c hc
        rw [String.toList_append] at hc
        rcases List.mem_append.mp hc with hc | hc
        · have hminus : "-".toList = ['-'] := by decide
          rw [hminus, List.mem_singleton] at hc
          rw [hc]
          decide
        · apply (hnat (m + 1)).2 c hc

theorem token_tag (k : EventKind) :
  Token k.tag
  := by
  cases k with
  | created => apply token_of_all (by decide) rfl
  | resumed => apply token_of_all (by decide) rfl
  | launched => apply token_of_all (by decide) rfl

theorem token_main :
  Token "Main"
  := token_of_all (by decide) rfl

/-- There are tokens beyond every list of strings. -/
theorem exists_token (ws : List String) :
  ∃ w, Token w ∧ w ∉ ws
  := by
  have hlong : ∃ k, ∀ w ∈ ws, w.length < k := by
    induction ws with
    | nil =>
        use 0
        rintro w ⟨⟩
    | cons v ws ih =>
        obtain ⟨k, hk⟩ := ih
        use max (v.length + 1) k
        intro w hw
        rcases List.mem_cons.mp hw with rfl | hw
        · apply Nat.lt_of_lt_of_le (Nat.lt_succ_self _) (Nat.le_max_left _ k)
        · apply Nat.lt_of_lt_of_le (hk w hw) (Nat.le_max_right _ k)
  obtain ⟨k, hk⟩ := hlong
  have hlist : (String.ofList (List.replicate (k + 1) 'a')).toList = List.replicate (k + 1) 'a' :=
    String.toList_ofList
  use String.ofList (List.replicate (k + 1) 'a')
  constructor
  · constructor
    · intro hempty
      cases Eq.trans hlist.symm (congrArg String.toList hempty)
    · intro c hc
      rw [hlist] at hc
      rw [List.eq_of_mem_replicate hc]
      rfl
  · intro hmem
    have hlt := hk _ hmem
    rw [← String.length_toList, hlist, List.length_replicate] at hlt
    apply Nat.not_succ_lt_self hlt

theorem Token.wordRun {w : String} (hw : Token w) {run : List Char} (hne : run ≠ [])
    (hrun : run.all isSeparator = true) :
  Split.WordRun isSeparator (w.toList, run)
  := by
  refine ⟨?_, hw.2, hne, List.all_eq_true.mp hrun⟩
  intro h
  apply hw.1
  apply String.toList_inj.mp h

/-! ### The words of a line -/

theorem toList_intercalate_comma (lead : List String) (x : String) (more : List String) :
  (",".intercalate (lead ++ x :: more)).toList
    = Split.textOf (lead.map (fun f => (f.toList, [',']))) ++ x.toList
      ++ more.flatMap (fun f => ',' :: f.toList)
  := by
  have hcomma : ",".toList = [','] := by decide
  induction lead generalizing x with
  | nil =>
      induction more generalizing x with
      | nil => simp [Split.textOf]
      | cons y more ih =>
          simp only [List.nil_append] at ih ⊢
          rw [String.intercalate_cons_cons, String.toList_append, String.toList_append, ih y, hcomma]
          simp [Split.textOf]
  | cons f lead ih =>
      have hne : lead ++ x :: more ≠ [] := by simp
      rw [List.cons_append, String.intercalate_cons_of_ne_nil hne, String.toList_append,
        String.toList_append, ih, hcomma]
      simp [Split.textOf]

namespace Logged

variable {mOffset : ℕ} {e : Logged}

/-- The words of the line up to the activity, with the runs that follow them. -/
def words (mOffset : ℕ) (e : Logged) (c : Char) : List (List Char × List Char) :=
  [("I".toList, "/".toList), (e.kind.tag.toList, ": [".toList)]
    ++ (e.ids mOffset).map (fun n => ((toString n).toList, [',']))
    ++ [(e.package.toList, "/".toList), (e.activity.toList, [c])]

/-- The line consists of its words and of what follows the activity. -/
theorem line_eq (mOffset : ℕ) (e : Logged) :
  ∃ c rest, isSeparator c = true ∧
    (e.line mOffset).toList = Split.textOf (e.words mOffset c) ++ rest
  := by
  have htext : ∀ c rest, e.more.flatMap (fun f => ',' :: f.toList) ++ "]".toList = c :: rest →
      (e.line mOffset).toList = Split.textOf (e.words mOffset c) ++ rest := by
    intro c rest h
    have hi : "I/".toList = "I".toList ++ "/".toList := by decide
    rw [line, fields]
    simp only [String.toList_append, toList_intercalate_comma, component, List.append_assoc, h, hi]
    simp [Split.textOf, words, List.flatMap_map]
  cases hm : e.more with
  | nil =>
      use ']', [], by decide
      apply htext
      rw [hm]
      decide
  | cons f more =>
      use ',', f.toList ++ more.flatMap (fun f => ',' :: f.toList) ++ "]".toList, by decide
      apply htext
      rw [hm]
      rfl

theorem words_wordRun (hp : Token e.package) (ha : Token e.activity) {c : Char}
    (hc : isSeparator c = true) :
  ∀ w ∈ e.words mOffset c, Split.WordRun isSeparator w
  := by
  have hi : Token "I" := token_of_all (by decide) rfl
  intro w hw
  rw [words, List.mem_append, List.mem_append] at hw
  rcases hw with (hw | hw) | hw
  · obtain rfl | rfl : w = _ ∨ w = _ := by simpa using hw
    · apply hi.wordRun (by decide) rfl
    · apply (token_tag e.kind).wordRun (by decide) rfl
  · obtain ⟨n, -, rfl⟩ := List.mem_map.mp hw
    apply (token_toString n).wordRun (by decide) rfl
  · obtain rfl | rfl : w = _ ∨ w = _ := by simpa using hw
    · apply hp.wordRun (by decide) rfl
    · apply ha.wordRun
      · simp
      · simp [hc]

/-- The parts of a line are its words. -/
theorem split_line (hp : Token e.package) (ha : Token e.activity) {i limit : ℕ}
    (hi : i < 4 + (e.ids mOffset).length) (hlimit : i + 1 < limit) :
  (commandPattern.split (e.line mOffset) limit)[i]?
    = (["I", e.kind.tag] ++ (e.ids mOffset).map toString ++ [e.package, e.activity])[i]?
  := by
  obtain ⟨c, rest, hc, hline⟩ := line_eq mOffset e
  have hlen : (e.words mOffset c).length = 4 + (e.ids mOffset).length := by
    simp [words]
    omega
  have hwords : ((e.words mOffset c).map Prod.fst).map String.ofList
      = ["I", e.kind.tag] ++ (e.ids mOffset).map toString ++ [e.package, e.activity] := by
    simp [words, Function.comp_def]
  have hrun : ∀ w ∈ e.words mOffset c, Split.WordRun isSeparator w := words_wordRun hp ha hc
  have hsplit := Split.splitRuns_textOf hrun rest (i := i) (n := limit - 1) (by omega) (by omega)
  rw [← hline] at hsplit
  rw [Pattern.split, List.getElem?_map, ← hwords, List.getElem?_map]
  exact congrArg (Option.map String.ofList) hsplit

/-- The number of fields before the component. -/
theorem position_eq (h : mOffset ≤ 1) (e : Logged) :
  e.kind.position mOffset = (e.ids mOffset).length + 2
  := by
  obtain rfl | rfl := Nat.le_one_iff_eq_zero_or_eq_one.mp h
  · cases hk : e.kind <;> simp [EventKind.position, ids, hk]
  · cases hk : e.kind <;> simp [EventKind.position, ids, hk]

theorem length_ids_le (mOffset : ℕ) (e : Logged) :
  (e.ids mOffset).length ≤ 3
  := by
  simp only [ids, List.length_append, List.length_singleton]
  split <;> split <;> simp

/-- A part of the line is its event name. -/
theorem split_line_event (hp : Token e.package) (ha : Token e.activity) {limit : ℕ}
    (hlimit : 2 < limit) :
  (commandPattern.split (e.line mOffset) limit)[1]? = some e.kind.tag
  := by
  rw [split_line hp ha (by omega) hlimit]
  simp

/-- A part of the line is its package, and the next part is its activity. -/
theorem split_line_component (h : mOffset ≤ 1) (hp : Token e.package) (ha : Token e.activity)
    {limit : ℕ} (hlimit : e.kind.position mOffset + 1 < limit) :
  (commandPattern.split (e.line mOffset) limit)[e.kind.position mOffset]? = some e.package ∧
    (e.kind.position mOffset + 2 < limit →
      (commandPattern.split (e.line mOffset) limit)[e.kind.position mOffset + 1]?
        = some e.activity)
  := by
  have hpos := position_eq h e
  constructor
  · rw [split_line hp ha (by omega) hlimit, hpos, List.getElem?_append_right]
    · simp
    · simp
  · intro hlimit
    rw [split_line hp ha (by omega) hlimit, hpos, List.getElem?_append_right]
    · have hlen : (e.ids mOffset).length + 2 + 1 - ((e.ids mOffset).length + 1 + 1) = 1 := by omega
      simp [hlen]
    · simp

/-- A line in the format of an event is a line of a recognised event. -/
def eventLine (h : mOffset ≤ 1) (e : Logged) (hp : Token e.package) (ha : Token e.activity) :
    EventLine mOffset where
  text := e.line mOffset
  kind := e.kind
  package := e.package
  event_eq := split_line_event hp ha (by decide)
  package_eq := by
    apply (split_line_component h hp ha _).1
    have hlen := length_ids_le mOffset e
    have hpos := position_eq h e
    omega

/-- The service finds the event, the package and the activity in a line in the format of an
event, on both generations of the platform and whatever follows the component. -/
theorem extractors_line {σ : Type} {mOffset : ℕ} (h : mOffset ≤ 1) (e : Logged)
    (hp : Token e.package) (ha : Token e.activity) (t : σ) :
  getEventName commandPattern (e.line mOffset) t = .ok e.kind.tag t ∧
    getPackageName commandPattern mOffset (e.line mOffset) t = .ok e.package t ∧
    getActivityName commandPattern mOffset (e.line mOffset) t = .ok e.activity t
  := by
  refine ⟨getEventName_eventLine (eventLine h e hp ha) t,
    getPackageName_eventLine (eventLine h e hp ha) t, ?_⟩
  have hlimit : e.kind.position mOffset + 2 < 7 + mOffset := by
    cases e.kind <;> simp [EventKind.position] <;> omega
  have htag : (commandPattern.split (e.line mOffset) (7 + mOffset))[1]? = some e.kind.tag :=
    split_line_event hp ha (by omega)
  have hact := (split_line_component h hp ha (by omega)).2 hlimit
  rw [getActivityName, Java.bind_of_ok (Java.index_of_some htag t)]
  cases hk : e.kind with
  | launched =>
      rw [hk] at hact
      apply Java.index_of_some
      rw [← hact, EventKind.position, Nat.add_right_comm]
  | created =>
      rw [hk] at hact
      apply Java.index_of_some
      rw [← hact, EventKind.position, Nat.add_right_comm]
      · rintro ⟨⟩
  | resumed =>
      rw [hk] at hact
      apply Java.index_of_some
      rw [← hact, EventKind.position, Nat.add_right_comm]
      · rintro ⟨⟩

/-- The further fields may look like components. -/
theorem extractors_line_sample :
  Token "com.example" ∧ Token "com.example.Main" ∧
    getPackageName commandPattern 1 (σ := Unit)
      (line 1 ⟨.created, 0, -7, 12, "com.example", "com.example.Main", ["a/b", "", "[1], c"]⟩) ()
      = .ok "com.example" ()
  := by
  have hp : Token "com.example" := token_of_all (by decide) rfl
  have ha : Token "com.example.Main" := token_of_all (by decide) rfl
  refine ⟨hp, ha, ?_⟩
  exact (extractors_line (le_refl 1)
    ⟨.created, 0, -7, 12, "com.example", "com.example.Main", ["a/b", "", "[1], c"]⟩ hp ha ()).2.1

end Logged
