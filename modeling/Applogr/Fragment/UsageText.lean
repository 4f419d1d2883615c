import Applogr.Foundation.Split
import Applogr.Fragment.Grid

/-!
# The usage time that is shown

`populateGrid` shows the time of an application in seconds, in minutes and seconds, or in hours and
minutes.  The text is read back as a duration, which is the time without what is shorter than the
unit that is shown last.
-/

/-- A duration, as it is shown. -/
inductive Duration where
  | seconds (s : ℤ)
  | minutes (m s : ℤ)
  | hours (h m : ℤ)
deriving DecidableEq, Repr

namespace Duration

/-- The milliseconds of a duration. -/
def millis : Duration → ℤ
  | seconds s => s * 1000
  | minutes m s => (60 * m + s) * 1000
  | hours h m => (60 * h + m) * 60000

/-- The milliseconds of the unit that is shown last. -/
def unit : Duration → ℤ
  | seconds _ => 1000
  | minutes _ _ => 1000
  | hours _ _ => 60000

/-- The components are those of a clock. -/
def InRange : Duration → Prop
  | seconds s => 0 ≤ s ∧ s ≤ 59
  | minutes m s => (1 ≤ m ∧ m ≤ 59) ∧ 0 ≤ s ∧ s ≤ 59
  | hours h m => 1 ≤ h ∧ 0 ≤ m ∧ m ≤ 59

/-! ### Texts -/

/-- The text of a duration. -/
def text : Duration → String
  | seconds s => toString s ++ " s"
  | minutes m s => toString m ++ " m " ++ toString s ++ " s"
  | hours h m => toString h ++ " hr " ++ toString m ++ " m"

/-- The words of a text. -/
def words (text : String) : List (List Char) := Split.splitRuns (fun c => c = ' ') 3 text.toList

/-- The number whose numeral is the word. -/
def readNumber (w : List Char) : Option ℤ :=
  match Json.integer.decode w with
  | some (n, []) => some n
  | _ => none

/-- The duration whose text this is. -/
def read (text : String) : Option Duration :=
  match words text with
  | [s, ['s']] => do
      pure (seconds (← readNumber s))
  | [m, ['m'], s, ['s']] => do
      pure (minutes (← readNumber m) (← readNumber s))
  | [h, ['h', 'r'], m, ['m']] => do
      pure (hours (← readNumber h) (← readNumber m))
  | _ => none

theorem readNumber_toString (n : ℤ) :
  readNumber (toString n).toList = some n
  := by
  have h := Json.integer_lawful.complete n [] (by rintro c ⟨⟩)
  rw [List.append_nil] at h
  change Json.integer.decode (toString n).toList = some (n, []) at h
  simp only [readNumber, h]

theorem numeral_ne_nil (n : ℤ) :
  (toString n).toList ≠ []
  := by
  intro h
  have hvalue := Json.numeralValue_toString n
  rw [h] at hvalue
  obtain rfl : n = 0 := hvalue.symm
  revert h
  decide

/-- A numeral is a word. -/
theorem numeral_word (n : ℤ) :
  ∀ c ∈ (toString n).toList, decide (c = ' ') = false
  := by
  intro c hc
  apply decide_eq_false
  rintro rfl
  exact absurd (Json.isNumeral_of_mem hc) (by decide)

/-- The words of a text with one number. -/
theorem words_number (n : ℤ) {w : List Char} (hne : w ≠ []) (hw : ∀ c ∈ w, decide (c = ' ') = false)
    (k : ℕ) :
  Split.splitRuns (fun c => c = ' ') (k + 1) ((toString n).toList ++ ' ' :: w)
    = [(toString n).toList, w]
  := by
  have hword := Split.splitRuns_word_word k (numeral_word n) (c := ' ') rfl hne hw []
  rw [List.append_nil] at hword
  rw [hword, Split.splitRuns_of_word k hw]

/-- The words of a text with two numbers. -/
theorem words_numbers (n n' : ℤ) {w w' : List Char} (hne : w ≠ []) (hne' : w' ≠ [])
    (hw : ∀ c ∈ w, decide (c = ' ') = false) (hw' : ∀ c ∈ w', decide (c = ' ') = false) :
  Split.splitRuns (fun c => c = ' ') 3
      ((toString n).toList ++ ' ' :: (w ++ ' ' :: ((toString n').toList ++ ' ' :: w')))
    = [(toString n).toList, w, (toString n').toList, w']
  := by
  rw [Split.splitRuns_word_word 2 (numeral_word n) rfl hne hw,
    Split.splitRuns_word_word 1 hw rfl (numeral_ne_nil n') (numeral_word n'),
    words_number n' hne' hw' 0]

/-- The text of a duration is read back as the duration. -/
theorem read_text (d : Duration) :
  read d.text = some d
  := by
  cases d with
  | seconds s =>
      have htext : (seconds s).text.toList = (toString s).toList ++ ' ' :: ['s'] := by
        rw [text, String.toList_append]
        rfl
      rw [read, words, htext, words_number s (by simp) (by simp)]
      simp only [readNumber_toString]
      rfl
  | minutes m s =>
      have htext : (minutes m s).text.toList
          = (toString m).toList ++ ' ' :: (['m'] ++ ' ' :: ((toString s).toList ++ ' ' :: ['s'])) := by
        simp only [text, String.toList_append, List.append_assoc]
        rfl
      rw [read, words, htext, words_numbers m s (by simp) (by simp) (by simp) (by simp)]
      simp only [readNumber_toString]
      rfl
  | hours h m =>
      have htext : (hours h m).text.toList
          = (toString h).toList ++ ' ' :: (['h', 'r'] ++ ' ' :: ((toString m).toList ++ ' ' :: ['m'])) := by
        simp only [text, String.toList_append, List.append_assoc]
        rfl
      rw [read, words, htext, words_numbers h m (by simp) (by simp) (by simp) (by simp)]
      simp only [readNumber_toString]
      rfl

/-! ### Truncated times -/

/-- The duration is the time without what is shorter than its unit, in the components of a clock. -/
structure Truncates (t : ℤ) (d : Duration) : Prop where
  le : d.millis ≤ t
  lt : t < d.millis + d.unit
  inRange : d.InRange

/-- The duration that is shown for a time. -/
def shown (t : ℤ) : Duration :=
  if t < 60000 then seconds (t / 1000)
  else if t < 3600000 then minutes (t / 60000) (t / 1000 % 60)
  else hours (t / 3600000) (t / 60000 % 60)

theorem truncates_shown {t : ℤ} (ht : 0 ≤ t) :
  Truncates t (shown t)
  := by
  rw [shown]
  split
  · constructor
    · simp only [millis]
      omega
    · simp only [millis, unit]
      omega
    · simp only [InRange]
      omega
  · split
    · constructor
      · simp only [millis]
        omega
      · simp only [millis, unit]
        omega
      · simp only [InRange]
        omega
    · constructor
      · simp only [millis]
        omega
      · simp only [millis, unit]
        omega
      · simp only [InRange]
        omega

/-- The milliseconds that are shown. -/
theorem millis_shown (t : ℤ) :
  (shown t).millis = if t < 3600000 then t / 1000 * 1000 else t / 60000 * 60000
  := by
  rw [shown]
  split
  · rw [if_pos (by omega), millis]
  · split
    · rw [millis]
      omega
    · rw [millis]
      omega

/-- A longer time is not shown as a shorter one. -/
theorem millis_shown_mono {t t' : ℤ} (h : t ≤ t') :
  (shown t).millis ≤ (shown t').millis
  := by
  rw [millis_shown, millis_shown]
  split
  · split
    · omega
    · omega
  · rw [if_neg (by omega)]
    omega

end Duration

namespace LauncherFragment

/-- The intermediate results for the text of a time are those of the integers. -/
structure Exact (t : Int64) : Prop where
  minute : (1000 * 60 : Int32).toInt = 1000 * 60
  hour : (1000 * 60 * 60 : Int32).toInt = 1000 * 60 * 60
  seconds : (TimeUnit.millisecondsToSeconds t).toInt = t.toInt / 1000
  minutes : (TimeUnit.millisecondsToMinutes t).toInt = t.toInt / 60000
  hours : (TimeUnit.millisecondsToHours t).toInt = t.toInt / 3600000
  minutesToSeconds : (TimeUnit.minutesToSeconds (TimeUnit.millisecondsToMinutes t)).toInt
    = t.toInt / 60000 * 60
  hoursToMinutes : (TimeUnit.hoursToMinutes (TimeUnit.millisecondsToHours t)).toInt
    = t.toInt / 3600000 * 60
  restSeconds : (TimeUnit.millisecondsToSeconds t -
      TimeUnit.minutesToSeconds (TimeUnit.millisecondsToMinutes t)).toInt
    = t.toInt / 1000 - t.toInt / 60000 * 60
  restMinutes : (TimeUnit.millisecondsToMinutes t -
      TimeUnit.hoursToMinutes (TimeUnit.millisecondsToHours t)).toInt
    = t.toInt / 60000 - t.toInt / 3600000 * 60

theorem exact_of_nonneg {t : Int64} (ht : 0 ≤ t.toInt) :
  Exact t
  := by
  have hseconds := TimeUnit.toInt_rest (a := 1000) (b := 60) (c := 60000) (by decide) (by decide)
    (by decide) ht
  have hminutes := TimeUnit.toInt_rest (a := 60000) (b := 60) (c := 3600000) (by decide)
    (by decide) (by decide) ht
  have hrest : t.toInt / 1000 % 60 = t.toInt / 1000 - t.toInt / 60000 * 60 := by omega
  have hrest' : t.toInt / 60000 % 60 = t.toInt / 60000 - t.toInt / 3600000 * 60 := by omega
  constructor
  · rfl
  · rfl
  · apply TimeUnit.toInt_toCoarser 1000 ht
  · apply TimeUnit.toInt_toCoarser 60000 ht
  · apply TimeUnit.toInt_toCoarser 3600000 ht
  · apply hseconds.1
  · apply hminutes.1
  · apply Eq.trans hseconds.2 hrest
  · apply Eq.trans hminutes.2 hrest'

/-- The text of a time is the text of the duration that is shown for it. -/
theorem timeText_eq {t : Int64} (ht : 0 ≤ t.toInt) :
  timeText t = (Duration.shown t.toInt).text
  := by
  have h := exact_of_nonneg ht
  have hminute : t < (1000 * 60 : Int32).toInt64 ↔ t.toInt < 60000 := Int64.lt_iff_toInt_lt
  have hhour : t < (1000 * 60 * 60 : Int32).toInt64 ↔ t.toInt < 3600000 := Int64.lt_iff_toInt_lt
  have hstring : ∀ x : Int64, toString x = toString x.toInt := fun _ => rfl
  have hrest : t.toInt / 1000 - t.toInt / 60000 * 60 = t.toInt / 1000 % 60 := by omega
  have hrest' : t.toInt / 60000 - t.toInt / 3600000 * 60 = t.toInt / 60000 % 60 := by omega
  rw [timeText, Duration.shown]
  simp only [hminute, hhour, hstring, h.seconds, h.minutes, h.hours, h.restSeconds, h.restMinutes,
    hrest, hrest']
  split
  · rfl
  · split
    · rfl
    · rfl

/-! ### The texts of the grid -/

/-- The grid shows the text for an application with the time `t`. -/
def ShowsTime (populateGrid : Java LauncherFragment Unit) (t : Int64) (text : String) : Prop :=
  ∃ s s', populateGrid s = .ok () s' ∧ ∃ r ∈ s.refs, (s.heap.get r).timeUsedMs = t ∧
    ∃ entry, (s'.heap.get r).mEntry = some entry ∧ entry.mTime = text

/-- A page with one application, which has an info. -/
def oneTime (t : Int64) : LauncherFragment :=
  { heap := Heap.empty.alloc
      { App.new "com.example" with timeUsedMs := t, mInfo := some ⟨"com.example", "Example"⟩ },
    mAppList := some ⟨some [some 0]⟩, mSaveFile := some applistFile }

theorem showsTime_iff (t : Int64) (text : String) :
  ShowsTime populateGrid t text ↔ text = timeText t
  := by
  constructor
  · rintro ⟨s, s', hgrid, r, hr, rfl, entry, hentry, rfl⟩
    obtain ⟨-, -, rfl⟩ := populateGrid_returns hgrid
    simp only [get_populated, if_pos hr, withEntry] at hentry
    obtain ⟨info, -, rfl⟩ := Option.map_eq_some_iff.mp hentry
    rfl
  · rintro rfl
    have hinfo : ∀ r ∈ [0], ((oneTime t).heap.get r).mInfo ≠ none := by
      intro r hr
      obtain rfl := List.mem_singleton.mp hr
      apply Option.some_ne_none
    refine ⟨oneTime t, _, populateGrid_of_infos rfl hinfo, 0, ?_, rfl, ?_⟩
    · apply List.mem_singleton_self
    · use entryOf ((oneTime t).heap.get 0) ⟨"com.example", "Example"⟩
      simp only [get_populated, if_pos (List.mem_singleton_self 0), withEntry]
      exact ⟨rfl, rfl⟩

/-- What is shown for a time is the truncated time. -/
theorem shows_truncated {t : Int64} (ht : 0 ≤ t) :
  ∃ text d, (∀ text', ShowsTime LauncherFragment.populateGrid t text' ↔ text' = text) ∧
    (∀ text', ShowsTime TopFragment.populateGrid t text' ↔ text' = text) ∧
    Duration.read text = some d ∧ Duration.Truncates t.toInt d ∧ Exact t ∧
    ∀ t' text', t ≤ t' → ShowsTime LauncherFragment.populateGrid t' text' →
      ∃ d', Duration.read text' = some d' ∧ d.millis ≤ d'.millis
  := by
  have hnonneg : 0 ≤ t.toInt := Int64.le_iff_toInt_le.mp ht
  use timeText t, Duration.shown t.toInt
  refine ⟨showsTime_iff t, showsTime_iff t, ?_, Duration.truncates_shown hnonneg,
    exact_of_nonneg hnonneg, ?_⟩
  · rw [timeText_eq hnonneg, Duration.read_text]
  · intro t' text' hle htext
    have hle : t.toInt ≤ t'.toInt := Int64.le_iff_toInt_le.mp hle
    obtain rfl := (showsTime_iff t' text').mp htext
    use Duration.shown t'.toInt
    rw [timeText_eq (le_trans hnonneg hle), Duration.read_text]
    exact ⟨rfl, Duration.millis_shown_mono hle⟩

/-- The longest time. -/
theorem shows_truncated_max :
  ∃ text d, (∀ text', ShowsTime LauncherFragment.populateGrid Int64.maxValue text' ↔ text' = text) ∧
    Duration.read text = some d ∧ Duration.Truncates Int64.maxValue.toInt d
  := by
  obtain ⟨text, d, hlauncher, -, hread, htruncates, -⟩ := shows_truncated (t := Int64.maxValue)
    (by decide)
  exact ⟨text, d, hlauncher, hread, htruncates⟩

end LauncherFragment
