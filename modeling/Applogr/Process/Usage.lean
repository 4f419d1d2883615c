import Applogr.Process.Recorder

/-!
# What is recorded over many runs

The process may be killed and started again any number of times.  What the save file says about the
times grows by no more than the time that has passed on the clock, what it has once said is not
lost, and a page shows what the ledger of the recorder says.
-/

/-- The time of a package according to the save file. -/
def Device.timeIn (d : Device) (file : Option Text) (pkg : String) : ℤ :=
  ((Ledger.ofRecords (d.fileEntries file).reduceOption 0).time pkg).toInt

/-- The launches of a package according to the save file. -/
def Device.launchesIn (d : Device) (file : Option Text) (pkg : String) : Int32 :=
  (Ledger.ofRecords (d.fileEntries file).reduceOption 0).count pkg

/-- The packages in the save file. -/
def Device.packagesIn (d : Device) (file : Option Text) : Finset String :=
  (Ledger.ofRecords (d.fileEntries file).reduceOption 0).known

/-! ### Words as times -/

theorem subadditive_toInt :
  Ledger.Subadditive Int64.toInt
  := by
  intro t a b ha hab
  have hb := b.toInt_lt
  have hsub : b - a = Int64.ofInt (b.toInt - a.toInt) := by
    rw [← Int64.toInt_sub_of_nonneg (le_of_lt ha) (le_trans (le_of_lt ha) hab), Int64.ofInt_toInt]
  have hadd := Int64.toInt_add_ofInt_le t (c := b.toInt - a.toInt) (by omega) (by omega)
  rw [hsub]
  omega

theorem exactBelow_toInt :
  Ledger.ExactBelow Int64.toInt (2 ^ 63)
  := by
  intro t a b ha hab hfits
  have hb := b.toInt_lt
  have hsub : b - a = Int64.ofInt (b.toInt - a.toInt) := by
    rw [← Int64.toInt_sub_of_nonneg (le_of_lt ha) (le_trans (le_of_lt ha) hab), Int64.ofInt_toInt]
  rw [hsub, Int64.toInt_add_ofInt t (by omega) (by omega), if_pos hfits]

theorem Device.SteadyClock.steady {d : Device} (hc : d.SteadyClock) :
  Ledger.Steady Int64.toInt d.clock
  := by
  constructor
  · intro n
    apply Int64.lt_iff_toInt_lt.mp (hc.positive n)
  · intro m n hmn
    apply Int64.le_iff_toInt_le.mp (hc.nondecreasing m n hmn)

namespace Process

variable {d : Device} {p : Process} {U : Set String}

/-! ### The save file and the ledger -/

/-- The save file has the times, the launches and the packages of the ledger. -/
theorem Sound.saveFile (hp : p.Sound d U) :
  (∀ pkg, d.timeIn p.saveFile pkg = ((p.recorder d).ledger.time pkg).toInt) ∧
    (∀ pkg, d.launchesIn p.saveFile pkg = (p.recorder d).ledger.count pkg) ∧
    d.packagesIn p.saveFile = (p.recorder d).ledger.known ∧
    p.readings = (p.recorder d).ledger.readings
  := by
  have h := congrArg Recorder.ledger hp.killed.2
  refine ⟨?_, ?_, ?_, ?_⟩
  · intro pkg
    have htime := congrFun (congrArg Ledger.time h) pkg
    exact congrArg Int64.toInt htime
  · intro pkg
    have hcount := congrFun (congrArg Ledger.count h) pkg
    exact hcount
  · have hknown := congrArg Ledger.known h
    exact hknown
  · have hreadings := congrArg Ledger.readings h
    exact hreadings

/-- The ledger of a process that has ended has no current package. -/
theorem since_ended (d : Device) (file : Option Text) (n m : ℕ) :
  ((ended file n m).recorder d).ledger.since = none
  := rfl

/-- The time from the reading number `n` to the last reading before the number `n'`. -/
def elapsed (d : Device) (n n' : ℕ) : ℤ :=
  if n < n' then (d.clock (n' - 1)).toInt - (d.clock n).toInt else 0

/-- However often the process is killed and started again, the times of any packages in the save file
together grow by no more than the time from the first to the last reading of the clock. -/
theorem counts_no_time_twice (hg : d.gson.Documented) (hw : d.Writes) (hc : d.SteadyClock)
    {file : Option Text} {n m : ℕ} (hp : (ended file n m).Sound d U) {ms : List Moment}
    (hms : ∀ m ∈ ms, Moment.Usual d U m) (K : Finset String) :
  ∑ pkg ∈ K, (d.timeIn (run d ms (ended file n m)).saveFile pkg - d.timeIn file pkg)
    ≤ elapsed d n (run d ms (ended file n m)).readings
  := by
  obtain ⟨hsound, hrec⟩ := Sound.run hg hw (clock_ne_zero hc) hp hms
  have hes := Recorder.ledger_run d ((ended file n m).outcomes d ms) ((ended file n m).recorder d)
  rw [← hrec] at hes
  obtain ⟨htime, -, -, hreadings⟩ := hsound.saveFile
  have hgrowth :=
    Ledger.growth_addAll_le hc.steady subadditive_toInt (since_ended d file n m) K
      (Recorder.entries d ((ended file n m).outcomes d ms) ((ended file n m).recorder d))
  rw [← hes] at hgrowth
  rw [hreadings]
  calc ∑ pkg ∈ K, (d.timeIn (run d ms (ended file n m)).saveFile pkg - d.timeIn file pkg)
      = Ledger.growth Int64.toInt K ((ended file n m).recorder d).ledger
          ((run d ms (ended file n m)).recorder d).ledger := by
        apply Finset.sum_congr rfl
        intro pkg _
        rw [htime]
        rfl
    _ ≤ elapsed d n ((run d ms (ended file n m)).recorder d).ledger.readings := hgrowth

theorem counts_no_time_twice_usedTwice :
  ∑ pkg ∈ {"com.example"},
      (onePhone.timeIn (run onePhone usedTwice (ended none 0 0)).saveFile pkg
        - onePhone.timeIn none pkg)
    ≤ elapsed onePhone 0 (run onePhone usedTwice (ended none 0 0)).readings
  := counts_no_time_twice Json.gson_documented (fun _ => rfl)
    (LogService.steadyClock_tick ["com.example"]) sound_onePhone usual_usedTwice {"com.example"}

/-- However often the process is killed and started again, what the save file has once said is not
lost: the packages are kept, and no time becomes less, unless the times reach the bound of 64 bits. -/
theorem loses_nothing (hg : d.gson.Documented) (hw : d.Writes) (hc : d.SteadyClock)
    {file : Option Text} {n m : ℕ} (hp : (ended file n m).Sound d U)
    (hfits : ∀ pkg n', n ≤ n' →
      d.timeIn file pkg + ((d.clock n').toInt - (d.clock n).toInt) < 2 ^ 63)
    {ms ms' : List Moment} (hms : ∀ m ∈ ms ++ ms', Moment.Usual d U m) :
  d.packagesIn (run d ms (ended file n m)).saveFile
      ⊆ d.packagesIn (run d (ms ++ ms') (ended file n m)).saveFile ∧
    ∀ pkg, d.timeIn (run d ms (ended file n m)).saveFile pkg
      ≤ d.timeIn (run d (ms ++ ms') (ended file n m)).saveFile pkg
  := by
  have hbefore : ∀ m ∈ ms, Moment.Usual d U m := fun m hm => hms m (List.mem_append_left _ hm)
  obtain ⟨hsound, hrec⟩ := Sound.run hg hw (clock_ne_zero hc) hp hbefore
  obtain ⟨hsound', hrec'⟩ := Sound.run hg hw (clock_ne_zero hc) hp hms
  obtain ⟨htime₁, -, hknown₁, -⟩ := hsound.saveFile
  obtain ⟨htime₂, -, hknown₂, -⟩ := hsound'.saveFile
  let R := (ended file n m).recorder d
  let as := (ended file n m).outcomes d ms
  let as' := (run d ms (ended file n m)).outcomes d ms'
  have hes := Recorder.ledger_run d as R
  have hes' := Recorder.ledger_run d as' (R.run d as)
  rw [← Recorder.run_append, ← outcomes_append, ← hrec', hes] at hes'
  rw [← hrec] at hes
  have hledger : Ledger.FitsBelow Int64.toInt d.clock (2 ^ 63) R.ledger := hfits
  have hgrows := Ledger.grows_addAll hc.steady subadditive_toInt exactBelow_toInt hledger
    (since_ended d file n m) (Recorder.entries d as R) (Recorder.entries d as' (R.run d as))
  rw [Ledger.addAll_append, ← hes', ← hes] at hgrows
  constructor
  · rw [hknown₁, hknown₂]
    apply hgrows.known
  · intro pkg
    rw [htime₁, htime₂]
    apply hgrows.time

theorem loses_nothing_usedTwice :
  onePhone.packagesIn (run onePhone usedTwice (ended none 0 0)).saveFile
    ⊆ onePhone.packagesIn (run onePhone (usedTwice ++ usedTwice) (ended none 0 0)).saveFile
  := by
  have hfits : ∀ pkg n', 0 ≤ n' →
      onePhone.timeIn none pkg + ((onePhone.clock n').toInt - (onePhone.clock 0).toInt) < 2 ^ 63 := by
    intro pkg n' _
    have htime : onePhone.timeIn none pkg = 0 := rfl
    have hlast := LogService.toInt_tick n'
    have hfirst := LogService.toInt_tick 0
    change _ + ((tick n').toInt - (tick 0).toInt) < 2 ^ 63
    omega
  have hms : ∀ m ∈ usedTwice ++ usedTwice, Moment.Usual onePhone {"com.example"} m := by
    intro m hm
    rcases List.mem_append.mp hm with hm | hm
    · apply usual_usedTwice m hm
    · apply usual_usedTwice m hm
  apply (loses_nothing Json.gson_documented (fun _ => rfl)
    (LogService.steadyClock_tick ["com.example"]) sound_onePhone hfits hms).1

/-! ### The launches -/

theorem iterate_add_one (n : ℕ) (x : Int32) :
  (· + 1)^[n] x = x + Int32.ofNat n
  := by
  induction n with
  | zero => exact (Int32.add_zero x).symm
  | succ n ih =>
      rw [Function.iterate_succ_apply', ih, Int32.ofNat_add, Int32.add_assoc]
      rfl

/-- However often the process is killed and started again, no launch is lost, and the launches that
are counted although the package has been current before are no more than the lines that are
incomplete and the times that the process has been killed or has been ended by a page. -/
theorem restarts_add_launches (hg : d.gson.Documented) (hw : d.Writes)
    (hclock : ∀ n, d.clock n ≠ 0) (hp : p.Sound d U) {ms : List Moment}
    (hms : ∀ m ∈ ms, Moment.Usual d U m) :
  ∃ extra : List String,
    extra.length ≤ (p.outcomes d ms).countP (Recorder.stops d) ∧
    (∀ pkg, d.launchesIn (run d ms p).saveFile pkg
      = (Recorder.uninterrupted d (p.outcomes d ms) (p.recorder d)).count pkg
        + Int32.ofNat (extra.count pkg)) ∧
    d.packagesIn (run d ms p).saveFile
      = (Recorder.uninterrupted d (p.outcomes d ms) (p.recorder d)).known
  := by
  obtain ⟨hsound, hrec⟩ := Sound.run hg hw hclock hp hms
  obtain ⟨-, hcount, hknown, -⟩ := hsound.saveFile
  let as := p.outcomes d ms
  obtain ⟨extra, h⟩ :=
    Ledger.exists_recounts d.clock (Recorder.entries d as (p.recorder d)) (p.recorder d).ledger
  have hlength : extra.length ≤ Ledger.restarts (Recorder.entries d as (p.recorder d)) :=
    le_trans (Nat.le_add_right _ _) h.length_le
  rw [← Recorder.ledger_run, ← hrec] at h
  refine ⟨extra, ?_, ?_, ?_⟩
  · apply le_trans hlength (Recorder.restarts_entries_le d as _)
  · intro pkg
    rw [hcount, h.count, iterate_add_one, Recorder.uninterrupted]
  · rw [hknown, h.known, Recorder.uninterrupted]

theorem restarts_add_launches_usedTwice :
  ∃ extra : List String,
    extra.length ≤ ((ended none 0 0).outcomes onePhone usedTwice).countP (Recorder.stops onePhone) ∧
    ∀ pkg, onePhone.launchesIn (run onePhone usedTwice (ended none 0 0)).saveFile pkg
      = (Recorder.uninterrupted onePhone ((ended none 0 0).outcomes onePhone usedTwice)
          ((ended none 0 0).recorder onePhone)).count pkg + Int32.ofNat (extra.count pkg)
  := by
  obtain ⟨extra, hlength, hcount, -⟩ :=
    restarts_add_launches (d := onePhone) Json.gson_documented (fun _ => rfl) clock_onePhone
      sound_onePhone usual_usedTwice
  exact ⟨extra, hlength, hcount⟩

/-! ### What a page shows -/

/-- The launches of the packages of a ledger do not differ too much. -/
def CountsFit (L : Ledger String Int64 Int32) : Prop :=
  ∀ p ∈ L.known, ∀ q ∈ L.known, (L.count p).toInt - (L.count q).toInt < 2 ^ 31

/-- What a page shows of a ledger: each package once, with the label of the package and the texts of
its launches and its time, and sorted by the launches if they do not differ too much. -/
def ShowsLedger (info : String → Option ApplicationInfo) (L : Ledger String Int64 Int32)
    (page : LauncherFragment) : Prop :=
  ∃ packages : List String, packages.Nodup ∧ (∀ pkg, pkg ∈ packages ↔ pkg ∈ L.known) ∧
    LauncherFragment.getCount page = .ok packages.length page ∧
    (∀ (position : ℕ) (h : position < packages.length), ∃ i, info packages[position] = some i ∧
      LauncherFragment.getView position page
        = .ok ⟨i.label, LauncherFragment.countText (L.count packages[position]),
            LauncherFragment.timeText (L.time packages[position])⟩ page) ∧
    (CountsFit L → packages.Pairwise (fun p q => L.count q ≤ L.count p))

/-- The account of a record of the ledger. -/
theorem ofRecords_of_mem {rs : List Record} (hrs : Orderly rs) (n : ℕ) {r : Record} (hr : r ∈ rs)
    {pkg : String} (hpkg : r.packageName = some pkg) :
  (Ledger.ofRecords rs n).time pkg = r.timeUsedMs ∧
    (Ledger.ofRecords rs n).count pkg = r.launchCount
  := by
  have hrecord := (Ledger.recordOf_eq_some_iff hrs).mpr ⟨hr, hpkg⟩
  simp only [Ledger.ofRecords, hrecord, Option.map_some, Option.getD_some, and_self]

/-- A page that shows the records of a ledger shows the ledger. -/
theorem showsLedger_of_showsRecords {info : String → Option ApplicationInfo} {rs rs' : List Record}
    (hrs : Orderly rs) (hperm : rs'.Perm rs) {page : LauncherFragment}
    (hshows : page.ShowsRecords info rs')
    (hsorted : LaunchesFit rs → rs'.Pairwise (fun a b => b.launchCount ≤ a.launchCount)) (n : ℕ) :
  ShowsLedger info (Ledger.ofRecords rs n) page
  := by
  have hrs' : Orderly rs' := hrs.perm hperm
  let name : Record → String := fun r => r.packageName.getD ""
  have hname : ∀ r ∈ rs', r.packageName = some (name r) := by
    intro r hr
    obtain ⟨pkg, hpkg⟩ := Option.ne_none_iff_exists'.mp (hrs'.named r hr)
    change r.packageName = some (r.packageName.getD "")
    rw [hpkg, Option.getD_some]
  have haccount : ∀ r ∈ rs', (Ledger.ofRecords rs n).time (name r) = r.timeUsedMs ∧
      (Ledger.ofRecords rs n).count (name r) = r.launchCount :=
    fun r hr => ofRecords_of_mem hrs n (hperm.subset hr) (hname r hr)
  have hmap : (rs'.map name).map some = rs'.map Record.packageName := by
    rw [List.map_map]
    apply List.map_congr_left
    intro r hr
    exact (hname r hr).symm
  refine ⟨rs'.map name, ?_, ?_, ?_, ?_, ?_⟩
  · apply List.Nodup.of_map some
    rw [hmap]
    apply hrs'.distinct
  · intro pkg
    rw [← List.mem_map_of_injective (Option.some_injective String), hmap,
      Ledger.mem_known_ofRecords, List.mem_map]
    simp only [hperm.mem_iff]
  · rw [List.length_map]
    apply hshows.count
  · intro position h
    rw [List.length_map] at h
    have hmem : rs'[position] ∈ rs' := List.getElem_mem h
    obtain ⟨pkg, i, hpkg, hi, hview⟩ := hshows.views position h
    obtain ⟨htime, hcount⟩ := haccount _ hmem
    use i
    rw [List.getElem_map, htime, hcount]
    constructor
    · rw [← hi]
      apply congrArg
      apply Option.some_injective
      rw [← hname _ hmem, hpkg]
    · apply hview
  · intro hfit
    apply List.pairwise_map.mpr
    apply (hsorted _).imp_of_mem
    · intro a b ha hb hab
      rw [(haccount a ha).2, (haccount b hb).2]
      apply hab
    · intro a ha b hb
      have ha' := hperm.symm.subset ha
      have hb' := hperm.symm.subset hb
      have hfit := hfit (name a) (Ledger.mem_known_ofRecords.mpr ⟨a, ha, hname a ha'⟩) (name b)
        (Ledger.mem_known_ofRecords.mpr ⟨b, hb, hname b hb'⟩)
      rw [(haccount a ha').2, (haccount b hb').2] at hfit
      apply hfit

/-- Whenever a page is resumed, it shows the ledger of the recorder, or it throws because the sort does
not accept the launch counts in the file.  It does not throw if there are only few packages. -/
theorem pages_show_ledger (hg : d.gson.Documented) (hw : d.Writes) (hclock : ∀ n, d.clock n ≠ 0)
    (hp : p.Sound d U) {ms : List Moment} (hms : ∀ m ∈ ms, Moment.Usual d U m)
    {info : String → Option ApplicationInfo} (hinfo : ∀ pkg ∈ U, info pkg ≠ none)
    {page : LauncherFragment} (hpage : page.mSaveFile = some applistFile) :
  (d.SortsFile (run d ms p).saveFile →
    ∃ page', LauncherFragment.onResume (d.withPackages info) (run d ms p).saveFile page
        = .ok () page' ∧
      ShowsLedger info (Recorder.run d (p.outcomes d ms) (p.recorder d)).ledger page') ∧
    (¬ d.SortsFile (run d ms p).saveFile →
      ∃ page', LauncherFragment.onResume (d.withPackages info) (run d ms p).saveFile page
        = .error .illegalArgument page') ∧
    (U.encard < minMerge → d.SortsFile (run d ms p).saveFile)
  := by
  obtain ⟨hsound, hrec⟩ := Sound.run hg hw hclock hp hms
  have hsound' : (run d ms p).Sound (d.withPackages info) U := (sound_withPackages info).mpr hsound
  refine ⟨?_, ?_, hsound.sortsFile_of_few⟩
  · intro hsort
    obtain ⟨rs, page', rs', hfile, hrs, hresume, hperm, hshows, hsorted⟩ :=
      Sound.onResume (d := d.withPackages info) hinfo hsound' hsort hpage
    use page', hresume
    have hshown := showsLedger_of_showsRecords hrs hperm hshows hsorted (run d ms p).readings
    have hledger : Ledger.ofRecords (d.fileEntries (run d ms p).saveFile).reduceOption
        (run d ms p).readings = ((run d ms p).recorder d).ledger.restart :=
      congrArg Recorder.ledger hsound.killed.2
    rw [fileEntries_of_holds (d := d) hfile, hrec] at hledger
    rw [hledger] at hshown
    apply hshown
  · intro hsort
    exact Sound.onResume_refused (d := d.withPackages info) hinfo hsound' hsort hpage

theorem pages_show_ledger_usedTwice :
  ∃ page', LauncherFragment.onResume onePhone (run onePhone usedTwice (ended none 0 0)).saveFile
      LauncherFragment.new = .ok () page' ∧
    ShowsLedger onePhone.applicationInfo
      (Recorder.run onePhone ((ended none 0 0).outcomes onePhone usedTwice)
        ((ended none 0 0).recorder onePhone)).ledger page'
  := by
  have hinfo : ∀ pkg ∈ ({"com.example"} : Set String), onePhone.applicationInfo pkg ≠ none := by
    rintro pkg rfl
    apply Option.some_ne_none
  have hpage : LauncherFragment.new.mSaveFile = some applistFile := rfl
  obtain ⟨hshows, -, hfew⟩ := pages_show_ledger (d := onePhone) Json.gson_documented
    (fun _ => rfl) clock_onePhone sound_onePhone usual_usedTwice hinfo hpage
  apply hshows (hfew few_onePhone)

end Process
