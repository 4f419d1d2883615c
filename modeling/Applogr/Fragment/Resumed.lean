import Applogr.Core.Sorting
import Applogr.Fragment.Pages
import Applogr.Service.Startup

/-!
# A page that shows records

A page that reads the text of some records, whose packages are installed, shows one entry for each
record, with the label of its package and the texts of its launches and its time, unless the sort
throws.  The entries are sorted by their launches, if the differences of the launches fit into 32 bits.
-/

/-- The entry that is shown for a record, when its package has an info. -/
def Record.entry (a : Record) (info : ApplicationInfo) : AppEntry :=
  { mTitle := info.label, mCount := LauncherFragment.countText a.launchCount,
    mTime := LauncherFragment.timeText a.timeUsedMs }

namespace LauncherFragment

variable {d : Device} {s : LauncherFragment} {rs : List Record}

/-- The page shows the records: the grid has an entry for each of them. -/
structure ShowsRecords (info : String → Option ApplicationInfo) (rs : List Record)
    (s : LauncherFragment) : Prop where
  count : getCount s = .ok rs.length s
  views : ∀ (position : ℕ) (h : position < rs.length), ∃ pkg i,
    rs[position].packageName = some pkg ∧ info pkg = some i ∧
      getView position s = .ok (rs[position].entry i) s

theorem getView_of_list {refs : List Ref} (hl : s.mAppList = some ⟨some (refs.map some)⟩)
    {position : ℕ} (h : position < refs.length) {entry : AppEntry}
    (hentry : (s.heap.get refs[position]).mEntry = some entry) :
  getView position s = .ok entry s
  := by
  have hget : getItem position s = .ok (some refs[position]) s := by
    have hloop := getItemLoop_eq position 0 (refs.map some)
    rw [Nat.zero_add, List.getElem?_map, List.getElem?_eq_getElem h] at hloop
    rw [getItem, Java.bind_of_ok (getApps_of_list hl), Java.pure_apply, hloop]
    rfl
  rw [getView, Java.bind_of_ok hget, Java.deref_some, Java.bind_of_ok (Java.pure_apply _ _),
    Java.bind_of_ok (Java.get_apply _), hentry]
  rfl

/-- The page has a list of applications for the records, and they have been told the infos of their
packages. -/
structure Lists (info : String → Option ApplicationInfo) (rs : List Record)
    (s : LauncherFragment) : Prop where
  list : s.mAppList = some ⟨some (s.refs.map some)⟩
  records : s.records = rs
  infos : ∀ r ∈ s.refs, ∃ pkg i, (s.heap.get r).packageName = some pkg ∧ info pkg = some i ∧
    (s.heap.get r).mInfo = some i

theorem lists_of_refs {info : String → Option ApplicationInfo} {refs : List Ref}
    (hl : s.mAppList = some ⟨some (refs.map some)⟩)
    (hinfo : ∀ r ∈ refs, ∃ pkg i, (s.heap.get r).packageName = some pkg ∧ info pkg = some i ∧
      (s.heap.get r).mInfo = some i) :
  s.Lists info (refs.map (fun r => (s.heap.get r).record))
  := by
  have hrefs : s.refs = refs := refs_of_list hl
  constructor
  · rw [hrefs, hl]
  · rw [LauncherFragment.records, hrefs]
  · rw [hrefs]
    apply hinfo

/-- The grid of a page that has a list for some records shows the records, and the list stays. -/
theorem Lists.populateGrid {info : String → Option ApplicationInfo} (h : s.Lists info rs) :
  ∃ s', LauncherFragment.populateGrid s = .ok () s' ∧ s'.mSaveFile = s.mSaveFile ∧
    s'.Lists info rs ∧ s'.ShowsRecords info rs
  := by
  let s' : LauncherFragment := { s with heap := populated s.heap s.refs }
  have hl : s'.mAppList = some ⟨some (s.refs.map some)⟩ := h.list
  have hrefs : s'.refs = s.refs := refs_of_list hl
  have hget : ∀ r ∈ s.refs, s'.heap.get r = withEntry (s.heap.get r) := by
    intro r hr
    apply Eq.trans (get_populated s.heap s.refs r)
    rw [if_pos hr]
  have hrecords : s'.records = rs := by
    rw [← h.records, LauncherFragment.records, hrefs]
    apply List.map_congr_left
    intro r hr
    rw [hget r hr]
    rfl
  refine ⟨s', ?_, rfl, ⟨?_, hrecords, ?_⟩, ⟨?_, ?_⟩⟩
  · apply populateGrid_of_infos h.list
    intro r hr
    obtain ⟨pkg, i, -, -, hinfo⟩ := h.infos r hr
    apply ne_of_eq_of_ne hinfo (Option.some_ne_none i)
  · rw [hrefs, hl]
  · rw [hrefs]
    intro r hr
    rw [hget r hr]
    apply h.infos r hr
  · rw [← h.records, LauncherFragment.records, List.length_map]
    rw [getCount, Java.bind_of_ok (getApps_of_list hl), Java.pure_apply, List.length_map]
  · have hrs : rs = s.refs.map (fun r => (s.heap.get r).record) := h.records.symm
    subst hrs
    intro position hposition
    rw [List.length_map] at hposition
    obtain ⟨pkg, i, hpkg, hi, hinfo⟩ := h.infos s.refs[position] (List.getElem_mem hposition)
    use pkg, i
    rw [List.getElem_map]
    refine ⟨hpkg, hi, ?_⟩
    apply getView_of_list hl hposition
    rw [hget _ (List.getElem_mem hposition), withEntry, hinfo]
    rfl

/-- Reading a file does not change which file a page reads. -/
theorem keeps_mSaveFile_refresh (d : Device) (file : Option Text) (f : Option File) :
  Java.Keeps (fun s => s.mSaveFile = f) (refresh d file)
  := by
  have hnew : Java.Keeps (fun s => s.mSaveFile = f) newList := Java.Keeps.modify (fun _ h => h)
  have hread : Java.Keeps (fun s => s.mSaveFile = f) (readList d file) := by
    apply Java.Keeps.bind Java.Keeps.get
    intro s
    apply Java.Keeps.bind (Java.Keeps.deref _)
    intro _
    cases file with
    | none => apply Java.Keeps.throw
    | some t =>
        simp only
        rcases d.gson.fromJson t with (_ | _) | (_ | _)
        · apply Java.Keeps.throw
        · apply Java.Keeps.throw
        · apply Java.Keeps.modify (fun _ h => h)
        · apply Java.Keeps.modify (fun _ h => h)
  have hset : Java.Keeps (fun s => s.mSaveFile = f) (setListContext d) := by
    apply Java.Keeps.bind Java.Keeps.get
    intro s
    apply Java.Keeps.bind (Java.Keeps.deref _)
    intro l
    apply Java.Keeps.zoom
    intro t s h
    apply h
  have hload : Java.Keeps (fun s => s.mSaveFile = f) (loadList d file) :=
    Java.Keeps.bind hread (fun _ => hset)
  apply Java.Keeps.tryCatch
  · apply Java.Keeps.bind hnew (fun _ => hload)
  · apply Java.Keeps.bind hnew (fun _ => hset)

theorem keeps_mSaveFile_getApps (f : Option File) :
  Java.Keeps (fun s => s.mSaveFile = f) getApps
  := by
  apply Java.Keeps.bind Java.Keeps.get
  intro s
  apply Java.Keeps.bind (Java.Keeps.deref _)
  intro l
  apply Java.Keeps.deref

theorem keeps_mSaveFile_populateEntry (app : Option Ref) (f : Option File) :
  Java.Keeps (fun s => s.mSaveFile = f) (populateEntry app)
  := by
  have hupdate : ∀ r g, Java.Keeps (fun s => s.mSaveFile = f) (update r g) :=
    fun _ _ => Java.Keeps.modify (fun _ h => h)
  apply Java.Keeps.bind (Java.Keeps.deref app)
  intro r
  apply Java.Keeps.bind (hupdate r _)
  intro _
  apply Java.Keeps.bind Java.Keeps.get
  intro s
  apply Java.Keeps.bind (Java.Keeps.deref _)
  intro info
  apply Java.Keeps.bind (hupdate r _)
  intro _
  apply Java.Keeps.bind Java.Keeps.get
  intro s
  apply Java.Keeps.bind (hupdate r _)
  intro _
  apply Java.Keeps.bind Java.Keeps.get
  intro s
  apply hupdate

/-- A page that reads a file that has the text of records has a list for the records, if the sort accepts
them. -/
theorem refresh_lists_of_text (hs : s.mSaveFile = some applistFile) {t : Text}
    (hd : d.gson.fromJson t = .ok (some (Document.ofRecords rs))) (hn : Named rs)
    (hi : d.AllInstalled rs) (hsort : d.Sorts rs) :
  ∃ s' rs', refresh d (some t) s = .ok () s' ∧ rs'.Perm rs ∧ s'.Lists d.applicationInfo rs' ∧
    (LaunchesFit rs → rs'.Pairwise (fun a b => b.launchCount ≤ a.launchCount))
  := by
  let heap := (AppList.restore s.heap (rs.map some)).1
  let refs := (AppList.restore s.heap (rs.map some)).2.reduceOption
  let told := AppList.tellAll d.applicationInfo heap refs
  let sorted := AppList.sorted d.sorter told refs
  have hrecords : refs.map (fun r => (heap.get r).record) = rs := AppList.restore_records s.heap rs
  have hmem : ∀ r ∈ refs, (heap.get r).record ∈ rs := by
    intro r hr
    rw [← hrecords]
    apply List.mem_map_of_mem hr
  have hsorted : sorted.Perm refs := AppList.sorted_perm d.sorter told refs
  have hrec : ∀ r, (told.get r).record = (heap.get r).record :=
    AppList.tellAll_field d.applicationInfo App.record (fun _ _ => rfl) heap refs
  have hinstalled : ∀ r ∈ refs, AppList.installed d.applicationInfo (heap.get r) = true :=
    hi.restored s.heap
  have haccepts : AppList.accepts d.sorter (AppList.entries heap (refs.map some)) = true := by
    rw [AppList.entries_restore]
    apply hsort
  have hrefresh := refresh_of_document hs hd
  rw [AppList.ofDocument_ofRecords, AppList.setContext_installed hinstalled haccepts] at hrefresh
  let s' := withApps ⟨told, ⟨some (sorted.map some)⟩⟩ s
  have hinfo : ∀ r ∈ sorted, ∃ pkg i, (told.get r).packageName = some pkg ∧
      d.applicationInfo pkg = some i ∧ (told.get r).mInfo = some i := by
    intro r hr
    have hr := hsorted.mem_iff.mp hr
    apply AppList.info_tellAll (hn _ (hmem r hr)) (hinstalled r hr) (Or.inl hr)
  refine ⟨s', sorted.map (fun r => (told.get r).record), hrefresh, ?_,
    lists_of_refs (s := s') rfl hinfo, ?_⟩
  · simp only [hrec]
    rw [← hrecords]
    apply hsorted.map
  · intro hfit
    have hdiff : AppList.DifferencesFit told refs := by
      intro a ha b hb
      have hcount : ∀ r, (told.get r).launchCount = (heap.get r).record.launchCount := fun r =>
        congrArg Record.launchCount (hrec r)
      rw [hcount, hcount]
      apply hfit _ (hmem a ha) _ (hmem b hb)
    apply List.pairwise_map.mpr hdiff.byLaunches.nonincreasing

/-- The page gets the records from the file, or it reads no list and gets none. -/
def GetsRecords (d : Device) (file : Option Text) (rs : List Record) : Prop :=
  LogService.Holds d file rs ∨ (rs = [] ∧ ∃ t, file = some t ∧ d.gson.GivesNothing t)

/-- The sort looks at the records that the page gets. -/
theorem GetsRecords.sortsFile_iff {file : Option Text} (hfile : GetsRecords d file rs) :
  d.SortsFile file ↔ d.Sorts rs
  := by
  rcases hfile with hfile | ⟨rfl, t, rfl, hd⟩
  · apply hfile.sortsFile_iff
  · have hentries : d.fileEntries (some t) = [] := by
      rcases hd with hd | ⟨e, hd⟩
      · simp only [Device.fileEntries, hd]
      · simp only [Device.fileEntries, hd]
    rw [Device.SortsFile, hentries]
    exact iff_of_true (AppList.accepts_nil d.sorter) d.sorts_nil

/-- A page throws if the sort does not accept the records that it gets. -/
theorem refresh_refuses (hs : s.mSaveFile = some applistFile) {file : Option Text}
    (hfile : GetsRecords d file rs) (hi : d.AllInstalled rs) (hsort : ¬ d.Sorts rs) :
  ∃ s', refresh d file s = .error .illegalArgument s'
  := by
  rcases hfile with hfile | ⟨rfl, -⟩
  · cases file with
    | none =>
        obtain rfl : rs = [] := hfile
        exact absurd d.sorts_nil hsort
    | some t => apply refresh_refused hs hfile hi hsort
  · exact absurd d.sorts_nil hsort

/-- A page that reads a file has a list for the records that it gets, if the sort accepts them. -/
theorem refresh_lists (hs : s.mSaveFile = some applistFile) {file : Option Text}
    (hfile : GetsRecords d file rs) (hn : Named rs) (hi : d.AllInstalled rs) (hsort : d.Sorts rs) :
  ∃ s' rs', refresh d file s = .ok () s' ∧ s'.mSaveFile = some applistFile ∧ rs'.Perm rs ∧
    s'.Lists d.applicationInfo rs' ∧
    (LaunchesFit rs → rs'.Pairwise (fun a b => b.launchCount ≤ a.launchCount))
  := by
  have hkeeps := keeps_mSaveFile_refresh d file (some applistFile)
  have hempty : ∀ s', refresh d file s = .ok () s' → s'.mAppList = some AppList.new → rs = [] →
      ∃ s' rs', refresh d file s = .ok () s' ∧ s'.mSaveFile = some applistFile ∧ rs'.Perm rs ∧
        s'.Lists d.applicationInfo rs' ∧
        (LaunchesFit rs → rs'.Pairwise (fun a b => b.launchCount ≤ a.launchCount)) := by
    rintro s' hrefresh hl rfl
    have hlist : s'.mAppList = some ⟨some (([] : List Ref).map some)⟩ := hl
    exact ⟨s', [], hrefresh, hkeeps.ok hs hrefresh, List.Perm.refl _,
      lists_of_refs hlist (by rintro r ⟨⟩), fun _ => List.Pairwise.nil⟩
  rcases hfile with hfile | ⟨hrs, t, rfl, hd⟩
  · cases file with
    | some t =>
        obtain ⟨s', rs', hrefresh, h⟩ := refresh_lists_of_text hs hfile hn hi hsort
        exact ⟨s', rs', hrefresh, hkeeps.ok hs hrefresh, h⟩
    | none =>
        obtain ⟨s', hrefresh, hl⟩ := refresh_of_missing (d := d) hs
        apply hempty s' hrefresh hl hfile
  · obtain ⟨s', hrefresh, hl⟩ := refresh_of_nothing hs hd
    apply hempty s' hrefresh hl hrs

/-- A page that is resumed shows the records that it gets, if the sort accepts them. -/
theorem onResume_shows (hs : s.mSaveFile = some applistFile) {file : Option Text}
    (hfile : GetsRecords d file rs) (hn : Named rs) (hi : d.AllInstalled rs) (hsort : d.Sorts rs) :
  ∃ s' rs', onResume d file s = .ok () s' ∧ rs'.Perm rs ∧ ShowsRecords d.applicationInfo rs' s' ∧
    (LaunchesFit rs → rs'.Pairwise (fun a b => b.launchCount ≤ a.launchCount))
  := by
  obtain ⟨s₁, rs', hrefresh, -, hperm, hlists, hsorted⟩ := refresh_lists hs hfile hn hi hsort
  obtain ⟨s₂, hpopulate, -, -, hshows⟩ := hlists.populateGrid
  refine ⟨s₂, rs', ?_, hperm, hshows, hsorted⟩
  rw [onResume, Java.bind_of_ok hrefresh]
  apply hpopulate

/-- A page that is resumed throws if the sort does not accept the records that it gets. -/
theorem onResume_refuses (hs : s.mSaveFile = some applistFile) {file : Option Text}
    (hfile : GetsRecords d file rs) (hi : d.AllInstalled rs) (hsort : ¬ d.Sorts rs) :
  ∃ s', onResume d file s = .error .illegalArgument s'
  := by
  obtain ⟨s', hrefresh⟩ := refresh_refuses hs hfile hi hsort
  exact ⟨s', Java.bind_of_error hrefresh _⟩

end LauncherFragment
