import Applogr.Core.Usable
import Applogr.Core.Uninstalled
import Applogr.Fragment.Grid

/-!
# The files that the pages show

When a page is resumed it reads the save file and makes an entry for each application of the list.
`refresh` catches the exception of `setContext` at a null, and the page shows nothing.  It does not
catch the exception of the iterator after an application has been removed, nor that of the sort when
it does not accept the launch counts, and `populateGrid` throws at an application that has not been
told its info.
-/

/-- The package of the record is installed. -/
def Record.packageInstalled (info : String → Option ApplicationInfo) (a : Record) : Bool :=
  (a.packageName.bind info).isSome

namespace LauncherFragment

/-- The page has a list, each of its entries has an info and an entry of the grid, the adapter has
a view for each position, and the applications of the file that are installed are in the list. -/
structure ShowsFile (info : String → Option ApplicationInfo) (entries : List (Option Record))
    (s : LauncherFragment) : Prop where
  list : s.mAppList = some ⟨some (s.refs.map some)⟩
  infos : ∀ r ∈ s.refs, (s.heap.get r).mInfo ≠ none ∧ (s.heap.get r).mEntry ≠ none
  views : ∃ count, getCount s = .ok count s ∧
    ∀ position < count, ∃ entry, getView position s = .ok entry s
  kept : (entries.reduceOption.filter (Record.packageInstalled info)).Subperm s.records

/-- When the page is resumed, it shows the file. -/
def Displays (onResume : Java LauncherFragment Unit) (info : String → Option ApplicationInfo)
    (entries : List (Option Record)) (s : LauncherFragment) : Prop :=
  ∃ s', onResume s = .ok () s' ∧ ShowsFile info entries s'

/-- The loop of `setContext` passes over the entry: it is not null, and it has no package or its
package is installed. -/
def passes (info : String → Option ApplicationInfo) : Option Record → Bool
  | none => false
  | some a => a.packageName.isNone || a.packageInstalled info

/-- No package of the entries is installed. -/
def NoneInstalled (info : String → Option ApplicationInfo) (entries : List (Option Record)) : Prop :=
  ∀ a, some a ∈ entries → a.packageInstalled info = false

/-- What the entries of a file must be.  If the loop of `setContext` passes over all of them, they
have packages, and the sort accepts them.  If the first other entry is null, no package is installed.
If the first other entry has a package that is not installed, then exactly one entry follows, which is
null, some entry comes before, no package is installed, and the sort accepts what is left. -/
def Showable (sorter : Sorter) (info : String → Option ApplicationInfo)
    (entries : List (Option Record)) : Prop :=
  match entries.dropWhile (passes info) with
  | [] => (∀ a, some a ∈ entries → a.packageName ≠ none) ∧ AppList.accepts sorter entries = true
  | none :: _ => NoneInstalled info entries
  | [some _, none] => NoneInstalled info entries ∧ 2 < entries.length ∧
      AppList.accepts sorter (entries.takeWhile (passes info) ++ [none]) = true
  | some _ :: _ => False

variable {d : Device} {info : String → Option ApplicationInfo} {entries : List (Option Record)}
variable {s : LauncherFragment} {refs : List Ref}

/-! ### The list of a page -/

/-- The adapter has a view for each position when each application has an entry of the grid. -/
theorem views_of_list (hl : s.mAppList = some ⟨some (refs.map some)⟩)
    (hentry : ∀ r ∈ refs, (s.heap.get r).mEntry ≠ none) :
  ∃ count, getCount s = .ok count s ∧ ∀ position < count, ∃ entry, getView position s = .ok entry s
  := by
  have happs := getApps_of_list hl
  use refs.length
  constructor
  · rw [getCount, Java.bind_of_ok happs, Java.pure_apply, List.length_map]
  · intro position hposition
    have hget : getItem position s = .ok (some refs[position]) s := by
      have hloop := getItemLoop_eq position 0 (refs.map some)
      rw [Nat.zero_add, List.getElem?_map, List.getElem?_eq_getElem hposition] at hloop
      rw [getItem, Java.bind_of_ok happs, Java.pure_apply, hloop]
      rfl
    obtain ⟨entry, he⟩ := Option.ne_none_iff_exists'.mp
      (hentry refs[position] (List.getElem_mem hposition))
    use entry
    rw [getView, Java.bind_of_ok hget, Java.deref_some, Java.bind_of_ok (Java.pure_apply _ _),
      Java.bind_of_ok (Java.get_apply _), he]
    rfl

/-- A page whose applications have infos shows the file if the applications of the file that are
installed are in its list. -/
theorem showsFile_populated_iff (hl : s.mAppList = some ⟨some (refs.map some)⟩)
    (hinfo : ∀ r ∈ refs, (s.heap.get r).mInfo ≠ none) :
  ShowsFile info entries { s with heap := populated s.heap refs }
    ↔ (entries.reduceOption.filter (Record.packageInstalled info)).Subperm
        (refs.map (fun r => (s.heap.get r).record))
  := by
  let s' : LauncherFragment := { s with heap := populated s.heap refs }
  have hrefs : s'.refs = refs := refs_of_list hl
  have hget : ∀ r ∈ refs, s'.heap.get r = withEntry (s.heap.get r) := by
    intro r hr
    apply Eq.trans (get_populated s.heap refs r)
    rw [if_pos hr]
  have hrecords : s'.records = refs.map (fun r => (s.heap.get r).record) := by
    rw [records, hrefs]
    apply List.map_congr_left
    intro r hr
    rw [hget r hr]
    rfl
  have hentry : ∀ r ∈ refs, (s'.heap.get r).mEntry ≠ none := by
    intro r hr
    rw [hget r hr, withEntry, ne_eq, Option.map_eq_none_iff]
    apply hinfo r hr
  constructor
  · intro h
    rw [← hrecords]
    apply h.kept
  · intro hkept
    constructor
    · change s.mAppList = some ⟨some (s'.refs.map some)⟩
      rw [hrefs, hl]
    · change ∀ r ∈ s'.refs, (s'.heap.get r).mInfo ≠ none ∧ (s'.heap.get r).mEntry ≠ none
      rw [hrefs]
      intro r hr
      constructor
      · rw [hget r hr]
        apply hinfo r hr
      · apply hentry r hr
    · apply views_of_list (s := s') hl hentry
    · rw [hrecords]
      apply hkept

/-! ### Resuming a page -/

/-- The page that has been resumed with applications that have infos. -/
theorem displays_of_infos {file : Option Text} {s' : LauncherFragment}
    (hrefresh : refresh d file s = .ok () s') (hl : s'.mAppList = some ⟨some (refs.map some)⟩)
    (hinfo : ∀ r ∈ refs, (s'.heap.get r).mInfo ≠ none) :
  Displays (onResume d file) info entries s
    ↔ (entries.reduceOption.filter (Record.packageInstalled info)).Subperm
        (refs.map (fun r => (s'.heap.get r).record))
  := by
  have hrun : onResume d file s = .ok () { s' with heap := populated s'.heap refs } := by
    rw [onResume, Java.bind_of_ok hrefresh]
    apply populateGrid_of_infos hl hinfo
  rw [← showsFile_populated_iff hl hinfo]
  constructor
  · rintro ⟨t, ht, hshows⟩
    cases Eq.trans hrun.symm ht
    apply hshows
  · intro hshows
    exact ⟨_, hrun, hshows⟩

/-- A page without applications shows a file none of whose packages is installed. -/
theorem displays_of_empty {file : Option Text} {s' : LauncherFragment}
    (hrefresh : refresh d file s = .ok () s') (hl : s'.mAppList = some AppList.new) :
  Displays (onResume d file) info entries s ↔ NoneInstalled info entries
  := by
  have hlist : s'.mAppList = some ⟨some (([] : List Ref).map some)⟩ := hl
  rw [displays_of_infos hrefresh hlist (by rintro r ⟨⟩), List.map_nil, List.subperm_nil,
    List.filter_eq_nil_iff]
  simp only [List.reduceOption_mem_iff, Bool.not_eq_true]
  rfl

/-- A page that has been resumed with a null, or with an application without an info, throws. -/
theorem not_displays_of_throws {file : Option Text} {s' : LauncherFragment}
    (hrefresh : refresh d file s = .ok () s') {apps : List (Option Ref)}
    (hl : s'.mAppList = some ⟨some apps⟩)
    (h : ∃ app ∈ apps, ∀ r, app = some r → (s'.heap.get r).mInfo = none) :
  ¬ Displays (onResume d file) info entries s
  := by
  rintro ⟨t, ht, -⟩
  obtain ⟨t', hthrows⟩ := populateGrid_throws hl h
  rw [onResume, Java.bind_of_ok hrefresh, hthrows] at ht
  cases ht

theorem not_displays_of_error {file : Option Text} {s' : LauncherFragment} {e : JavaException}
    (hrefresh : refresh d file s = .error e s') :
  ¬ Displays (onResume d file) info entries s
  := by
  rintro ⟨t, ht, -⟩
  rw [onResume, Java.bind_of_error hrefresh] at ht
  cases ht

/-! ### The three ways of the loop -/

variable {heap : Heap App} {apps : List (Option Ref)}

/-- What `refresh` does when `setContext` runs on a list of new objects for the entries of the
file. -/
structure Reads (d : Device) (file : Option Text) (s : LauncherFragment) (heap : Heap App)
    (apps : List (Option Ref)) : Prop where
  nodup : apps.reduceOption.Nodup
  unknown : ∀ r, some r ∈ apps → (heap.get r).mInfo = none
  refresh : LauncherFragment.refresh d file s
    = match AppList.setContext d.sorter d.applicationInfo ⟨heap, ⟨some apps⟩⟩ with
      | .ok () t => .ok () (withApps t s)
      | .error e t =>
          if isCaught e then .ok () (withApps ⟨t.heap, AppList.new⟩ s) else .error e (withApps t s)

theorem passes_record (app : App) :
  passes info (some app.record) = AppList.installed info app
  := by
  have hname : app.record.packageName = app.packageName := rfl
  rw [passes, Record.packageInstalled, AppList.installed, hname]
  cases app.packageName <;> rfl

/-- The loop passes over the first entries. -/
theorem passes_entries (hrefs : ∀ r ∈ refs, AppList.installed info (heap.get r) = true) :
  ∀ entry ∈ AppList.entries heap (refs.map some), passes info entry = true
  := by
  intro entry hentry
  rw [AppList.entries, List.map_map] at hentry
  obtain ⟨r, hr, rfl⟩ := List.mem_map.mp hentry
  apply Eq.trans (passes_record (heap.get r)) (hrefs r hr)

theorem dropWhile_entries (hrefs : ∀ r ∈ refs, AppList.installed info (heap.get r) = true)
    (apps : List (Option Ref)) :
  (AppList.entries heap (refs.map some ++ apps)).dropWhile (passes info)
    = (AppList.entries heap apps).dropWhile (passes info)
  := by
  rw [AppList.entries, List.map_append, AppList.entries]
  apply List.dropWhile_append_of_pos (passes_entries hrefs)

/-- The first entries are those over which the loop passes before it stops. -/
theorem takeWhile_entries (hrefs : ∀ r ∈ refs, AppList.installed info (heap.get r) = true) {r : Ref}
    (hr : AppList.installed info (heap.get r) = false) (rest : List (Option Ref)) :
  (AppList.entries heap (refs.map some ++ some r :: rest)).takeWhile (passes info)
    = AppList.entries heap (refs.map some)
  := by
  have hstop : passes info (some (heap.get r).record) = false := (passes_record _).trans hr
  have hsplit : AppList.entries heap (refs.map some ++ some r :: rest)
      = AppList.entries heap (refs.map some)
        ++ some (heap.get r).record :: AppList.entries heap rest := List.map_append
  rw [hsplit, List.takeWhile_append_of_pos (passes_entries hrefs),
    List.takeWhile_cons_of_neg (Bool.eq_false_iff.mp hstop), List.append_nil]

/-- What an application without an info has been told. -/
theorem mInfo_tellAll {r : Ref} (hnew : (heap.get r).mInfo = none) (refs : List Ref) :
  ((AppList.tellAll info heap refs).get r).mInfo
    = if r ∈ refs then (heap.get r).packageName.bind info else none
  := by
  rw [AppList.get_tellAll]
  by_cases hr : r ∈ refs
  · rw [if_pos hr, if_pos hr, AppList.tell]
    cases (heap.get r).packageName.bind info with
    | none => apply hnew
    | some i => rfl
  · rw [if_neg hr, if_neg hr, hnew]

/-- If the loop passes over all entries, the page shows those that have packages, if the sort accepts
them. -/
theorem Reads.displays_passed {file : Option Text} (h : Reads d file s heap (refs.map some))
    (hrefs : ∀ r ∈ refs, AppList.installed d.applicationInfo (heap.get r) = true)
    (hsort : AppList.accepts d.sorter (AppList.entries heap (refs.map some)) = true) :
  Displays (onResume d file) d.applicationInfo (AppList.entries heap (refs.map some)) s
    ↔ ∀ r ∈ refs, (heap.get r).packageName ≠ none
  := by
  let told := AppList.tellAll d.applicationInfo heap refs
  let sorted := AppList.sorted d.sorter told refs
  have hperm : sorted.Perm refs := AppList.sorted_perm d.sorter told refs
  have hrefresh := h.refresh
  rw [AppList.setContext_installed hrefs hsort] at hrefresh
  have hinfo : ∀ r ∈ refs, (told.get r).mInfo = (heap.get r).packageName.bind d.applicationInfo := by
    intro r hr
    apply Eq.trans (mInfo_tellAll (h.unknown r (List.mem_map_of_mem hr)) refs)
    rw [if_pos hr]
  constructor
  · intro hdisplays r hr hnone
    refine not_displays_of_throws hrefresh rfl ⟨some r, ?_, ?_⟩ hdisplays
    · exact List.mem_map_of_mem (hperm.mem_iff.mpr hr)
    · rintro _ ⟨⟩
      apply Eq.trans (hinfo r hr)
      rw [hnone]
      rfl
  · intro hnamed
    have hlist : (withApps ⟨told, ⟨some (sorted.map some)⟩⟩ s).mAppList
        = some ⟨some (sorted.map some)⟩ := rfl
    apply (displays_of_infos hrefresh hlist _).mpr
    · have hrecords : refs.map (fun r => (told.get r).record)
          = refs.map (fun r => (heap.get r).record) := by
        apply List.map_congr_left
        intro r _
        apply AppList.tellAll_field d.applicationInfo App.record (fun _ _ => rfl)
      have hkept : (AppList.entries heap (refs.map some)).reduceOption
          = refs.map (fun r => (heap.get r).record) := by
        rw [AppList.entries, List.reduceOption_map, reduceOption_map_some]
      rw [hkept, ← hrecords]
      apply List.Subperm.trans List.filter_sublist.subperm
      apply (hperm.map _).symm.subperm
    · intro r hr
      have hr := hperm.mem_iff.mp hr
      obtain ⟨pkg, i, hpkg, hi⟩ := AppList.exists_info (hnamed r hr) (hrefs r hr)
      apply ne_of_eq_of_ne (hinfo r hr)
      rw [hpkg, Option.bind_some, hi]
      apply Option.some_ne_none

/-- If the sort does not accept the entries, the page throws. -/
theorem Reads.not_displays_refused {file : Option Text} (h : Reads d file s heap (refs.map some))
    (hrefs : ∀ r ∈ refs, AppList.installed d.applicationInfo (heap.get r) = true)
    (hsort : AppList.accepts d.sorter (AppList.entries heap (refs.map some)) = false) :
  ¬ Displays (onResume d file) info entries s
  := by
  have hrefresh := h.refresh
  rw [AppList.setContext_refused hrefs hsort] at hrefresh
  apply not_displays_of_error hrefresh

/-- If the loop stops at a null, the page shows no application. -/
theorem Reads.displays_null {file : Option Text} {rest : List (Option Ref)}
    (h : Reads d file s heap (refs.map some ++ none :: rest))
    (hrefs : ∀ r ∈ refs, AppList.installed d.applicationInfo (heap.get r) = true) :
  Displays (onResume d file) info entries s ↔ NoneInstalled info entries
  := by
  have hrefresh := h.refresh
  rw [AppList.setContext_null hrefs] at hrefresh
  apply displays_of_empty hrefresh rfl

/-- If the loop stops at the next to last entry, the last one is not told its info, and the page
throws. -/
theorem Reads.not_displays_last {file : Option Text} {r last : Ref}
    (h : Reads d file s heap (refs.map some ++ [some r, some last]))
    (hrefs : ∀ r ∈ refs, AppList.installed d.applicationInfo (heap.get r) = true)
    (hr : AppList.installed d.applicationInfo (heap.get r) = false) :
  ¬ Displays (onResume d file) info entries s
  := by
  have hlast : last ∉ refs := by
    have hnodup := h.nodup
    rw [List.reduceOption_append, reduceOption_map_some] at hnodup
    intro hmem
    apply (List.nodup_append.mp hnodup).2.2 last hmem last _ rfl
    simp [List.reduceOption]
  have hinfo : ((AppList.tellAll d.applicationInfo heap refs).get last).mInfo = none := by
    rw [mInfo_tellAll, if_neg hlast]
    apply h.unknown
    simp
  have hrefresh := h.refresh
  rw [AppList.setContext_next_to_last hrefs hr last] at hrefresh
  let told := AppList.tellAll d.applicationInfo heap refs
  cases hsort : AppList.accepts d.sorter (AppList.entries told ((refs ++ [last]).map some)) with
  | false =>
      rw [AppList.resort_of_refuses hsort] at hrefresh
      apply not_displays_of_error hrefresh
  | true =>
      rw [AppList.resort_of_accepts hsort] at hrefresh
      apply not_displays_of_throws hrefresh rfl
      use some last
      constructor
      · apply List.mem_map_of_mem
        apply (AppList.sorted_perm _ _ _).mem_iff.mpr
        apply List.mem_append_right _ (List.mem_singleton_self last)
      · rintro _ ⟨⟩
        apply hinfo

/-- If the loop stops at the next to last entry, and the last one is null, then `resort` throws, and
the page shows no application, unless the null is the only entry that is left, or the sort throws
before it comes to the null. -/
theorem Reads.displays_null_last {file : Option Text} {r : Ref}
    (h : Reads d file s heap (refs.map some ++ [some r, none]))
    (hrefs : ∀ r ∈ refs, AppList.installed d.applicationInfo (heap.get r) = true)
    (hr : AppList.installed d.applicationInfo (heap.get r) = false) :
  Displays (onResume d file) info entries s ↔ NoneInstalled info entries ∧ refs ≠ [] ∧
    AppList.accepts d.sorter (AppList.entries heap (refs.map some) ++ [none]) = true
  := by
  have hrefresh := h.refresh
  have hnull : none ∈ refs.map some ++ [none] :=
    List.mem_append_right _ (List.mem_singleton_self none)
  have hentries : AppList.entries heap (refs.map some ++ [none])
      = AppList.entries heap (refs.map some) ++ [none] := List.map_append
  rw [AppList.setContext_uninstalled hrefs hr (AppList.not_mem_of_installed hrefs hr),
    if_pos List.length_singleton, AppList.resort_null hnull, AppList.entries_tellAll, hentries]
    at hrefresh
  by_cases hempty : refs = []
  · subst hempty
    constructor
    · intro hdisplays
      refine absurd hdisplays (not_displays_of_throws hrefresh rfl ⟨none, hnull, ?_⟩)
      rintro r ⟨⟩
    · rintro ⟨-, hne, -⟩
      exact absurd rfl hne
  · have hlong : ¬ (refs.map some ++ [none]).length < 2 := by
      have hpos := List.length_pos_iff.mpr hempty
      rw [List.length_append, List.length_map, List.length_singleton]
      omega
    rw [if_neg hlong] at hrefresh
    cases hsort : AppList.accepts d.sorter (AppList.entries heap (refs.map some) ++ [none]) with
    | false =>
        rw [hsort] at hrefresh
        apply iff_of_false (not_displays_of_error hrefresh)
        rintro ⟨-, -, hfalse⟩
        cases hfalse
    | true =>
        rw [hsort] at hrefresh
        rw [displays_of_empty hrefresh rfl]
        constructor
        · intro hnone
          exact ⟨hnone, hempty, rfl⟩
        · rintro ⟨hnone, -⟩
          apply hnone

/-- If the loop stops at an entry that is not the next to last one, the page throws. -/
theorem Reads.not_displays_removed {file : Option Text} {r : Ref} {rest : List (Option Ref)}
    (h : Reads d file s heap (refs.map some ++ some r :: rest))
    (hrefs : ∀ r ∈ refs, AppList.installed d.applicationInfo (heap.get r) = true)
    (hr : AppList.installed d.applicationInfo (heap.get r) = false) (hlen : rest.length ≠ 1) :
  ¬ Displays (onResume d file) info entries s
  := by
  have hrefresh := h.refresh
  rw [AppList.setContext_uninstalled hrefs hr (AppList.not_mem_of_installed hrefs hr),
    if_neg hlen] at hrefresh
  apply not_displays_of_error hrefresh

theorem Reads.displays_iff {file : Option Text} (h : Reads d file s heap apps) :
  Displays (onResume d file) d.applicationInfo (AppList.entries heap apps) s
    ↔ Showable d.sorter d.applicationInfo (AppList.entries heap apps)
  := by
  obtain ⟨refs, hrefs, rfl | ⟨rest, rfl⟩ | ⟨r, rest, hr, rfl⟩⟩ :=
    AppList.exists_installed_prefix d.applicationInfo heap apps
  · have hdrop := dropWhile_entries hrefs []
    rw [List.append_nil] at hdrop
    have hmem : ∀ a, some a ∈ AppList.entries heap (refs.map some)
        ↔ ∃ r ∈ refs, (heap.get r).record = a := by
      intro a
      rw [AppList.entries, List.map_map, List.mem_map]
      simp
    rw [Showable, hdrop]
    cases hsort : AppList.accepts d.sorter (AppList.entries heap (refs.map some)) with
    | false =>
        apply iff_of_false (h.not_displays_refused hrefs hsort)
        rintro ⟨-, hfalse⟩
        cases hfalse
    | true =>
        rw [h.displays_passed hrefs hsort]
        constructor
        · intro hnamed
          refine ⟨?_, rfl⟩
          intro a ha
          obtain ⟨r, hr, rfl⟩ := (hmem a).mp ha
          apply hnamed r hr
        · rintro ⟨hnamed, -⟩ r hr
          apply hnamed (heap.get r).record ((hmem _).mpr ⟨r, hr, rfl⟩)
  · rw [h.displays_null hrefs, Showable, dropWhile_entries hrefs]
    rfl
  · have hstop : (AppList.entries heap (some r :: rest)).dropWhile (passes d.applicationInfo)
        = some (heap.get r).record :: AppList.entries heap rest := by
      apply List.dropWhile_cons_of_neg
      rw [Option.map_some, passes_record, hr]
      apply Bool.false_ne_true
    rw [Showable, dropWhile_entries hrefs, hstop, takeWhile_entries hrefs hr]
    rcases rest with _ | ⟨_ | last, _ | ⟨app, rest⟩⟩
    · apply iff_of_false (h.not_displays_removed hrefs hr (by simp)) id
    · have hlen : (AppList.entries heap (refs.map some ++ [some r, none])).length
          = refs.length + 2 := by
        rw [AppList.entries, List.length_map, List.length_append, List.length_map]
        rfl
      rw [h.displays_null_last hrefs hr]
      apply and_congr_right
      intro _
      apply and_congr_left
      intro _
      rw [hlen, ← List.length_pos_iff]
      omega
    · apply iff_of_false (h.not_displays_removed hrefs hr (by simp)) id
    · apply iff_of_false (h.not_displays_last hrefs hr) id
    · apply iff_of_false (h.not_displays_removed hrefs hr (by simp)) id

/-! ### Every file -/

/-- The new objects for the entries of a document. -/
theorem reads_document (hs : s.mSaveFile = some applistFile) {t : Text}
    {entries : List (Option Record)} (hd : d.gson.fromJson t = .ok (some ⟨some entries⟩)) :
  Reads d (some t) s (AppList.restore s.heap entries).1 (AppList.restore s.heap entries).2
  := by
  have hspec := AppList.restore_spec s.heap entries
  constructor
  · apply hspec.nodup
  · intro r hr
    obtain ⟨a, -, ha⟩ := hspec.get_eq (List.reduceOption_mem_iff.mpr hr)
    rw [ha]
    rfl
  · apply refresh_of_document hs hd

/-- If no list is read, the page shows an empty list. -/
theorem displays_nothing {file : Option Text} (hfile : d.fileEntries file = [])
    (hrefresh : ∃ s', refresh d file s = .ok () s' ∧ s'.mAppList = some AppList.new) :
  Displays (onResume d file) info (d.fileEntries file) s
    ↔ Showable d.sorter info (d.fileEntries file)
  := by
  obtain ⟨s', hrefresh, hl⟩ := hrefresh
  rw [hfile, displays_of_empty hrefresh hl]
  apply iff_of_true
  · rintro a ⟨⟩
  · refine ⟨?_, AppList.accepts_nil d.sorter⟩
    rintro a ⟨⟩

/-- A page can show exactly the showable files. -/
theorem displays_iff (hs : s.mSaveFile = some applistFile) (file : Option Text) :
  Displays (onResume d file) d.applicationInfo (d.fileEntries file) s
    ↔ Showable d.sorter d.applicationInfo (d.fileEntries file)
  := by
  cases file with
  | none => apply displays_nothing rfl (refresh_of_missing hs)
  | some t =>
      rcases hd : d.gson.fromJson t with e | _ | ⟨_ | entries⟩
      · apply displays_nothing
        · simp only [Device.fileEntries, hd]
        · apply refresh_of_nothing hs (Or.inr ⟨e, hd⟩)
      · apply displays_nothing
        · simp only [Device.fileEntries, hd]
        · apply refresh_of_nothing hs (Or.inl hd)
      · apply displays_nothing
        · simp only [Device.fileEntries, hd, Option.getD_none]
        · use withApps ⟨s.heap, AppList.new⟩ s
          rw [refresh_of_document hs hd]
          exact ⟨rfl, rfl⟩
      · have hentries : d.fileEntries (some t) = entries := by
          simp only [Device.fileEntries, hd, Option.getD_some]
        have hrecords := (AppList.restore_spec s.heap entries).records
        have h := (reads_document hs hd).displays_iff
        have hentries' : AppList.entries (AppList.restore s.heap entries).1
            (AppList.restore s.heap entries).2 = entries := hrecords
        rw [hentries'] at h
        rw [hentries]
        apply h

/-- The launcher page and the page of the top applications can show exactly the showable files. -/
theorem pages_show_iff (hs : s.mSaveFile = some applistFile) (file : Option Text) :
  (Displays (LauncherFragment.onResume d file) d.applicationInfo (d.fileEntries file) s
    ↔ Showable d.sorter d.applicationInfo (d.fileEntries file)) ∧
  (Displays (TopFragment.onResume d file) d.applicationInfo (d.fileEntries file) s
    ↔ Showable d.sorter d.applicationInfo (d.fileEntries file))
  := ⟨displays_iff hs file, displays_iff hs file⟩

/-! ### Two files -/

/-- The entries of a file on a phone are those which have been written. -/
theorem fileEntries_phone (installed : List String) (clock : ℕ → Int64)
    (entries : List (Option Record)) :
  (phone installed clock).fileEntries (some (Json.gson.toJson ⟨some entries⟩)) = entries
  := by
  have hd := Json.gson_documented.restores entries
  change (phone installed clock).gson.fromJson _ = _ at hd
  simp only [Device.fileEntries, hd, Option.getD_some]

/-- The file of one application. -/
def oneApp (pkg : String) : List (Option Record) := [some ⟨some pkg, 61000, 2⟩]

/-- The file of an application which is installed. -/
theorem pages_show_installed :
  Displays (LauncherFragment.onResume (phone ["com.example"] tick)
      (some (Json.gson.toJson ⟨some (oneApp "com.example")⟩)))
    (phone ["com.example"] tick).applicationInfo (oneApp "com.example") LauncherFragment.new
  := by
  have hiff := pages_show_iff (d := phone ["com.example"] tick) (s := LauncherFragment.new) rfl
    (some (Json.gson.toJson ⟨some (oneApp "com.example")⟩))
  rw [fileEntries_phone] at hiff
  apply hiff.1.mpr
  have hdrop : (oneApp "com.example").dropWhile
      (passes (phone ["com.example"] tick).applicationInfo) = [] := by decide
  rw [Showable, hdrop]
  constructor
  · intro a ha
    obtain rfl := Option.some.inj (List.mem_singleton.mp ha)
    apply Option.some_ne_none
  · apply AppList.accepts_of_short
    decide

/-- The page throws at the file of an application which has been uninstalled. -/
theorem not_pages_show_uninstalled :
  ¬ ∀ (d : Device) (file : Option Text), d.gson.Documented →
    Displays (onResume d file) d.applicationInfo (d.fileEntries file) LauncherFragment.new
  := by
  intro h
  have hdisplays := h (phone [] tick) (some (Json.gson.toJson ⟨some (oneApp "com.gone")⟩))
    Json.gson_documented
  rw [displays_iff rfl, fileEntries_phone] at hdisplays
  have hdrop : (oneApp "com.gone").dropWhile (passes (phone [] tick).applicationInfo)
      = oneApp "com.gone" := by decide
  rw [Showable, hdrop] at hdisplays
  apply hdisplays

end LauncherFragment
