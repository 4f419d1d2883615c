import Applogr.Foundation.Stages
import Applogr.Fragment.Resumed

/-!
# The life of a page

The methods of a page rely on each other.  `onCreateView` makes the grid of the list that `onCreate`
has read, `populateGrid` inflates its entries with the inflater that `onCreateView` has been given,
and `onResume` notifies the adapter that `onCreateView` has made.  The fields are null before.
-/

/-- What makes views out of layouts. -/
structure LayoutInflater where

/-- The adapter of the grid, which asks the page for its entries. -/
structure EntryAdapter where

/-- The fields of a page. -/
structure Page extends LauncherFragment where
  mInflater : Option LayoutInflater
  mEntryAdapter : Option EntryAdapter

namespace Page

/-- A page before `onCreate`. -/
def new : Page :=
  { heap := Heap.empty, mAppList := none, mSaveFile := none, mInflater := none,
    mEntryAdapter := none }

/-- A method that uses the list and the file of the page only. -/
def fragment {α : Type} (m : Java LauncherFragment α) : Java Page α :=
  Java.zoom Page.toLauncherFragment (fun f page => { page with toLauncherFragment := f }) m

/-- `onCreate(savedInstanceState)`, when the content of the save file is `file`. -/
def onCreate (d : Device) (file : Option Text) : Java Page Unit := do
  fragment LauncherFragment.newList
  modify (fun page => { page with mSaveFile := some applistFile })
  fragment (LauncherFragment.refresh d file)

/-- The body of the loop of `populateGrid`: `AppEntry(app, mInflater)` calls the inflater. -/
def populateEntry (app : Option Ref) : Java Page Unit := do
  let _ ← Java.deref (← get).mInflater
  fragment (LauncherFragment.populateEntry app)

/-- The loop of `populateGrid`. -/
def populateLoop : List (Option Ref) → Java Page Unit
  | [] => pure ()
  | app :: apps => do
      populateEntry app
      populateLoop apps

/-- `populateGrid()` -/
def populateGrid : Java Page Unit := do
  populateLoop (← fragment LauncherFragment.getApps)

/-- `onCreateView(inflater, container, savedInstanceState)` -/
def onCreateView (inflater : LayoutInflater) : Java Page Unit := do
  modify (fun page => { page with mInflater := some inflater })
  populateGrid
  modify (fun page => { page with mEntryAdapter := some {} })

/-- `onResume()`, when the content of the save file is `file`. -/
def onResume (d : Device) (file : Option Text) : Java Page Unit := do
  fragment (LauncherFragment.refresh d file)
  populateGrid
  let _ ← Java.deref (← get).mEntryAdapter

/-- The page that a method leaves, if it returns. -/
def returned (m : Java Page Unit) (page : Page) : Option Page :=
  match m page with
  | .ok _ page' => some page'
  | .error _ _ => none

/-- The methods that the callbacks call. -/
def methods (d : Device) (file : Option Text) (inflater : LayoutInflater) : Methods Page where
  create := returned (onCreate d file) new
  createView := returned (onCreateView inflater)
  resume := returned (onResume d file)

/-! ### The methods of a page -/

variable {d : Device} {page : Page} {rs : List Record} {info : String → Option ApplicationInfo}

theorem fragment_of_ok {α : Type} {m : Java LauncherFragment α} {f : LauncherFragment} {a : α}
    (h : m page.toLauncherFragment = .ok a f) :
  fragment m page = .ok a { page with toLauncherFragment := f }
  := by
  rw [fragment, Java.zoom, h]

theorem fragment_of_error {α : Type} {m : Java LauncherFragment α} {f : LauncherFragment}
    {e : JavaException} (h : m page.toLauncherFragment = .error e f) :
  fragment m page = .error e { page with toLauncherFragment := f }
  := by
  rw [fragment, Java.zoom, h]

theorem returned_of_ok {m : Java Page Unit} {page' : Page} (h : m page = .ok () page') :
  returned m page = some page'
  := by
  rw [returned, h]

theorem ok_of_returned {m : Java Page Unit} {page' : Page} (h : returned m page = some page') :
  m page = .ok () page'
  := by
  rw [returned] at h
  cases hm : m page with
  | ok u page'' =>
      rw [hm] at h
      cases h
      rfl
  | error e page'' =>
      rw [hm] at h
      cases h

/-- With an inflater, the loop of `populateGrid` does what it does without the views. -/
theorem populateLoop_eq (hinflater : page.mInflater ≠ none) (apps : List (Option Ref)) :
  populateLoop apps page = fragment (LauncherFragment.populateLoop apps) page
  := by
  induction apps generalizing page with
  | nil => rfl
  | cons app apps ih =>
      obtain ⟨inflater, hinf⟩ := Option.ne_none_iff_exists'.mp hinflater
      have hentry : populateEntry app page = fragment (LauncherFragment.populateEntry app) page := by
        simp only [populateEntry, Java.bind_apply, Java.get_apply, hinf, Java.deref_some,
          Java.pure_apply]
      cases h : LauncherFragment.populateEntry app page.toLauncherFragment with
      | ok a f =>
          have hloop : populateLoop apps { page with toLauncherFragment := f }
              = fragment (LauncherFragment.populateLoop apps) { page with toLauncherFragment := f } :=
            ih hinflater
          rw [populateLoop, Java.bind_of_ok (Eq.trans hentry (fragment_of_ok h)), hloop, fragment,
            fragment, Java.zoom, Java.zoom, LauncherFragment.populateLoop, Java.bind_of_ok h]
      | error e f =>
          have herror := Java.bind_of_error h (fun _ => LauncherFragment.populateLoop apps)
          rw [populateLoop, Java.bind_of_error (Eq.trans hentry (fragment_of_error h)),
            LauncherFragment.populateLoop, fragment_of_error herror]

theorem populateGrid_eq (hinflater : page.mInflater ≠ none) :
  populateGrid page = fragment LauncherFragment.populateGrid page
  := by
  cases h : LauncherFragment.getApps page.toLauncherFragment with
  | ok apps f =>
      have hloop : populateLoop apps { page with toLauncherFragment := f }
          = fragment (LauncherFragment.populateLoop apps) { page with toLauncherFragment := f } := by
        apply populateLoop_eq
        apply hinflater
      rw [populateGrid, Java.bind_of_ok (fragment_of_ok h), hloop, fragment, fragment, Java.zoom,
        Java.zoom, LauncherFragment.populateGrid, Java.bind_of_ok h]
  | error e f =>
      have herror := Java.bind_of_error h LauncherFragment.populateLoop
      rw [populateGrid, Java.bind_of_error (fragment_of_error h), LauncherFragment.populateGrid,
        fragment_of_error herror]

/-! ### Pages that read anything -/

/-- What a page that has a view does not lose, whatever it reads. -/
structure Attached (page : Page) : Prop where
  mSaveFile : page.mSaveFile = some applistFile
  mInflater : page.mInflater ≠ none
  mEntryAdapter : page.mEntryAdapter ≠ none

/-- Two pages with the same file, inflater and adapter. -/
structure SameParts (page₀ page : Page) : Prop where
  mSaveFile : page.mSaveFile = page₀.mSaveFile
  mInflater : page.mInflater = page₀.mInflater
  mEntryAdapter : page.mEntryAdapter = page₀.mEntryAdapter

theorem SameParts.refl (page : Page) :
  SameParts page page
  := ⟨rfl, rfl, rfl⟩

/-- A method that uses the list only keeps the file, the inflater and the adapter. -/
theorem keeps_fragment {α : Type} {m : Java LauncherFragment α}
    (hm : ∀ f, Java.Keeps (fun s => s.mSaveFile = f) m) (page₀ : Page) :
  Java.Keeps (SameParts page₀) (fragment m)
  := by
  rintro page ⟨hfile, hinflater, hadapter⟩
  rw [fragment, Java.zoom]
  cases h : m page.toLauncherFragment with
  | ok a f => exact ⟨(hm _).ok hfile h, hinflater, hadapter⟩
  | error e f => exact ⟨(hm _).error hfile h, hinflater, hadapter⟩

theorem keeps_populateGrid (page₀ : Page) :
  Java.Keeps (SameParts page₀) populateGrid
  := by
  have hloop : ∀ apps, Java.Keeps (SameParts page₀) (populateLoop apps) := by
    intro apps
    induction apps with
    | nil => apply Java.Keeps.pure
    | cons app apps ih =>
        have hentry := keeps_fragment (LauncherFragment.keeps_mSaveFile_populateEntry app) page₀
        apply Java.Keeps.bind _ (fun _ => ih)
        apply Java.Keeps.bind Java.Keeps.get
        intro page
        apply Java.Keeps.bind (Java.Keeps.deref _) (fun _ => hentry)
  apply Java.Keeps.bind _ hloop
  apply keeps_fragment LauncherFragment.keeps_mSaveFile_getApps

/-- A page that has been created has its file. -/
theorem mSaveFile_onCreate {file : Option Text} {page' : Page}
    (h : onCreate d file page = .ok () page') :
  page'.mSaveFile = some applistFile
  := by
  let page₁ : Page :=
    { page with mAppList := some AppList.new, mSaveFile := some applistFile }
  have hrefresh : fragment (LauncherFragment.refresh d file) page₁ = .ok () page' := h
  have hkeeps := keeps_fragment (LauncherFragment.keeps_mSaveFile_refresh d file) page₁
  apply (hkeeps.ok (SameParts.refl page₁) hrefresh).mSaveFile

/-- A page whose view has been created has all that it needs. -/
theorem attached_onCreateView (hfile : page.mSaveFile = some applistFile)
    {inflater : LayoutInflater} {page' : Page} (h : onCreateView inflater page = .ok () page') :
  Attached page'
  := by
  let page₁ : Page := { page with mInflater := some inflater }
  have hmodify : (modify (fun page => { page with mInflater := some inflater }) : Java Page PUnit)
      page = .ok () page₁ := rfl
  rw [onCreateView, Java.bind_of_ok hmodify] at h
  obtain ⟨_, page₂, hgrid, hadapter⟩ := Java.bind_eq_ok_iff.mp h
  have hsame := (keeps_populateGrid page₁).ok (SameParts.refl page₁) hgrid
  cases hadapter
  constructor
  · apply Eq.trans hsame.mSaveFile hfile
  · apply ne_of_eq_of_ne hsame.mInflater (Option.some_ne_none inflater)
  · apply Option.some_ne_none

/-- A page that has been resumed has all that it needs. -/
theorem Attached.onResume_of_ok (h : Attached page) {file : Option Text} {page' : Page}
    (hresume : onResume d file page = .ok () page') :
  Attached page'
  := by
  obtain ⟨_, page₁, hrefresh, hrest⟩ := Java.bind_eq_ok_iff.mp hresume
  obtain ⟨_, page₂, hgrid, hnotify⟩ := Java.bind_eq_ok_iff.mp hrest
  have hkeeps := keeps_fragment (LauncherFragment.keeps_mSaveFile_refresh d file) page
  have hsame := (keeps_populateGrid page).ok (hkeeps.ok (SameParts.refl page) hrefresh) hgrid
  obtain ⟨adapter, hadapter⟩ := Option.ne_none_iff_exists'.mp h.mEntryAdapter
  have hadapter₂ := Eq.trans hsame.mEntryAdapter hadapter
  simp only [Java.bind_apply, Java.get_apply, hadapter₂, Java.deref_some, Java.pure_apply] at hnotify
  cases hnotify
  constructor
  · apply Eq.trans hsame.mSaveFile h.mSaveFile
  · apply ne_of_eq_of_ne hsame.mInflater h.mInflater
  · apply ne_of_eq_of_ne hadapter₂ (Option.some_ne_none adapter)

/-! ### Pages that read records -/

/-- What a page that has been created with a list for some records does not lose. -/
structure Created (info : String → Option ApplicationInfo) (rs : List Record) (page : Page) :
    Prop where
  mSaveFile : page.mSaveFile = some applistFile
  lists : page.toLauncherFragment.Lists info rs

/-- What a page that has a view for the list does not lose. -/
structure Viewed (info : String → Option ApplicationInfo) (rs : List Record) (page : Page) :
    Prop extends Created info rs page, Attached page where
  shows : page.toLauncherFragment.ShowsRecords info rs

/-- `onCreate` gives a list for the records that the page gets, if the sort accepts them. -/
theorem onCreate_reads {file : Option Text} (hfile : LauncherFragment.GetsRecords d file rs)
    (hn : Named rs) (hi : d.AllInstalled rs) (hsort : d.Sorts rs) (page : Page) :
  ∃ page' rs', onCreate d file page = .ok () page' ∧ rs'.Perm rs ∧
    Created d.applicationInfo rs' page' ∧
    (LaunchesFit rs → rs'.Pairwise (fun a b => b.launchCount ≤ a.launchCount))
  := by
  let page₁ : Page :=
    { page with mAppList := some AppList.new, mSaveFile := some applistFile }
  obtain ⟨f, rs', hrefresh, hf, hperm, hlists, hsorted⟩ :=
    LauncherFragment.refresh_lists (s := page₁.toLauncherFragment) rfl hfile hn hi hsort
  have hread : fragment (LauncherFragment.refresh d file) page₁
      = .ok () { page₁ with toLauncherFragment := f } := fragment_of_ok hrefresh
  exact ⟨{ page₁ with toLauncherFragment := f }, rs', hread, hperm, ⟨hf, hlists⟩, hsorted⟩

/-- `onCreate` throws if the sort does not accept the records that the page gets. -/
theorem onCreate_refuses {file : Option Text} (hfile : LauncherFragment.GetsRecords d file rs)
    (hi : d.AllInstalled rs) (hsort : ¬ d.Sorts rs) (page : Page) :
  ∃ page', onCreate d file page = .error .illegalArgument page'
  := by
  let page₁ : Page :=
    { page with mAppList := some AppList.new, mSaveFile := some applistFile }
  obtain ⟨f, hrefresh⟩ := LauncherFragment.refresh_refuses (s := page₁.toLauncherFragment) rfl hfile hi
    hsort
  have hread : fragment (LauncherFragment.refresh d file) page₁
      = .error .illegalArgument { page₁ with toLauncherFragment := f } := fragment_of_error hrefresh
  exact ⟨_, hread⟩

/-- `onCreateView` shows the records for which the page has a list. -/
theorem Created.onCreateView (h : Created info rs page) (inflater : LayoutInflater) :
  ∃ page', Page.onCreateView inflater page = .ok () page' ∧ Viewed info rs page'
  := by
  let page₁ : Page := { page with mInflater := some inflater }
  have hinflater : page₁.mInflater ≠ none := Option.some_ne_none inflater
  obtain ⟨f, hpopulate, hf, hlists, hshows⟩ := h.lists.populateGrid
  have hgrid : Page.populateGrid page₁ = .ok () { page₁ with toLauncherFragment := f } :=
    Eq.trans (populateGrid_eq hinflater) (fragment_of_ok hpopulate)
  refine ⟨{ page₁ with toLauncherFragment := f, mEntryAdapter := some {} }, ?_, ?_⟩
  · have hmodify : (modify (fun page => { page with mInflater := some inflater }) : Java Page PUnit)
        page = .ok () page₁ := rfl
    rw [Page.onCreateView, Java.bind_of_ok hmodify, Java.bind_of_ok hgrid]
    rfl
  · exact { mSaveFile := hf.trans h.mSaveFile, lists := hlists, mInflater := hinflater,
            mEntryAdapter := Option.some_ne_none _, shows := hshows }

/-- `onResume` shows the records that the page gets, if the sort accepts them. -/
theorem Attached.onResume (h : Attached page) {file : Option Text}
    (hfile : LauncherFragment.GetsRecords d file rs) (hn : Named rs) (hi : d.AllInstalled rs)
    (hsort : d.Sorts rs) :
  ∃ page' rs', Page.onResume d file page = .ok () page' ∧ rs'.Perm rs ∧
    Viewed d.applicationInfo rs' page' ∧
    (LaunchesFit rs → rs'.Pairwise (fun a b => b.launchCount ≤ a.launchCount))
  := by
  obtain ⟨f₁, rs', hrefresh, hf₁, hperm, hlists₁, hsorted⟩ :=
    LauncherFragment.refresh_lists h.mSaveFile hfile hn hi hsort
  obtain ⟨f₂, hpopulate, hf₂, hlists₂, hshows⟩ := hlists₁.populateGrid
  have hread : fragment (LauncherFragment.refresh d file) page
      = .ok () { page with toLauncherFragment := f₁ } := fragment_of_ok hrefresh
  have hinflater : ({ page with toLauncherFragment := f₁ } : Page).mInflater ≠ none := h.mInflater
  have hgrid : Page.populateGrid { page with toLauncherFragment := f₁ }
      = .ok () { page with toLauncherFragment := f₂ } :=
    Eq.trans (populateGrid_eq hinflater) (fragment_of_ok hpopulate)
  obtain ⟨adapter, hadapter⟩ := Option.ne_none_iff_exists'.mp h.mEntryAdapter
  refine ⟨{ page with toLauncherFragment := f₂ }, rs', ?_, hperm, ?_, hsorted⟩
  · rw [Page.onResume, Java.bind_of_ok hread, Java.bind_of_ok hgrid]
    simp only [Java.bind_apply, Java.get_apply, hadapter, Java.deref_some, Java.pure_apply]
  · exact { mSaveFile := hf₂.trans hf₁, lists := hlists₂, mInflater := h.mInflater,
            mEntryAdapter := h.mEntryAdapter, shows := hshows }

/-- `onResume` throws if the sort does not accept the records that the page gets. -/
theorem Attached.onResume_refuses (h : Attached page) {file : Option Text}
    (hfile : LauncherFragment.GetsRecords d file rs) (hi : d.AllInstalled rs)
    (hsort : ¬ d.Sorts rs) :
  ∃ page', Page.onResume d file page = .error .illegalArgument page'
  := by
  obtain ⟨f, hrefresh⟩ := LauncherFragment.refresh_refuses h.mSaveFile hfile hi hsort
  have hread : fragment (LauncherFragment.refresh d file) page
      = .error .illegalArgument { page with toLauncherFragment := f } := fragment_of_error hrefresh
  exact ⟨_, Java.bind_of_error hread _⟩

end Page
