import Applogr.Core.Context
import Mathlib.Data.List.TakeWhile

/-!
# Dropping the uninstalled applications

The loop of `setContext` removes entries from the list over which it iterates.  The next step of the
iterator throws, unless the removed entry was the next to last one: then the iterator finds that its
cursor is the size of the list, and it ends without a look at the last entry.  What is left is
sorted, and the sort may throw, too.
-/

namespace AppList

variable {sorter : Sorter} {info : String → Option ApplicationInfo} {heap : Heap App}
  {refs : List Ref}

/-- `setContext` returns, the list has the entries whose packages are installed, and each entry
has the info of its package. -/
def DropsUninstalled (sorter : Sorter) (info : String → Option ApplicationInfo) (heap : Heap App)
    (refs : List Ref) : Prop :=
  ∃ (heap' : Heap App) (refs' : List Ref), setContext sorter info ⟨heap, ⟨some (refs.map some)⟩⟩
      = .ok () ⟨heap', ⟨some (refs'.map some)⟩⟩ ∧
    refs'.Perm (refs.filter (fun r => installed info (heap.get r))) ∧
    ∀ r ∈ refs', ∃ pkg i, (heap'.get r).packageName = some pkg ∧ info pkg = some i ∧
      (heap'.get r).mInfo = some i

/-- All packages are installed, or only that of the next to last entry is not, and the last entry
has the info of its package already, or occurs before. -/
def OnlyNextToLast (info : String → Option ApplicationInfo) (heap : Heap App) (refs : List Ref) :
    Prop :=
  (∀ r ∈ refs, installed info (heap.get r) = true) ∨
    ∃ before r last, refs = before ++ [r, last] ∧
      (∀ b ∈ before, installed info (heap.get b) = true) ∧
      installed info (heap.get r) = false ∧ installed info (heap.get last) = true ∧
      (last ∈ before ∨ (heap.get last).mInfo = (heap.get last).packageName.bind info)

/-! ### Entries that have been told their infos -/

theorem exists_info {app : App} (hname : app.packageName ≠ none)
    (happ : installed info app = true) :
  ∃ pkg i, app.packageName = some pkg ∧ info pkg = some i
  := by
  obtain ⟨pkg, hpkg⟩ := Option.ne_none_iff_exists'.mp hname
  rw [installed, hpkg] at happ
  obtain ⟨i, hi⟩ := Option.isSome_iff_exists.mp happ
  use pkg, i, hpkg

/-- An entry whose package is installed has its info after it has been told it. -/
theorem info_tellAll {r : Ref} (hname : (heap.get r).packageName ≠ none)
    (hr : installed info (heap.get r) = true)
    (hinfo : r ∈ refs ∨ (heap.get r).mInfo = (heap.get r).packageName.bind info) :
  ∃ pkg i, ((tellAll info heap refs).get r).packageName = some pkg ∧ info pkg = some i ∧
    ((tellAll info heap refs).get r).mInfo = some i
  := by
  obtain ⟨pkg, i, hpkg, hi⟩ := exists_info hname hr
  refine ⟨pkg, i, (tellAll_packageName info heap refs r).trans hpkg, hi, ?_⟩
  rw [get_tellAll]
  by_cases hmem : r ∈ refs
  · rw [if_pos hmem, tell, hpkg, Option.bind_some, hi]
    rfl
  · rw [if_neg hmem, hinfo.resolve_left hmem, hpkg, Option.bind_some, hi]

/-! ### The list -/

/-- Every list of objects begins with entries whose packages are installed, and then it ends or
an entry's package is not installed. -/
theorem exists_installed (info : String → Option ApplicationInfo) (heap : Heap App)
    (refs : List Ref) :
  ∃ before : List Ref, (∀ r ∈ before, installed info (heap.get r) = true) ∧
    (refs = before ∨
      ∃ r rest, installed info (heap.get r) = false ∧ refs = before ++ r :: rest)
  := by
  let p : Ref → Bool := fun r => installed info (heap.get r)
  have hsplit := List.takeWhile_append_dropWhile (p := p) (l := refs)
  use refs.takeWhile p, fun r hr => List.mem_takeWhile_imp (p := p) hr
  cases hrest : refs.dropWhile p with
  | nil =>
      left
      rw [hrest, List.append_nil] at hsplit
      apply hsplit.symm
  | cons r rest =>
      right
      have hr := List.head?_dropWhile_not p refs
      rw [hrest] at hr hsplit
      use r, rest, hr, hsplit.symm

theorem filter_installed (h : ∀ r ∈ refs, installed info (heap.get r) = true) :
  refs.filter (fun r => installed info (heap.get r)) = refs
  := List.filter_eq_self.mpr h

theorem filter_next_to_last {before : List Ref} {r last : Ref}
    (hbefore : ∀ b ∈ before, installed info (heap.get b) = true)
    (hr : installed info (heap.get r) = false) :
  (before ++ [r, last]).filter (fun r => installed info (heap.get r))
    = if installed info (heap.get last) = true then before ++ [last] else before
  := by
  rw [List.filter_append, filter_installed hbefore]
  cases hlast : installed info (heap.get last) with
  | true => simp [hr, hlast]
  | false => simp [hr, hlast]

/-- `setContext` throws when the removed entry is not the next to last one. -/
theorem length_of_setContext {before rest : List Ref} {r : Ref} {t : Apps}
    (hbefore : ∀ b ∈ before, installed info (heap.get b) = true)
    (hr : installed info (heap.get r) = false)
    (h : setContext sorter info ⟨heap, ⟨some ((before ++ r :: rest).map some)⟩⟩ = .ok () t) :
  ∃ last, rest = [last]
  := by
  rw [List.map_append, List.map_cons,
    setContext_uninstalled hbefore hr (not_mem_of_installed hbefore hr)] at h
  split at h
  · rename_i hlen
    rw [List.length_map] at hlen
    exact List.length_eq_one_iff.mp hlen
  · cases h

/-- `setContext` drops exactly the uninstalled applications when all are installed, or when only
the next to last one is not and the last one has its info already, if the sort accepts the launch
counts of the others. -/
theorem dropsUninstalled_iff (hnamed : ∀ r ∈ refs, (heap.get r).packageName ≠ none) :
  DropsUninstalled sorter info heap refs
    ↔ OnlyNextToLast info heap refs ∧
      accepts sorter
        (entries heap ((refs.filter (fun r => installed info (heap.get r))).map some)) = true
  := by
  constructor
  · rintro ⟨heap', refs', hset, hperm, hinfo⟩
    obtain ⟨before, hbefore, rfl | ⟨r, rest, hr, rfl⟩⟩ := exists_installed info heap refs
    · rw [setContext_eq_resort hbefore, resort_eq_ok_iff, entries_tellAll] at hset
      rw [filter_installed hbefore]
      exact ⟨Or.inl hbefore, hset.1⟩
    · obtain ⟨last, rfl⟩ := length_of_setContext hbefore hr hset
      rw [List.map_append] at hset
      have hset := Eq.trans (setContext_next_to_last hbefore hr last).symm hset
      rw [resort_eq_ok_iff, entries_tellAll] at hset
      obtain ⟨haccepts, hstate⟩ := hset
      injection hstate with hheap hlist
      obtain rfl := hheap
      obtain rfl := List.map_injective_iff.mpr (Option.some_injective Ref)
        (Option.some.inj (congrArg AppList.apps hlist))
      have hsorted := sorted_perm sorter (tellAll info heap before) (before ++ [last])
      have hlast : installed info (heap.get last) = true := by
        by_contra hlast
        rw [filter_next_to_last hbefore hr, if_neg hlast] at hperm
        have hlen := (hsorted.symm.trans hperm).length_eq
        rw [List.length_append, List.length_singleton] at hlen
        omega
      rw [filter_next_to_last hbefore hr, if_pos hlast]
      refine ⟨Or.inr ⟨before, r, last, rfl, hbefore, hr, hlast, ?_⟩, haccepts⟩
      -- the last entry is kept without being told its info, so it must have had it
      by_cases hmem : last ∈ before
      · exact Or.inl hmem
      · right
        obtain ⟨pkg, i, hpkg, hi, hinfo⟩ := hinfo last
          (hsorted.symm.subset (List.mem_append_right _ (List.mem_singleton_self last)))
        rw [get_tellAll, if_neg hmem] at hpkg hinfo
        rw [hinfo, hpkg, Option.bind_some, hi]
  · rintro ⟨h | ⟨before, r, last, rfl, hbefore, hr, hlast, hinfo⟩, haccepts⟩
    · rw [filter_installed h] at haccepts
      refine ⟨_, _, setContext_installed h haccepts, ?_, ?_⟩
      · rw [filter_installed h]
        apply sorted_perm
      · intro r hr
        have hmem := (sorted_perm _ _ _).subset hr
        exact info_tellAll (hnamed r hmem) (h r hmem) (Or.inl hmem)
    · rw [filter_next_to_last hbefore hr, if_pos hlast] at haccepts
      have htold : accepts sorter
          (entries (tellAll info heap before) ((before ++ [last]).map some)) = true := by
        rw [entries_tellAll]
        apply haccepts
      have hset := (setContext_next_to_last hbefore hr last).trans (resort_of_accepts htold)
      rw [DropsUninstalled, List.map_append]
      refine ⟨_, _, hset, ?_, ?_⟩
      · rw [filter_next_to_last hbefore hr, if_pos hlast]
        apply sorted_perm
      · intro r' hr'
        rcases List.mem_append.mp ((sorted_perm _ _ _).subset hr') with hmem | hmem
        · exact info_tellAll (hnamed r' (List.mem_append_left _ hmem)) (hbefore r' hmem) (Or.inl hmem)
        · obtain rfl := List.mem_singleton.mp hmem
          apply info_tellAll _ hlast hinfo
          apply hnamed r'
          simp

/-- The objects of two applications. -/
def twoApps : Heap App :=
  ((Heap.empty.alloc (App.new "com.example")).alloc (App.new "com.gone"))

/-- The package manager knows one package. -/
def onlyExample (pkg : String) : Option ApplicationInfo :=
  if pkg = "com.example" then some ⟨pkg, "Example"⟩ else none

theorem named_twoApps :
  ∀ r ∈ [0, 1, 0], (twoApps.get r).packageName ≠ none
  := by
  decide

/-- The uninstalled application is the next to last entry, and the last entry has been told its
info before. -/
theorem dropsUninstalled_next_to_last :
  DropsUninstalled Sorter.strict onlyExample twoApps [0, 1, 0]
  := by
  apply (dropsUninstalled_iff named_twoApps).mpr
  constructor
  · exact Or.inr ⟨[0], 1, 0, rfl, by decide, by decide, by decide, Or.inl (by decide)⟩
  · apply accepts_of_short
    decide

/-- The uninstalled application is the last entry, and the iterator throws. -/
theorem not_dropsUninstalled_last :
  ¬ ∃ sorter : Sorter, ∀ (info : String → Option ApplicationInfo) (heap : Heap App)
    (refs : List Ref), (∀ r ∈ refs, (heap.get r).packageName ≠ none) →
      DropsUninstalled sorter info heap refs
  := by
  rintro ⟨sorter, h⟩
  obtain ⟨heap', refs', hset, -⟩ := h onlyExample twoApps [0, 1] (by decide)
  have hthrows : setContext sorter onlyExample ⟨twoApps, ⟨some [some 0, some 1]⟩⟩
      = .error .concurrentModification
          ⟨twoApps.modify 0 (App.setInfo ⟨"com.example", "Example"⟩), ⟨some [some 0]⟩⟩ := rfl
  cases hthrows.symm.trans hset

end AppList
