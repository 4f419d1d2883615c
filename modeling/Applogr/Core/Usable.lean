import Applogr.Core.Context

/-!
# Usable lists

`hasPackage` and `getApp` look at the packages of the entries up to the one that they find.  On
a list that has a null, or an entry without a package, they throw when they do not find one
before.  A list is usable if it has neither.  This module says after which lists `setContext`
returns with a usable list: it passes the entries up to one that it may remove, and the sort accepts
what is left.
-/

namespace AppList

variable {sorter : Sorter} {info : String → Option ApplicationInfo} {heap : Heap App}

/-- The list has no nulls, and its entries have packages. -/
def Usable (t : Apps) : Prop :=
  ∃ refs : List Ref, t.list.apps = some (refs.map some) ∧
    ∀ r ∈ refs, (t.heap.get r).packageName ≠ none

/-- All elements of the list have the property, or the first one that has not is the next to
last. -/
def Passes {α : Type} (P : α → Prop) (l : List α) : Prop :=
  (∀ a ∈ l, P a) ∨ ∃ before a last, l = before ++ [a, last] ∧ (∀ b ∈ before, P b) ∧ ¬ P a

theorem passes_map_iff {α β : Type} (P : β → Prop) (f : α → β) (l : List α) :
  Passes P (l.map f) ↔ Passes (fun a => P (f a)) l
  := by
  apply or_congr
  · exact List.forall_mem_map
  · constructor
    · rintro ⟨before, a, last, hl, hbefore, ha⟩
      obtain ⟨before', l', rfl, rfl, hl'⟩ := List.map_eq_append_iff.mp hl
      obtain ⟨a', l', rfl, rfl, hlast⟩ := List.map_eq_cons_iff.mp hl'
      obtain ⟨last', l', rfl, rfl, hnil⟩ := List.map_eq_cons_iff.mp hlast
      obtain rfl := List.map_eq_nil_iff.mp hnil
      use before', a', last', rfl, List.forall_mem_map.mp hbefore
    · rintro ⟨before, a, last, rfl, hbefore, ha⟩
      use before.map f, f a, f last
      rw [List.map_append]
      exact ⟨rfl, List.forall_mem_map.mpr hbefore, ha⟩

theorem eraseP_of_all {α : Type} {p : α → Bool} {l : List α} (h : ∀ a ∈ l, p a = true) :
  l.eraseP (fun a => !p a) = l
  := by
  apply List.eraseP_of_forall_not
  intro a ha
  simp [h a ha]

theorem eraseP_next_to_last {α : Type} {p : α → Bool} {before : List α} {a : α}
    (hbefore : ∀ b ∈ before, p b = true) (ha : p a = false) (last : α) :
  (before ++ [a, last]).eraseP (fun a => !p a) = before ++ [last]
  := by
  rw [List.eraseP_append_right, List.eraseP_cons_of_pos]
  · simp [ha]
  · intro b hb
    simp [hbefore b hb]

/-- The entries without the first one whose package is not installed. -/
def remaining (info : String → Option ApplicationInfo) (heap : Heap App) (refs : List Ref) :
    List Ref :=
  refs.eraseP (fun r => !installed info (heap.get r))

theorem remaining_subperm (refs : List Ref) :
  (remaining info heap refs).Subperm refs
  := List.eraseP_sublist.subperm

/-- `setContext` on a list that it passes removes at most one entry, and sorts the others. -/
theorem setContext_of_passes (sorter : Sorter) {refs : List Ref}
    (h : Passes (fun r => installed info (heap.get r) = true) refs) :
  ∃ told : List Ref, setContext sorter info ⟨heap, ⟨some (refs.map some)⟩⟩
    = resort sorter
        ⟨tellAll info heap told, ⟨some ((remaining info heap refs).map some)⟩⟩
  := by
  rcases h with h | ⟨before, r, last, rfl, hbefore, hr⟩
  · use refs
    rw [remaining, eraseP_of_all h]
    apply setContext_eq_resort h
  · have hr := Bool.eq_false_iff.mpr hr
    use before
    rw [remaining, eraseP_next_to_last hbefore hr, List.map_append]
    apply setContext_next_to_last hbefore hr

theorem usable_iff {refs : List Ref} :
  Usable ⟨heap, ⟨some (refs.map some)⟩⟩ ↔ ∀ r ∈ refs, (heap.get r).packageName ≠ none
  := by
  constructor
  · rintro ⟨refs', hrefs, hnamed⟩
    have heq := List.map_injective_iff.mpr (Option.some_injective Ref) (Option.some.inj hrefs)
    rw [heq]
    apply hnamed
  · intro hnamed
    use refs, rfl

theorem not_usable_of_null {apps : List (Option Ref)} (h : none ∈ apps) :
  ¬ Usable ⟨heap, ⟨some apps⟩⟩
  := by
  rintro ⟨refs, hrefs, -⟩
  rw [Option.some.inj hrefs] at h
  obtain ⟨r, -, hr⟩ := List.mem_map.mp h
  cases hr

/-- The entries of a list that has been sorted have packages if they had before. -/
theorem usable_sorted_iff {refs : List Ref} (told : List Ref) :
  Usable ⟨tellAll info heap told, ⟨some ((sorted sorter (tellAll info heap told) refs).map some)⟩⟩
    ↔ ∀ r ∈ refs, (heap.get r).packageName ≠ none
  := by
  rw [usable_iff]
  have hperm := sorted_perm sorter (tellAll info heap told) refs
  constructor
  · intro h r hr
    rw [← tellAll_packageName info heap told]
    apply h r (hperm.mem_iff.mpr hr)
  · intro h r hr
    rw [tellAll_packageName]
    apply h r (hperm.mem_iff.mp hr)

theorem named_of_not_installed {r : Ref} (hr : installed info (heap.get r) = false) :
  (heap.get r).packageName ≠ none
  := by
  intro hnone
  rw [installed, hnone] at hr
  cases hr

/-- If `setContext` removes an entry and returns with a usable list, exactly one entry follows, and
it is not null. -/
theorem exists_last_of_usable {refs : List Ref} {r : Ref} {rest : List (Option Ref)} {t : Apps}
    (hrefs : ∀ r ∈ refs, installed info (heap.get r) = true)
    (hr : installed info (heap.get r) = false)
    (ht : setContext sorter info ⟨heap, ⟨some (refs.map some ++ some r :: rest)⟩⟩ = .ok () t)
    (husable : Usable t) :
  ∃ last, rest = [some last]
  := by
  rw [setContext_uninstalled hrefs hr (not_mem_of_installed hrefs hr)] at ht
  split at ht
  · rename_i hlen
    obtain ⟨_ | last, rfl⟩ := List.length_eq_one_iff.mp hlen
    · have hnull : none ∈ refs.map some ++ [none] :=
        List.mem_append_right _ (List.mem_singleton_self _)
      rw [resort_null hnull] at ht
      split at ht
      · cases ht
        exact absurd husable (not_usable_of_null hnull)
      · cases ht
    · use last
  · cases ht

/-- If `setContext` returns with a usable list, there are no nulls, and the packages are installed up
to a package at the next to last position. -/
theorem passes_of_usable {apps : List (Option Ref)} {t : Apps}
    (ht : setContext sorter info ⟨heap, ⟨some apps⟩⟩ = .ok () t) (husable : Usable t) :
  ∃ refs : List Ref, apps = refs.map some ∧
    Passes (fun r => installed info (heap.get r) = true) refs
  := by
  obtain ⟨refs, hrefs, rfl | ⟨rest, rfl⟩ | ⟨r, rest, hr, rfl⟩⟩ :=
    exists_installed_prefix info heap apps
  · exact ⟨refs, rfl, Or.inl hrefs⟩
  · rw [setContext_null hrefs] at ht
    cases ht
  · obtain ⟨last, rfl⟩ := exists_last_of_usable hrefs hr ht husable
    use refs ++ [r, last]
    constructor
    · rw [List.map_append]
      rfl
    · exact Or.inr ⟨refs, r, last, rfl, hrefs, Bool.eq_false_iff.mp hr⟩

/-- `setContext` returns with a usable list if there are no nulls, the entries have packages, the
packages are installed, up to a package at the next to last position, and the sort accepts the
launch counts of the others. -/
theorem usable_setContext_iff (apps : List (Option Ref)) :
  (∃ t, setContext sorter info ⟨heap, ⟨some apps⟩⟩ = .ok () t ∧ Usable t)
    ↔ ∃ refs : List Ref, apps = refs.map some ∧ (∀ r ∈ refs, (heap.get r).packageName ≠ none) ∧
      Passes (fun r => installed info (heap.get r) = true) refs ∧
      accepts sorter (entries heap ((remaining info heap refs).map some)) = true
  := by
  constructor
  · rintro ⟨t, ht, husable⟩
    obtain ⟨refs, rfl, hpasses⟩ := passes_of_usable ht husable
    obtain ⟨told, hset⟩ := setContext_of_passes sorter hpasses
    rw [hset, resort_eq_ok_iff, entries_tellAll] at ht
    obtain ⟨haccepts, rfl⟩ := ht
    have hnamed := (usable_sorted_iff told).mp husable
    refine ⟨refs, rfl, ?_, hpasses, haccepts⟩
    intro r hr
    cases hinstalled : installed info (heap.get r) with
    | false => apply named_of_not_installed hinstalled
    | true =>
        apply hnamed r
        apply (List.mem_eraseP_of_neg _).mpr hr
        simp [hinstalled]
  · rintro ⟨refs, rfl, hnamed, hpasses, haccepts⟩
    obtain ⟨told, hset⟩ := setContext_of_passes sorter hpasses
    have htold : accepts sorter
        (entries (tellAll info heap told) ((remaining info heap refs).map some)) = true := by
      rw [entries_tellAll]
      apply haccepts
    rw [hset]
    refine ⟨_, resort_of_accepts htold, (usable_sorted_iff told).mpr ?_⟩
    intro r hr
    apply hnamed r (List.mem_of_mem_eraseP hr)

/-- A sort that throws has found a null, or it does not accept the launch counts. -/
theorem resort_error {apps : List (Option Ref)} {e : JavaException} {t : Apps}
    (h : resort sorter ⟨heap, ⟨some apps⟩⟩ = .error e t) :
  e = .illegalArgument ∨ (e = .nullPointer ∧ ¬ Usable t)
  := by
  cases haccepts : accepts sorter (entries heap apps) with
  | false =>
      rw [resort_of_refuses haccepts] at h
      cases h
      exact Or.inl rfl
  | true =>
      rcases exists_values_or_null apps with ⟨refs, rfl⟩ | hnull
      · rw [resort_of_accepts haccepts] at h
        cases h
      · rw [resort_null hnull, haccepts] at h
        split at h
        · cases h
        · cases h
          exact Or.inr ⟨rfl, not_usable_of_null hnull⟩

/-- `setContext` throws when it has removed an entry, when it leaves a list that is not usable, or
when the sort does not accept the launch counts. -/
theorem setContext_error {l : AppList} {e : JavaException} {t : Apps}
    (h : setContext sorter info ⟨heap, l⟩ = .error e t) :
  e = .concurrentModification ∨ e = .illegalArgument ∨ (e = .nullPointer ∧ ¬ Usable t)
  := by
  obtain ⟨_ | apps⟩ := l
  · cases h
    right
    right
    use rfl
    rintro ⟨refs, hrefs, -⟩
    cases hrefs
  · obtain ⟨refs, hrefs, rfl | ⟨rest, rfl⟩ | ⟨r, rest, hr, rfl⟩⟩ :=
      exists_installed_prefix info heap apps
    · rw [setContext_eq_resort hrefs] at h
      exact Or.inr (resort_error h)
    · rw [setContext_null hrefs] at h
      cases h
      right
      right
      use rfl
      apply not_usable_of_null
      apply List.mem_append_right _ List.mem_cons_self
    · rw [setContext_uninstalled hrefs hr (not_mem_of_installed hrefs hr)] at h
      split at h
      · exact Or.inr (resort_error h)
      · cases h
        exact Or.inl rfl

/-! ### Lists that have been read -/

/-- The record has no package, or its package is installed. -/
def recordInstalled (info : String → Option ApplicationInfo) (a : Record) : Prop :=
  ∀ pkg, a.packageName = some pkg → info pkg ≠ none

theorem installed_iff (app : App) :
  installed info app = true ↔ recordInstalled info app.record
  := by
  have hname : app.record.packageName = app.packageName := rfl
  rw [installed, recordInstalled, hname]
  split
  · rename_i h
    rw [h]
    simp
  · rename_i pkg h
    rw [h, Option.isSome_iff_ne_none]
    constructor
    · rintro hi _ ⟨⟩
      apply hi
    · intro hi
      apply hi pkg rfl

/-- The records without the first one whose package is not installed. -/
def remainingRecords (info : String → Option ApplicationInfo) (rs : List Record) : List Record :=
  rs.eraseP (fun a => !installed info (App.ofRecord a))

/-- The records of the remaining entries are the remaining ones. -/
theorem entries_remaining (info : String → Option ApplicationInfo) (heap : Heap App)
    (refs : List Ref) :
  entries heap ((remaining info heap refs).map some)
    = (remainingRecords info (refs.map (fun r => (heap.get r).record))).map some
  := by
  rw [entries, remainingRecords, List.eraseP_map, List.map_map, List.map_map]
  rfl

/-- `setContext` returns with a usable list when the list has been read from a document of such a
list. -/
theorem usable_ofDocument_iff (heap : Heap App) (doc : Document) :
  (∃ t, setContext sorter info (ofDocument heap doc) = .ok () t ∧ Usable t)
    ↔ ∃ rs, doc = Document.ofRecords rs ∧ Named rs ∧ Passes (recordInstalled info) rs ∧
      accepts sorter ((remainingRecords info rs).map some) = true
  := by
  obtain ⟨_ | rs⟩ := doc
  · constructor
    · rintro ⟨t, ht, -⟩
      cases ht
    · rintro ⟨rs, hrs, -⟩
      cases hrs
  · apply Iff.trans (usable_setContext_iff (restore heap rs).2)
    have hrecords := (restore_spec heap rs).records
    constructor
    · rintro ⟨refs, hrefs, hnamed, hpasses, haccepts⟩
      rw [hrefs, List.map_map] at hrecords
      rw [entries_remaining] at haccepts
      use refs.map (fun r => ((restore heap rs).1.get r).record)
      refine ⟨?_, ?_, ?_, haccepts⟩
      · rw [Document.ofRecords, List.map_map]
        apply congrArg (fun l => (⟨some l⟩ : Document)) hrecords.symm
      · exact List.forall_mem_map.mpr hnamed
      · rw [passes_map_iff]
        simp only [installed_iff] at hpasses
        apply hpasses
    · rintro ⟨rs', hrs', hnamed, hpasses, haccepts⟩
      obtain rfl : rs = rs'.map some := Option.some.inj (congrArg Document.apps hrs')
      have hrefs := restore_records heap rs'
      use (restore heap (rs'.map some)).2.reduceOption, restore_eq_map_some heap rs'
      rw [← hrefs] at hnamed hpasses haccepts
      refine ⟨?_, ?_, ?_⟩
      · intro r hr
        apply hnamed _ (List.mem_map_of_mem hr)
      · rw [passes_map_iff] at hpasses
        simp only [installed_iff]
        apply hpasses
      · rw [entries_remaining]
        apply haccepts

/-! ### Searching a list that is not usable -/

theorem hasPackageLoop_of_not_usable (l : AppList) {pkg : String} {apps : List (Option Ref)}
    (h : ¬ Usable ⟨heap, ⟨some apps⟩⟩)
    (hpkg : ∀ r, some r ∈ apps → (heap.get r).packageName ≠ some pkg) :
  hasPackageLoop pkg apps ⟨heap, l⟩ = .error .nullPointer ⟨heap, l⟩
  := by
  induction apps with
  | nil =>
      exfalso
      apply h
      use [], rfl
      rintro r ⟨⟩
  | cons a apps ih =>
      cases a with
      | none => rfl
      | some r =>
          rw [hasPackageLoop]
          rcases hname : (heap.get r).packageName with _ | name
          · apply Java.bind_of_error
            rw [packageEquals, Java.deref_some, Java.bind_of_ok (Java.pure_apply r _),
              Java.bind_of_ok (Java.get_apply _), hname]
            rfl
          · have hne : name ≠ pkg := by
              rintro rfl
              apply hpkg r List.mem_cons_self hname
            have heq : packageEquals pkg (some r) ⟨heap, l⟩ = .ok false ⟨heap, l⟩ := by
              rw [packageEquals, Java.deref_some, Java.bind_of_ok (Java.pure_apply r _),
                Java.bind_of_ok (Java.get_apply _), hname, Java.deref_some,
                Java.bind_of_ok (Java.pure_apply name _), decide_eq_false hne]
              rfl
            rw [Java.bind_of_ok heq]
            apply ih
            · rintro ⟨refs, hrefs, hnamed⟩
              apply h
              use r :: refs
              rw [List.map_cons, ← Option.some.inj hrefs]
              use rfl
              intro r' hr'
              rcases List.mem_cons.mp hr' with rfl | hr'
              · intro hnone
                cases Eq.trans hname.symm hnone
              · apply hnamed r' hr'
            · intro r' hr'
              apply hpkg r' (List.mem_cons_of_mem _ hr')

/-- A search for a package that no entry has throws on a list that is not usable. -/
theorem hasPackage_of_not_usable {t : Apps} (h : ¬ Usable t) {pkg : String}
    (hpkg : ∀ apps, t.list.apps = some apps →
      ∀ r, some r ∈ apps → (t.heap.get r).packageName ≠ some pkg) :
  hasPackage pkg t = .error .nullPointer t
  := by
  obtain ⟨heap, ⟨_ | apps⟩⟩ := t
  · rfl
  · have happs : getApps ⟨heap, ⟨some apps⟩⟩ = .ok apps ⟨heap, ⟨some apps⟩⟩ := rfl
    rw [hasPackage, Java.bind_of_ok happs]
    apply hasPackageLoop_of_not_usable _ h (hpkg apps rfl)

end AppList
