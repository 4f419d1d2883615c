import Applogr.Core.AppList
import Mathlib.Data.List.ReduceOption

/-!
# Loading a list

The objects of a list that has been read from a file are new, and their fields are those of
the records.  `setContext` walks over the list up to the first entry that is null or whose
package is not installed.
-/

namespace AppList

/-! ### Restoring -/

/-- Objects that have been created for records. -/
structure Restored (heap : Heap App) (rs : List (Option Record)) (heap' : Heap App)
    (apps : List (Option Ref)) : Prop where
  next_le : heap.next ≤ heap'.next
  old : ∀ r < heap.next, heap'.get r = heap.get r
  values : apps.map (Option.map heap'.get) = rs.map (Option.map App.ofRecord)
  fresh : ∀ r, some r ∈ apps → heap.next ≤ r ∧ r < heap'.next
  nodup : apps.reduceOption.Nodup

theorem restore_spec (heap : Heap App) (rs : List (Option Record)) :
  Restored heap rs (restore heap rs).1 (restore heap rs).2
  := by
  induction rs generalizing heap with
  | nil =>
      constructor
      · apply le_refl
      · intro r _
        rfl
      · rfl
      · intro r hr
        cases hr
      · apply List.nodup_nil
  | cons o rs ih =>
      cases o with
      | none =>
          have h := ih heap
          refine { h with values := ?_, fresh := ?_, nodup := ?_ }
          · simp only [restore, List.map_cons, Option.map_none, h.values]
          · intro r hr
            apply h.fresh r
            simpa [restore] using hr
          · simpa [restore] using h.nodup
      | some a =>
          have h := ih (heap.alloc (App.ofRecord a))
          have hnext := Nat.lt_of_succ_le h.next_le
          constructor
          · apply Nat.le_of_lt hnext
          · intro r hr
            apply Eq.trans (h.old r (Nat.lt_succ_of_lt hr))
            apply heap.get_alloc_of_lt hr
          · simp only [restore, List.map_cons, Option.map_some, h.values]
            rw [h.old heap.next (Nat.lt_succ_self _), heap.get_alloc_next]
          · intro r hr
            rcases List.mem_cons.mp hr with heq | hr
            · cases heq
              exact ⟨le_refl _, hnext⟩
            · obtain ⟨hle, hlt⟩ := h.fresh r hr
              exact ⟨Nat.le_of_succ_le hle, hlt⟩
          · simp only [restore, List.reduceOption_cons_of_some]
            apply List.nodup_cons.mpr
            constructor
            · intro hmem
              have hle := (h.fresh heap.next (List.reduceOption_mem_iff.mp hmem)).1
              apply Nat.not_succ_le_self _ hle
            · apply h.nodup

/-- The entries created for records have the values of the records. -/
theorem Restored.get_eq {heap heap' : Heap App} {rs : List (Option Record)}
    {apps : List (Option Ref)} (h : Restored heap rs heap' apps) {r : Ref}
    (hr : r ∈ apps.reduceOption) :
  ∃ a, some a ∈ rs ∧ heap'.get r = App.ofRecord a
  := by
  have hmem := List.mem_map_of_mem (f := Option.map heap'.get) (List.reduceOption_mem_iff.mp hr)
  rw [h.values] at hmem
  obtain ⟨o, ho, heq⟩ := List.mem_map.mp hmem
  obtain ⟨a, rfl, ha⟩ := Option.map_eq_some_iff.mp heq
  use a, ho, ha.symm

/-- The timers of new objects do not run. -/
theorem restore_mTimer {heap : Heap App} (h : ∀ r, (heap.get r).mTimer = 0)
    (rs : List (Option Record)) (r : Ref) :
  ((restore heap rs).1.get r).mTimer = 0
  := by
  induction rs generalizing heap with
  | nil => apply h
  | cons o rs ih =>
      cases o with
      | none => apply ih h
      | some a =>
          apply ih
          intro r'
          by_cases hr' : r' = heap.next
          · rw [hr', heap.get_alloc_next]
            rfl
          · rw [heap.get_alloc_of_ne hr']
            apply h

/-- Where no record is null, no entry is null. -/
theorem Restored.eq_map_some {heap heap' : Heap App} {rs : List (Option Record)}
    {apps : List (Option Ref)} (h : Restored heap rs heap' apps) (hrs : none ∉ rs) :
  apps = apps.reduceOption.map some
  := by
  have happs : none ∉ apps := by
    intro hn
    have hmem := List.mem_map_of_mem (f := Option.map heap'.get) hn
    rw [h.values] at hmem
    obtain ⟨o, ho, heq⟩ := List.mem_map.mp hmem
    rw [Option.map_none, Option.map_eq_none_iff] at heq
    apply hrs
    rw [← heq]
    apply ho
  clear h
  induction apps with
  | nil => rfl
  | cons a apps ih =>
      cases a with
      | none => exact absurd List.mem_cons_self happs
      | some r =>
          rw [List.reduceOption_cons_of_some, List.map_cons, ← ih]
          intro hn
          apply happs (List.mem_cons_of_mem _ hn)

/-- The entries created for a list of records are not null. -/
theorem restore_eq_map_some (heap : Heap App) (rs : List Record) :
  (restore heap (rs.map some)).2 = (restore heap (rs.map some)).2.reduceOption.map some
  := by
  apply (restore_spec heap (rs.map some)).eq_map_some
  simp

/-- The entries created for records have these records. -/
theorem Restored.records {heap heap' : Heap App} {rs : List (Option Record)}
    {apps : List (Option Ref)} (h : Restored heap rs heap' apps) :
  apps.map (Option.map (fun r => (heap'.get r).record)) = rs
  := by
  have hrecords := congrArg (List.map (Option.map App.record)) h.values
  rw [List.map_map, List.map_map] at hrecords
  have hleft : ∀ o : Option Ref, Option.map (fun r => (heap'.get r).record) o
      = (Option.map App.record ∘ Option.map heap'.get) o := by
    rintro (_ | r) <;> rfl
  have hright : ∀ o : Option Record, (Option.map App.record ∘ Option.map App.ofRecord) o = o := by
    rintro (_ | a) <;> rfl
  rw [List.map_congr_left (fun o _ => hleft o), hrecords, List.map_congr_left (fun o _ => hright o),
    List.map_id']

/-- The list created for a document has the content of the document. -/
theorem document_ofDocument (heap : Heap App) (doc : Document) :
  (ofDocument heap doc).list.document (ofDocument heap doc).heap = doc
  := by
  obtain ⟨_ | rs⟩ := doc
  · rfl
  · apply congrArg (fun l => (⟨some l⟩ : Document))
    apply (restore_spec heap rs).records

/-- The entries created for a list of records have these records. -/
theorem restore_records (heap : Heap App) (rs : List Record) :
  (restore heap (rs.map some)).2.reduceOption.map
      (fun r => ((restore heap (rs.map some)).1.get r).record) = rs
  := by
  have hrecords := (restore_spec heap (rs.map some)).records
  rw [restore_eq_map_some, List.map_map] at hrecords
  apply List.map_injective_iff.mpr (Option.some_injective Record)
  rw [List.map_map]
  apply hrecords

/-- The objects and the list that are created for the document of a list of records. -/
theorem ofDocument_ofRecords (heap : Heap App) (rs : List Record) :
  ofDocument heap (Document.ofRecords rs)
    = ⟨(restore heap (rs.map some)).1,
        ⟨some ((restore heap (rs.map some)).2.reduceOption.map some)⟩⟩
  := by
  rw [← restore_eq_map_some]
  rfl

/-! ### Infos of installed packages -/

/-- The application, after it has been told the info of its package. -/
def tell (info : String → Option ApplicationInfo) (app : App) : App :=
  match app.packageName.bind info with
  | some i => app.setInfo i
  | none => app

/-- The application has no package, or its package is installed. -/
def installed (info : String → Option ApplicationInfo) (app : App) : Bool :=
  match app.packageName with
  | none => true
  | some pkg => (info pkg).isSome

/-- The heap after some applications have been told the infos of their packages. -/
def tellAll (info : String → Option ApplicationInfo) (heap : Heap App) (refs : List Ref) : Heap App :=
  refs.foldl (fun h r => h.modify r (tell info)) heap

section Tell

variable (info : String → Option ApplicationInfo)

theorem tell_tell (app : App) :
  tell info (tell info app) = tell info app
  := by
  have hname : (tell info app).packageName = app.packageName := by
    rw [tell]
    split <;> rfl
  rw [tell, hname, tell]
  split <;> rfl

theorem get_tellAll (heap : Heap App) (refs : List Ref) (r : Ref) :
  (tellAll info heap refs).get r = if r ∈ refs then tell info (heap.get r) else heap.get r
  := heap.get_foldl_modify (tell_tell info) refs r

/-- A field other than the info is not changed. -/
theorem tellAll_field {β : Type} (field : App → β) (hf : ∀ i a, field (App.setInfo i a) = field a)
    (heap : Heap App) (refs : List Ref) (r : Ref) :
  field ((tellAll info heap refs).get r) = field (heap.get r)
  := by
  rw [get_tellAll]
  split
  · rw [tell]
    split
    · apply hf
    · rfl
  · rfl

@[simp]
theorem tellAll_next (heap : Heap App) (refs : List Ref) :
  (tellAll info heap refs).next = heap.next
  := by
  induction refs generalizing heap with
  | nil => rfl
  | cons r refs ih => apply ih

theorem tellAll_packageName (heap : Heap App) (refs : List Ref) (r : Ref) :
  ((tellAll info heap refs).get r).packageName = (heap.get r).packageName
  := tellAll_field info App.packageName (fun _ _ => rfl) heap refs r

theorem tellAll_installed (heap : Heap App) (refs : List Ref) (r : Ref) :
  installed info ((tellAll info heap refs).get r) = installed info (heap.get r)
  := by
  rw [installed, tellAll_packageName, installed]

end Tell

/-! ### Sorting -/

/-- The records of the entries of a list. -/
def entries (heap : Heap App) (apps : List (Option Ref)) : List (Option Record) :=
  apps.map (Option.map (fun r => (heap.get r).record))

/-- The sort does not throw an `IllegalArgumentException` because of the launch counts of the
entries. -/
def accepts (sorter : Sorter) (entries : List (Option Record)) : Bool :=
  sorter.accepts (fun a b => b.launchCount - a.launchCount) entries

theorem accepts_of_short (sorter : Sorter) {entries : List (Option Record)}
    (h : entries.length < minMerge) :
  accepts sorter entries = true
  := sorter.accepts_of_short h

theorem accepts_nil (sorter : Sorter) :
  accepts sorter [] = true
  := accepts_of_short sorter (by decide)

/-- The entries as they are after the sort. -/
def sorted (sorter : Sorter) (heap : Heap App) (refs : List Ref) : List Ref :=
  match sorter.sort (fun a b => (heap.get a).compareTo (heap.get b)) (refs.map some) with
  | .ok apps => apps.reduceOption
  | .error _ => refs

/-- The entries that have been created for a list of records. -/
theorem entries_restore (heap : Heap App) (rs : List Record) :
  entries (restore heap (rs.map some)).1
    ((restore heap (rs.map some)).2.reduceOption.map some) = rs.map some
  := by
  rw [← restore_eq_map_some]
  apply (restore_spec heap (rs.map some)).records

section Resort

variable (sorter : Sorter) (heap : Heap App)

/-- Whether the sort throws depends on the records of the entries only. -/
theorem accepts_entries (apps : List (Option Ref)) :
  accepts sorter (entries heap apps)
    = sorter.accepts (fun a b => (heap.get a).compareTo (heap.get b)) apps
  := sorter.accepts_map (fun r => (heap.get r).record) _ apps

theorem sorted_perm (refs : List Ref) :
  (sorted sorter heap refs).Perm refs
  := by
  rw [sorted]
  cases hsort : sorter.sort (fun a b => (heap.get a).compareTo (heap.get b)) (refs.map some) with
  | error e => apply List.Perm.refl
  | ok apps =>
      have hout := sorter.outcome (fun a b => (heap.get a).compareTo (heap.get b)) (refs.map some)
      rw [hsort] at hout
      have hperm : apps.reduceOption.Perm (refs.map some).reduceOption := hout.1.filterMap id
      rw [reduceOption_map_some] at hperm
      apply hperm

/-- What `resort` does is what the sort does. -/
theorem resort_apply (apps : List (Option Ref)) :
  resort sorter ⟨heap, ⟨some apps⟩⟩
    = match sorter.sort (fun a b => (heap.get a).compareTo (heap.get b)) apps with
      | .ok apps' => .ok () ⟨heap, ⟨some apps'⟩⟩
      | .error e => .error e ⟨heap, ⟨some apps⟩⟩
  := by
  rw [resort, getApps]
  simp only [Java.bind_apply, Java.get_apply, Java.deref_some, Java.pure_apply, collectionsSort]
  cases sorter.sort (fun a b => (heap.get a).compareTo (heap.get b)) apps <;> rfl

variable {sorter heap}

/-- A list without nulls is sorted if the sort accepts its counts. -/
theorem resort_of_accepts {refs : List Ref}
    (h : accepts sorter (entries heap (refs.map some)) = true) :
  resort sorter ⟨heap, ⟨some (refs.map some)⟩⟩
    = .ok () ⟨heap, ⟨some ((sorted sorter heap refs).map some)⟩⟩
  := by
  rw [accepts_entries] at h
  obtain ⟨refs', hsort, -, -⟩ := sorter.exists_sorted h
  rw [resort_apply, sorted, hsort]
  simp only [reduceOption_map_some]

/-- If the sort does not accept the counts, the list stays as it is. -/
theorem resort_of_refuses {apps : List (Option Ref)}
    (h : accepts sorter (entries heap apps) = false) :
  resort sorter ⟨heap, ⟨some apps⟩⟩ = .error .illegalArgument ⟨heap, ⟨some apps⟩⟩
  := by
  rw [accepts_entries] at h
  rw [resort_apply, sorter.sort_of_not_accepts h]

/-- Whenever `resort` returns, the sort has accepted the counts, and it leaves the sorted list. -/
theorem resort_eq_ok_iff {refs : List Ref} {t : Apps} :
  resort sorter ⟨heap, ⟨some (refs.map some)⟩⟩ = .ok () t
    ↔ accepts sorter (entries heap (refs.map some)) = true ∧
      t = ⟨heap, ⟨some ((sorted sorter heap refs).map some)⟩⟩
  := by
  cases h : accepts sorter (entries heap (refs.map some)) with
  | false =>
      rw [resort_of_refuses h]
      simp
  | true =>
      rw [resort_of_accepts h]
      constructor
      · rintro ⟨⟩
        exact ⟨rfl, rfl⟩
      · rintro ⟨-, rfl⟩
        rfl

/-- A list with a null is not sorted, unless the null is its only entry. -/
theorem resort_null {apps : List (Option Ref)} (h : none ∈ apps) :
  resort sorter ⟨heap, ⟨some apps⟩⟩
    = if apps.length < 2 then .ok () ⟨heap, ⟨some apps⟩⟩
      else .error (if accepts sorter (entries heap apps) then .nullPointer else .illegalArgument)
        ⟨heap, ⟨some apps⟩⟩
  := by
  have hsort := sorter.sort_null (fun a b => (heap.get a).compareTo (heap.get b)) h
  rw [resort_apply, accepts_entries]
  split at hsort
  · rename_i hlen
    rw [hsort, if_pos hlen]
  · rename_i hlen
    rw [hsort, if_neg hlen]

end Resort

/-! ### The loop of `setContext` -/

section Loop

variable (info : String → Option ApplicationInfo)

/-- The entries whose packages are installed are told their infos, one after the other. -/
theorem setContextLoop_append {heap : Heap App} {refs : List Ref}
    (h : ∀ r ∈ refs, installed info (heap.get r) = true) (cursor : ℕ) (apps : List (Option Ref))
    (l : AppList) :
  setContextLoop info cursor (refs.map some ++ apps) ⟨heap, l⟩
    = setContextLoop info (cursor + refs.length) apps ⟨tellAll info heap refs, l⟩
  := by
  induction refs generalizing heap cursor with
  | nil => rfl
  | cons r refs ih =>
      have hr := h r List.mem_cons_self
      have hrest : ∀ r' ∈ refs, installed info ((heap.modify r (tell info)).get r') = true := by
        intro r' hr'
        apply Eq.trans (tellAll_installed info heap [r] r')
        apply h r' (List.mem_cons_of_mem _ hr')
      have ih := ih hrest (cursor + 1)
      rw [List.map_cons, List.cons_append, setContextLoop, Java.deref_some,
        Java.bind_of_ok (Java.pure_apply r _), Java.bind_of_ok (Java.get_apply _), List.length_cons,
        Nat.add_comm refs.length, ← Nat.add_assoc]
      apply Eq.trans _ ih
      cases hp : (heap.get r).packageName with
      | none =>
          have hself : heap.modify r (tell info) = heap := by
            apply heap.modify_eq_self
            rw [tell, hp]
            rfl
          simp only
          rw [hself]
      | some pkg =>
          simp only [installed, hp] at hr
          obtain ⟨i, hi⟩ := Option.isSome_iff_exists.mp hr
          have hcongr : heap.modify r (App.setInfo i) = heap.modify r (tell info) := by
            apply heap.modify_congr
            rw [tell, hp, Option.bind_some, hi]
          simp only [hi]
          rw [Java.bind_of_ok (Java.modify_apply _ _), hcongr]

/-- Every list begins with entries whose packages are installed, and then it ends, or an entry
is null, or an entry's package is not installed. -/
theorem exists_installed_prefix (heap : Heap App) (apps : List (Option Ref)) :
  ∃ refs : List Ref, (∀ r ∈ refs, installed info (heap.get r) = true) ∧
    (apps = refs.map some ∨ (∃ rest, apps = refs.map some ++ none :: rest) ∨
      ∃ r rest, installed info (heap.get r) = false ∧ apps = refs.map some ++ some r :: rest)
  := by
  induction apps with
  | nil =>
      use []
      simp
  | cons a apps ih =>
      cases a with
      | none =>
          use []
          simp
      | some r =>
          by_cases hr : installed info (heap.get r) = true
          · obtain ⟨refs, hrefs, h⟩ := ih
            use r :: refs
            constructor
            · intro r' hr'
              rcases List.mem_cons.mp hr' with rfl | hr'
              · apply hr
              · apply hrefs r' hr'
            · rcases h with rfl | ⟨rest, rfl⟩ | ⟨r', rest, hr', rfl⟩
              · left
                rfl
              · right
                left
                use rest
                rfl
              · right
                right
                use r', rest, hr'
                rfl
          · use []
            have hr : installed info (heap.get r) = false := by simpa using hr
            refine ⟨by simp, Or.inr (Or.inr ⟨r, apps, hr, rfl⟩)⟩

variable {info} {sorter : Sorter}

/-- Telling infos does not change the records. -/
theorem entries_tellAll (heap : Heap App) (refs : List Ref) (apps : List (Option Ref)) :
  entries (tellAll info heap refs) apps = entries heap apps
  := by
  apply List.map_congr_left
  intro app _
  apply congrArg (fun f => Option.map f app)
  funext r
  apply tellAll_field info App.record (fun _ _ => rfl)

/-- `setContext` on a list whose packages are installed. -/
theorem setContext_eq_resort {heap : Heap App} {refs : List Ref}
    (h : ∀ r ∈ refs, installed info (heap.get r) = true) :
  setContext sorter info ⟨heap, ⟨some (refs.map some)⟩⟩
    = resort sorter ⟨tellAll info heap refs, ⟨some (refs.map some)⟩⟩
  := by
  have hloop := setContextLoop_append info h 0 [] ⟨some (refs.map some)⟩
  rw [List.append_nil] at hloop
  cases refs with
  | nil =>
      have hnil : accepts sorter (entries heap (([] : List Ref).map some)) = true :=
        accepts_nil sorter
      have hperm := (sorted_perm sorter heap []).eq_nil
      apply Eq.trans _ (resort_of_accepts hnil).symm
      rw [hperm]
      rfl
  | cons r refs =>
      rw [setContext, getApps]
      simp only [Java.bind_apply, Java.get_apply, Java.deref_some, Java.pure_apply, List.map_cons,
        List.isEmpty_cons, Bool.not_false, if_true]
      simp only [List.map_cons] at hloop
      rw [hloop]
      rfl

/-- `setContext` on a list whose packages are installed, if the sort accepts it. -/
theorem setContext_installed {heap : Heap App} {refs : List Ref}
    (h : ∀ r ∈ refs, installed info (heap.get r) = true)
    (hsort : accepts sorter (entries heap (refs.map some)) = true) :
  setContext sorter info ⟨heap, ⟨some (refs.map some)⟩⟩
    = .ok () ⟨tellAll info heap refs,
        ⟨some ((sorted sorter (tellAll info heap refs) refs).map some)⟩⟩
  := by
  rw [setContext_eq_resort h]
  apply resort_of_accepts
  rw [entries_tellAll]
  apply hsort

/-- `setContext` on a list whose packages are installed, if the sort throws. -/
theorem setContext_refused {heap : Heap App} {refs : List Ref}
    (h : ∀ r ∈ refs, installed info (heap.get r) = true)
    (hsort : accepts sorter (entries heap (refs.map some)) = false) :
  setContext sorter info ⟨heap, ⟨some (refs.map some)⟩⟩
    = .error .illegalArgument ⟨tellAll info heap refs, ⟨some (refs.map some)⟩⟩
  := by
  rw [setContext_eq_resort h]
  apply resort_of_refuses
  rw [entries_tellAll]
  apply hsort

/-- `setContext` on a list with a null. -/
theorem setContext_null {heap : Heap App} {refs : List Ref}
    (h : ∀ r ∈ refs, installed info (heap.get r) = true) (rest : List (Option Ref)) :
  setContext sorter info ⟨heap, ⟨some (refs.map some ++ none :: rest)⟩⟩
    = .error .nullPointer ⟨tellAll info heap refs, ⟨some (refs.map some ++ none :: rest)⟩⟩
  := by
  have hne : (refs.map some ++ none :: rest).isEmpty = false := by simp
  rw [setContext, getApps]
  simp only [Java.bind_apply, Java.get_apply, Java.deref_some, Java.pure_apply, hne, Bool.not_false,
    if_true]
  rw [setContextLoop_append info h]
  rfl

/-- An entry whose package is not installed is none of the entries before. -/
theorem not_mem_of_installed {heap : Heap App} {refs : List Ref}
    (hrefs : ∀ r ∈ refs, installed info (heap.get r) = true) {r : Ref}
    (hr : installed info (heap.get r) = false) :
  r ∉ refs
  := by
  intro hmem
  rw [hrefs r hmem] at hr
  cases hr

/-- `setContext` on a list with an entry whose package is not installed.  The entry is
removed, and the iterator sees that the list has changed unless exactly one entry follows. -/
theorem setContext_uninstalled {heap : Heap App} {refs : List Ref}
    (h : ∀ r ∈ refs, installed info (heap.get r) = true) {r : Ref}
    (hr : installed info (heap.get r) = false) (hmem : r ∉ refs) (rest : List (Option Ref)) :
  setContext sorter info ⟨heap, ⟨some (refs.map some ++ some r :: rest)⟩⟩
    = if rest.length = 1 then
        resort sorter ⟨tellAll info heap refs, ⟨some (refs.map some ++ rest)⟩⟩
      else
        .error .concurrentModification
          ⟨tellAll info heap refs, ⟨some (refs.map some ++ rest)⟩⟩
  := by
  have hne : (refs.map some ++ some r :: rest).isEmpty = false := by simp
  have herase : (refs.map some ++ some r :: rest).erase (some r) = refs.map some ++ rest := by
    rw [List.erase_append_right, List.erase_cons_head]
    simpa using hmem
  have hpkg := tellAll_packageName info heap refs r
  obtain ⟨pkg, hp, hi⟩ : ∃ pkg, (heap.get r).packageName = some pkg ∧ info pkg = none := by
    rw [installed] at hr
    split at hr
    · cases hr
    · rename_i pkg hp
      use pkg, hp
      simpa using hr
  rw [hp] at hpkg
  rw [setContext, getApps]
  simp only [Java.bind_apply, Java.get_apply, Java.deref_some, Java.pure_apply, hne, Bool.not_false,
    if_true]
  rw [setContextLoop_append info h]
  simp only [setContextLoop, Java.bind_apply, Java.get_apply, Java.deref_some, Java.pure_apply, hpkg,
    hi, removeApp, getApps, setApps, Java.modify_apply, herase, List.length_append, List.length_map]
  by_cases hlen : rest.length = 1
  · simp [hlen]
  · have hlen' : ¬ (0 + refs.length + 1 = refs.length + rest.length) := by omega
    rw [if_neg hlen, if_neg hlen']
    rfl

/-- `setContext` on a list whose next to last entry is the first one whose package is not
installed.  The last entry is not told its info. -/
theorem setContext_next_to_last {heap : Heap App} {refs : List Ref}
    (h : ∀ r ∈ refs, installed info (heap.get r) = true) {r : Ref}
    (hr : installed info (heap.get r) = false) (last : Ref) :
  setContext sorter info ⟨heap, ⟨some (refs.map some ++ [some r, some last])⟩⟩
    = resort sorter ⟨tellAll info heap refs, ⟨some ((refs ++ [last]).map some)⟩⟩
  := by
  have happs : refs.map some ++ [some last] = (refs ++ [last]).map some := by
    rw [List.map_append]
    rfl
  rw [setContext_uninstalled h hr (not_mem_of_installed h hr), if_pos List.length_singleton, happs]

/-- No timer runs, and the entries of the list have been created. -/
def Quiet (t : Apps) : Prop :=
  (∀ r, (t.heap.get r).mTimer = 0) ∧
    ∀ apps, t.list.apps = some apps → ∀ r, some r ∈ apps → r < t.heap.next

theorem Quiet.tellAll {heap : Heap App} {apps apps' : List (Option Ref)}
    (h : Quiet ⟨heap, ⟨some apps⟩⟩) (hsub : apps' ⊆ apps) (refs : List Ref) :
  Quiet ⟨AppList.tellAll info heap refs, ⟨some apps'⟩⟩
  := by
  constructor
  · intro r
    apply Eq.trans (tellAll_field info App.mTimer (fun _ _ => rfl) heap refs r)
    apply h.1
  · rintro _ ⟨⟩ r hr
    rw [tellAll_next]
    apply h.2 apps rfl r (hsub hr)

theorem keeps_resort : Java.Keeps Quiet (resort sorter) := by
  rintro ⟨heap, ⟨_ | apps⟩⟩ hq
  · apply hq
  · have hout := sorter.outcome (fun a b => (heap.get a).compareTo (heap.get b)) apps
    rw [resort_apply]
    cases hsort : sorter.sort (fun a b => (heap.get a).compareTo (heap.get b)) apps with
    | error e => apply hq
    | ok apps' =>
        rw [hsort] at hout
        use hq.1
        rintro _ ⟨⟩ r hr
        apply hq.2 _ rfl
        apply hout.1.subset hr

/-- `setContext` starts no timer and adds no entry. -/
theorem keeps_setContext : Java.Keeps Quiet (setContext sorter info) := by
  rintro ⟨heap, ⟨_ | apps⟩⟩ hq
  · apply hq
  · obtain ⟨refs, hrefs, h | ⟨rest, h⟩ | ⟨r, rest, hr, h⟩⟩ := exists_installed_prefix info heap apps
    · rw [h] at hq ⊢
      rw [setContext_eq_resort hrefs]
      apply keeps_resort
      apply hq.tellAll
      apply List.Subset.refl
    · rw [h] at hq ⊢
      rw [setContext_null hrefs]
      apply hq.tellAll
      apply List.Subset.refl
    · rw [h] at hq ⊢
      rw [setContext_uninstalled hrefs hr (not_mem_of_installed hrefs hr)]
      have hq' : Quiet ⟨AppList.tellAll info heap refs, ⟨some (refs.map some ++ rest)⟩⟩ := by
        apply hq.tellAll
        apply List.append_subset.mpr
        constructor
        · apply List.subset_append_left
        · apply List.subset_append_of_subset_right
          apply List.subset_cons_self
      by_cases hlen : rest.length = 1
      · rw [if_pos hlen]
        apply keeps_resort _ hq'
      · rw [if_neg hlen]
        apply hq'

end Loop

end AppList
