import Applogr.Accounting.History

/-!
# Services with the same accounts

Two services have the same accounts if they know the same about the packages and about the
foreground app, whatever the order of their lists and whatever is in their save files.  The
same events keep the accounts of two services the same, and preparing the list does not change
the accounts.
-/

namespace LogService

variable {d : Device} {s t : LogService}

/-- The services know the same about the packages, in lists that may be ordered differently. -/
structure SameAccounts (s t : LogService) : Prop where
  readings : s.readings = t.readings
  foreground : s.foregroundPackage = t.foregroundPackage
  timer : s.timer = t.timer
  packages : s.packages.Perm t.packages
  timeUsed : ∀ q, s.timeUsed q = t.timeUsed q
  launches : ∀ q, s.launches q = t.launches q

theorem SameAccounts.refl (s : LogService) :
  SameAccounts s s
  := ⟨rfl, rfl, rfl, List.Perm.refl _, fun _ => rfl, fun _ => rfl⟩

theorem SameAccounts.symm (h : SameAccounts s t) :
  SameAccounts t s
  := ⟨h.readings.symm, h.foreground.symm, h.timer.symm, h.packages.symm,
    fun q => (h.timeUsed q).symm, fun q => (h.launches q).symm⟩

theorem SameAccounts.trans {u : LogService} (h : SameAccounts s t) (h' : SameAccounts t u) :
  SameAccounts s u
  := by
  constructor
  · rw [h.readings, h'.readings]
  · rw [h.foreground, h'.foreground]
  · rw [h.timer, h'.timer]
  · apply h.packages.trans h'.packages
  · intro q
    rw [h.timeUsed, h'.timeUsed]
  · intro q
    rw [h.launches, h'.launches]

/-- The accounts depend on the objects, the list, the foreground app and the readings only. -/
theorem sameAccounts_of_eq (hheap : s.heap = t.heap) (hlist : s.mAppList = t.mAppList)
    (hforeground : s.mForegroundApp = t.mForegroundApp) (hreadings : s.readings = t.readings) :
  SameAccounts s t
  := by
  cases s
  cases t
  cases hheap
  cases hlist
  cases hforeground
  cases hreadings
  exact ⟨rfl, rfl, rfl, List.Perm.refl _, fun _ => rfl, fun _ => rfl⟩

/-- An event keeps the accounts the same. -/
theorem SameAccounts.handled (h : SameAccounts s t) (hs : s.Accounted d) (ht : t.Accounted d)
    (p : String) (kind : EventKind) :
  SameAccounts (LogService.handled d p kind s) (LogService.handled d p kind t)
  := by
  have hes := hs.effect p kind
  have het := ht.effect p kind
  have hstops : s.Stops p ↔ t.Stops p := by
    rw [Stops, Stops, h.timer, h.foreground]
  have hmem : p ∈ s.packages ↔ p ∈ t.packages := h.packages.mem_iff
  have hreadings : (LogService.handled d p kind s).readings
      = (LogService.handled d p kind t).readings := by
    rw [hes.readings, het.readings, h.readings]
    simp only [hstops]
  constructor
  · apply hreadings
  · rw [hes.foreground, het.foreground, h.foreground]
  · rw [hes.timer, het.timer, h.timer, hreadings]
    simp only [hstops]
  · rw [hes.packages, het.packages]
    simp only [hmem]
    split
    · apply h.packages
    · apply h.packages.append_right
  · intro q
    rw [hes.timeUsed, het.timeUsed, h.timeUsed, h.foreground, h.readings, h.timer]
    simp only [hstops]
  · intro q
    rw [hes.launches, het.launches, h.launches, h.foreground]
    simp only [hmem]

/-- A sequence of events keeps the accounts the same. -/
theorem SameAccounts.handledAll (h : SameAccounts s t) (hs : s.Accounted d) (ht : t.Accounted d)
    (ls : List (EventLine d.offset)) :
  SameAccounts (LogService.handledAll d ls s) (LogService.handledAll d ls t)
  := by
  induction ls using List.reverseRecOn with
  | nil => apply h
  | append_singleton ls l ih =>
      rw [handledAll_concat, handledAll_concat]
      apply ih.handled (hs.handledAll ls) (ht.handledAll ls)

/-- Before an app is in the foreground, an event of an excluded package only saves the list. -/
theorem Loaded.handled_excluded (hs : s.Loaded d) (hf : s.mForegroundApp = none) {p : String}
    (hp : d.excluded p = true) (kind : EventKind) :
  LogService.handled d p kind s = LogService.saved d s
  := by
  rw [LogService.handled, hs.isExcluded, if_pos hp, LogService.stopFor, hf]

/-- Before an app is in the foreground, the events of excluded packages do not change the
accounts. -/
theorem Loaded.sameAccounts_excluded (hs : s.Loaded d) (hf : s.mForegroundApp = none)
    {ls : List (EventLine d.offset)} (hls : ∀ l ∈ ls, d.excluded l.package = true) :
  SameAccounts (LogService.handledAll d ls s) s
  := by
  induction ls generalizing s with
  | nil => apply SameAccounts.refl
  | cons l ls ih =>
      have hsave := hs.handled_excluded hf (hls l List.mem_cons_self) l.kind
      have hsaved : SameAccounts (LogService.saved d s) s := sameAccounts_of_eq rfl rfl rfl rfl
      have ih := ih hs.saved hf (fun l' hl' => hls l' (List.mem_cons_of_mem _ hl'))
      rw [LogService.handledAll, List.foldl_cons, hsave]
      apply ih.trans hsaved

/-! ### Preparing the list -/

theorem mem_refs_withContext {r : Ref} :
  r ∈ (withContext d s).refs ↔ r ∈ s.refs
  := by
  rw [refs_withContext]
  apply (AppList.sorted_perm _ _ s.refs).mem_iff

/-- A field of an object other than the info is not changed. -/
theorem withContext_field {β : Type} (field : App → β)
    (hf : ∀ i a, field (App.setInfo i a) = field a) (r : Ref) :
  field ((withContext d s).heap.get r) = field (s.heap.get r)
  := AppList.tellAll_field d.applicationInfo field hf s.heap s.refs r

theorem packageOf_withContext : (withContext d s).packageOf = s.packageOf := by
  funext r
  rw [packageOf, withContext_field App.packageName (fun _ _ => rfl), packageOf]

theorem packages_withContext :
  (withContext d s).packages.Perm s.packages
  := by
  rw [packages, packages, refs_withContext, packageOf_withContext]
  apply (AppList.sorted_perm _ _ s.refs).map

theorem Loaded.withContext (hs : s.Loaded d) :
  (LogService.withContext d s).Loaded d
  := by
  constructor
  · apply hs.pattern
  · apply hs.file
  · apply hs.launcher
  · apply hs.offset
  · rw [refs_withContext]
    rfl
  · intro r hr
    apply lt_of_lt_of_eq (hs.allocated r (mem_refs_withContext.mp hr))
    apply (AppList.tellAll_next d.applicationInfo s.heap s.refs).symm
  · intro r hr
    rw [withContext_field App.packageName (fun _ _ => rfl)]
    apply hs.named r (mem_refs_withContext.mp hr)
  · intro f hf
    apply mem_refs_withContext.mpr
    apply hs.foreground f hf

theorem Accounted.withContext (hs : s.Accounted d) :
  (LogService.withContext d s).Accounted d
  := { hs.toLoaded.withContext with
    distinct := packages_withContext.nodup_iff.mpr hs.distinct
    running := by
      intro r hr ht
      rw [withContext_field App.mTimer (fun _ _ => rfl)] at ht
      apply hs.running r (mem_refs_withContext.mp hr) ht
    tracked := by
      intro f hf
      rw [packageOf_withContext]
      apply hs.tracked f hf }

theorem Accounted.lookup_withContext (hs : s.Accounted d) (q : String) :
  (LogService.withContext d s).lookup q = s.lookup q
  := by
  apply Option.ext
  intro r
  rw [hs.withContext.lookup_eq_some_iff, hs.lookup_eq_some_iff, mem_refs_withContext,
    packageOf_withContext]

/-- Preparing the list does not change the accounts. -/
theorem Accounted.sameAccounts_withContext (hs : s.Accounted d) :
  SameAccounts (LogService.withContext d s) s
  := by
  have happ : ∀ {β : Type} (field : App → β), (∀ i a, field (App.setInfo i a) = field a) → ∀ q,
      ((LogService.withContext d s).appOf q).map field = (s.appOf q).map field := by
    intro β field hf q
    rw [appOf, appOf, hs.lookup_withContext, Option.map_map, Option.map_map]
    congr 1
    funext r
    apply withContext_field field hf
  constructor
  · rfl
  · rw [foregroundPackage, packageOf_withContext]
    rfl
  · rw [timer, timer]
    congr 2
    funext r
    apply withContext_field App.mTimer (fun _ _ => rfl)
  · apply packages_withContext
  · intro q
    rw [timeUsed, timeUsed, happ App.timeUsedMs (fun _ _ => rfl)]
  · intro q
    rw [launches, launches, happ App.launchCount (fun _ _ => rfl)]

end LogService
