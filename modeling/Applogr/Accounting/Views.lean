import Applogr.Service.Loaded

/-!
# What the service knows about a package

In a service whose list has no two entries of the same package, an app is known by its
package: `timeUsed p` and `launches p` are the time and the count of the app of the package
`p`, and zero if there is none.  At most the timer of the foreground app runs, and `timer`
is what it holds.
-/

/-- The packages whose use is not recorded. -/
def Device.excluded (d : Device) (pkg : String) : Bool :=
  pkg = applogrPackage || pkg = d.homePackage || pkg = systemuiPackage

namespace LogService

variable {s : LogService} {d : Device}

/-- The package of an entry of the list. -/
def packageOf (s : LogService) (r : Ref) : String := ((s.heap.get r).packageName).getD ""

/-- The packages of the list. -/
def packages (s : LogService) : List String := s.refs.map s.packageOf

/-- The list is loaded, its packages are distinct, at most the timer of the foreground app
runs, and the foreground app is not excluded. -/
structure Accounted (d : Device) (s : LogService) : Prop extends Loaded d s where
  distinct : s.packages.Nodup
  running : ∀ r ∈ s.refs, (s.heap.get r).mTimer ≠ 0 → s.mForegroundApp = some r
  tracked : ∀ f, s.mForegroundApp = some f → d.excluded (s.packageOf f) = false

/-- The object of the app of a package. -/
def appOf (s : LogService) (pkg : String) : Option App := (s.lookup pkg).map s.heap.get

/-- The time for which a package was used. -/
def timeUsed (s : LogService) (pkg : String) : Int64 := ((s.appOf pkg).map App.timeUsedMs).getD 0

/-- The launch count of a package. -/
def launches (s : LogService) (pkg : String) : Int32 := ((s.appOf pkg).map App.launchCount).getD 0

/-- The package of the foreground app. -/
def foregroundPackage (s : LogService) : Option String := s.mForegroundApp.map s.packageOf

/-- What the timer of the foreground app holds. -/
def timer (s : LogService) : Int64 := (s.mForegroundApp.map (fun f => (s.heap.get f).mTimer)).getD 0

/-- An event of the package stops the timer of the foreground app. -/
def Stops (s : LogService) (pkg : String) : Prop := s.timer ≠ 0 ∧ s.foregroundPackage ≠ some pkg

instance (pkg : String) : Decidable (s.Stops pkg) := inferInstanceAs (Decidable (_ ∧ _))

theorem Loaded.isExcluded (hs : s.Loaded d) (pkg : String) :
  s.isExcluded pkg = d.excluded pkg
  := by
  simp [LogService.isExcluded, Device.excluded, hs.launcher]

/-! ### Lookup -/

theorem Loaded.packageName_eq (hs : s.Loaded d) {r : Ref} (hr : r ∈ s.refs) :
  (s.heap.get r).packageName = some (s.packageOf r)
  := by
  obtain ⟨name, hname⟩ := Option.ne_none_iff_exists'.mp (hs.named r hr)
  rw [packageOf, hname, Option.getD_some]

theorem packageOf_lookup {pkg : String} {r : Ref} (h : s.lookup pkg = some r) :
  s.packageOf r = pkg
  := by
  rw [packageOf, (lookup_eq_some h).2, Option.getD_some]

/-- With distinct packages, the entry that is found for the package of an entry is that
entry. -/
theorem lookup_of_mem (hs : s.Loaded d) (hd : s.packages.Nodup) {r : Ref} (hr : r ∈ s.refs) :
  s.lookup (s.packageOf r) = some r
  := by
  cases h : s.lookup (s.packageOf r) with
  | none => exact absurd (hs.packageName_eq hr) (lookup_eq_none.mp h r hr)
  | some r' =>
      congr 1
      apply List.inj_on_of_nodup_map hd (lookup_eq_some h).1 hr
      apply packageOf_lookup h

theorem Accounted.lookup_eq_some_iff (hs : s.Accounted d) {pkg : String} {r : Ref} :
  s.lookup pkg = some r ↔ r ∈ s.refs ∧ s.packageOf r = pkg
  := by
  constructor
  · intro h
    exact ⟨(lookup_eq_some h).1, packageOf_lookup h⟩
  · rintro ⟨hr, rfl⟩
    apply lookup_of_mem hs.toLoaded hs.distinct hr

/-- The packages of the list are those of which an entry is found. -/
theorem Loaded.mem_packages (hs : s.Loaded d) {pkg : String} :
  pkg ∈ s.packages ↔ s.lookup pkg ≠ none
  := by
  rw [Ne, lookup_eq_none, packages, List.mem_map]
  constructor
  · rintro ⟨r, hr, rfl⟩ h
    apply h r hr (hs.packageName_eq hr)
  · intro h
    by_contra hn
    apply h
    intro r hr hp
    apply hn
    use r, hr
    rw [packageOf, hp, Option.getD_some]

/-! ### The foreground app -/

theorem timer_of_foreground {f : Ref} (hf : s.mForegroundApp = some f) :
  s.timer = (s.heap.get f).mTimer
  := by
  rw [timer, hf, Option.map_some, Option.getD_some]

theorem foregroundPackage_of_foreground {f : Ref} (hf : s.mForegroundApp = some f) :
  s.foregroundPackage = some (s.packageOf f)
  := by
  rw [foregroundPackage, hf, Option.map_some]

end LogService
