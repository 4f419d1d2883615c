import Applogr.Core.Gson
import Applogr.Foundation.Java
import Applogr.Foundation.Sorter

/-!
# The list of applications

An `AppList` has a list of references to `App` objects.  The list itself and its entries
may be null when they have been read from a file.  The methods run on the objects of the
heap together with one such list.
-/

/-- The class `AppList`. -/
structure AppList where
  apps : Option (List (Option Ref))
deriving DecidableEq, Repr

/-- The objects `App`, and the `AppList` on which a method is called. -/
structure Apps where
  heap : Heap App
  list : AppList

namespace AppList

/-- `AppList()` -/
def new : AppList := ⟨some []⟩

/-- The document that `toJson` writes. -/
def document (heap : Heap App) (l : AppList) : Document :=
  ⟨l.apps.map (List.map (Option.map (fun r => (heap.get r).record)))⟩

/-- The objects that `fromJson` creates for the entries of a document. -/
def restore : Heap App → List (Option Record) → Heap App × List (Option Ref)
  | heap, [] => (heap, [])
  | heap, none :: rs =>
      let (heap', apps) := restore heap rs
      (heap', none :: apps)
  | heap, some r :: rs =>
      let (heap', apps) := restore (heap.alloc (App.ofRecord r)) rs
      (heap', some heap.next :: apps)

/-- The `AppList` that `fromJson` creates. -/
def ofDocument (heap : Heap App) (d : Document) : Apps :=
  match d.apps with
  | none => ⟨heap, ⟨none⟩⟩
  | some rs => ⟨(restore heap rs).1, ⟨some (restore heap rs).2⟩⟩

/-- The field `apps`, when a method calls one of its methods. -/
def getApps : Java Apps (List (Option Ref)) := do
  Java.deref (← get).list.apps

def setApps (apps : List (Option Ref)) : Java Apps Unit :=
  modify (fun s => { s with list := ⟨some apps⟩ })

/-- `app.getPackage().equals(pkg)` -/
def packageEquals (pkg : String) (app : Option Ref) : Java Apps Bool := do
  let r ← Java.deref app
  let name ← Java.deref ((← get).heap.get r).packageName
  pure (name = pkg)

/-- The loop of `getApp`. -/
def getAppLoop (pkg : String) : List (Option Ref) → Java Apps (Option Ref)
  | [] => pure none
  | app :: apps => do
      if ← packageEquals pkg app then
        pure app
      else
        getAppLoop pkg apps

/-- `getApp(pkg)` -/
def getApp (pkg : String) : Java Apps (Option Ref) := do
  getAppLoop pkg (← getApps)

/-- The loop of `hasPackage`. -/
def hasPackageLoop (pkg : String) : List (Option Ref) → Java Apps Bool
  | [] => pure false
  | app :: apps => do
      if ← packageEquals pkg app then
        pure true
      else
        hasPackageLoop pkg apps

/-- `hasPackage(pkg)` -/
def hasPackage (pkg : String) : Java Apps Bool := do
  hasPackageLoop pkg (← getApps)

/-- `addApp(app)` -/
def addApp (app : Ref) : Java Apps Unit := do
  setApps ((← getApps) ++ [some app])

/-- `removeApp(app)`: the first entry that is the same object is removed. -/
def removeApp (app : Ref) : Java Apps Unit := do
  setApps ((← getApps).erase (some app))

/-- `Collections.sort(apps)`, on the platform `sorter`, which compares the entries by `compareTo`.  A
list that is not sorted stays as it is. -/
def collectionsSort (sorter : Sorter) (apps : List (Option Ref)) : Java Apps (List (Option Ref)) := do
  let heap := (← get).heap
  Java.ofExcept (sorter.sort (fun a b => (heap.get a).compareTo (heap.get b)) apps)

/-- `resort()` -/
def resort (sorter : Sorter) : Java Apps Unit := do
  setApps (← collectionsSort sorter (← getApps))

/-- The loop of `setContext` over the entries `apps` from position `cursor` on.  The
iterator compares its cursor with the size of the list, and it throws when it is asked
for the next entry of a list which has been changed by `removeApp`. -/
def setContextLoop (info : String → Option ApplicationInfo) :
    ℕ → List (Option Ref) → Java Apps Unit
  | _, [] => pure ()
  | cursor, app :: apps => do
      let r ← Java.deref app
      match ((← get).heap.get r).packageName with
      | none => setContextLoop info (cursor + 1) apps
      | some pkg =>
          match info pkg with
          | some i => do
              modify (fun s => { s with heap := s.heap.modify r (App.setInfo i) })
              setContextLoop info (cursor + 1) apps
          | none => do
              removeApp r
              if cursor + 1 = (← getApps).length then
                pure ()
              else
                throw .concurrentModification

/-- `setContext(context)`, where `info` is what the package manager of the context knows
about the installed packages. -/
def setContext (sorter : Sorter) (info : String → Option ApplicationInfo) : Java Apps Unit := do
  let apps ← getApps
  if !apps.isEmpty then do
    setContextLoop info 0 apps
    resort sorter

end AppList
