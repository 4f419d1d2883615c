import Applogr.Core.App

/-!
# The save file

The save file holds the JSON text of an `AppList`.  The library that writes and reads it
is not part of the repository; it is a parameter, and `Gson.Documented` states what the
program relies on.  A `Document` is what a text says about an `AppList`: its list of
applications may be null, and so may be the entries of the list and their packages.
-/

/-- The characters of a file. -/
abbrev Text : Type := List Char

/-- The content of an `AppList`, with the fields which are not transient. -/
structure Document where
  apps : Option (List (Option Record))
deriving DecidableEq, Repr

/-- The exceptions of `fromJson`. -/
inductive JsonException where
  | syntaxError
  | ioError
deriving DecidableEq, Repr

/-- The library that converts between objects and their JSON texts. -/
structure Gson where
  toJson : Document → Text
  fromJson : Text → Except JsonException (Option Document)

/-- The document of a list of records, without nulls in the list. -/
def Document.ofRecords (rs : List Record) : Document := ⟨some (rs.map some)⟩

/-- Every record of the list has a package. -/
def Named (rs : List Record) : Prop := ∀ r ∈ rs, r.packageName ≠ none

/-- What the program relies on.  A document with a list is restored from its text.  The
empty text and the text `null` give null, and a text which ends within the text of a
document is malformed. -/
structure Gson.Documented (g : Gson) : Prop where
  restores : ∀ apps, g.fromJson (g.toJson ⟨some apps⟩) = .ok (some ⟨some apps⟩)
  fromJson_empty : g.fromJson [] = .ok none
  fromJson_null : g.fromJson "null".toList = .ok none
  truncated : ∀ apps t, t <+: g.toJson ⟨some apps⟩ → t ≠ [] → t ≠ g.toJson ⟨some apps⟩ →
    ∃ e, g.fromJson t = .error e

/-- No document is read from the text. -/
def Gson.GivesNothing (g : Gson) (t : Text) : Prop :=
  g.fromJson t = .ok none ∨ ∃ e, g.fromJson t = .error e

/-- No document is read from a text which ends within the text of a document. -/
theorem Gson.Documented.givesNothing {g : Gson} (hg : g.Documented) {apps : List (Option Record)}
    {t : Text} (ht : t <+: g.toJson ⟨some apps⟩) (hne : t ≠ g.toJson ⟨some apps⟩) :
  g.GivesNothing t
  := by
  obtain _ | ⟨c, t⟩ := t
  · left
    apply hg.fromJson_empty
  · right
    apply hg.truncated apps _ ht (List.cons_ne_nil c t) hne
