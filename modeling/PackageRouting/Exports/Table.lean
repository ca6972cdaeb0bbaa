/-
PackageRouting/Exports/Table.lean

The routing table of a package: destination, then condition, then target.

A destination is either a text that is taken as it is or a pattern, and a target
is a path or a pattern that the wildcard's text is put into.  Of several targets
for one destination and condition the first stays.
-/
import PackageRouting.Condition
import PackageRouting.Json.Value
import PackageRouting.Pattern
import PackageRouting.SortedMap

namespace PackageRouting

/-- Where an export leads. -/
inductive Target where
  | path (path : Path)
  | pattern (pattern : Pattern)
  deriving DecidableEq, Repr

namespace Target

/-- A target with single slashes. -/
def text : Target → String
  | path p => p.toSlash
  | pattern p => p.text

end Target

/-- The targets of one destination. -/
abbrev Entry := SortedMap Condition Target

namespace Entry

/-- The entry of a list of targets, of which the first under each condition counts. -/
def ofList (targets : List (Condition × Target)) : Entry :=
  targets.foldl (fun e t => e.insertNew t.1 t.2) .empty

/-- Adds the targets of another entry under the conditions that have none. -/
def merge (e other : Entry) : Entry :=
  other.entries.foldl (fun e t => e.insertNew t.1 t.2) e

end Entry

/-- A package's routing table. -/
structure ExportsTable where
  exact : SortedMap String Entry := .empty
  patterns : SortedMap Pattern Entry := .empty
  deriving DecidableEq, Inhabited

namespace ExportsTable

def isEmpty (t : ExportsTable) : Bool := t.exact.isEmpty && t.patterns.isEmpty

/-- Adds the targets of a destination that is taken as it is. -/
def addExact (t : ExportsTable) (destination : String) (entry : Entry) : ExportsTable :=
  if entry.isEmpty then t
  else { t with exact := t.exact.alter destination fun old => (old.getD .empty).merge entry }

/-- Adds the targets of a destination pattern. -/
def addPattern (t : ExportsTable) (destination : Pattern) (entry : Entry) : ExportsTable :=
  if entry.isEmpty then t
  else { t with patterns := t.patterns.alter destination fun old => (old.getD .empty).merge entry }

/-! ### As JSON -/

/-- The targets under the keys of their conditions. -/
def entryJson (e : Entry) : Json :=
  .object (e.entries.map fun (condition, target) => (condition.key, .string target.text))

/-- The table as it is shown to other programs. -/
def toJson (t : ExportsTable) : Json :=
  .object [
    ("exact", .object (t.exact.entries.map fun (d, e) => (d, entryJson e))),
    ("patterns", .object (t.patterns.entries.map fun (d, e) => (d.text, entryJson e)))]

end ExportsTable

end PackageRouting
