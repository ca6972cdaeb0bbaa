/-
PackageRouting/Routing.lean

Which exports claim a source file.

An exact target claims the file that is the same module, and every package may
claim it that way.  Only a file without any exact claim is matched against
patterns, and then the first package with a match takes it alone.  What nobody
claims is shared.

The claims on a file are a function of the packages and the file's path; nothing
here depends on the other files of the pass.
-/
import PackageRouting.Bucket
import PackageRouting.Options
import PackageRouting.Package

namespace PackageRouting

/-- An export's claim on a file. -/
structure Claim where
  destination : String
  condition : Condition
  delivery : Delivery
  deriving DecidableEq, Repr

/-- How the output of a condition runs; none when the condition is not bundled.  `default` is
bundled only as the configuration says. -/
def deliveryFor (fallback : Option DefaultDelivery) : Condition → Option Delivery
  | .importModule => some .module
  | .script => some .nomodule
  | .default =>
    fallback.map fun
      | .importModule => .module
      | .script => .nomodule
  | _ => none

namespace ExportsTable

/-- The destination that an entry of an exact key claims the file for. -/
def exactMatch? (path : Path) (destination : String) : Target → Option String
  | .path target => if path.sameModule target then some destination else none
  | .pattern _ => none

/-- The destination that an entry of a pattern key claims the file for: the wildcard's text is put
into the key. -/
def patternMatch? (path : Path) (destination : Pattern) : Target → Option String
  | .pattern target => (target.captureModule? path.toSlash).map destination.substitute
  | .path target => if path.sameModule target then some destination.text else none

/-- The claims of one destination's targets, given how a target claims the file. -/
def entryClaims (fallback : Option DefaultDelivery) (claim? : Target → Option String)
    (entry : Entry) : List Claim :=
  entry.entries.filterMap fun (condition, target) => do
    let delivery ← deliveryFor fallback condition
    let destination ← claim? target
    return ⟨destination, condition, delivery⟩

/-- The claims of exact destinations on the file at a path. -/
def exactClaims (t : ExportsTable) (fallback : Option DefaultDelivery) (path : Path) :
    List Claim :=
  t.exact.entries.flatMap fun (destination, entry) =>
    entryClaims fallback (exactMatch? path destination) entry

/-- The claims of destination patterns on the file at a path. -/
def patternClaims (t : ExportsTable) (fallback : Option DefaultDelivery) (path : Path) :
    List Claim :=
  t.patterns.entries.flatMap fun (destination, entry) =>
    entryClaims fallback (patternMatch? path destination) entry

end ExportsTable

/-- The lists behind the first one that is not empty are emptied. -/
def keepFirst {α : Type} : List (List α) → List (List α)
  | [] => []
  | [] :: rest => [] :: keepFirst rest
  | l :: rest => l :: rest.map fun _ => []

/-- The claims of each package on the file at a path. -/
def claims (fallback : Option DefaultDelivery) (tables : List ExportsTable) (path : Path) :
    List (List Claim) :=
  let exact := tables.map fun t => t.exactClaims fallback path
  if exact.all List.isEmpty then keepFirst (tables.map fun t => t.patternClaims fallback path)
  else exact

end PackageRouting
