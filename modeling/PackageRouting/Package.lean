/-
PackageRouting/Package.lean

Packages: what a manifest comes to, with its routing table resolved.
-/
import PackageRouting.Exports.Resolution

namespace PackageRouting

/-- A local package. -/
structure Package where
  /-- Without a name a package is known but never bundled. -/
  name : Option String
  isPrivate : Bool
  moduleType : ModuleType
  exports : ExportsTable
  /-- The directory of the manifest. -/
  root : Path
  deriving DecidableEq, Inhabited

namespace Package

/-- The package of a manifest that lies at a path, and the patterns left out of its table. -/
def ofManifest (m : Manifest) (location : Path) : Package × List PatternShapeError :=
  let root := location.parent?.getD ⟨""⟩
  let resolution := Resolution.ofManifest m root
  ({ name := m.name
     isPrivate := m.isPrivate
     moduleType := m.moduleType
     exports := resolution.table
     root := root },
   resolution.errors)

/-- The package as it is shown to other programs. -/
def toJson (p : Package) : Json :=
  .object [
    ("name", Json.stringOrNull p.name),
    ("private", .bool p.isPrivate),
    ("exports", p.exports.toJson),
    ("root", .string p.root.text)]

end Package

end PackageRouting
