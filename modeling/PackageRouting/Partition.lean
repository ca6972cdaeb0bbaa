/-
PackageRouting/Partition.lean

The partition of a pass: one bucket for each package that the policy admits, and
the shared bucket.

Files are added one after another.  Each goes, by its normal form, into the
buckets of the packages that claim it, or else into the shared bucket.
-/
import PackageRouting.Registry
import PackageRouting.Routing

namespace PackageRouting

/-- The buckets of a pass. -/
structure Partition where
  /-- The packages' buckets, in the order of their manifests. -/
  packages : List Bucket
  shared : Bucket
  /-- Some file of the pass wants a source map; then all do. -/
  sourceMaps : Bool
  deriving DecidableEq, Inhabited

namespace Partition

/-- The packages' buckets and then the shared one. -/
def buckets (p : Partition) : List Bucket := p.packages ++ [p.shared]

/-- The packages of a list with their names; of several with one name the first counts. -/
def firstOfEachName : List Package → List (String × Package)
  | [] => []
  | p :: rest =>
    match p.name with
    | some name => (name, p) :: (firstOfEachName rest).filter (·.1 ≠ name)
    | none => firstOfEachName rest

/-- Adds the claims on a file to a package's bucket. -/
def addClaims (file : SourceFile) (path : Path) (b : Bucket) (claims : List Claim) : Bucket :=
  claims.foldl (fun b c => b.deliver file path c.destination c.condition c.delivery) b

/-- Adds a file, given the packages' tables in the order of the buckets. -/
def addFile (fallback : Option DefaultDelivery) (tables : List ExportsTable) (p : Partition)
    (file : SourceFile) : Partition :=
  let path := file.path.normalize
  let claimed := claims fallback tables path
  { packages := List.zipWith (addClaims file path) p.packages claimed
    shared := if claimed.all List.isEmpty then p.shared.addInput file path else p.shared
    sourceMaps := p.sourceMaps || file.sourceMap }

/-- The partition without any file. -/
def start (names : List String) : Partition where
  packages := names.map fun name => { key := .package name }
  shared := { key := .shared }
  sourceMaps := false

/-- The partition of files among packages with their names. -/
def ofPackages (fallback : Option DefaultDelivery) (packages : List (String × Package))
    (files : List SourceFile) : Partition :=
  files.foldl (addFile fallback (packages.map (·.2.exports))) (start (packages.map (·.1)))

/-- The partition of files among the registered packages that a policy admits. -/
def ofRegistry (r : Registry) (files : List SourceFile) (policy : Policy)
    (fallback : Option DefaultDelivery) : Partition :=
  ofPackages fallback (firstOfEachName (r.eligible policy)) files

/-- The partition as it is shown to other programs. -/
def toJson (p : Partition) : Json :=
  .object [
    ("packages", .array (p.packages.map Bucket.toJson)),
    ("shared", p.shared.toJson),
    ("source_maps", .bool p.sourceMaps)]

end Partition

end PackageRouting
