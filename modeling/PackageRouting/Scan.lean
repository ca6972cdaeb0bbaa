/-
PackageRouting/Scan.lean

Finding the manifests and the scripts of a project.

Directories of dependencies and build products, directories whose name starts
with a dot, and the output directory are not entered.  What is found is given
as paths below the root, in path order.
-/
import PackageRouting.Bucket
import PackageRouting.Disk.Script
import PackageRouting.Manifest
import PackageRouting.Path.Module

namespace PackageRouting

/-- What was found below a root. -/
structure SourceSet where
  manifests : List Path := []
  sources : List Path := []
  deriving DecidableEq, Repr, Inhabited

/-- The tree at the root could not be listed. -/
structure ScanError where
  root : Path
  reason : DiskError
  deriving DecidableEq, Repr

namespace ScanError

def code : String := "IO_ERROR"

def message (e : ScanError) : String :=
  "Failed to scan " ++ e.root.text ++ ": IO error for operation on " ++ e.root.text ++ ": " ++
    e.reason.message

end ScanError

namespace SourceSet

/-- The names of directories that are never entered. -/
def skippedNames : List String := ["node_modules", "target"]

/-- The path of a place below the root. -/
def placePath (place : List String) : Path := ⟨"/".intercalate place⟩

/-- Whether the directory at a place below the root is left out.  The output directory may be
given as seen from the root or with the root in front. -/
def isPruned (root outDir : Path) (place : List String) : Bool :=
  let name := place.getLast?.getD ""
  name.toList.head? = some '.' || name ∈ skippedNames ||
    (!outDir.text.isEmpty &&
      (placePath place ≈ outDir || root.join (placePath place) ≈ outDir))

mutual

/-- The places of the files in a listing, whose own place is given. -/
def filePlaces (above : List String) : Listing → List (List String)
  | .file => [above]
  | .link => []
  | .directory entries => entryPlaces above entries

/-- The places of the files in the entries of a directory. -/
def entryPlaces (above : List String) : List (String × Listing) → List (List String)
  | [] => []
  | (name, listing) :: rest => filePlaces (above ++ [name]) listing ++ entryPlaces above rest

end

/-- The name of the file at a place; the root itself has the name that it is given by. -/
def nameAt (root : Path) (place : List String) : String :=
  match place.getLast? with
  | some name => name
  | none => root.fileName?.getD root.text

/-- Paths in path order. -/
def inOrder (paths : List Path) : List Path := paths.mergeSort fun a b => (compare a b).isLE

/-- The manifests and scripts of a listing. -/
def ofListing (root : Path) (listing : Listing) : SourceSet :=
  let places := filePlaces [] listing
  let (manifests, others) := places.partition fun place => nameAt root place = manifestName
  { manifests := inOrder (manifests.map placePath)
    sources := inOrder ((others.map placePath).filter Path.isScript) }

/-- The source files of a pass, all with the same wish for a source map. -/
def sourceFiles (s : SourceSet) (sourceMap : Bool) : List SourceFile :=
  s.sources.map fun path => ⟨path, sourceMap⟩

end SourceSet

namespace Script

/-- Finds the manifests and scripts below a root. -/
def scan (root outDir : Path) : Script (Except ScanError SourceSet) := do
  match ← list root fun place => !SourceSet.isPruned root outDir.normalize place with
  | .ok listing => return .ok (.ofListing root listing)
  | .error e => return .error ⟨root, e⟩

end Script

end PackageRouting
