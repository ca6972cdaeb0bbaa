/-
PackageRouting/Discovery.lean

Bringing the registry up to date with the manifests of a pass.

A manifest whose text has the fingerprint of the last time is left as it is.
Any other one is read and resolved anew; a broken one removes what was
registered in its place.  A manifest with malformed patterns is registered
without a fingerprint, so that the next pass resolves it, and reports the
patterns, again.  What is registered for places that are gone is dropped.
-/
import PackageRouting.Digest.Blake3
import PackageRouting.Registry

namespace PackageRouting

/-- The text of a manifest. -/
structure ManifestSource where
  path : Path
  text : String
  deriving DecidableEq, Repr

/-- A manifest or pattern that was left out. -/
structure ManifestFailure where
  path : Path
  code : String
  message : String
  deriving DecidableEq, Repr

namespace ManifestFailure

def ofError (e : ManifestError) : ManifestFailure := ⟨e.path, e.code, e.message⟩

def ofPattern (path : Path) (e : PatternShapeError) : ManifestFailure :=
  ⟨path, PatternShapeError.code, e.message⟩

def toJson (f : ManifestFailure) : Json :=
  .object [("path", .string f.path.text), ("code", .string f.code), ("message", .string f.message)]

end ManifestFailure

/-- What discovery did. -/
structure DiscoveryReport where
  /-- The manifests that were read and registered. -/
  resolved : Nat := 0
  /-- The manifests whose fingerprint was the one of the last pass. -/
  unchanged : Nat := 0
  /-- The places whose manifest is gone. -/
  pruned : List Path := []
  failures : List ManifestFailure := []
  deriving DecidableEq, Repr, Inhabited

/-- The report as it is shown to other programs. -/
def DiscoveryReport.toJson (r : DiscoveryReport) : Json :=
  .object [
    ("resolved", Json.natural r.resolved),
    ("unchanged", Json.natural r.unchanged),
    ("pruned", Json.strings (r.pruned.map (·.text))),
    ("failures", .array (r.failures.map ManifestFailure.toJson))]

namespace ManifestSource

/-- The fingerprint of the text. -/
def fingerprint (s : ManifestSource) : String := Digest.fingerprint s.text.toUTF8.toList

/-- What the text comes to at its place. -/
def resolve (s : ManifestSource) : Except ManifestError (Package × List PatternShapeError) :=
  (Manifest.parse s.path s.text).map fun m => Package.ofManifest m s.path

end ManifestSource

namespace Registry

/-- The registry after an operation; a refused one leaves it as it is. -/
def orSame (r : Registry) : Except RegistryError Registry → Registry
  | .ok r' => r'
  | .error _ => r

/-- Takes one manifest. -/
def take (r : Registry) (report : DiscoveryReport) (s : ManifestSource) :
    Registry × DiscoveryReport :=
  let fingerprint := s.fingerprint
  if r.fingerprint? s.path = some fingerprint then
    (r, { report with unchanged := report.unchanged + 1 })
  else
    match s.resolve with
    | .error e =>
      (r.orSame ((r.remove s.path).map (·.1)),
       { report with failures := report.failures ++ [.ofError e] })
    | .ok (p, errors) =>
      let stamp := if errors.isEmpty then some fingerprint else none
      let failures := report.failures ++ errors.map (.ofPattern s.path)
      match r.register s.path p stamp with
      | .ok r => (r, { report with resolved := report.resolved + 1, failures := failures })
      | .error _ => (r, { report with failures := failures })

/-- Takes manifests one after another. -/
def takeAll (r : Registry) (report : DiscoveryReport) :
    List ManifestSource → Registry × DiscoveryReport
  | [] => (r, report)
  | s :: rest =>
    let (r, report) := r.take report s
    r.takeAll report rest

/-- Drops the places whose manifest is gone. -/
def dropGone (r : Registry) (report : DiscoveryReport) (present : List Path) :
    Registry × DiscoveryReport :=
  match r.retain (.ofList present) with
  | .ok (r, pruned) => (r, { report with pruned := pruned })
  | .error _ => (r, report)

/-- Discovers the packages of some manifests. -/
def discover (r : Registry) (manifests : List ManifestSource) :
    Registry × DiscoveryReport × List Batch :=
  let (r, report) := r.beginDiscovery.takeAll {} manifests
  let (r, report) := r.dropGone report (manifests.map (·.path))
  let (r, batches) := r.completeDiscovery
  (r, report, batches)

end Registry

end PackageRouting
