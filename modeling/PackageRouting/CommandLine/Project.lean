/-
PackageRouting/CommandLine/Project.lean

Loading a project directory: its configuration, its manifests, and its sources.
-/
import PackageRouting.CommandLine.Arguments
import PackageRouting.Passthrough
import PackageRouting.Pipeline
import PackageRouting.Scan

namespace PackageRouting.CommandLine

/-- The file that holds the configuration unless another one is named. -/
def defaultConfig : Path := ⟨"localpkg.json"⟩

/-- Why a project cannot be loaded. -/
inductive LoadError where
  | config (reason : ConfigError)
  | scan (reason : ScanError)
  deriving DecidableEq, Repr

namespace LoadError

def code : LoadError → String
  | config reason => reason.code
  | scan _ => ScanError.code

def message : LoadError → String
  | config reason => reason.message
  | scan reason => reason.message

end LoadError

/-- The configuration with what the arguments say on top of it. -/
def PassArguments.apply (a : PassArguments) (c : Config) : Config :=
  { c with
    outDir := a.outDir.getD c.outDir
    includePrivate := a.includePrivate || c.includePrivate
    exclude := c.exclude ++ a.exclude
    exportsDefault := a.exportsDefault <|> c.exportsDefault }

/-- A project, as it is read for one pass. -/
structure Project where
  root : Path
  config : Config
  sources : SourceSet
  manifests : List ManifestSource
  /-- The manifests that could not be read. -/
  failures : List ManifestFailure

namespace Project

/-- The source files of a pass. -/
def files (p : Project) : List SourceFile :=
  p.sources.sourceFiles (p.config.overrides.sourcemap.getD false)

end Project

end PackageRouting.CommandLine

namespace PackageRouting.Script

open CommandLine

/-- Reads the text of a manifest below a root. -/
def readManifest (root path : Path) : Script (Except ManifestError ManifestSource) := do
  match ← read (root.join path) with
  | .ok bytes => return .ok ⟨path, Text.decodeLossy bytes⟩
  | .error e => return .error (.read path e)

/-- Reads the texts of manifests; those that cannot be read do not stop the others. -/
def readManifests (root : Path) : List Path → Script (List ManifestSource × List ManifestError)
  | [] => return ([], [])
  | path :: rest => do
    let source ← readManifest root path
    let (sources, errors) ← readManifests root rest
    match source with
    | .ok s => return (s :: sources, errors)
    | .error e => return (sources, e :: errors)

/-- The configuration file to load, if there is one. -/
def configFile? (root : Path) : Option Path → Script (Option Path)
  | some path => return some (root.join path)
  | none => do
    let file := root.join defaultConfig
    return if ← isFile file then some file else none

/-- The configuration of a project, before the arguments are applied. -/
def projectConfig (root : Path) (config : Option Path) : Script (Except ConfigError Config) := do
  match ← configFile? root config with
  | some path => loadConfig path
  | none => return .ok {}

/-- Loads a project. -/
def loadProject (root : Path) (config : Option Path) (pass : PassArguments) :
    Script (Except LoadError Project) := do
  match ← projectConfig root config with
  | .error e => return .error (.config e)
  | .ok c =>
    let c := pass.apply c
    match ← scan root c.outDir with
    | .error e => return .error (.scan e)
    | .ok sources =>
      let (manifests, errors) ← readManifests root sources.manifests
      return .ok ⟨root, c, sources, manifests, errors.map ManifestFailure.ofError⟩

end PackageRouting.Script
