/-
PackageRouting/CommandLine/Command.lean

The commands, as scripts over the disk.

Every command returns what it prints and its exit status: zero on success, one
for a failure, and two for arguments that are not well formed.
-/
import PackageRouting.CommandLine.Report
import PackageRouting.Disk.Replace

namespace PackageRouting.CommandLine

/-- How a run of the program ends. -/
structure Outcome where
  exit : Nat := 0
  output : String := ""
  /-- What is said beside the output. -/
  notes : String := ""
  deriving DecidableEq, Repr

/-- What a run of the program finds around it. -/
structure Surroundings where
  workingDirectory : Path
  /-- A number that tells runs of the program apart. -/
  process : Nat
  /-- The configuration file that the environment names. -/
  config : Option String

/-- The end of a command that cannot do its work. -/
def failure (json : Bool) (e : LoadError) : Outcome where
  exit := 1
  output := if json then errorText e.code e.message else ""
  notes := if json then "" else lines [e.code ++ ": " ++ e.message]

/-! ### Planning -/

/-- The pipeline of a project after discovery, with what discovery and reading the manifests
found. -/
def discovered (p : Project) : Pipeline Passthrough.Cache × DiscoveryReport :=
  let (pipeline, report, _) := (Pipeline.ofConfig p.config).discover p.manifests
  (pipeline, { report with failures := report.failures ++ p.failures })

/-- The partition of a project, with the discovery report. -/
def planned (p : Project) : DiscoveryReport × Partition :=
  let (pipeline, report) := discovered p
  (report, pipeline.plan p.files)

/-! ### Building -/

/-- Writes an output and its source map below a root. -/
def writeOutput (process : Nat) (root : Path) (file : OutputFile) :
    Script (Except SinkError Unit) :=
  let put (path : Path) (bytes : List UInt8) : Script (Except SinkError Unit) := do
    let place := root.join path
    return (← (Script.replace process place bytes).run).mapError (.disk place)
  do
    match ← put file.path file.contents.toBytes with
    | .error e => return .error e
    | .ok () =>
      match file.sourceMap with
      | some map => put ⟨file.path.text ++ ".map"⟩ map.toUTF8.toList
      | none => return .ok ()

/-- The configuration of a build. -/
def buildConfig (minify : Option Bool) (sourcemap : Bool) (c : Config) : Config :=
  { c with overrides :=
    { c.overrides with
      minify := minify <|> c.overrides.minify
      sourcemap := if sourcemap then some true else c.overrides.sourcemap } }

/-- Builds a project. -/
def build (process : Nat) (p : Project) : Script PassReport := do
  let pipeline : Pipeline Passthrough.Cache := .ofConfig p.config
  let inputs := ((pipeline.discover p.manifests).1.plan p.files).buckets.flatMap (·.inputs.toList)
  let sources ← Script.readSources (inputs.map p.root.join)
  let (_, report, _) ←
    pipeline.pass (Passthrough.bundle sources p.root) (writeOutput process p.root)
      p.manifests p.files
  let discovery := report.discovery
  return { report with discovery :=
    { discovery with failures := discovery.failures ++ p.failures } }

/-! ### Commands -/

/-- Shows the exports of manifests, by default of all below the root. -/
def showExports (json : Bool) (root : Path) (manifests : List Path) : Script Outcome := do
  let paths : Except ScanError (List Path) ←
    if manifests.isEmpty then do
      pure ((← Script.scan root ⟨""⟩).map (·.manifests))
    else pure (.ok manifests)
  match paths with
  | .error e => return failure json (.scan e)
  | .ok paths =>
    let reports ← paths.mapM fun path => do
      return ManifestReport.ofSource path (← Script.readManifest root path)
    return { output := exportsText json reports }

/-- Runs a command on a project, which is loaded first. -/
def withProject (i : Invocation) (root : Path) (pass : PassArguments)
    (command : Project → Script Outcome) : Script Outcome := do
  match ← Script.loadProject root i.config pass with
  | .error e => return failure i.json e
  | .ok project => command project

/-- Runs a command. -/
def execute (s : Surroundings) (i : Invocation) : Script Outcome := do
  let root := i.directory.getD s.workingDirectory
  match i.command with
  | .version => return { output := if i.json then versionJson else lines [versionText] }
  | .exports manifests => showExports i.json root manifests
  | .plan pass =>
    withProject i root pass fun project =>
      let (discovery, p) := planned project
      return { output := planText i.json discovery p }
  | .importMap pass baseUrl =>
    withProject i root pass fun project =>
      let (discovery, p) := planned project
      let m := ImportMap.ofPartition p baseUrl
      return {
        output := importMapText i.json discovery m
        notes := if i.json then "" else lines (m.scripts.toList.map ("nomodule: " ++ ·)) }
  | .build pass minify sourcemap => do
    let start ← Script.clock
    withProject i root pass fun project => do
      let project := { project with config := buildConfig minify sourcemap project.config }
      let report ← build s.process project
      let finish ← Script.clock
      return {
        exit := if report.isClean then 0 else 1
        output := buildText i.json project.config.outDir (finish - start) report }

/-- How the program is called. -/
def usageText : String := lines [
  "Route local package exports into per-package bundles",
  "",
  "Usage: localpkg [OPTIONS] [COMMAND]",
  "",
  "Commands: version, exports, plan, importmap, build, help"]

/-- Runs the program with its arguments. -/
def program (s : Surroundings) (arguments : List String) : Script Outcome :=
  match parse arguments s.config with
  | .ok i => execute s i
  | .error .usage => return { exit := 2, notes := usageText }
  | .error .help => return { output := usageText }
  | .error .version => return { output := lines [versionText] }

end PackageRouting.CommandLine
