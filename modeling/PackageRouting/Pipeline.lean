/-
PackageRouting/Pipeline.lean

Repeated passes over a project: discovery, the partition of the source files,
and bundling.
-/
import PackageRouting.Config
import PackageRouting.Discovery
import PackageRouting.Orchestrator

namespace PackageRouting

/-- What a pass did. -/
structure PassReport where
  discovery : DiscoveryReport := {}
  /-- The packages that were eligible. -/
  packages : Nat := 0
  bundles : BundleReport := {}
  deriving DecidableEq, Repr, Inhabited

namespace PassReport

/-- Whether nothing failed. -/
def isClean (r : PassReport) : Bool := r.discovery.failures.isEmpty && r.bundles.isClean

/-- The report as it is shown to other programs. -/
def toJson (r : PassReport) : Json :=
  .object [
    ("discovery", r.discovery.toJson),
    ("packages", Json.natural r.packages),
    ("bundles", r.bundles.toJson)]

end PassReport

/-- What is kept between passes. -/
structure Pipeline (τ : Type) where
  config : Config
  policy : Policy
  registry : Registry := {}
  orchestrator : Orchestrator τ

namespace Pipeline

variable {τ : Type}

/-- The pipeline of a configuration, before its first pass. -/
def ofConfig (c : Config) : Pipeline τ where
  config := c
  policy := .ofTexts c.includePrivate c.exclude
  orchestrator :=
    { outDir := c.outDir
      overrides := c.overrides
      incremental := c.incremental }

/-- Turns incremental mode on or off. -/
def setIncremental (p : Pipeline τ) (incremental : Bool) : Pipeline τ :=
  { p with
    config := { p.config with incremental := incremental }
    orchestrator := p.orchestrator.setIncremental incremental }

/-- Discovers the packages of some manifests. -/
def discover (p : Pipeline τ) (manifests : List ManifestSource) :
    Pipeline τ × DiscoveryReport × List Batch :=
  let (registry, report, batches) := p.registry.discover manifests
  ({ p with registry := registry }, report, batches)

/-- The partition of source files as the registry stands. -/
def plan (p : Pipeline τ) (files : List SourceFile) : Partition :=
  .ofRegistry p.registry files p.policy p.config.exportsDefault

/-- Ends the pass. -/
def beforeSave (p : Pipeline τ) : Pipeline τ :=
  { p with registry := p.registry.beforeSave }

/-- A whole pass. -/
def pass {m : Type → Type} [Monad m] (bundler : Bundler τ)
    (sink : OutputFile → m (Except SinkError Unit)) (p : Pipeline τ)
    (manifests : List ManifestSource) (files : List SourceFile) :
    m (Pipeline τ × PassReport × List Batch) := do
  let (p, discovery, batches) := p.discover manifests
  let plan := p.plan files
  let (orchestrator, bundles) ← p.orchestrator.run bundler sink plan
  return ({ p with orchestrator := orchestrator }.beforeSave,
    ⟨discovery, plan.packages.length, bundles⟩, batches)

end Pipeline

end PackageRouting
