/-
PackageRouting.lean

Routing of local packages' exports into bundles.
-/
import PackageRouting.SortedMap
import PackageRouting.Digest.Blake3
import PackageRouting.Path.Module
import PackageRouting.Path.Bytes
import PackageRouting.Path.OutputName
import PackageRouting.Pattern
import PackageRouting.Condition
import PackageRouting.Glob
import PackageRouting.Options
import PackageRouting.Json.Printer
import PackageRouting.Json.Record
import PackageRouting.ImportMap
import PackageRouting.Pipeline
import PackageRouting.Passthrough
import PackageRouting.Disk.Replace
import PackageRouting.Main
import PackageRouting.Text.Utf8
import PackageRouting.Proofs.Text.Utf8
import PackageRouting.Proofs.Path.Normal
import PackageRouting.Proofs.History
import PackageRouting.Proofs.Partition
import PackageRouting.Proofs.InStep
import PackageRouting.Proofs.Precedence
import PackageRouting.Proofs.ImportMap
import PackageRouting.Proofs.Discovery
import PackageRouting.Proofs.Registry
import PackageRouting.Proofs.Registry.Closed
import PackageRouting.Proofs.Registry.Delivery
import PackageRouting.Proofs.Pipeline
import PackageRouting.Proofs.Orchestrator
import PackageRouting.Proofs.Passthrough
import PackageRouting.Proofs.Copying
import PackageRouting.Proofs.Incremental
import PackageRouting.Proofs.Tokens
import PackageRouting.Proofs.Writing
import PackageRouting.Proofs.Isolation
import PackageRouting.Proofs.Path.Below
import PackageRouting.Proofs.Containment
import PackageRouting.Proofs.ImportMap.Exact
import PackageRouting.Proofs.Pattern
import PackageRouting.Proofs.Exports.Table
import PackageRouting.Proofs.Exports.Target
import PackageRouting.Proofs.Exports.Resolution
import PackageRouting.Proofs.Pattern.Capture
import PackageRouting.Proofs.Exports.WellFormed
import PackageRouting.Proofs.Pattern.Rooted
import PackageRouting.Proofs.Pattern.Delivery
import PackageRouting.Proofs.Wrapping
import PackageRouting.Proofs.Wrapping.Closer
import PackageRouting.Proofs.Exports.Reordering
import PackageRouting.Proofs.Exports.ModulePackage
import PackageRouting.Proofs.Growth
import PackageRouting.Proofs.Repetition
import PackageRouting.Proofs.Passthrough.Names
import PackageRouting.Proofs.Scan
import PackageRouting.Proofs.Path.Join
import PackageRouting.Proofs.Path.Module
import PackageRouting.Proofs.Path.NameSearch
import PackageRouting.Proofs.Disk.Kind
import PackageRouting.Proofs.Disk.Place
import PackageRouting.Proofs.Disk.Change
import PackageRouting.Proofs.Disk.Faults
import PackageRouting.Proofs.Disk.Replace
