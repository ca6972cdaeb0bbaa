/-
PackageRouting/Proofs/Containment.lean

Where the files of a pass go.

A file that is handed over is the copy of a bucket's input, and its name is a
single step behind the bucket's directory.  It stands below the directory of all
outputs exactly if the bucket's directory is within that.  This is so for the
shared bucket, and for a package whose name stays inside, wherever the outputs
go (`keepsInside_iff`); an absolute name, or one that climbs, can lead elsewhere
(`not_forall_pass_below`).

Main result: `pass_below`.
-/
import PackageRouting.Proofs.Copying
import PackageRouting.Proofs.Incremental
import PackageRouting.Proofs.Path.Below
import PackageRouting.Proofs.Writing

namespace PackageRouting

namespace Orchestrator

open Passthrough (Cache)

variable {τ : Type} {o : Orchestrator Cache} {sources : List SourceFile}
  {fallback : Option DefaultDelivery} {packages : List (String × Package)} {b : Bucket} {q : Path}

/-- The bucket has no package's name, or one that stays inside. -/
def KeepsInside (key : BucketKey) : Prop :=
  ∀ name, key = .package name → (⟨name⟩ : Path).StaysInside

/-- **The directory of a bucket that keeps inside is within that of all outputs.** -/
theorem isWithin_bucketDir (o : Orchestrator τ) {key : BucketKey} (h : KeepsInside key) :
    (o.bucketDir key).IsWithin o.outDir := by
  cases key with
  | shared => exact ⟨[], by simp, (List.append_nil _).symm⟩
  | package name => exact Path.isWithin_join (h name rfl) o.outDir

/-- **These are the only buckets whose directory is within that of all outputs wherever it is.** -/
theorem keepsInside_iff {key : BucketKey} :
    KeepsInside key ↔ ∀ o : Orchestrator τ, (o.bucketDir key).IsWithin o.outDir := by
  refine ⟨fun h o => isWithin_bucketDir o h, ?_⟩
  rintro h name rfl
  exact Path.staysInside_iff.2 fun dir => h { outDir := dir, overrides := {} }

/-- A copy stands below a directory iff the directory of its bucket is within it. -/
theorem isBelow_copyPath_iff {dir : Path}
    (hb : b ∈ (Partition.ofPackages fallback packages sources).buckets)
    (hq : q ∈ b.inputs.toList) :
    (o.copyPath (b, q)).IsBelow dir ↔ (o.bucketDir b.key).IsWithin dir :=
  Path.isBelow_join_iff ((Partition.inStep_buckets hb).components_outputName hq)

end Orchestrator

namespace Pipeline

open Orchestrator (recorded KeepsInside)
open Passthrough (Cache)

variable {σ : Type}

/-- **Every file that a pass hands over stands directly in the directory of a bucket.**  It is below
the directory of all outputs exactly if the bucket's directory is within that, as it is if the
package's name stays inside. -/
theorem pass_below (src : SourceFiles) (root : Path)
    (sink : OutputFile → StateM σ (Except SinkError Unit)) (p : Pipeline Cache)
    (manifests : List ManifestSource) (files : List SourceFile) (world : σ) :
    let part := (p.discover manifests).1.plan files
    let o := p.orchestrator
    let log := ((p.pass (Passthrough.bundle src root) (recorded sink) manifests files).run
      ([], world)).2.1
    ∀ x ∈ log, ∃ b ∈ part.buckets, ∃ q ∈ b.inputs.toList,
      x.1.path = (o.bucketDir b.key).join (b.outputName q) ∧
      (x.1.path.IsBelow o.outDir ↔ (o.bucketDir b.key).IsWithin o.outDir) ∧
      (KeepsInside b.key → x.1.path.IsBelow o.outDir) := by
  intro part o log x hx
  -- discovery leaves the orchestrator alone
  have hrun : log = ((o.run (Passthrough.bundle src root) (recorded sink) part).run
      ([], world)).2.1 := rfl
  rw [hrun] at hx
  obtain ⟨b, hb, q, hq, hpath⟩ :=
    Orchestrator.exists_copyPath_of_mem_files (Orchestrator.mem_files_of_mem_log hx)
  have hbelow : x.1.path.IsBelow o.outDir ↔ (o.bucketDir b.key).IsWithin o.outDir := by
    rw [hpath]
    exact Orchestrator.isBelow_copyPath_iff hb hq
  exact ⟨b, hb, q, hq, hpath, hbelow, fun h => hbelow.2 (o.isWithin_bucketDir h)⟩

/-- A manifest that gives its package a name. -/
def naming (name : String) : List ManifestSource :=
  [⟨"ui/package.json", "\x7b\"name\": \"" ++ name ++ "\", \"type\": \"module\"\x7d"⟩]

/-- What a first pass hands over for the only file of a package with a given name. -/
def handedFor (name : String) : List (OutputFile × Except SinkError Unit) :=
  (((ofConfig {}).pass (Passthrough.bundle (onlyFile "site/ui/index.js" ⟨1, 0⟩ "x") "site")
    (recorded fun _ => return .ok ()) (naming name) sampleSources :
      StateM (_ × Unit) _).run ([], ())).2.1

theorem exists_handedFor {name : String} {p : Path}
    (h : (handedFor name).map (·.1.path) = [p]) : ∃ x ∈ handedFor name, x.1.path = p :=
  List.mem_map.1 (h ▸ List.mem_singleton_self p)

/-- A name with a step up is no harm as long as it stays inside. -/
theorem pass_below_comingBack :
    ∃ x ∈ handedFor "kit/../ui", x.1.path = ⟨"_site/kit/../ui/index.js"⟩ ∧
      x.1.path.IsBelow ⟨"_site"⟩ := by
  obtain ⟨x, hx, hpath⟩ := exists_handedFor
    (show (handedFor "kit/../ui").map (·.1.path) = [⟨"_site/kit/../ui/index.js"⟩] by
      decide +kernel)
  obtain ⟨b, hb, -, -, -, -, hbelow⟩ := pass_below _ _ _ _ _ _ _ x hx
  refine ⟨x, hx, hpath, hbelow fun name hname => ?_⟩
  have hkeys : (((ofConfig {} : Pipeline Cache).discover (naming "kit/../ui")).1.plan
      sampleSources).buckets.map (·.key) = [.package "kit/../ui", .shared] := by
    decide +kernel
  have hmem := List.mem_map_of_mem (f := Bucket.key) hb
  rw [hkeys, hname] at hmem
  obtain rfl : name = "kit/../ui" := by simpa using hmem
  decide +kernel

/-- **An absolute name leads out of the directory of all outputs.** -/
theorem not_forall_pass_below :
    ¬ ∀ (c : Config) (src : SourceFiles) (root : Path) (manifests : List ManifestSource)
        (files : List SourceFile),
      ∀ x ∈ (((ofConfig c).pass (Passthrough.bundle src root) (recorded fun _ => return .ok ())
          manifests files : StateM (_ × Unit) _).run ([], ())).2.1,
        x.1.path.IsBelow c.outDir := by
  intro h
  obtain ⟨x, hx, hpath⟩ := exists_handedFor
    (show (handedFor "/ui").map (·.1.path) = [⟨"/ui/index.js"⟩] by decide +kernel)
  obtain ⟨names, -, -, hcomp⟩ := h _ _ _ _ _ x hx
  have hroot : x.1.path.normalize.components.head? = some .root := by
    rw [hpath]
    decide +kernel
  have hname : (⟨"_site"⟩ : Path).normalize.components = [.name "_site"] := by decide +kernel
  -- one path begins at the root, and the other does not
  rw [hcomp, show ({} : Config).outDir = ⟨"_site"⟩ from rfl, hname] at hroot
  cases hroot

end Pipeline

end PackageRouting
